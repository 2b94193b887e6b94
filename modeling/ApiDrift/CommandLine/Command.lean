import ApiDrift.CommandLine.Options
import ApiDrift.Git.Workspace
import ApiDrift.Policy
import ApiDrift.Snapshot.Config
/-! The commands that arguments can ask for. -/
namespace ApiDrift.CommandLine

/-- Lists of warnings as they are given. Without a list of fatal ones a policy has its own. -/
structure WarningLists where
  enabled : String := allEntry
  disabled : String := ""
  fatal : Option String := none
deriving DecidableEq, Repr

structure DiffOptions where
  old : String
  new : String
  warnings : WarningLists := {}
  displayName : Option String := none
  json : Bool := false
deriving DecidableEq, Repr

inductive SnapshotCommand where
  | install (files : List String)
  | dist (files : List String) (ignoreExisting : Bool)
  | check (oldRef newRef : Option String) (files : List String) (warnings : WarningLists)
  | list (files : List String)
deriving DecidableEq, Repr

structure GitOptions where
  silent : Bool := false
  location : Git.Location := {}
  config : Snapshot.Config := {}
deriving DecidableEq, Repr

inductive Command where
  | parse (file : String) (json : Bool)
  | diff (options : DiffOptions)
  | vcs (git : GitOptions) (command : SnapshotCommand)
deriving DecidableEq, Repr

structure Invocation where
  pretty : Bool
  command : Command
deriving DecidableEq, Repr

def globalSpecs : List OptionSpec := [{ name := "pretty" }, { name := "verbose" }]

def parseSpecs : List OptionSpec := { name := "json" } :: globalSpecs

def diffSpecs : List OptionSpec :=
  [{ name := "warnings", arity := .value }, { name := "no-warnings", arity := .value },
   { name := "fatal-warnings", arity := .optional }, { name := "file-display-name", arity := .value },
   { name := "json" }] ++ globalSpecs

def gitSpecs : List OptionSpec :=
  [{ name := "silent" }, { name := "no-push" },
   { name := "git-dir", arity := .value, mayBeEmpty := false },
   { name := "git-work-tree", arity := .value, mayBeEmpty := false },
   { name := "git-remote", arity := .value }, { name := "git-refs", arity := .value }] ++ globalSpecs

def distSpecs : List OptionSpec := { name := "ignore-existing" } :: globalSpecs

def checkSpecs : List OptionSpec :=
  [{ name := "diff-warnings", arity := .value }, { name := "diff-no-warnings", arity := .value },
   { name := "fatal-warnings", arity := .optional },
   { name := "file", arity := .value, repeats := true }] ++ globalSpecs

def arguments? (specs : List OptionSpec) (args : List String) : Option Scanned :=
  (scan? specs args).filter fun s => areValid specs s.options

def subcommand? (specs : List OptionSpec) (args : List String) :
    Option (List Given × String × List String) :=
  (scanTo? specs args).filter fun s => areValid specs s.1

/-- The lists that options name. The option for fatal warnings alone means all of them. -/
def warningLists (given : List Given) (enabled disabled : String) : WarningLists where
  enabled := (valueOf? given enabled).getD allEntry
  disabled := (valueOf? given disabled).getD ""
  fatal :=
    if isGiven given "fatal-warnings" then some ((valueOf? given "fatal-warnings").getD allEntry)
    else none

def parseCommand? (args : List String) : Option (List Given × Command) := do
  let s ← arguments? parseSpecs args
  match s.operands with
  | [file] => if file = "" then none else some (s.options, .parse file (isGiven s.options "json"))
  | _ => none

def diffCommand? (args : List String) : Option (List Given × Command) := do
  let s ← arguments? diffSpecs args
  match s.operands with
  | [old, new] =>
    if old = "" ∨ new = "" then none
    else some (s.options, .diff
      { old, new, warnings := warningLists s.options "warnings" "no-warnings",
        displayName := valueOf? s.options "file-display-name", json := isGiven s.options "json" })
  | _ => none

def snapshotCommand? (name : String) (args : List String) : Option (List Given × SnapshotCommand) :=
  match name with
  | "install" => do
    let s ← arguments? globalSpecs args
    if s.operands.isEmpty then none else some (s.options, .install s.operands)
  | "dist" => do
    let s ← arguments? distSpecs args
    if s.operands.isEmpty then none
    else some (s.options, .dist s.operands (isGiven s.options "ignore-existing"))
  | "check" => do
    let s ← arguments? checkSpecs args
    if 2 < s.operands.length then none
    else some (s.options, .check s.operands[0]? s.operands[1]? (valuesOf s.options "file")
      (warningLists s.options "diff-warnings" "diff-no-warnings"))
  | "list" => do
    let s ← arguments? globalSpecs args
    some (s.options, .list s.operands)
  | _ => none

def gitOptions (given : List Given) : GitOptions where
  silent := isGiven given "silent"
  location := ⟨valueOf? given "git-dir", valueOf? given "git-work-tree"⟩
  config :=
    { area := (valueOf? given "git-refs").getD ({} : Snapshot.Config).area
      remote := (valueOf? given "git-remote").getD ({} : Snapshot.Config).remote
      push := !isGiven given "no-push" }

def vcsCommand? (args : List String) : Option (List Given × Command) := do
  let (git, name, rest) ← subcommand? gitSpecs args
  let (given, command) ← snapshotCommand? name rest
  some (git ++ given, .vcs (gitOptions git) command)

def Invocation.ofArguments? (args : List String) : Option Invocation := do
  let (before, name, rest) ← subcommand? globalSpecs args
  let (given, command) ← match name with
    | "parse" => parseCommand? rest
    | "diff" => diffCommand? rest
    | "vcs" => vcsCommand? rest
    | _ => none
  some ⟨isGiven (before ++ given) "pretty", command⟩

end ApiDrift.CommandLine
