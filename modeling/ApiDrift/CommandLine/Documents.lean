import ApiDrift.Api.Json
import ApiDrift.CommandLine.Command
import ApiDrift.CommandLine.Output
import ApiDrift.Text.Quoted
/-! The commands that read documents: one to describe it, and two to compare them. -/
namespace ApiDrift.CommandLine

structure Sources where
  file : String → Except Files.Fault Content
  input : Content

/-- The components of a path. Empty ones and those for the same directory do not count, but for
one at the beginning. -/
def components (path : String) : List String :=
  match Text.split '/' path with
  | [] => []
  | first :: rest =>
    (if first = "" then [] else [first]) ++ rest.filter fun part => part != "" && part != "."

def isInput (path : String) : Bool := path.toList.head? != some '/' && components path == ["-"]

def displayName? (path : String) : Option String :=
  if isInput path then none
  else match (components path).getLast? with
    | some "." => none
    | some ".." => none
    | name => name

def readDocument (sources : Sources) (path : String) : Except Report Content :=
  if isInput path then .ok sources.input
  else match sources.file path with
    | .ok content => .ok content
    | .error fault => .error ⟨"Failed to read " ++ Text.Quoted.encode path, [fault.message]⟩

/-- Reads a description. What is wrong with its structure is told before the failure. -/
def parseDocument (sources : Sources) (path : String) (name : Option String) :
    Except Output Introspection.Parsed :=
  match readDocument sources path with
  | .error report => .error (.failed report "")
  | .ok content =>
    let context := "Error parsing ‘" ++ path ++ "’"
    match content.parse { file := name } with
    | .ok parsed => .ok parsed
    | .error (.structural diagnostics) =>
      .error (.failed ⟨context, []⟩ (lines (diagnostics.map Diagnostic.render)))
    | .error e => .error (.failed ⟨context, [e.message]⟩ "")

def writeJson (pretty : Bool) (v : Json) : String := lines [if pretty then v.pretty else v.compact]

def runParse (sources : Sources) (pretty : Bool) (file : String) (json : Bool) : Output :=
  match parseDocument sources file (displayName? file) with
  | .error output => output
  | .ok parsed =>
    let stdout :=
      if json then
        writeJson pretty (.obj [("root", parsed.root.toJson),
          ("diagnostics", .arr (parsed.diagnostics.map Diagnostic.toJson))])
      else lines (parsed.diagnostics.map Diagnostic.render)
    .passed true stdout ""

def policyOf (l : WarningLists) : Except Report Policy := do
  let list (context text : String) : Except Report NameSet :=
    match WarningList.parse text with
    | .ok s => .ok s
    | .error e => .error ⟨context, [e.message]⟩
  let enabled ← list "Invalid warning list" l.enabled
  let disabled ← list "Invalid warning list" l.disabled
  match l.fatal with
  | none => pure { enabled, disabled }
  | some text => pure { enabled, disabled, fatal := ← list "Invalid fatal warning list" text }

def changeLine (file : String) (c : Change) : String :=
  file ++ ":" ++ toString c.location.line ++ ": " ++ c.render

def diffLine (oldName newName : String) (c : Change) : String :=
  changeLine (if c.kind = .removed then oldName else newName) c

def outcomeJson (o : Outcome) : Json :=
  .obj [("passed", .bool o.passed), ("changes", .arr (o.changes.map Change.toJson))]

/-- Compares two descriptions. The input stream can be read only once. -/
def runDiff (sources : Sources) (pretty : Bool) (o : DiffOptions) : Output :=
  let run : Except Output Output := do
    let policy ← match policyOf o.warnings with
      | .ok policy => .ok policy
      | .error report => .error (.failed report "")
    let oldName := o.displayName.or (displayName? o.old)
    let newName := o.displayName.or (displayName? o.new)
    let old ← parseDocument sources o.old oldName
    let left := if isInput o.old then { sources with input := .text "" } else sources
    let new ← parseDocument left o.new newName
    let outcome := check old.root new.root policy
    let stdout :=
      if o.json then writeJson pretty (outcomeJson outcome)
      else lines (outcome.changes.map (diffLine (oldName.getD "<stdin>") (newName.getD "<stdin>")))
    pure (.passed outcome.passed stdout "")
  match run with
  | .ok output => output
  | .error output => output

end ApiDrift.CommandLine
