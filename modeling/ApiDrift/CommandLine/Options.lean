import ApiDrift.Text.Affix
/-! Command line arguments told apart: options with their values, and operands. -/
namespace ApiDrift.CommandLine

inductive Arity where
  | flag
  /-- After an equals sign, or as the next argument. -/
  | value
  /-- After an equals sign, or none. -/
  | optional
deriving DecidableEq, Repr

structure OptionSpec where
  name : String
  arity : Arity := .flag
  repeats : Bool := false
  mayBeEmpty : Bool := true
deriving DecidableEq, Repr

structure Given where
  name : String
  value : Option String := none
deriving DecidableEq, Repr

inductive Token where
  | operand
  | terminator
  | options (given : List Given)
  | pending (name : String)
deriving DecidableEq, Repr

/-- Whether an argument cannot be a value. A single hyphen can. -/
def isOptionLike (token : String) : Bool := token != "-" && token.toList.head? == some '-'

def longOption? (specs : List OptionSpec) (name : String) (value : Option String) : Option Token :=
  match specs.find? (·.name == name) with
  | none => none
  | some spec =>
    match spec.arity, value with
    | .flag, none => some (.options [⟨name, none⟩])
    | .flag, some _ => none
    | .value, none => some (.pending name)
    | _, value => some (.options [⟨name, value⟩])

/-- The one option with a short form is written `-v`, and may be written several times in one. -/
def shortOptions? (letters : List Char) : Option Token :=
  if letters.all (· == 'v') then some (.options (letters.map fun _ => ⟨"verbose", none⟩)) else none

def classify? (specs : List OptionSpec) (token : String) : Option Token :=
  match token.toList with
  | '-' :: '-' :: [] => some .terminator
  | '-' :: '-' :: long =>
    match long.span (· != '=') with
    | (name, []) => longOption? specs (String.ofList name) none
    | (name, _ :: value) => longOption? specs (String.ofList name) (some (String.ofList value))
  | '-' :: c :: letters => shortOptions? (c :: letters)
  | _ => some .operand

structure Scanned where
  options : List Given := []
  operands : List String := []
deriving DecidableEq, Repr

def scan? (specs : List OptionSpec) : List String → Option Scanned
  | [] => some {}
  | token :: rest =>
    match classify? specs token with
    | none => none
    | some .operand => (scan? specs rest).map fun s => { s with operands := token :: s.operands }
    | some .terminator => some { operands := rest }
    | some (.options given) => (scan? specs rest).map fun s => { s with options := given ++ s.options }
    | some (.pending name) =>
      match rest with
      | [] => none
      | value :: rest =>
        if isOptionLike value then none
        else (scan? specs rest).map fun s => { s with options := ⟨name, some value⟩ :: s.options }

def scanTo? (specs : List OptionSpec) : List String → Option (List Given × String × List String)
  | [] => none
  | token :: rest =>
    match classify? specs token with
    | none => none
    | some .operand => some ([], token, rest)
    | some .terminator => none
    | some (.options given) => (scanTo? specs rest).map fun (l, name, rest) => (given ++ l, name, rest)
    | some (.pending name) =>
      match rest with
      | [] => none
      | value :: rest =>
        if isOptionLike value then none
        else (scanTo? specs rest).map fun (l, command, rest) =>
          (⟨name, some value⟩ :: l, command, rest)

/-- Whether options are given at most once, apart from those that may be repeated, and no value is
empty that must not be. -/
def areValid (specs : List OptionSpec) (given : List Given) : Bool :=
  specs.all fun spec =>
    let values := given.filter (·.name == spec.name)
    (spec.repeats || values.length ≤ 1)
      && (spec.mayBeEmpty || values.all fun g => g.value != some "")

def isGiven (given : List Given) (name : String) : Bool := given.any (·.name == name)

def valueOf? (given : List Given) (name : String) : Option String :=
  (given.find? (·.name == name)).bind Given.value

def valuesOf (given : List Given) (name : String) : List String :=
  (given.filter (·.name == name)).filterMap Given.value

end ApiDrift.CommandLine
