import ApiDrift.Text.Split
/-! Names of refs: components with slashes between them. -/
namespace ApiDrift.Git.RefName

def isForbidden (c : Char) : Bool :=
  c.toNat ≤ 0x20 || c ∈ ['~', '^', ':', '\\', '?', '[', '*']

def hasForbiddenPair : List Char → Bool
  | '.' :: '.' :: _ => true
  | '@' :: '\x7b' :: _ => true
  | _ :: rest => hasForbiddenPair rest
  | [] => false

def isComponent (l : List Char) : Bool :=
  l.head? != some '.' && !l.any isForbidden && !hasForbiddenPair l && !".lock".toList.isSuffixOf l

def isCapitals (l : List Char) : Bool :=
  !l.isEmpty && l.all (fun c => c.isUpper || c == '_') && l.head? != some '_' &&
    l.getLast? != some '_'

/-- Names of one component are in capitals, and only they begin with such a component. -/
def beginsWell : List (List Char) → Bool
  | [] => false
  | [only] => isCapitals only
  | first :: _ => !isCapitals first

/-- The components of a name, if it is one. Empty components do not count, except as the first
one or the last one. -/
def components? (name : String) : Option (List String) :=
  let parts := Text.splitChars '/' name.toList
  let full := parts.filter fun p => !p.isEmpty
  let last := parts.getLast?.getD []
  if parts.head? != some [] && !last.isEmpty && last.getLast? != some '.' && parts.all isComponent
    && beginsWell full then
    some (full.map String.ofList)
  else none

def isValid (name : String) : Bool :=
  (components? name).any fun l => String.intercalate "/" l == name

def maxBytes : Nat := 1023

def maxComponentBytes : Nat := 255

inductive Fault where
  | malformed (name : String)
  | tooLong (name : String)
deriving DecidableEq, Repr

def Fault.message : Fault → String
  | malformed name =>
    "the given reference name '" ++ name
      ++ "' is not valid; class=Reference (4); code=InvalidSpec (-12)"
  | tooLong name =>
    "the provided buffer is too short to hold the normalization of '" ++ name
      ++ "'; class=Reference (4); code=BufSize (-6)"

def normalize (name : String) : Except Fault String :=
  match components? name with
  | none => .error (.malformed name)
  | some l =>
    let full := String.intercalate "/" l
    if maxBytes < full.utf8ByteSize then .error (.tooLong name) else .ok full

def isAbove (name other : String) : Bool := (name ++ "/").toList.isPrefixOf other.toList

end ApiDrift.Git.RefName
