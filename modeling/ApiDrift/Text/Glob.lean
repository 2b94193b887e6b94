import ApiDrift.Text.CharClass
/-! Wildcards: `?` stands for one octet, `*` for any number of them, brackets for one of a class,
and after a backslash the next character stands for itself. Slashes are like other characters. -/
namespace ApiDrift.Text

inductive GlobPiece where
  | one (test : CharClass)
  | any

abbrev Glob := List GlobPiece

namespace Glob

def className? (l : List Char) : Option (String × List Char) :=
  match l.span (· != ']') with
  | (name, ']' :: rest) =>
    if name.getLast? = some ':' then some (String.ofList name.dropLast, rest) else none
  | _ => none

/-- One member of a bracket expression: what it stands for, the character from which a range may
go on, and the rest. -/
def member? (before : Option Char) : List Char → Option (CharClass × Option Char × List Char)
  | [] => none
  | ['\\'] => none
  | '\\' :: c :: rest => some ((· == c), some c, rest)
  | '[' :: ':' :: l =>
    match className? l with
    | some (name, rest) => (CharClass.ofName? name).map fun test => (test, none, rest)
    | none => if ']' ∈ l then some ((· == '['), some '[', ':' :: l) else none
  | c :: rest =>
    let single : CharClass × Option Char × List Char := ((· == c), some c, rest)
    match before, c, rest with
    | some _, '-', [] => some single
    | some _, '-', ']' :: _ => some single
    | some _, '-', ['\\'] => none
    | some first, '-', '\\' :: last :: rest =>
      some (CharClass.between first.toNat last.toNat, none, rest)
    | some first, '-', last :: rest => some (CharClass.between first.toNat last.toNat, none, rest)
    | _, _, _ => some single

/-- The members of a bracket expression up to its end, at most so many of them. A bracket that
closes is a member if it comes first. -/
def members? : Nat → Option Char → List Char → Option (CharClass × List Char)
  | 0, _, _ => none
  | n + 1, before, l => do
    let (test, before, rest) ← member? before l
    match rest with
    | ']' :: rest => pure (test, rest)
    | rest => do
      let (others, rest) ← members? n before rest
      pure (fun c => test c || others c, rest)

def bracket? (l : List Char) : Option (CharClass × List Char) :=
  match l with
  | '!' :: l => (members? l.length none l).map fun (test, rest) => (fun c => !test c, rest)
  | '^' :: l => (members? l.length none l).map fun (test, rest) => (fun c => !test c, rest)
  | l => members? l.length none l

def pieces? : Nat → List Char → Option Glob
  | _, [] => some []
  | 0, _ => none
  | n + 1, '*' :: l => (pieces? n l).map (GlobPiece.any :: ·)
  | n + 1, '?' :: l => (pieces? n l).map (GlobPiece.one (fun _ => true) :: ·)
  | n + 1, '[' :: l => do
    let (test, rest) ← bracket? l
    (pieces? n rest).map (GlobPiece.one test :: ·)
  | _, ['\\'] => none
  | n + 1, '\\' :: c :: l => (pieces? n l).map (GlobPiece.one (· == c) :: ·)
  | n + 1, c :: l => (pieces? n l).map (GlobPiece.one (· == c) :: ·)

/-- A pattern whose brackets close and that does not end in a backslash. -/
def ofText? (s : String) : Option Glob :=
  let l := octets s
  pieces? l.length l

def fits : Glob → List Char → Bool
  | [], l => l.isEmpty
  | .one test :: pieces, c :: l => test c && fits pieces l
  | .one _ :: _, [] => false
  | .any :: pieces, [] => fits pieces []
  | .any :: pieces, c :: l => fits pieces (c :: l) || fits (.any :: pieces) l
termination_by pieces l => pieces.length + l.length
decreasing_by all_goals simp_wf; all_goals omega

/-- Whether a text is one that a pattern stands for. A pattern that is none stands for nothing. -/
def matchesText (pattern s : String) : Bool :=
  match ofText? pattern with
  | none => false
  | some pieces => fits pieces (octets s)

def isSpecial (c : Char) : Bool := c ∈ ['?', '*', '[', '\\']

end Glob

end ApiDrift.Text
