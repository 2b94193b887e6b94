import ApiDrift.Signature.Basic
/-! Signatures read from text. The reader descends into containers up to a limit, and
each step hands back a text that is not longer than the one it was given. -/
namespace ApiDrift

inductive SignatureError where
  | unknownType (c : Char)
  | reservedType (c : Char)
  | incompleteArray
  | incompleteStruct
  | incompleteDict
  | invalidDict
  | unbalancedClose (c : Char)
  | tooDeep (limit : Nat)
deriving DecidableEq, Repr

def SignatureError.message : SignatureError → String
  | unknownType c => s!"Unknown type ‘{c}’."
  | reservedType c => s!"Reserved type ‘{c}’ must not be used in signatures on D-Bus."
  | incompleteArray => "Incomplete array declaration."
  | incompleteStruct => "Incomplete structure declaration."
  | incompleteDict => "Incomplete dictionary declaration."
  | invalidDict => "Invalid dictionary declaration."
  | unbalancedClose c => s!"Unbalanced ‘{c}’ without a matching opening delimiter."
  | tooDeep limit => s!"Type nesting exceeds the limit of {limit} containers."

def reservedCodes : List Char := ['r', 'e', 'm', '*', '?', '@', '&', '^']

namespace Signature

def defaultMaxDepth : Nat := 64

/-- What a reader leaves of a text: no more than there was. -/
abbrev Rest (s : List Char) := { r : List Char // r.length ≤ s.length }

def entryOf? : List ValueType → Option ValueType
  | [k, v] => some (.dictEntry k v)
  | _ => none

mutual

/-- The complete type that begins with `c`, inside `depth` containers, read on from `s`. -/
def readType (limit depth : Nat) (c : Char) (s : List Char) :
    Except SignatureError (ValueType × Rest s) :=
  match BasicType.ofCode? c with
  | some b => .ok (.basic b, ⟨s, Nat.le_refl _⟩)
  | none =>
    if c = 'a' ∨ c = '(' ∨ c = '\x7b' then
      if limit ≤ depth then .error (.tooDeep limit)
      else if c = 'a' then
        match s with
        | [] => .error .incompleteArray
        | e :: s' =>
          match readType limit (depth + 1) e s' with
          | .error err => .error err
          | .ok (t, r) => .ok (.array t, ⟨r.1, Nat.le_succ_of_le r.2⟩)
      else if c = '(' then
        match readMembers limit (depth + 1) ')' .incompleteStruct [] s s (Nat.le_refl _) with
        | .error err => .error err
        | .ok (ts, r) => .ok (.struct ts, r)
      else
        match readMembers limit (depth + 1) '\x7d' .incompleteDict [] s s (Nat.le_refl _) with
        | .error err => .error err
        | .ok (ts, r) =>
          match entryOf? ts with
          | some t => .ok (t, r)
          | none => .error .invalidDict
    else if c = ')' ∨ c = '\x7d' then .error (.unbalancedClose c)
    else if c ∈ reservedCodes then .error (.reservedType c)
    else .error (.unknownType c)
termination_by (s.length, 1)

/-- Members up to the closing character; `read` holds those already read, the last first.
What is left is measured by the text `whole` that the container's members began with. -/
def readMembers (limit depth : Nat) (close : Char) (unclosed : SignatureError)
    (read : List ValueType) (s whole : List Char) (hw : s.length ≤ whole.length) :
    Except SignatureError (List ValueType × Rest whole) :=
  match s with
  | [] => .error unclosed
  | c :: s' =>
    have hs : s'.length ≤ whole.length := Nat.le_of_succ_le hw
    if c = close then .ok (read.reverse, ⟨s', hs⟩)
    else
      match readType limit depth c s' with
      | .error err => .error err
      | .ok (t, r) =>
        have : r.1.length ≤ s'.length := r.2
        readMembers limit depth close unclosed (t :: read) r.1 whole (Nat.le_trans r.2 hs)
termination_by (s.length, 0)

end

def readAll (limit : Nat) (read : List ValueType) (s : List Char) :
    Except SignatureError (List ValueType) :=
  match s with
  | [] => .ok read.reverse
  | c :: s' =>
    match readType limit 0 c s' with
    | .error err => .error err
    | .ok (t, r) =>
      readAll limit (t :: read) r.1
termination_by s.length
decreasing_by exact Nat.lt_succ_of_le r.2

def parseWithin (limit : Nat) (s : String) : Except SignatureError Signature :=
  (readAll limit [] s.toList).map Signature.mk

def parse (s : String) : Except SignatureError Signature := parseWithin defaultMaxDepth s

end Signature

end ApiDrift
