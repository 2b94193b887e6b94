import ApiDrift.Xml.Scanner
/-! References to characters and entities, and the values of attributes in which they are
expanded. How deep entities may refer to entities, and how often, is limited. -/
namespace ApiDrift.Xml

inductive Reference where
  | char (c : Char)
  | entity (name : String)
deriving DecidableEq, Repr

def predefined? : String → Option Char
  | "quot" => some '"'
  | "amp" => some '&'
  | "apos" => some '\''
  | "lt" => some '<'
  | "gt" => some '>'
  | _ => none

def isHexDigit (c : Char) : Bool :=
  c.isDigit || ('a' ≤ c && c ≤ 'f') || ('A' ≤ c && c ≤ 'F')

def digitValue (c : Char) : Nat :=
  if c.isDigit then c.toNat - 48 else if 'a' ≤ c then c.toNat - 87 else c.toNat - 55

/-- The value of digits in a base, unless there are none or it takes more than 32 bits. -/
def number? (base : Nat) (digits : List Char) : Option Nat :=
  let n := digits.foldl (fun n c => n * base + digitValue c) 0
  if digits.isEmpty || n ≥ 0x100000000 then none else some n

/-- The character with this code; codes that are no character stand for U+FFFD. -/
def charOfCode (n : Nat) : Char :=
  if n.isValidChar then Char.ofNat n else '\ufffd'

namespace Reader

variable {whole : List Char}

/-- A reference from after its ampersand. Callers report one fault for all that can be wrong. -/
def reference : Reader whole Reference := do
  let read ← if ← startsWith "#" then numeric else named
  char ';'
  pure read
where
  numeric : Reader whole Reference := do
    let hex ← startsWith "#x"
    skip (if hex then 2 else 1)
    let digits ← takeWhile (if hex then isHexDigit else Char.isDigit)
    match number? (if hex then 16 else 10) digits with
    | none => failHere .malformedReference
    | some n =>
      if isXmlChar (charOfCode n) then pure (.char (charOfCode n)) else failHere .malformedReference
  named : Reader whole Reference := do
    let n ← name
    pure (((predefined? n).map Reference.char).getD (.entity n))

end Reader

def readReference (start : Location) (tail : List Char) : Except Fault (Reference × Left tail) :=
  match Reader.runAfter start '&' tail Reader.reference with
  | .ok r => .ok r
  | .error _ => .error (.at start .malformedReference)

/-- How deep the values of entities may refer to further entities. -/
def maxEntityDepth : Nat := 10

/-- How many references the expansion of one reference may meet. -/
def maxEntityReferences : Nat := 255

abbrev Entities := List (String × Span)

/-- The value of an entity: the first declaration of a name counts. -/
def Entities.value? (entities : Entities) (name : String) : Option Span := entities.lookup name

/-- Counts one more reference at `place`, where `room` levels of entities are left. References
outside of entities are free. -/
def countReference (room used : Nat) (place : Location) : Except Fault Nat :=
  if room = maxEntityDepth then .ok used
  else if used = maxEntityReferences then .error (.at place .entityLoop)
  else .ok (used + 1)

def blankLineEnd (c : Char) : Char :=
  if c == '\n' || c == '\r' || c == '\t' then ' ' else c

abbrev Expansion := Nat → Span → Except Fault (List Char × Nat)

/-- An attribute's value with its references expanded, and the references used. `read` holds the
characters so far, the last first. -/
def expandValue (entities : Entities) (room : Nat) (expand : Location → Expansion)
    (read : List Char) (used : Nat) (s : Span) : Except Fault (List Char × Nat) :=
  match h : s.chars with
  | [] => .ok (read, used)
  | c :: tail =>
    if c = '&' then
      match readReference s.location tail with
      | .error e => .error e
      | .ok (.char d, rest) =>
        have : rest.1.chars.length < s.chars.length := by
          rw [h]
          exact Nat.lt_succ_of_le rest.2
        if room = maxEntityDepth then expandValue entities room expand (d :: read) used rest.1
        else if d = '<' then .error (.at s.location .bareLessThan)
        else expandValue entities room expand (blankLineEnd d :: read) used rest.1
      | .ok (.entity name, rest) =>
        have : rest.1.chars.length < s.chars.length := by
          rw [h]
          exact Nat.lt_succ_of_le rest.2
        match entities.value? name with
        | none => .error (.at s.location (.unknownEntity name))
        | some value =>
          match countReference room used rest.1.location with
          | .error e => .error e
          | .ok used =>
            match expand rest.1.location used value with
            | .error e => .error e
            | .ok (text, used) =>
              let used := if room = maxEntityDepth then 0 else used
              expandValue entities room expand (text ++ read) used rest.1
    else
      have : tail.length < s.chars.length := by simp [h]
      let dropped := c == '\r' && tail.head? == some '\n'
      expandValue entities room expand (if dropped then read else blankLineEnd c :: read) used
        ⟨tail, s.location.next c⟩
termination_by s.chars.length

/-- The value of an attribute with `room` levels of entities left, reversed, with the references
used after it. -/
def valueWithin (entities : Entities) : Nat → Nat → Span → Except Fault (List Char × Nat)
  | 0, used, s =>
    expandValue entities 0 (fun place _ _ => .error (.at place .entityLoop)) [] used s
  | room + 1, used, s =>
    expandValue entities (room + 1) (fun _ => valueWithin entities room) [] used s

end ApiDrift.Xml
