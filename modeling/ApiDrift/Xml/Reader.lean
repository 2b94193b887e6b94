import ApiDrift.Xml.Char
import ApiDrift.Xml.Fault
/-! Reading a text from the front. A reader hands back what it read and what is left, and
what is left is never more than the text that the reading began with. -/
namespace ApiDrift.Xml

structure Span where
  chars : List Char
  location : Location := .start
deriving DecidableEq, Repr

def Span.drop (s : Span) (n : Nat) : Span :=
  ⟨s.chars.drop n, s.location.after (s.chars.take n)⟩

/-- What may be left of `whole`. -/
abbrev Left (whole : List Char) := { s : Span // s.chars.length ≤ whole.length }

/-- A step of reading that takes characters off the front or finds a fault. -/
def Reader (whole : List Char) (α : Type) := Left whole → Except Fault (α × Left whole)

theorem length_dropWhile_le (p : Char → Bool) (l : List Char) :
    (l.dropWhile p).length ≤ l.length := by
  induction l with
  | nil => simp
  | cons c l ih =>
    simp only [List.dropWhile_cons]
    split
    · exact Nat.le_succ_of_le ih
    · exact Nat.le_refl _

/-- The text before the first occurrence of `stop`, and the rest from there; all of the text
when there is none. `read` holds what was passed, the last first. -/
def breakOn (stop : List Char) (read : List Char) : List Char → List Char × List Char
  | [] => (read.reverse, [])
  | c :: r =>
    if stop.isPrefixOf (c :: r) then (read.reverse, c :: r) else breakOn stop (c :: read) r

theorem length_breakOn_le (stop read l : List Char) :
    (breakOn stop read l).2.length ≤ l.length := by
  induction l generalizing read with
  | nil => simp [breakOn]
  | cons c l ih =>
    unfold breakOn
    split
    · exact Nat.le_refl _
    · exact Nat.le_succ_of_le (ih _)

namespace Reader

variable {whole : List Char} {α : Type}

instance : Monad (Reader whole) where
  pure a := fun s => .ok (a, s)
  bind x f := fun s =>
    match x s with
    | .error e => .error e
    | .ok (a, s') => f a s'

def fail (fault : Fault) : Reader whole α := fun _ => .error fault

def here : Reader whole Location := fun s => .ok (s.1.location, s)

def failHere (cause : Cause) : Reader whole α := fun s => .error (.at s.1.location cause)

def left : Reader whole (List Char) := fun s => .ok (s.1.chars, s)

def peek? : Reader whole (Option Char) := fun s => .ok (s.1.chars.head?, s)

def startsWith (text : String) : Reader whole Bool :=
  fun s => .ok (text.toList.isPrefixOf s.1.chars, s)

def skip (n : Nat) : Reader whole Unit := fun s =>
  .ok ((), ⟨s.1.drop n, by
    have h := s.2
    simp only [Span.drop, List.length_drop]
    omega⟩)

def takeWhile (p : Char → Bool) : Reader whole (List Char) := fun s =>
  let read := s.1.chars.takeWhile p
  .ok (read, ⟨⟨s.1.chars.dropWhile p, s.1.location.after read⟩,
    Nat.le_trans (length_dropWhile_le p _) s.2⟩)

def takeBefore (stop : String) : Reader whole (List Char) := fun s =>
  let parts := breakOn stop.toList [] s.1.chars
  .ok (parts.1, ⟨⟨parts.2, s.1.location.after parts.1⟩,
    Nat.le_trans (length_breakOn_le _ _ _) s.2⟩)

/-- Refuses text read from `from` that holds a character no document may hold. -/
def checkChars (start : Location) (text : List Char) : Reader whole Unit :=
  match text.dropWhile isXmlChar with
  | [] => pure ()
  | c :: _ => fail (.at (start.after (text.takeWhile isXmlChar)) (.nonXmlChar c))

def takeChars (p : Char → Bool) : Reader whole (List Char) := do
  let start ← here
  let text ← takeWhile p
  checkChars start text
  pure text

def takeCharsBefore (stop : String) : Reader whole (List Char) := do
  let start ← here
  let text ← takeBefore stop
  checkChars start text
  pure text

def char (c : Char) : Reader whole Unit := do
  match ← peek? with
  | none => fail .unexpectedEnd
  | some d => if d = c then skip 1 else failHere (.expectedChar c d)

def text (t : String) : Reader whole Unit := do
  if ← startsWith t then skip t.length else failHere (.expectedText t)

def spaces : Reader whole Unit := do
  let _ ← takeWhile isSpace
  pure ()

def someSpace : Reader whole Unit := do
  match ← peek? with
  | none => fail .unexpectedEnd
  | some c => if isSpace c then spaces else failHere (.expectedClass "a whitespace" c)

def openQuote : Reader whole Char := do
  match ← peek? with
  | none => fail .unexpectedEnd
  | some c =>
    if c = '\'' ∨ c = '"' then do
      skip 1
      pure c
    else failHere (.expectedClass "a quote" c)

def name : Reader whole String := do
  match ← peek? with
  | none => failHere .invalidName
  | some c =>
    if isNameStart c then do
      let read ← takeWhile isNameChar
      pure (String.ofList read)
    else failHere .invalidName

end Reader

structure QName where
  space : String := ""
  base : String
deriving DecidableEq, Repr

def QName.render (q : QName) : String :=
  if q.space = "" then q.base else q.space ++ ":" ++ q.base

/-- The name that a run of name characters spells, if it spells one: at most one colon, and
both parts begin like names. A colon at the front leaves the prefix empty. -/
def QName.ofChars? (l : List Char) : Option QName :=
  let first := l.takeWhile (· != ':')
  match l.dropWhile (· != ':') with
  | [] => if first.head?.any isNameStart then some ⟨"", String.ofList first⟩ else none
  | _ :: second =>
    if !second.contains ':' && first.head?.all isNameStart && second.head?.any isNameStart then
      some ⟨String.ofList first, String.ofList second⟩
    else none

namespace Reader

variable {whole : List Char}

def qnameFrom (start : Location) (c : Char) : Reader whole QName := do
  if isNameChar c then
    let rest ← takeWhile isNameChar
    match QName.ofChars? (c :: rest) with
    | some q => pure q
    | none => fail (.at start .invalidName)
  else fail (.at start .invalidName)

def qname : Reader whole QName := do
  let start ← here
  match ← peek? with
  | none => fail (.at start .invalidName)
  | some c => do
    skip 1
    qnameFrom start c

def runAfter {α : Type} (start : Location) (c : Char) (tail : List Char) (r : Reader tail α) :
    Except Fault (α × Left tail) :=
  r ⟨⟨tail, start.next c⟩, Nat.le_refl _⟩

end Reader

end ApiDrift.Xml
