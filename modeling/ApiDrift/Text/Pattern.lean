import ApiDrift.Text.CharClass
/-! Regular expressions over octets, and where in a text they are found. Backreferences, looking
around and options within an expression are not among them. -/
namespace ApiDrift.Text

inductive Edge where
  | first
  /-- The end, or before a line feed at the end. -/
  | last
  | veryLast
  | word (inverted : Bool)
deriving DecidableEq, Repr

inductive Pattern where
  | empty
  | one (test : CharClass)
  | edge (e : Edge)
  | seq (p q : Pattern)
  | either (p q : Pattern)
  | times (p : Pattern) (least : Nat) (most : Option Nat)

def wordAt (s : Array Char) (i : Nat) : Bool := (s[i]?).any CharClass.word

def Edge.holds (s : Array Char) (i : Nat) : Edge → Bool
  | first => i == 0
  | last => i == s.size || (i + 1 == s.size && s[i]? == some '\n')
  | veryLast => i == s.size
  | word inverted => (wordAt s i != (i != 0 && wordAt s (i - 1))) != inverted

namespace Pattern

def repeatStep (step : List Nat → List Nat) : Nat → List Nat → List Nat
  | 0, places => places
  | n + 1, places => repeatStep step n (step places)

def closure (step : List Nat → List Nat) : Nat → List Nat → List Nat
  | 0, places => places
  | n + 1, places => (places ++ closure step n (step places)).eraseDups

/-- The places at which a pattern may end that begins at one of some places. More steps than
there are places lead nowhere new. -/
def ends (s : Array Char) : Pattern → List Nat → List Nat
  | empty, places => places
  | one test, places => (places.filter fun i => (s[i]?).any test).map (· + 1)
  | edge e, places => places.filter fun i => e.holds s i
  | seq p q, places => q.ends s (p.ends s places)
  | either p q, places => (p.ends s places ++ q.ends s places).eraseDups
  | times p least most, places =>
    let more := match most with
      | some n => min (n - least) (s.size + 1)
      | none => s.size + 1
    closure (p.ends s) more (repeatStep (p.ends s) least places)

def occursIn (p : Pattern) (text : String) : Bool :=
  let s := (octets text).toArray
  !(p.ends s (List.range (s.size + 1))).isEmpty

/-! ### Reading -/

def classEscapes : List (Char × CharClass) :=
  [('d', Char.isDigit), ('w', CharClass.word), ('s', CharClass.space), ('h', CharClass.blank),
   ('v', CharClass.between 0xA 0xD), ('D', fun c => !c.isDigit), ('W', fun c => !CharClass.word c),
   ('S', fun c => !CharClass.space c), ('H', fun c => !CharClass.blank c),
   ('V', fun c => !CharClass.between 0xA 0xD c), ('N', fun c => c != '\n')]

def characterEscapes : List (Char × Char) :=
  [('a', '\x07'), ('e', '\x1b'), ('f', '\x0c'), ('n', '\n'), ('r', '\r'), ('t', '\t')]

def edgeEscapes : List (Char × Edge) :=
  [('b', .word false), ('B', .word true), ('A', .first), ('G', .first), ('Z', .last), ('z', .veryLast)]

/-- The only character that a letter after a backslash, or anything else there, stands for.
Letters and digits that call for something else stand for none. -/
def escaped? (c : Char) : Option Char :=
  match characterEscapes.lookup c with
  | some c => some c
  | none =>
    if c.isDigit || c ∈ ['c', 'g', 'k', 'l', 'o', 'p', 'u', 'x', 'C', 'E', 'K', 'L', 'P', 'Q', 'R',
      'U', 'X'] then none
    else some c

inductive Member where
  | character (c : Char)
  | set (test : CharClass)

def Member.test : Member → CharClass
  | character c => (· == c)
  | set test => test

def member? : List Char → Option (Member × List Char)
  | [] => none
  | '[' :: ':' :: l =>
    match l.span (· != ':') with
    | (name, ':' :: ']' :: rest) =>
      match name with
      | '^' :: name => (CharClass.ofName? (String.ofList name)).map fun t => (.set fun c => !t c, rest)
      | name => (CharClass.ofName? (String.ofList name)).map fun t => (.set t, rest)
    | _ => some (.character '[', ':' :: l)
  | '\\' :: 'b' :: rest => some (.character '\x08', rest)
  | '\\' :: c :: rest =>
    match classEscapes.lookup c with
    | some test => some (.set test, rest)
    | none => (escaped? c).map fun c => (.character c, rest)
  | ['\\'] => none
  | c :: rest => some (.character c, rest)

/-- The members of a class up to its end. A bracket that closes is a member if it comes first. -/
def members? : Nat → Bool → List Char → Option (CharClass × List Char)
  | 0, _, _ => none
  | n + 1, first, l =>
    match first, l with
    | false, ']' :: rest => some (fun _ => false, rest)
    | _, l => do
      let (m, rest) ← member? l
      match m, rest with
      | .character low, '-' :: c :: rest =>
        if c = ']' then
          pure (fun c => c == low || c == '-', rest)
        else do
          let (high, rest) ← member? (c :: rest)
          match high with
          | .character high =>
            if high < low then none
            else do
              let (others, rest) ← members? n false rest
              pure (fun c => CharClass.between low.toNat high.toNat c || others c, rest)
          | .set test => do
            let (others, rest) ← members? n false rest
            pure (fun c => c == low || c == '-' || test c || others c, rest)
      | m, rest => do
        let (others, rest) ← members? n false rest
        pure (fun c => m.test c || others c, rest)

def bracket? : List Char → Option (CharClass × List Char)
  | '^' :: l => (members? (l.length + 1) true l).map fun (test, rest) => (fun c => !test c, rest)
  | l => members? (l.length + 1) true l

def maxTimes : Nat := 65535

def number? (l : List Char) : Option (Nat × List Char) :=
  match l.span Char.isDigit with
  | ([], _) => none
  | (digits, rest) => some (digits.foldl (fun n c => n * 10 + (c.toNat - '0'.toNat)) 0, rest)

def bounds? (l : List Char) : Option (Nat × Option Nat × List Char) := do
  let (least, rest) ← number? l
  match rest with
  | '\x7d' :: rest => pure (least, some least, rest)
  | ',' :: '\x7d' :: rest => pure (least, none, rest)
  | ',' :: rest => do
    let (most, rest) ← number? rest
    match rest with
    | '\x7d' :: rest => pure (least, some most, rest)
    | _ => none
  | _ => none

def quantifier? : List Char → Option (Nat × Option Nat × List Char)
  | '*' :: rest => some (0, none, rest)
  | '+' :: rest => some (1, none, rest)
  | '?' :: rest => some (0, some 1, rest)
  | '\x7b' :: rest => bounds? rest
  | _ => none

/-- A quantifier may be followed by a mark that says which repetitions are tried first. -/
def skipPreference : List Char → List Char
  | '?' :: rest => rest
  | '+' :: rest => rest
  | l => l

def quantified? (p : Pattern) (l : List Char) : Option (Pattern × List Char) :=
  match quantifier? l with
  | none => some (p, l)
  | some (least, most, rest) =>
    if maxTimes < least || most.any fun n => maxTimes < n || n < least then none
    else some (times p least most, skipPreference rest)

def escape? (c : Char) (rest : List Char) : Option (Pattern × List Char) :=
  match edgeEscapes.lookup c, classEscapes.lookup c with
  | some e, _ => some (edge e, rest)
  | none, some test => quantified? (one test) rest
  | none, none => do quantified? (one (· == (← escaped? c))) rest

/-- A part that is no group. Nothing can be repeated where there is nothing yet. -/
def part? (l : List Char) : Option (Pattern × List Char) :=
  if (quantifier? l).isSome then none
  else match l with
    | [] => none
    | '^' :: rest => some (edge .first, rest)
    | '$' :: rest => some (edge .last, rest)
    | '.' :: rest => quantified? (one (· != '\n')) rest
    | '[' :: rest => do
      let (test, rest) ← bracket? rest
      quantified? (one test) rest
    | ['\\'] => none
    | '\\' :: c :: rest => escape? c rest
    | c :: rest => quantified? (one (· == c)) rest

def group? : List Char → Option (List Char)
  | '(' :: '?' :: ':' :: rest => some rest
  | '(' :: '?' :: _ => none
  | '(' :: '*' :: _ => none
  | '(' :: rest => some rest
  | _ => none

/-- Reads alternatives up to the end of a group or of the text, at most so many parts, after what
has been read of the present alternative. -/
def read? : Nat → Pattern → List Char → Option (Pattern × List Char)
  | 0, _, _ => none
  | _, sofar, [] => some (sofar, [])
  | n + 1, sofar, c :: rest =>
    if c = ')' then some (sofar, c :: rest)
    else if c = '|' then do
      let (other, rest) ← read? n empty rest
      pure (either sofar other, rest)
    else if c = '(' then do
      let (inner, rest) ← read? n empty (← group? (c :: rest))
      match rest with
      | ')' :: rest => do
        let (p, rest) ← quantified? inner rest
        read? n (seq sofar p) rest
      | _ => none
    else do
      let (p, rest) ← part? (c :: rest)
      read? n (seq sofar p) rest

def ofText? (s : String) : Option Pattern :=
  let l := octets s
  match read? (l.length + 1) empty l with
  | some (p, []) => some p
  | _ => none

end Pattern

end ApiDrift.Text
