import ApiDrift.Xml.Document
/-! How deep elements are nested: read off the text before it is parsed, so that a text can be
refused without descending into it, and off the parsed document, since entities can nest deeper
than the text shows. -/
namespace ApiDrift.Introspection

/-- Number of characters up to and including the `>` that closes a piece of markup, read from
after its `<`. Quoted values and an internal subset in brackets are passed over. -/
def markupLength (quote : Option Char) (subset passed : Nat) : List Char → Option Nat
  | [] => none
  | c :: rest =>
    match quote with
    | some q => markupLength (if c = q then none else some q) subset (passed + 1) rest
    | none =>
      if c = '"' ∨ c = '\'' then markupLength (some c) subset (passed + 1) rest
      else if c = '[' then markupLength none (subset + 1) (passed + 1) rest
      else if c = ']' then markupLength none (subset - 1) (passed + 1) rest
      else if c = '>' ∧ subset = 0 then some (passed + 1)
      else markupLength none subset (passed + 1) rest

def lengthThrough (stop : List Char) (passed : Nat) : List Char → Option Nat
  | [] => none
  | c :: rest =>
    if stop.isPrefixOf (c :: rest) then some (passed + stop.length)
    else lengthThrough stop (passed + 1) rest

inductive Effect where
  | opens | closes | none
deriving DecidableEq, Repr

/-- The length and the effect of the markup whose `<` stands before `tail`. Markup that does
not end has neither. -/
def markup? (tail : List Char) : Option (Nat × Effect) :=
  if "!--".toList.isPrefixOf tail then
    (lengthThrough ['-', '-', '>'] 0 tail).map fun n => (n, .none)
  else if "![CDATA[".toList.isPrefixOf tail then
    (lengthThrough [']', ']', '>'] 0 tail).map fun n => (n, .none)
  else if tail.head? = some '?' then
    (lengthThrough ['?', '>'] 0 tail).map fun n => (n, .none)
  else
    (markupLength none 0 0 tail).map fun n =>
      if tail.head? = some '/' then (n, .closes)
      else if tail.head? = some '!' ∨ ['/', '>'].isSuffixOf (tail.take n) then (n, .none)
      else (n, .opens)

/-- Number of characters before the first start tag nested deeper than `limit`, where `depth`
elements are open after `passed` characters. Elements without content are not counted, and the
search ends at markup that does not. -/
def tooDeepFrom (limit depth passed : Nat) (text : List Char) : Option Nat :=
  match text with
  | [] => none
  | c :: tail =>
    if c = '<' then
      match markup? tail with
      | none => none
      | some (n, effect) =>
        match effect with
        | .closes => tooDeepFrom limit (depth - 1) (passed + 1 + n) (tail.drop n)
        | .none => tooDeepFrom limit depth (passed + 1 + n) (tail.drop n)
        | .opens =>
          if limit < depth + 1 then some passed
          else tooDeepFrom limit (depth + 1) (passed + 1 + n) (tail.drop n)
    else tooDeepFrom limit depth (passed + 1) tail
termination_by text.length
decreasing_by
  · exact Nat.lt_succ_of_le (List.drop_sublist n tail).length_le
  · exact Nat.lt_succ_of_le (List.drop_sublist n tail).length_le
  · exact Nat.lt_succ_of_le (List.drop_sublist n tail).length_le
  · exact Nat.lt_succ_self tail.length

def tooDeepAt? (limit : Nat) (text : List Char) : Option Nat := tooDeepFrom limit 0 0 text

/-- Where that tag stands, with columns counted in bytes. -/
def tooDeepLocation? (limit : Nat) (text : List Char) : Option Location :=
  (tooDeepAt? limit text).map fun n => (text.take n).foldl Location.nextBytes .start

mutual

/-- The first element in document order below `limit`, where the node stands at `level`. The
document element is at level one. -/
def beyond? (limit level : Nat) : Xml.Node → Option Location
  | .element head children =>
    if limit < level then some head.location else beyondAmong? limit (level + 1) children
  | _ => none

def beyondAmong? (limit level : Nat) : List Xml.Node → Option Location
  | [] => none
  | n :: rest => (beyond? limit level n).or (beyondAmong? limit level rest)

end

end ApiDrift.Introspection
