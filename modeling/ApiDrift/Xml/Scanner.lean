import ApiDrift.Xml.Token
/-! Documents cut into tokens. Every loop takes at least one character off the text before
it goes on, so it recurses on what is left. -/
namespace ApiDrift.Xml

namespace Reader

variable {whole : List Char}

def comment (start : Location) : Reader whole Token := do
  skip 3
  let body ← takeCharsBefore "-->"
  text "-->"
  if (breakOn ['-', '-'] [] body).2 != [] || body.getLast? == some '-' then
    fail (.at start .doubleHyphen)
  else pure (.comment body start)

def instruction (start : Location) : Reader whole Token := do
  if ← startsWith "?xml " then fail (.at start .unexpectedDeclaration)
  else do
    skip 1
    let _ ← name
    spaces
    let _ ← takeCharsBefore "?>"
    text "?>"
    pure .instruction

def cdata : Reader whole Token := do
  skip 8
  let body ← takeCharsBefore "]]>"
  text "]]>"
  pure (.cdata body)

def endTag (start : Location) : Reader whole Token := do
  skip 1
  let q ← qname
  spaces
  char '>'
  pure (.endTag q start)

def textFrom (start : Location) (c : Char) : Reader whole Token := do
  let rest ← takeWhile (· != '<')
  checkChars start (c :: rest)
  if (breakOn [']', ']', '>'] [] (c :: rest)).2 != [] then failHere .cdataEndInText
  else pure (.text ⟨c :: rest, start⟩)

def attributeValue : Reader whole Span := do
  let quote ← openQuote
  let start ← here
  let value ← takeChars fun c => c != quote && c != '<'
  char quote
  pure ⟨value, start⟩

def equalsValue : Reader whole Span := do
  spaces
  char '='
  spaces
  attributeValue

def attributeFrom (start : Location) (c : Char) : Reader whole RawAttribute := do
  let q ← qnameFrom start c
  let value ← equalsValue
  pure ⟨q, value, start⟩

def pseudoAttribute : Reader whole Unit := do
  let _ ← qname
  let _ ← equalsValue
  pure ()

end Reader

def Span.dropSpaces (s : Span) : Span :=
  ⟨s.chars.dropWhile isSpace, s.location.after (s.chars.takeWhile isSpace)⟩

theorem length_dropSpaces_le (s : Span) : s.dropSpaces.chars.length ≤ s.chars.length :=
  length_dropWhile_le _ _

/-- The rest of a start tag after its name; `read` holds the attributes so far, the last first. -/
def tagRest (whole : List Char) (read : List RawAttribute) (s : Left whole) :
    List RawAttribute × TagEnd × Left whole :=
  let blank := s.1.chars.head?.any isSpace
  let after : Left whole := ⟨s.1.dropSpaces, Nat.le_trans (length_dropSpaces_le s.1) s.2⟩
  let stop (finish : TagEnd) := (read.reverse, finish, after)
  match h : s.1.dropSpaces.chars with
  | [] => stop (if blank then .broken .unexpectedEnd else .unfinished)
  | c :: tail =>
    have hs : tail.length + 1 ≤ s.1.chars.length := by
      have := length_dropSpaces_le s.1
      rw [h] at this
      exact this
    have hw : tail.length ≤ whole.length := Nat.le_trans (Nat.le_of_succ_le hs) s.2
    let start := s.1.dropSpaces.location
    if c = '/' then
      match Reader.runAfter start c tail (Reader.char '>') with
      | .error e => stop (.broken e)
      | .ok (_, rest) => (read.reverse, .empty, ⟨rest.1, Nat.le_trans rest.2 hw⟩)
    else if c = '>' then (read.reverse, .opened, ⟨⟨tail, start.next c⟩, hw⟩)
    else if !blank then stop (.broken (.at start (.expectedClass "a whitespace" c)))
    else
      match Reader.runAfter start c tail (Reader.attributeFrom start c) with
      | .error e => stop (.broken e)
      | .ok (a, rest) =>
        have : rest.1.chars.length < s.1.chars.length := Nat.lt_of_le_of_lt rest.2 hs
        tagRest whole (a :: read) ⟨rest.1, Nat.le_trans rest.2 hw⟩
termination_by s.1.chars.length

namespace Reader

variable {whole : List Char}

def startTag (start : Location) : Reader whole Tag := do
  let q ← qname
  fun s =>
    let (attributes, finish, rest) := tagRest whole [] s
    .ok (⟨q, attributes, finish, start⟩, rest)

end Reader

structure Progress where
  read : List Token
  span : Span

def Scan.failed (read : List Token) (fault : Fault) : Scan := ⟨read.reverse, some fault⟩

/-- The reader of the content that begins with `c`, which stands at `start`. No content begins
with another declaration, or with a `<` at the end of the text. -/
def contentReader? (start : Location) (c : Char) (tail : List Char) : Option (Reader tail Token) :=
  if c = '<' then
    match tail with
    | [] => none
    | '!' :: _ =>
      if "!--".toList.isPrefixOf tail then some (Reader.comment start)
      else if "![CDATA[".toList.isPrefixOf tail then some Reader.cdata
      else none
    | '?' :: _ => some (Reader.instruction start)
    | '/' :: _ => some (Reader.endTag start)
    | _ => some (do pure (.startTag (← Reader.startTag start)))
  else some (Reader.textFrom start c)

/-- Content up to the end tag of the innermost element that was open at the start, or up to the
end of the text. `depth` counts the elements opened since. -/
def scanContent (depth : Nat) (read : List Token) (s : Span) : Except Scan Progress :=
  match h : s.chars with
  | [] => .ok ⟨read, s⟩
  | c :: tail =>
    match contentReader? s.location c tail with
    | none => .error (.failed read (.at s.location .unknownToken))
    | some reader =>
      match Reader.runAfter s.location c tail reader with
      | .error e => .error (.failed read e)
      | .ok (t, rest) =>
        have : rest.1.chars.length < s.chars.length := by
          rw [h]
          exact Nat.lt_succ_of_le rest.2
        match t with
        | .endTag _ _ =>
          match depth with
          | 0 => .ok ⟨t :: read, rest.1⟩
          | depth + 1 => scanContent depth (t :: read) rest.1
        | .startTag tag =>
          match tag.finish with
          | .opened => scanContent (depth + 1) (t :: read) rest.1
          | .broken _ => .error ⟨(t :: read).reverse, none⟩
          | _ => scanContent depth (t :: read) rest.1
        | _ => scanContent depth (t :: read) rest.1
termination_by s.chars.length

def Scan.ofContent (value : Span) : Scan :=
  match scanContent 0 [] value with
  | .error scan => scan
  | .ok p => ⟨p.read.reverse, none⟩

end ApiDrift.Xml
