import ApiDrift.Xml.Scanner
/-! What surrounds the document element: the declaration, the document type with its
internal subset, comments and processing instructions. -/
namespace ApiDrift.Xml

namespace Reader

variable {whole : List Char}

def declarationSpace : Reader whole Unit := do
  match ← peek? with
  | none => pure ()
  | some c =>
    if isSpace c then spaces
    else if ← startsWith "?>" then pure ()
    else failHere (.expectedClass "a whitespace" c)

def declaration : Reader whole Unit := do
  skip 4
  declarationSpace
  if !(← startsWith "version") then failHere (.expectedText "version")
  else do
    pseudoAttribute
    declarationSpace
    if ← startsWith "encoding" then
      pseudoAttribute
      declarationSpace
    if ← startsWith "standalone" then
      pseudoAttribute
    spaces
    text "?>"

def quoted : Reader whole Span := do
  let quote ← openQuote
  let start ← here
  let value ← takeWhile (· != quote)
  char quote
  pure ⟨value, start⟩

def externalId : Reader whole Bool := do
  let isPublic ← startsWith "PUBLIC"
  if isPublic || (← startsWith "SYSTEM") then
    skip 6
    someSpace
    let _ ← quoted
    if isPublic then
      someSpace
      let _ ← quoted
    pure true
  else pure false

/-- A name that is passed over. It may be missing only where the text ends. -/
def passName : Reader whole Unit := do
  if (← peek?).isSome then
    let _ ← name

/-- What an entity stands for. Only a quoted value counts; `general` tells whether the entity may
name a notation. -/
def entityValue (general : Bool) : Reader whole (Option Span) := do
  match ← peek? with
  | none => fail .unexpectedEnd
  | some c =>
    if c = '"' ∨ c = '\'' then do
      let value ← quoted
      pure (some value)
    else if c = 'S' ∨ c = 'P' then do
      if ← externalId then
        if general then
          spaces
          if ← startsWith "NDATA" then
            skip 5
            someSpace
            passName
        pure none
      else failHere .invalidExternalId
    else failHere (.expectedClass "a quote, SYSTEM or PUBLIC" c)

def entityDeclaration : Reader whole (Option Token) := do
  skip 7
  someSpace
  let parameter := (← peek?) == some '%'
  if parameter then
    skip 1
    someSpace
  let entity ← name
  someSpace
  let value ← entityValue (!parameter)
  spaces
  char '>'
  pure (value.map (Token.entity entity))

def otherDeclaration (doctype : Location) : Reader whole (Option Token) := do
  let _ ← takeWhile (· != '>')
  match ← peek? with
  | none => fail (.at doctype .unknownToken)
  | some _ => do
    skip 1
    pure none

/-- A document type from after its `<`, up to its internal subset or its end. Whether there is
an internal subset is the answer. -/
def doctypeStart : Reader whole Bool := do
  skip 8
  someSpace
  passName
  spaces
  let _ ← externalId
  spaces
  match ← peek? with
  | none => fail .unexpectedEnd
  | some c =>
    if c = '[' ∨ c = '>' then do
      skip 1
      pure (c == '[')
    else failHere (.expectedClass "'[' or '>'" c)

def doctypeEnd : Reader whole Unit := do
  spaces
  char '>'

def subsetReader? (doctype start : Location) (tail : List Char) :
    Option (Reader whole (Option Token)) :=
  let begins (t : String) := t.toList.isPrefixOf tail
  if begins "!ENTITY" then some entityDeclaration
  else if begins "!--" then some (do pure (some (← comment start)))
  else if begins "?" then some (do pure (some (← instruction start)))
  else if begins "!ELEMENT" || begins "!ATTLIST" || begins "!NOTATION" then
    some (otherDeclaration doctype)
  else none

end Reader

/-- An internal subset from after its bracket. The end of the text ends it too. -/
def scanSubset (doctype : Location) (read : List Token) (s : Span) : Except Scan Progress :=
  if s.chars.isEmpty then .ok ⟨read, s⟩
  else
    let start := s.dropSpaces.location
    let unknown := Except.error (Scan.failed read (.at start .unknownToken))
    match h : s.dropSpaces.chars with
    | [] => unknown
    | c :: tail =>
      if c = ']' then
        match Reader.runAfter start c tail Reader.doctypeEnd with
        | .error e => .error (.failed read e)
        | .ok (_, rest) => .ok ⟨read, rest.1⟩
      else if c = '<' then
        match Reader.subsetReader? doctype start tail with
        | none => unknown
        | some reader =>
          match Reader.runAfter start c tail reader with
          | .error e => .error (.failed read e)
          | .ok (t, rest) =>
            have : rest.1.chars.length < s.chars.length := by
              have hs := length_dropSpaces_le s
              rw [h] at hs
              exact Nat.lt_of_le_of_lt rest.2 hs
            scanSubset doctype (t.toList ++ read) rest.1
      else unknown
termination_by s.chars.length

def scanDoctype (p : Progress) : Except Scan Progress :=
  match p.span.chars with
  | c :: tail =>
    if "<!DOCTYPE".toList.isPrefixOf (c :: tail) then
      match Reader.runAfter p.span.location c tail Reader.doctypeStart with
      | .error e => .error (.failed p.read e)
      | .ok (subset, rest) =>
        if subset then scanSubset p.span.location p.read rest.1 else .ok ⟨p.read, rest.1⟩
    else .ok p
  | [] => .ok p

def scanMisc (read : List Token) (s : Span) : Except Scan Progress :=
  let start := s.dropSpaces.location
  match h : s.dropSpaces.chars with
  | [] => .ok ⟨read, s.dropSpaces⟩
  | c :: tail =>
    let reader? : Option (Reader tail Token) :=
      if c ≠ '<' then none
      else if "!--".toList.isPrefixOf tail then some (Reader.comment start)
      else if "?".toList.isPrefixOf tail then some (Reader.instruction start)
      else none
    match reader? with
    | none => .ok ⟨read, s.dropSpaces⟩
    | some reader =>
      match Reader.runAfter start c tail reader with
      | .error e => .error (.failed read e)
      | .ok (t, rest) =>
        have : rest.1.chars.length < s.chars.length := by
          have hs := length_dropSpaces_le s
          rw [h] at hs
          exact Nat.lt_of_le_of_lt rest.2 hs
        scanMisc (t :: read) rest.1
termination_by s.chars.length

def scanDeclaration (s : Span) : Except Scan Progress :=
  match s.chars with
  | c :: tail =>
    if "<?xml ".toList.isPrefixOf (c :: tail) then
      match Reader.runAfter s.location c tail Reader.declaration with
      | .error e => .error (.failed [] e)
      | .ok (_, rest) => .ok ⟨[], rest.1⟩
    else .ok ⟨[], s⟩
  | [] => .ok ⟨[], s⟩

def scanElement (p : Progress) : Except Scan Progress :=
  match p.span.chars with
  | c :: tail =>
    if c = '<' then
      match Reader.runAfter p.span.location c tail (Reader.startTag p.span.location) with
      | .error e => .error (.failed p.read e)
      | .ok (tag, rest) =>
        match tag.finish with
        | .opened => scanContent 0 (.startTag tag :: p.read) rest.1
        | .broken _ => .error ⟨(Token.startTag tag :: p.read).reverse, none⟩
        | _ => .ok ⟨.startTag tag :: p.read, rest.1⟩
    else .ok p
  | [] => .ok p

def byteOrderMark : Char := '\ufeff'

def Span.dropMark (s : Span) : Span :=
  if s.chars.head? = some byteOrderMark then s.drop 1 else s

def Scan.ofDocument (text : List Char) : Scan :=
  let progress : Except Scan Progress := do
    let p ← scanDeclaration (Span.dropMark ⟨text, .start⟩)
    let p ← scanMisc p.read p.span
    let p ← scanDoctype p
    let p ← scanMisc p.read p.span
    let p ← scanElement p
    let p ← scanMisc p.read p.span
    if p.span.chars.isEmpty then pure p
    else throw (.failed p.read (.at p.span.location .unknownToken))
  match progress with
  | .error scan => scan
  | .ok p => ⟨p.read.reverse, none⟩

end ApiDrift.Xml
