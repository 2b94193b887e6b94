import ApiDrift.Introspection.Describe
import ApiDrift.Introspection.Nesting
/-! Introspection data read from bytes or text: the description of an object with everything
that was found on the way, or the reason why there is none. -/
namespace ApiDrift.Introspection

inductive ParseError where
  /-- The text is not well-formed XML, or the bytes are not UTF-8. -/
  | malformed (location : Location) (message : String)
  | tooDeep (location : Location) (limit : Nat)
  /-- Well-formed XML whose structure cannot be trusted. -/
  | structural (diagnostics : List Diagnostic)
deriving DecidableEq, Repr

def ParseError.message : ParseError → String
  | malformed l m => "Malformed XML at " ++ l.render ++ ": " ++ m
  | tooDeep l limit =>
    "Element nesting at " ++ l.render ++ s!" exceeds the limit of {limit} levels"
  | structural ds =>
    let n := (ds.filter Diagnostic.isFatal).length
    s!"Invalid introspection data ({n} fatal problem(s))"

structure Parsed where
  root : Node
  diagnostics : List Diagnostic

structure Options where
  file : Option String := none
  maxNesting : Nat := 128
deriving DecidableEq, Repr

mutual

/-- The first element in document order with this name and no namespace, with its earlier
siblings, the nearest first. `before` holds those of the node itself. -/
def findElement? (name : String) (before : List Xml.Node) :
    Xml.Node → Option (Xml.Element × List Xml.Node × List Xml.Node)
  | .element head children =>
    if head.isPlain name then some (head, children, before)
    else findAmong? name [] children
  | _ => none

def findAmong? (name : String) (before : List Xml.Node) :
    List Xml.Node → Option (Xml.Element × List Xml.Node × List Xml.Node)
  | [] => none
  | n :: rest => (findElement? name before n).or (findAmong? name (n :: before) rest)

end

def rootElement? (before : List Xml.Node) :
    List Xml.Node → Option (Xml.Element × List Xml.Node × List Xml.Node)
  | [] => none
  | .element head children :: _ => some (head, children, before)
  | n :: rest => rootElement? (n :: before) rest

def describeDocument (d : Xml.Document) : Logged (Option Node) := do
  match rootElement? [] d.children with
  | none => pure none
  | some (head, children, before) =>
    let isSpec := head.uri == some specUri && head.base == "spec"
    if !head.isPlain "node" && !isSpec then
      Logged.report head.location (.unknownRoot head.display)
    match findElement? "node" before (.element head children) with
    | none => do
      Logged.report head.location .noRootNode
      pure none
    | some (node, children, before) => do
      pure (some (← describeRoot node children (precedingComment before)))

/-- The outcome of a description: a fatal finding leaves none. -/
def Parsed.ofLogged (file : Option String) (found : Logged (Option Node)) :
    Except ParseError Parsed :=
  let diagnostics := found.log.map (Finding.toDiagnostic file)
  if found.log.any Finding.isFatal then .error (.structural diagnostics)
  else match found.value with
    | some root => .ok ⟨root, diagnostics⟩
    | none => .error (.structural diagnostics)

def parseDocument (options : Options) (d : Xml.Document) : Except ParseError Parsed :=
  match beyondAmong? options.maxNesting 1 d.children with
  | some l => .error (.tooDeep l options.maxNesting)
  | none => Parsed.ofLogged options.file (describeDocument d)

def parseChars (options : Options) (text : List Char) : Except ParseError Parsed :=
  match tooDeepLocation? options.maxNesting text with
  | some l => .error (.tooDeep l options.maxNesting)
  | none =>
    match Xml.Document.parse text with
    | .error fault => .error (.malformed fault.location fault.message)
    | .ok d => parseDocument options d

def parseText (options : Options) (text : String) : Except ParseError Parsed :=
  parseChars options text.toList

def parseBytes (options : Options) (bytes : List UInt8) : Except ParseError Parsed :=
  match Text.Utf8.decode bytes with
  | .error fault =>
    .error (.malformed (Location.start.afterBytes (bytes.take fault.index))
      ("invalid UTF-8: " ++ fault.message))
  | .ok text => parseChars options text

end ApiDrift.Introspection
