import ApiDrift.Introspection.Describe
/-! The grammar of introspection data, over well-formed documents and without regard to how they
are read. Elements of other vocabularies are free, and so are the places of comments and text. -/
namespace ApiDrift.Introspection

/-- What an element defines among its siblings: its kind and its name. Arguments are told apart
by their positions and define nothing. -/
def defines? (head : Xml.Element) : Option (String × String) :=
  if head.base = "arg" then none
  else (head.attribute? "name").map fun name => (head.base, name)

def definition? : Xml.Node → Option (String × String)
  | .element head _ => if head.uri = none then defines? head else none
  | _ => none

/-- Every child element of this name and of no namespace is as said. -/
def Each (name : String) (P : Xml.Element → List Xml.Node → Prop) (children : List Xml.Node) :
    Prop :=
  ∀ head below, .element head below ∈ children → head.uri = none → head.base = name → P head below

/-- Only these names occur, nothing is defined twice, and no documentation is blank. -/
structure Tidy (names : List String) (children : List Xml.Node) : Prop where
  known : ∀ head below, .element head below ∈ children → head.uri = none → head.base ∈ names
  documented : ∀ head below, .element head below ∈ children → isDocElement head = true →
    Text.trim (fullText below) ≠ ""
  apart : (children.filterMap definition?).Nodup

structure AnnotationFits (head : Xml.Element) (children : List Xml.Node) : Prop where
  named : ∃ name, head.attribute? "name" = some name ∧ isUnknownStandard name = false ∧
    (name = AnnotationName.docString → Text.trim ((head.attribute? "value").getD "") ≠ "")
  tidy : Tidy [] children

/-- A type is given, and it is a signature. -/
def TypeFits (head : Xml.Element) : Prop :=
  ∃ text signature, head.attribute? "type" = some text ∧ Signature.parse text = .ok signature

/-- What may be said of the direction of an argument. -/
def CallableKind.directions : CallableKind → List (Option String)
  | .method => [none, some "in", some "out"]
  | .signal => [none, some "out"]

structure ArgumentFits (kind : CallableKind) (head : Xml.Element) (children : List Xml.Node) :
    Prop where
  type : TypeFits head
  direction : head.attribute? "direction" ∈ CallableKind.directions kind
  tidy : Tidy ["annotation"] children
  annotations : Each "annotation" AnnotationFits children

structure CallableFits (kind : CallableKind) (head : Xml.Element) (children : List Xml.Node) :
    Prop where
  named : ∃ name, head.attribute? "name" = some name ∧ Name.isMember name = true
  tidy : Tidy ["arg", "annotation"] children
  args : Each "arg" (ArgumentFits kind) children
  annotations : Each "annotation" AnnotationFits children

structure PropertyFits (head : Xml.Element) (children : List Xml.Node) : Prop where
  named : ∃ name, head.attribute? "name" = some name ∧ Name.isMember name = true
  type : TypeFits head
  access : ∃ value, head.attribute? "access" = some value ∧ value ∈ ["read", "write", "readwrite"]
  tidy : Tidy ["annotation"] children
  annotations : Each "annotation" AnnotationFits children

structure InterfaceFits (head : Xml.Element) (children : List Xml.Node) : Prop where
  named : ∃ name, head.attribute? "name" = some name ∧ Name.isInterface name = true
  tidy : Tidy ["method", "signal", "property", "annotation"] children
  methods : Each "method" (CallableFits .method) children
  signals : Each "signal" (CallableFits .signal) children
  properties : Each "property" PropertyFits children
  annotations : Each "annotation" AnnotationFits children

/-- What stands in a node, at any depth. -/
inductive NodeFits : List Xml.Node → Prop
  | intro {children : List Xml.Node} (tidy : Tidy ["interface", "node", "annotation"] children)
      (interfaces : Each "interface" InterfaceFits children)
      (annotations : Each "annotation" AnnotationFits children)
      (named : Each "node" (fun head _ =>
        ∃ name, head.attribute? "name" = some name ∧ Name.isRelativePath name = true) children)
      (nodes : ∀ head below, .element head below ∈ children → head.uri = none →
        head.base = "node" → NodeFits below) : NodeFits children

mutual

/-- The elements at and below a node of a document, in document order. -/
def elements : Xml.Node → List (Xml.Element × List Xml.Node)
  | .element head children => (head, children) :: elementsAmong children
  | _ => []

def elementsAmong : List Xml.Node → List (Xml.Element × List Xml.Node)
  | [] => []
  | n :: rest => elements n ++ elementsAmong rest

end

/-- The document element is a node or a specification, and the first node in it fits, with an
absolute path or without a name. -/
def DocumentFits (d : Xml.Document) : Prop :=
  ∃ head below, d.children.find? Xml.Node.isElement = some (.element head below) ∧
    (head.isPlain "node" = true ∨ (head.uri = some specUri ∧ head.base = "spec")) ∧
    ∃ root inside,
      (elements (.element head below)).find? (fun e => e.1.isPlain "node") = some (root, inside) ∧
      (∀ path, root.attribute? "name" = some path → Name.isAbsolutePath path = true) ∧
      NodeFits inside

end ApiDrift.Introspection
