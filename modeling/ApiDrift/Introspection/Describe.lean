import ApiDrift.Introspection.Children
import ApiDrift.Name
/-! The description that elements give of an object: annotations, arguments, members,
interfaces and nodes. Elements that are merely doubtful are kept and reported. -/
namespace ApiDrift.Introspection

def standardHeading : String := "org.freedesktop.DBus."

def standardAnnotations : List String :=
  [AnnotationName.deprecated, AnnotationName.cSymbol, "org.freedesktop.DBus.GLib.Async",
   "org.freedesktop.DBus.GLib.Const", "org.freedesktop.DBus.GLib.ClientCSymbol",
   "org.freedesktop.DBus.GLib.NoReply", "org.freedesktop.DBus.GLib.ReturnVal",
   AnnotationName.noReply, AnnotationName.emitsChanged]

def isUnknownStandard (name : String) : Bool :=
  standardHeading.toList.isPrefixOf name.toList && !standardAnnotations.contains name

/-- The documentation of an element: its annotation comes first, then its documentation element,
then the comment before it. -/
def resolveDoc (annotations : Annotations) (element comment : Option Documentation) :
    Option Documentation :=
  let annotated := (annotations.get? AnnotationName.docString).bind fun a =>
    if Text.allBlank a.value then none else some ⟨a.value, .annotated, a.location⟩
  (annotated.or element).or comment

def required (e : Xml.Element) (attr : String) : Logged (Option String) := do
  let value := e.attribute? attr
  Logged.reportWhen value.isNone e.location (.missingAttribute attr e.base)
  pure value

def annotate (annotations : Annotations) (owner : Place) (c : Child) : Logged Annotations := do
  let location := c.head.location
  let name? ← required c.head "name"
  reportChildren [] (.annotationNamed name?) c.children
  match name? with
  | none => pure annotations
  | some name =>
    let value := (c.head.attribute? "value").getD ""
    Logged.reportWhen (isUnknownStandard name) location (.annotationUnknown name owner)
    Logged.reportWhen (name == AnnotationName.docString && Text.allBlank value) location
      (.annotationDocEmpty owner)
    let (annotations, replaced) := annotations.insert ⟨name, value, location⟩
    Logged.reportWhen replaced.isSome location (.annotationRepeated name owner)
    pure annotations

def annotateAll (annotations : Annotations) (owner : Place) : List Child → Logged Annotations
  | [] => pure annotations
  | c :: rest => do annotateAll (← annotate annotations owner c) owner rest

/-- The direction of an argument. A method's argument goes in unless told otherwise, a signal's
has none. -/
def argumentDirection (e : Xml.Element) (kind : CallableKind) (label : ArgumentLabel)
    (owner : Place) : Logged (Option Direction) := do
  let value? := e.attribute? "direction"
  match kind, value?, value?.bind Direction.ofText? with
  | .method, none, _ => pure (some .input)
  | .method, some _, some d => pure (some d)
  | .method, some value, none => do
    Logged.report e.location (.invalidDirection value label owner)
    pure (some .input)
  | .signal, none, _ => pure none
  | .signal, some _, some .output => pure none
  | .signal, some _, some .input => do
    Logged.report e.location (.inwardSignalArgument label owner)
    pure none
  | .signal, some value, none => do
    Logged.report e.location (.invalidDirection value label owner)
    pure none

def describeArgument (kind : CallableKind) (interface name : String) (position : Nat) (c : Child) :
    Logged (Option Argument) := do
  let location := c.head.location
  let argName := c.head.attribute? "name"
  let label := (argName.map ArgumentLabel.named).getD (.position position)
  let type? ← required c.head "type"
  let direction ← argumentDirection c.head kind label (.callable kind interface name)
  let place := Place.argument label kind interface name
  reportChildren ["annotation"] place c.children
  let annotations ← annotateAll {} place (acceptedChildren ["annotation"] none c.children)
  match type? with
  | none => pure none
  | some text =>
    let type := DeclaredType.ofText text
    match type.error? with
    | some e => Logged.report location (.argumentType text label e)
    | none => pure ()
    let doc := resolveDoc annotations (docChild? c.children) c.comment
    pure (some ⟨argName, type, direction, annotations, doc, location⟩)

def addCallableParts (callable : Callable) (interface : String) : List Child → Logged Callable
  | [] => pure callable
  | c :: rest => do
    let callable ←
      if c.head.base = "arg" then do
        let arg? ← describeArgument callable.kind interface callable.name callable.args.length c
        pure { callable with args := callable.args ++ arg?.toList }
      else do
        let place := Place.callable callable.kind interface callable.name
        let annotations ← annotate callable.annotations place c
        pure { callable with annotations }
    addCallableParts callable interface rest

def CallableKind.toMemberKind : CallableKind → MemberKind
  | .method => .method
  | .signal => .signal

def describeCallable (kind : CallableKind) (interface : String) (c : Child) :
    Logged (Option Callable) := do
  match ← required c.head "name" with
  | none => pure none
  | some name =>
    let location := c.head.location
    Logged.reportWhen (!Name.isMember name) location
      (.invalidMemberName (CallableKind.toMemberKind kind) name)
    let names := ["arg", "annotation"]
    reportChildren names (.callable kind interface name) c.children
    let callable ← addCallableParts { kind, name, location } interface
      (acceptedChildren names none c.children)
    let doc := resolveDoc callable.annotations (docChild? c.children) c.comment
    pure (some { callable with doc })

def propertyAccess (value? : Option String) (location : Location) (interface name : String) :
    Logged (Option Access) := do
  let access? := value?.bind Access.ofText?
  match value? with
  | some value => Logged.reportWhen access?.isNone location (.invalidAccess value interface name)
  | none => pure ()
  pure access?

/-- A property of an interface. Without a name, a type and an access there is none. -/
def describeProperty (interface : String) (c : Child) : Logged (Option Property) := do
  let location := c.head.location
  let name? ← required c.head "name"
  let type? ← required c.head "type"
  let value? ← required c.head "access"
  match name? with
  | none => pure none
  | some name =>
    Logged.reportWhen (!Name.isMember name) location (.invalidMemberName .property name)
    let access? ← propertyAccess value? location interface name
    let place := Place.property interface name
    reportChildren ["annotation"] place c.children
    let annotations ← annotateAll {} place (acceptedChildren ["annotation"] none c.children)
    match type? with
    | none => pure none
    | some text =>
      let type := DeclaredType.ofText text
      match type.error? with
      | some e => Logged.report location (.propertyType text name e)
      | none => pure ()
      let doc := resolveDoc annotations (docChild? c.children) c.comment
      pure (access?.map fun access => ⟨name, type, access, annotations, doc, location⟩)

def addMethod (i : Interface) (m : Callable) : Logged Interface := do
  let known := (i.method? m.name).isSome
  Logged.reportWhen known m.location (.duplicateMember .method i.name m.name)
  pure (if known then i else { i with methods := i.methods ++ [m] })

def addSignal (i : Interface) (s : Callable) : Logged Interface := do
  let known := (i.signal? s.name).isSome
  Logged.reportWhen known s.location (.duplicateMember .signal i.name s.name)
  pure (if known then i else { i with signals := i.signals ++ [s] })

def addProperty (i : Interface) (p : Property) : Logged Interface := do
  let known := (i.property? p.name).isSome
  Logged.reportWhen known p.location (.duplicateMember .property i.name p.name)
  pure (if known then i else { i with properties := i.properties ++ [p] })

def interfaceNames : List String := ["method", "signal", "property", "annotation"]

def addMember (i : Interface) (c : Child) : Logged Interface := do
  if c.head.base = "method" then
    match ← describeCallable .method i.name c with
    | some m => addMethod i m
    | none => pure i
  else if c.head.base = "signal" then
    match ← describeCallable .signal i.name c with
    | some s => addSignal i s
    | none => pure i
  else if c.head.base = "property" then
    match ← describeProperty i.name c with
    | some p => addProperty i p
    | none => pure i
  else
    let annotations ← annotate i.annotations (.interface i.name) c
    pure { i with annotations }

def addMembers (i : Interface) : List Child → Logged Interface
  | [] => pure i
  | c :: rest => do addMembers (← addMember i c) rest

def describeInterface (c : Child) : Logged (Option Interface) := do
  match ← required c.head "name" with
  | none => pure none
  | some name =>
    let location := c.head.location
    Logged.reportWhen (!Name.isInterface name) location (.invalidInterfaceName name)
    reportChildren interfaceNames (.interface name) c.children
    let i ← addMembers { name, location } (acceptedChildren interfaceNames none c.children)
    let doc := resolveDoc i.annotations (docChild? c.children) c.comment
    pure (some { i with doc })

def addInterface (n : Node) (i : Interface) : Logged Node := do
  let known := (n.interface? i.name).isSome
  Logged.reportWhen known i.location (.duplicateInterface i.name)
  pure (if known then n else { n with interfaces := n.interfaces ++ [i] })

def addNode (n : Node) (name path : String) (location : Location) (child : Node) : Logged Node := do
  let known := (n.child? name).isSome
  Logged.reportWhen known location (.duplicateNode path)
  pure (if known then n else { n with nodes := n.nodes ++ [child] })

def nodeNames : List String := ["interface", "node", "annotation"]

def nodePlace (name : Option String) : Place := (name.map Place.node).getD .root

/-- The path of a child as messages give it, below a node with its own path or below the root. -/
def childPath (path : Option String) (name : String) : String :=
  match path with
  | some p => p ++ "/" ++ name
  | none => name

def describeNodeWith (head : Xml.Element) (children : List Xml.Node)
    (comment : Option Documentation) (parts : Node → Logged Node) : Logged Node := do
  let name := head.attribute? "name"
  reportChildren nodeNames (nodePlace name) children
  let n ← parts { name, location := head.location }
  let doc := resolveDoc n.annotations (docChild? children) comment
  pure { n with doc }

mutual

/-- The node with what its children add to it. The path is that of the node below the root, and
`pending` the comment that waits for the next element. -/
def addNodeParts (path : Option String) (pending : Option Documentation) (n : Node) :
    List Xml.Node → Logged Node
  | [] => pure n
  | child :: rest => do
    let n ← addNodePart path pending n child
    addNodeParts path (pendingAfter pending child) n rest

def addNodePart (path : Option String) (pending : Option Documentation) (n : Node) :
    Xml.Node → Logged Node
  | .element head children => do
    if !isAccepted nodeNames head then pure n
    else if head.base = "interface" then
      match ← describeInterface ⟨head, children, pending⟩ with
      | some i => addInterface n i
      | none => pure n
    else if head.base = "node" then
      match head.attribute? "name" with
      | none => do
        Logged.report head.location .unnamedChild
        pure n
      | some name => do
        Logged.reportWhen (!Name.isRelativePath name) head.location (.childNotRelative name)
        let below := childPath path name
        let child ← describeNodeWith head children pending fun n =>
          addNodeParts (some below) none n children
        addNode n name below head.location child
    else
      let annotations ← annotate n.annotations (nodePlace n.name) ⟨head, children, pending⟩
      pure { n with annotations }
  | _ => pure n

end

def describeRoot (head : Xml.Element) (children : List Xml.Node) (comment : Option Documentation) :
    Logged Node := do
  let n ← describeNodeWith head children comment fun n => addNodeParts none none n children
  match n.name with
  | some name =>
    Logged.reportWhen (!Name.isAbsolutePath name) n.location (.rootNotAbsolute name)
  | none => pure ()
  pure n

end ApiDrift.Introspection
