import ApiDrift.Api.Member
import ApiDrift.Change.Basic
/-! Two versions of an API compared. Nodes, interfaces and members are matched by name,
arguments by position, so that a new name is a removal and an addition. First come the additions
and modifications in the order of the new version, then the removals in that of the old one. -/
namespace ApiDrift.Compare

structure Subject where
  kind : ElementKind
  path : String
  location : Location

def Subject.titled (s : Subject) : String := s.kind.title ++ " ‘" ++ s.path ++ "’"

def Subject.named (s : Subject) : String := s.kind.noun ++ " ‘" ++ s.path ++ "’"

def presenceKind : Option String → Option String → ChangeKind
  | none, some _ => .added
  | some _, none => .removed
  | _, _ => .modified

def orNone (value : Option String) : String := value.getD "(none)"

def fromTo (old new : String) : String := s!"from ‘{old}’ to ‘{new}’"

def Subject.change (s : Subject) (kind : ChangeKind) (category : Category) (code : ChangeCode)
    (old new : Option String) (what : String) : Change :=
  ⟨kind, category, code, s.path, old, new, s.titled ++ " has " ++ what ++ ".", s.location⟩

/-- A mark that is set by the value `true` alone. -/
def compareMark (s : Subject) (old new : Option String) (set unset : ChangeCode)
    (whenSet whenUnset : String) : List Change :=
  let is := new == some "true"
  if (old == some "true") == is then []
  else [s.change (presenceKind old new) .info (if is then set else unset) old new
    (if is then whenSet else whenUnset)]

def compareSymbol (s : Subject) (old new : Option String) : List Change :=
  if old = new then []
  else [s.change (presenceKind old new) .info .cSymbol old new
    ("changed its C symbol " ++ fromTo (orNone old) (orNone new))]

/-- Annotations without a comparison of their own. -/
def isGeneric (a : Annotation) : Bool :=
  !List.contains
    [AnnotationName.deprecated, AnnotationName.cSymbol, AnnotationName.noReply,
     AnnotationName.emitsChanged, AnnotationName.docString] a.name

def compareGeneric (s : Subject) (old : Annotations) (a : Annotation) : List Change :=
  match old.value? a.name with
  | none =>
    [⟨.added, .info, .annotationAdded, s.path, none, some a.value,
      "Annotation ‘" ++ a.name ++ "’ has been added to " ++ s.named ++ ".", a.location⟩]
  | some v =>
    if v = a.value then []
    else [⟨.modified, .info, .annotationChanged, s.path, some v, some a.value,
      "Annotation ‘" ++ a.name ++ "’ on " ++ s.named ++ " has changed value " ++ fromTo v a.value
        ++ ".", a.location⟩]

def removeGeneric (s : Subject) (new : Annotations) (a : Annotation) : List Change :=
  if (new.get? a.name).isSome then []
  else [⟨.removed, .info, .annotationRemoved, s.path, some a.value, none,
    "Annotation ‘" ++ a.name ++ "’ has been removed from " ++ s.named ++ ".", s.location⟩]

def compareAnnotations (s : Subject) (old new : Annotations) : List Change :=
  compareMark s (old.value? AnnotationName.deprecated) (new.value? AnnotationName.deprecated)
      .deprecated .undeprecated "been deprecated" "been un-deprecated"
    ++ compareSymbol s (old.value? AnnotationName.cSymbol) (new.value? AnnotationName.cSymbol)
    ++ compareMark s (old.value? AnnotationName.noReply) (new.value? AnnotationName.noReply)
      .replyRemoved .replyAdded
      "been marked as not returning a reply" "been marked as returning a reply"
    ++ (new.toList.filter isGeneric).flatMap (compareGeneric s old)
    ++ (old.toList.filter isGeneric).flatMap (removeGeneric s new)

def compareDoc (s : Subject) (old new : Option Documentation) : List Change :=
  let o := old.map Documentation.text
  let n := new.map Documentation.text
  if o = n then []
  else
    let location := (new.map Documentation.location).getD s.location
    [⟨.modified, .info, .documentation, s.path, o, n,
      "Documentation for " ++ s.named ++ " has changed.", location⟩]

/-- How changed values are announced: as the element says, or its interface, or else always. -/
def effectiveEmits (outer own : Annotations) : String :=
  ((own.value? AnnotationName.emitsChanged).or
    (outer.value? AnnotationName.emitsChanged)).getD "true"

def compareEmits (s : Subject) (old new : String) : List Change :=
  if old = new then []
  else [s.change .modified .info (.emitsChanged old new) (some old) (some new)
    ("changed " ++ AnnotationName.emitsChanged ++ " " ++ fromTo old new)]

def argumentLabel (a : Argument) (position : Nat) : String := a.name.getD (toString position)

def argumentPath (path : String) (a : Argument) (position : Nat) : String :=
  path ++ "." ++ argumentLabel a position

/-- An argument that only the new version has. Callers never send another argument that goes in,
but each one unpacks a reply that has grown. -/
def addedArgument (kind : CallableKind) (path : String) (a : Argument) : Change where
  kind := .added
  category := if kind = .method ∧ a.direction = some .output then .backwards else .forwards
  code := .added .argument
  path := path
  new := some a.type.text
  message := s!"Argument ‘{path}’ has been added."
  location := a.location

def removedArgument (path : String) (a : Argument) : Change where
  kind := .removed
  category := .backwards
  code := .removed .argument
  path := path
  old := some a.type.text
  message := s!"Argument ‘{path}’ has been removed."
  location := a.location

def compareDirection (s : Subject) (old new : Option Direction) : List Change :=
  match old, new with
  | some o, some n =>
    if o = n then []
    else [s.change .modified .backwards (.argumentDirection o n) (some o.text) (some n.text)
      ("changed direction " ++ fromTo o.text n.text)]
  | _, _ => []

def compareArgument (path : String) (old new : Argument) : List Change :=
  let s : Subject := ⟨.argument, path, new.location⟩
  (if old.name = new.name then []
    else [s.change .modified .info .argumentName old.name new.name
      ("changed name " ++ fromTo (orNone old.name) (orNone new.name))])
    ++ (if old.type.text = new.type.text then []
      else [s.change .modified .backwards .argumentType (some old.type.text) (some new.type.text)
        ("changed type " ++ fromTo old.type.text new.type.text)])
    ++ compareDirection s old.direction new.direction
    ++ compareAnnotations s old.annotations new.annotations
    ++ compareDoc s old.doc new.doc

def compareArguments (kind : CallableKind) (path : String) (position : Nat) :
    List Argument → List Argument → List Change
  | _, [] => []
  | [], a :: rest =>
    addedArgument kind (argumentPath path a position) a
      :: compareArguments kind path (position + 1) [] rest
  | o :: old, a :: rest =>
    compareArgument (argumentPath path a position) o a
      ++ compareArguments kind path (position + 1) old rest

def removedArguments (path : String) (position : Nat) :
    List Argument → List Argument → List Change
  | [], _ => []
  | a :: old, [] =>
    removedArgument (argumentPath path a position) a :: removedArguments path (position + 1) old []
  | _ :: old, _ :: new => removedArguments path (position + 1) old new

def compareCallable (path : String) (old new : Callable) : List Change :=
  let s : Subject := ⟨.ofCallable new.kind, path, new.location⟩
  compareAnnotations s old.annotations new.annotations
    ++ compareDoc s old.doc new.doc
    ++ compareArguments new.kind path 0 old.args new.args

def compareAccess (s : Subject) (old new : Access) : List Change :=
  if old = new then []
  else
    let widened := new == .readWrite
    [s.change .modified (if widened then .info else .backwards) (.propertyAccess old new)
      (some old.text) (some new.text)
      ("changed access " ++ fromTo old.text new.text
        ++ (if widened then ", becoming less restrictive" else ""))]

/-- A property, where `oldOuter` and `newOuter` are the annotations of its interface. -/
def compareProperty (path : String) (oldOuter newOuter : Annotations) (old new : Property) :
    List Change :=
  let s : Subject := ⟨.property, path, new.location⟩
  (if old.type.text = new.type.text then []
    else [s.change .modified .backwards .propertyType (some old.type.text) (some new.type.text)
      ("changed type " ++ fromTo old.type.text new.type.text)])
    ++ compareAccess s old.access new.access
    ++ compareEmits s (effectiveEmits oldOuter old.annotations)
      (effectiveEmits newOuter new.annotations)
    ++ compareAnnotations s old.annotations new.annotations
    ++ compareDoc s old.doc new.doc

def memberPath (path : String) (m : Member) : String := path ++ "." ++ m.name

def compareMember (path : String) (old new : Interface) (m : Member) : List Change :=
  let path := memberPath path m
  match m with
  | .method c =>
    match old.method? c.name with
    | some o => compareCallable path o c
    | none => [.addedElement .method path c.location]
  | .signal c =>
    match old.signal? c.name with
    | some o => compareCallable path o c
    | none => [.addedElement .signal path c.location]
  | .property p =>
    match old.property? p.name with
    | some o => compareProperty path old.annotations new.annotations o p
    | none => [.addedElement .property path p.location]

def compareInterface (path : String) (old new : Interface) : List Change :=
  let s : Subject := ⟨.interface, path, new.location⟩
  compareEmits s (effectiveEmits {} old.annotations) (effectiveEmits {} new.annotations)
    ++ compareAnnotations s old.annotations new.annotations
    ++ compareDoc s old.doc new.doc
    ++ new.members.flatMap (compareMember path old new)

def removedMember (path : String) (new : Interface) (m : Member) : List Change :=
  let path := memberPath path m
  match m with
  | .method c =>
    match new.method? c.name with
    | some n => removedArguments path 0 c.args n.args
    | none => [.removedElement .method path c.location]
  | .signal c =>
    match new.signal? c.name with
    | some n => removedArguments path 0 c.args n.args
    | none => [.removedElement .signal path c.location]
  | .property p =>
    if (new.property? p.name).isSome then [] else [.removedElement .property path p.location]

def interfacePath (scope : Option String) (i : Interface) : String :=
  (scope.map fun s => s ++ ":").getD "" ++ i.name

def childPath (scope : Option String) (name : String) : String :=
  match scope with
  | some parent => parent ++ "/" ++ name
  | none => name

def compareOwned (scope : Option String) (old : Node) (i : Interface) : List Change :=
  match old.interface? i.name with
  | some o => compareInterface (interfacePath scope i) o i
  | none => [.addedElement .interface (interfacePath scope i) i.location]

def removedOwned (scope : Option String) (new : Node) (i : Interface) : List Change :=
  match new.interface? i.name with
  | some n => i.members.flatMap (removedMember (interfacePath scope i) n)
  | none => [.removedElement .interface (interfacePath scope i) i.location]

mutual

/-- Additions and modifications at a node and below it. -/
def compareNode (scope : Option String) (old : Node) : Node → List Change
  | ⟨name, interfaces, nodes, annotations, doc, location⟩ =>
    let s : Subject := ⟨.node, (scope.or name).getD "/", location⟩
    compareAnnotations s old.annotations annotations
      ++ compareDoc s old.doc doc
      ++ interfaces.flatMap (compareOwned scope old)
      ++ compareChildren scope old nodes

/-- Additions and modifications at child nodes. One without a name has no counterpart. -/
def compareChildren (scope : Option String) (old : Node) : List Node → List Change
  | [] => []
  | child :: rest =>
    (match child.name with
      | none => []
      | some name =>
        match old.child? name with
        | some o => compareNode (some (childPath scope name)) o child
        | none => [.addedElement .node (childPath scope name) child.location])
      ++ compareChildren scope old rest

end

mutual

def removedNode (scope : Option String) (new : Node) : Node → List Change
  | ⟨_, interfaces, nodes, _, _, _⟩ =>
    interfaces.flatMap (removedOwned scope new) ++ removedChildren scope new nodes

def removedChildren (scope : Option String) (new : Node) : List Node → List Change
  | [] => []
  | child :: rest =>
    (match child.name with
      | none => []
      | some name =>
        match new.child? name with
        | some n => removedNode (some (childPath scope name)) n child
        | none => [.removedElement .node (childPath scope name) child.location])
      ++ removedChildren scope new rest

end

end Compare

def compare (old new : Node) : List Change :=
  Compare.compareNode none old new ++ Compare.removedNode none new old

end ApiDrift
