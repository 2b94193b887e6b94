import ApiDrift.Proofs.Change.Keyed
/-! One edit, one change. A version that lacks one element of another one, or whose one callable
takes one more argument, differs from it by this alone, wherever in the tree the element stands. -/
namespace ApiDrift

/-- A callable that takes one more argument, after all others. -/
def Callable.taking (c : Callable) (g : Argument) : Callable := { c with args := c.args ++ [g] }

theorem Callable.name_taking (c : Callable) (g : Argument) : (c.taking g).name = c.name := rfl

/-- The first interface without one of its members. -/
inductive Interface.Lacks (i : Interface) : Member → Interface → Prop
  | method {before after : List Callable} {c : Callable}
      (split : i.methods = before ++ c :: after) :
      Lacks i (.method c) { i with methods := before ++ after }
  | signal {before after : List Callable} {c : Callable}
      (split : i.signals = before ++ c :: after) :
      Lacks i (.signal c) { i with signals := before ++ after }
  | property {before after : List Property} {p : Property}
      (split : i.properties = before ++ p :: after) :
      Lacks i (.property p) { i with properties := before ++ after }

/-- The first interface with a further argument of one of its callables. -/
inductive Interface.Appends (i : Interface) : Callable → Argument → Interface → Prop
  | method {before after : List Callable} {c : Callable} {g : Argument}
      (split : i.methods = before ++ c :: after) :
      Appends i c g { i with methods := before ++ c.taking g :: after }
  | signal {before after : List Callable} {c : Callable} {g : Argument}
      (split : i.signals = before ++ c :: after) :
      Appends i c g { i with signals := before ++ c.taking g :: after }

/-- What can be taken out of a node: a child node, an interface, or a member of the interface that
has some name. -/
inductive Part where
  | child (n : Node)
  | interface (i : Interface)
  | member (owner : String) (m : Member)

/-- The path of an interface of the node that some names lead to from the root. -/
def interfaceAt (trail : List String) (name : String) : String :=
  match trail with
  | [] => name
  | _ :: _ => "/".intercalate trail ++ ":" ++ name

namespace Part

def kind : Part → ElementKind
  | child _ => .node
  | interface _ => .interface
  | member _ m => m.kind

def location : Part → Location
  | child n => n.location
  | interface i => i.location
  | member _ m => m.location

/-- The path of a part of the node that some names lead to from the root. -/
def path (trail : List String) : Part → String
  | child n => "/".intercalate (trail ++ [n.name.getD ""])
  | interface i => interfaceAt trail i.name
  | member owner m => interfaceAt trail owner ++ "." ++ m.name

end Part

namespace Node

/-- The first node without one of its parts. -/
inductive Lacks (a : Node) : Part → Node → Prop
  | child {before after : List Node} {n : Node} (split : a.nodes = before ++ n :: after) :
      Lacks a (.child n) { a with nodes := before ++ after }
  | interface {before after : List Interface} {i : Interface}
      (split : a.interfaces = before ++ i :: after) :
      Lacks a (.interface i) { a with interfaces := before ++ after }
  | member {before after : List Interface} {i j : Interface} {m : Member}
      (split : a.interfaces = before ++ i :: after) (lacks : i.Lacks m j) :
      Lacks a (.member i.name m) { a with interfaces := before ++ j :: after }

/-- The first node with a further argument of a callable of the interface that has some name. -/
inductive Appends (a : Node) : String → Callable → Argument → Node → Prop
  | member {before after : List Interface} {i j : Interface} {c : Callable} {g : Argument}
      (split : a.interfaces = before ++ i :: after) (appends : i.Appends c g j) :
      Appends a i.name c g { a with interfaces := before ++ j :: after }

/-- Two trees that are the same but for one node, which some names lead to and at which they are
related. -/
inductive Somewhere (R : Node → Node → Prop) : List String → Node → Node → Prop
  | here {a b : Node} (h : R a b) : Somewhere R [] a b
  | within {a c d : Node} {before after : List Node} {name : String} {trail : List String}
      (split : a.nodes = before ++ c :: after) (named : c.name = some name)
      (deeper : Somewhere R trail c d) :
      Somewhere R (name :: trail) a { a with nodes := before ++ d :: after }

theorem Somewhere.name_eq {R : Node → Node → Prop} (keeps : ∀ {a b : Node}, R a b → b.name = a.name)
    {trail : List String} {a b : Node} (h : Somewhere R trail a b) : b.name = a.name := by
  cases h with
  | here h => exact keeps h
  | within _ _ _ => rfl

end Node

/-- What a change is, without its text and its values. -/
def Change.summary (c : Change) : ChangeKind × Category × ChangeCode × String × Location :=
  (c.kind, c.category, c.code, c.path, c.location)

namespace Compare
variable {path : String} {scope : Option String} {s : Subject}

theorem compareAnnotations_self {annotations : Annotations} (distinct : annotations.Distinct) :
    compareAnnotations s annotations annotations = [] :=
  (compareAnnotations_eq_nil_iff distinct).2 (.refl _)

theorem compareDoc_self (doc : Option Documentation) : compareDoc s doc doc = [] :=
  compareDoc_eq_nil_iff.2 rfl

theorem compareEmits_self (value : String) : compareEmits s value value = [] :=
  compareEmits_eq_nil_iff.2 rfl

theorem compareArgument_self {a : Argument} (distinct : a.annotations.Distinct) :
    compareArgument path a a = [] := by
  rw [compareArgument, if_pos rfl, if_pos rfl, compareAnnotations_self distinct, compareDoc_self,
    compareDirection_eq_nil_iff rfl |>.2 rfl]
  rfl

theorem arguments_extended (kind : CallableKind) (path : String) {args : List Argument}
    (distinct : ∀ a ∈ args, a.annotations.Distinct) (more : List Argument) (k : Nat) :
    (compareArguments kind path k args (args ++ more) =
        compareArguments kind path (k + args.length) [] more ∧
      removedArguments path k args (args ++ more) = []) ∧
    compareArguments kind path k (args ++ more) args = [] ∧
      removedArguments path k (args ++ more) args =
        removedArguments path (k + args.length) more [] := by
  induction args generalizing k with
  | nil => cases more with
    | nil => exact ⟨⟨rfl, rfl⟩, rfl, rfl⟩
    | cons a more => exact ⟨⟨rfl, rfl⟩, rfl, rfl⟩
  | cons a args ih =>
      obtain ⟨own, distinct⟩ := List.forall_mem_cons.1 distinct
      obtain ⟨⟨added, kept⟩, unchanged, removed⟩ := ih distinct (k + 1)
      have next : k + (a :: args).length = k + 1 + args.length := by
        rw [List.length_cons, Nat.add_comm args.length, Nat.add_assoc]
      rw [next, ← added, ← removed, List.cons_append, compareArguments, removedArguments,
        compareArguments, removedArguments, compareArgument_self own, kept, unchanged]
      exact ⟨⟨rfl, rfl⟩, rfl, rfl⟩

theorem idle_member {i : Interface} (annotated : i.Annotated) :
    ∀ m ∈ i.declared, Idle (comparedMembers path i.annotations i.annotations)
      (droppedMembers path) m := by
  have callable {path : String} {c : Callable} (h : c.Annotated) :
      compareCallable path c c = [] ∧ removedArguments path 0 c.args c.args = [] := by
    have none := arguments_extended c.kind path h.args [] 0
    rw [List.append_nil] at none
    rw [compareCallable, compareAnnotations_self h.own, compareDoc_self, none.1.1]
    exact ⟨rfl, none.1.2⟩
  have property {path : String} {p : Property} (h : p.annotations.Distinct) :
      compareProperty path i.annotations i.annotations p p = [] :=
    (compareProperty_eq_nil_iff h).2 (.refl i p)
  intro m hm
  rcases Interface.mem_members.1 ((i.members_perm).mem_iff.2 hm) with
    ⟨c, hc, rfl⟩ | ⟨c, hc, rfl⟩ | ⟨p, hp, rfl⟩
  · exact callable (annotated.methods c hc)
  · exact callable (annotated.signals c hc)
  · exact ⟨property (annotated.properties p hp), rfl⟩

theorem betweenInterfaces_perm (path : String) {i j : Interface} (distinct : i.annotations.Distinct)
    (annotations : j.annotations = i.annotations) (doc : j.doc = i.doc) :
    (betweenInterfaces path i j).Perm (j.declared.flatMap (compareMember path i j) ++
      i.declared.flatMap (removedMember path j)) := by
  rw [betweenInterfaces, compareInterface, annotations, doc, compareEmits_self,
    compareAnnotations_self distinct, compareDoc_self]
  exact (j.members_perm.flatMap_right _).append (i.members_perm.flatMap_right _)

theorem declared_lacks {i j : Interface} {m : Member} (h : i.Lacks m j) :
    i.declared.Perm (m :: j.declared) := by
  cases h with
  | method split =>
      simp only [Interface.declared, split, List.map_append, List.map_cons, List.append_assoc,
        List.cons_append]
      exact List.perm_middle
  | signal split =>
      simp only [Interface.declared, split, List.map_append, List.map_cons, List.append_assoc,
        List.cons_append]
      rw [← List.append_assoc, ← List.append_assoc]
      exact List.perm_middle
  | property split =>
      simp only [Interface.declared, split, List.map_append, List.map_cons]
      rw [← List.append_assoc, ← List.append_assoc]
      exact List.perm_middle

/-- Either way the old callable gives way to the new one: both interfaces lack just their own. -/
theorem exists_lacks {i j : Interface} {c : Callable} {g : Argument} (h : i.Appends c g j) :
    ∃ make k, (make = Member.method ∨ make = Member.signal) ∧
      i.Lacks (make c) k ∧ j.Lacks (make (c.taking g)) k := by
  cases h with
  | method split => exact ⟨.method, _, .inl rfl, .method split, .method rfl⟩
  | signal split => exact ⟨.signal, _, .inr rfl, .signal split, .signal rfl⟩

theorem betweenInterfaces_lacks {i j : Interface} {m : Member} (h : i.Lacks m j)
    (distinct : i.NamesDistinct) (annotated : i.Annotated) :
    betweenInterfaces path i j = [.removedElement m.kind (memberPath path m) m.location] ∧
      betweenInterfaces path j i = [.addedElement m.kind (memberPath path m) m.location] := by
  have split := declared_lacks h
  have annotations : j.annotations = i.annotations := by cases h <;> rfl
  have doc : j.doc = i.doc := by cases h <;> rfl
  have idle : ∀ y ∈ j.declared, Idle (comparedMembers path i.annotations i.annotations)
      (droppedMembers path) y :=
    fun y hy => idle_member annotated y (split.mem_iff.2 (List.mem_cons_of_mem m hy))
  have there := passes_members path i j
  have back := passes_members path j i
  rw [annotations] at there back
  obtain ⟨first, second⟩ := there.lost distinct.declared split idle
  obtain ⟨first', second'⟩ := back.gained distinct.declared split idle
  constructor
  · have found := betweenInterfaces_perm path annotated.own annotations doc
    rw [first, second] at found
    exact List.perm_singleton.1 found
  · have found := betweenInterfaces_perm path (annotations ▸ annotated.own)
      annotations.symm doc.symm
    rw [first', second'] at found
    exact List.perm_singleton.1 found

theorem callable_taking (path : String) {c : Callable} (annotated : c.Annotated) (g : Argument) :
    (compareCallable path c (c.taking g) =
        [addedArgument c.kind (argumentPath path g c.args.length) g] ∧
      removedArguments path 0 c.args (c.taking g).args = []) ∧
    compareCallable path (c.taking g) c = [] ∧
      removedArguments path 0 (c.taking g).args c.args =
        [removedArgument (argumentPath path g c.args.length) g] := by
  obtain ⟨⟨added, kept⟩, unchanged, removed⟩ :=
    arguments_extended c.kind path annotated.args [g] 0
  rw [Nat.zero_add] at added removed
  rw [compareCallable, compareCallable]
  simp only [Callable.taking, compareAnnotations_self annotated.own, compareDoc_self]
  exact ⟨⟨added, kept⟩, unchanged, removed⟩

theorem annotated_of_appends {i j : Interface} {c : Callable} {g : Argument} (h : i.Appends c g j)
    (annotated : i.Annotated) : c.Annotated := by
  cases h with
  | method split => exact annotated.methods c (split ▸ List.mem_append_right _ List.mem_cons_self)
  | signal split => exact annotated.signals c (split ▸ List.mem_append_right _ List.mem_cons_self)

theorem betweenInterfaces_appends {i j : Interface} {c : Callable} {g : Argument}
    (h : i.Appends c g j) (distinct : i.NamesDistinct) (annotated : i.Annotated) :
    betweenInterfaces path i j =
        [addedArgument c.kind (argumentPath (path ++ "." ++ c.name) g c.args.length) g] ∧
      betweenInterfaces path j i =
        [removedArgument (argumentPath (path ++ "." ++ c.name) g c.args.length) g] := by
  obtain ⟨make, k, kind, lacks, lacks'⟩ := exists_lacks h
  have own := declared_lacks lacks
  have others := declared_lacks lacks'
  have annotations : j.annotations = i.annotations := by cases h <;> rfl
  have doc : j.doc = i.doc := by cases h <;> rfl
  have key : (make c).key = (make (c.taking g)).key := by rcases kind with rfl | rfl <;> rfl
  have idle : ∀ y ∈ k.declared, Idle (comparedMembers path i.annotations i.annotations)
      (droppedMembers path) y :=
    fun y hy => idle_member annotated y (own.mem_iff.2 (List.mem_cons_of_mem _ hy))
  have compared {d e : Callable} : comparedMembers path i.annotations i.annotations (make d)
      (make e) = compareCallable (path ++ "." ++ e.name) d e := by
    rcases kind with rfl | rfl <;> rfl
  have dropped {d e : Callable} : droppedMembers path (make d) (make e) =
      removedArguments (path ++ "." ++ d.name) 0 d.args e.args := by
    rcases kind with rfl | rfl <;> rfl
  have there := passes_members path i j
  have back := passes_members path j i
  rw [annotations] at there back
  obtain ⟨first, second⟩ := there.replaced distinct.declared own others key idle
  obtain ⟨first', second'⟩ := back.replaced
    (nodup_replaced distinct.declared own others key) others own key.symm idle
  obtain ⟨⟨added, kept⟩, unchanged, removed⟩ :=
    callable_taking (path ++ "." ++ c.name) (annotated_of_appends h annotated) g
  constructor
  · have found := betweenInterfaces_perm path annotated.own annotations doc
    rw [compared, Callable.name_taking, added] at first
    rw [dropped, kept] at second
    exact List.perm_singleton.1 (found.trans (first.append second))
  · have found := betweenInterfaces_perm path (annotations ▸ annotated.own)
      annotations.symm doc.symm
    rw [compared, unchanged] at first'
    rw [dropped, Callable.name_taking, removed] at second'
    exact List.perm_singleton.1 (found.trans (first'.append second'))

theorem betweenInterfaces_self {i : Interface} (distinct : i.NamesDistinct)
    (annotated : i.Annotated) : betweenInterfaces path i i = [] := by
  obtain ⟨first, second⟩ := (passes_members path i i).same distinct.declared (idle_member annotated)
  refine List.perm_nil.1 ((betweenInterfaces_perm path annotated.own rfl rfl).trans ?_)
  rw [first, second]
  exact .refl _

theorem idle_interface (scope : Option String) {n : Node} (named : n.WellNamed)
    (annotated : n.WellAnnotated) : ∀ i ∈ n.interfaces,
      Idle (fun o n => compareInterface (interfacePath scope n) o n)
        (fun o n => o.members.flatMap (removedMember (interfacePath scope o) n)) i :=
  fun i hi => List.append_eq_nil_iff.1
    (betweenInterfaces_self (named.here.members i hi) (annotated.here.2 i hi))

/-- Between nodes with the same notes, only interfaces and child nodes can make a difference. -/
theorem betweenNodes_eq_of_notes (scope : Option String) (a b : Node)
    (distinct : a.annotations.Distinct) (annotations : b.annotations = a.annotations)
    (doc : b.doc = a.doc) :
    betweenNodes scope a b =
      b.interfaces.flatMap (compareOwned scope a) ++ b.nodes.flatMap (compareChild scope a) ++
        (a.interfaces.flatMap (removedOwned scope b) ++
          a.nodes.flatMap (removedChild scope b)) := by
  rw [betweenNodes, compareNode_eq, removedNode_eq, annotations, doc,
    compareAnnotations_self distinct, compareDoc_self]
  rfl

/-- Nothing is found between a node and itself, whether its arguments have directions or not. -/
theorem betweenNodes_self {n : Node} (named : n.WellNamed) (annotated : n.WellAnnotated)
    (scope : Option String) : betweenNodes scope n n = [] := by
  induction n using Node.induction generalizing scope with
  | step n ih =>
      have children : ∀ c ∈ n.nodes,
          Idle (fun o n => compareNode (some (childPath scope (nameOf n))) o n)
            (fun o n => removedNode (some (childPath scope (nameOf o))) n o) c :=
        fun c hc => List.append_eq_nil_iff.1 (ih c hc (named.below hc) (annotated.below hc) _)
      have childNamed := named.here.childNamed
      obtain ⟨first, second⟩ := (passes_interfaces scope n n).same named.here.interfaces
        (idle_interface scope named annotated)
      obtain ⟨first', second'⟩ := (passes_children scope n n childNamed childNamed).same
        named.here.children children
      rw [betweenNodes_eq_of_notes scope n n annotated.here.1 rfl rfl, first, second, first',
        second']
      rfl

theorem idle_child (scope : Option String) {n : Node} (named : n.WellNamed)
    (annotated : n.WellAnnotated) : ∀ c ∈ n.nodes,
      Idle (fun o n => compareNode (some (childPath scope (nameOf n))) o n)
        (fun o n => removedNode (some (childPath scope (nameOf o))) n o) c :=
  fun _ hc => List.append_eq_nil_iff.1 (betweenNodes_self (named.below hc) (annotated.below hc) _)

section Local
variable {a : Node} (named : a.WellNamed) (annotated : a.WellAnnotated) (scope : Option String)
include named annotated

theorem betweenNodes_with_interfaces (l : List Interface) :
    betweenNodes scope a { a with interfaces := l } =
        l.flatMap (compareOwned scope a) ++
          a.interfaces.flatMap (removedOwned scope { a with interfaces := l }) ∧
      betweenNodes scope { a with interfaces := l } a =
        a.interfaces.flatMap (compareOwned scope { a with interfaces := l }) ++
          l.flatMap (removedOwned scope a) := by
  obtain ⟨first, second⟩ := (passes_children scope a a named.here.childNamed
    named.here.childNamed).same named.here.children (idle_child scope named annotated)
  have first' : a.nodes.flatMap (compareChild scope { a with interfaces := l }) = [] := first
  have second' : a.nodes.flatMap (removedChild scope { a with interfaces := l }) = [] := second
  constructor
  · rw [betweenNodes_eq_of_notes scope a { a with interfaces := l } annotated.here.1 rfl rfl]
    rw [first, second', List.append_nil, List.append_nil]
  · rw [betweenNodes_eq_of_notes scope { a with interfaces := l } a annotated.here.1 rfl rfl]
    rw [first', second, List.append_nil, List.append_nil]

theorem betweenNodes_with_nodes (l : List Node) :
    betweenNodes scope a { a with nodes := l } =
        l.flatMap (compareChild scope a) ++
          a.nodes.flatMap (removedChild scope { a with nodes := l }) ∧
      betweenNodes scope { a with nodes := l } a =
        a.nodes.flatMap (compareChild scope { a with nodes := l }) ++
          l.flatMap (removedChild scope a) := by
  obtain ⟨first, second⟩ := (passes_interfaces scope a a).same named.here.interfaces
    (idle_interface scope named annotated)
  have first' : a.interfaces.flatMap (compareOwned scope { a with nodes := l }) = [] := first
  have second' : a.interfaces.flatMap (removedOwned scope { a with nodes := l }) = [] := second
  constructor
  · rw [betweenNodes_eq_of_notes scope a { a with nodes := l } annotated.here.1 rfl rfl]
    rw [first, second', List.nil_append, List.nil_append]
  · rw [betweenNodes_eq_of_notes scope { a with nodes := l } a annotated.here.1 rfl rfl]
    rw [first', second, List.nil_append, List.nil_append]

theorem betweenNodes_interface_lost {before after : List Interface} {i : Interface}
    (split : a.interfaces = before ++ i :: after) :
    betweenNodes scope a { a with interfaces := before ++ after } =
        [.removedElement .interface (interfacePath scope i) i.location] ∧
      betweenNodes scope { a with interfaces := before ++ after } a =
        [.addedElement .interface (interfacePath scope i) i.location] := by
  have apart : a.interfaces.Perm (i :: (before ++ after)) := split ▸ List.perm_middle
  have idle := fun j hj => idle_interface scope named annotated j
    (apart.mem_iff.2 (List.mem_cons_of_mem i hj))
  obtain ⟨first, second⟩ := (passes_interfaces scope a
    { a with interfaces := before ++ after }).lost named.here.interfaces apart idle
  obtain ⟨first', second'⟩ := (passes_interfaces scope
    { a with interfaces := before ++ after } a).gained named.here.interfaces apart idle
  obtain ⟨there, back⟩ := betweenNodes_with_interfaces named annotated scope (before ++ after)
  rw [there, back, first, second, first', second']
  exact ⟨rfl, rfl⟩

theorem betweenNodes_child_lost {before after : List Node} {n : Node}
    (split : a.nodes = before ++ n :: after) :
    betweenNodes scope a { a with nodes := before ++ after } =
        [.removedElement .node (childPath scope (nameOf n)) n.location] ∧
      betweenNodes scope { a with nodes := before ++ after } a =
        [.addedElement .node (childPath scope (nameOf n)) n.location] := by
  have apart : a.nodes.Perm (n :: (before ++ after)) := split ▸ List.perm_middle
  have known {c : Node} (hc : c ∈ before ++ after) : c ∈ a.nodes :=
    apart.mem_iff.2 (List.mem_cons_of_mem n hc)
  have childNamed : ∀ c ∈ before ++ after, c.name.isSome :=
    fun c hc => named.here.childNamed c (known hc)
  have idle := fun c hc => idle_child scope named annotated c (known hc)
  obtain ⟨first, second⟩ := (passes_children scope a { a with nodes := before ++ after }
    named.here.childNamed childNamed).lost named.here.children apart idle
  obtain ⟨first', second'⟩ := (passes_children scope { a with nodes := before ++ after } a
    childNamed named.here.childNamed).gained named.here.children apart idle
  obtain ⟨there, back⟩ := betweenNodes_with_nodes named annotated scope (before ++ after)
  rw [there, back, first, second, first', second']
  exact ⟨rfl, rfl⟩

/-- Where an interface gives way to one of its name, all that is found is found between the two. -/
theorem betweenNodes_interface_replaced {before after : List Interface} {i j : Interface}
    (split : a.interfaces = before ++ i :: after) (name : j.name = i.name) :
    (betweenNodes scope a { a with interfaces := before ++ j :: after }).Perm
        (betweenInterfaces (interfacePath scope i) i j) ∧
      (betweenNodes scope { a with interfaces := before ++ j :: after } a).Perm
        (betweenInterfaces (interfacePath scope i) j i) := by
  have own : a.interfaces.Perm (i :: (before ++ after)) := split ▸ List.perm_middle
  have others : (before ++ j :: after).Perm (j :: (before ++ after)) := List.perm_middle
  have idle := fun k hk => idle_interface scope named annotated k
    (own.mem_iff.2 (List.mem_cons_of_mem i hk))
  have path : interfacePath scope j = interfacePath scope i := by
    rw [interfacePath, interfacePath, name]
  have distinct := nodup_replaced named.here.interfaces own others name.symm
  obtain ⟨first, second⟩ := (passes_interfaces scope a
    { a with interfaces := before ++ j :: after }).replaced named.here.interfaces own others
      name.symm idle
  obtain ⟨first', second'⟩ := (passes_interfaces scope
    { a with interfaces := before ++ j :: after } a).replaced distinct others own name idle
  obtain ⟨there, back⟩ := betweenNodes_with_interfaces named annotated scope (before ++ j :: after)
  rw [there, back]
  rw [path] at first second'
  exact ⟨first.append second, first'.append second'⟩

/-- Where a child node gives way to one of its name, all that is found is found between the two. -/
theorem betweenNodes_child_replaced {before after : List Node} {c d : Node}
    (split : a.nodes = before ++ c :: after) (name : d.name = c.name) :
    (betweenNodes scope a { a with nodes := before ++ d :: after }).Perm
        (betweenNodes (some (childPath scope (nameOf c))) c d) ∧
      (betweenNodes scope { a with nodes := before ++ d :: after } a).Perm
        (betweenNodes (some (childPath scope (nameOf c))) d c) := by
  have own : a.nodes.Perm (c :: (before ++ after)) := split ▸ List.perm_middle
  have others : (before ++ d :: after).Perm (d :: (before ++ after)) := List.perm_middle
  have known {e : Node} (he : e ∈ before ++ after) : e ∈ a.nodes :=
    own.mem_iff.2 (List.mem_cons_of_mem c he)
  have idle := fun e he => idle_child scope named annotated e (known he)
  have path : nameOf d = nameOf c := by rw [nameOf, nameOf, name]
  have distinct := nodup_replaced named.here.children own others name.symm
  have childNamed : ∀ e ∈ before ++ d :: after, e.name.isSome := by
    intro e he
    rcases List.mem_cons.1 (others.mem_iff.1 he) with rfl | he
    · exact name ▸ named.here.childNamed c (own.mem_iff.2 List.mem_cons_self)
    · exact named.here.childNamed e (known he)
  obtain ⟨first, second⟩ := (passes_children scope a { a with nodes := before ++ d :: after }
    named.here.childNamed childNamed).replaced named.here.children own others name.symm idle
  obtain ⟨first', second'⟩ := (passes_children scope { a with nodes := before ++ d :: after } a
    childNamed named.here.childNamed).replaced distinct others own name idle
  obtain ⟨there, back⟩ := betweenNodes_with_nodes named annotated scope (before ++ d :: after)
  rw [there, back]
  rw [path] at first second'
  exact ⟨first.append second, first'.append second'⟩

end Local

/-- The path of the node that some names lead to from the root, which has none itself. -/
def scopeAt : List String → Option String
  | [] => none
  | name :: trail => some ("/".intercalate (name :: trail))

theorem childPath_scopeAt (trail : List String) (name : String) :
    childPath (scopeAt trail) name = "/".intercalate (trail ++ [name]) := by
  cases trail with
  | nil => exact String.intercalate_singleton.symm
  | cons first trail =>
      rw [String.intercalate_append_of_ne_nil (List.cons_ne_nil _ _) (List.cons_ne_nil _ _),
        String.intercalate_singleton]
      rfl

theorem scopeAt_concat (trail : List String) (name : String) :
    scopeAt (trail ++ [name]) = some (childPath (scopeAt trail) name) := by
  rw [childPath_scopeAt]
  cases trail with
  | nil => rfl
  | cons first trail => rfl

theorem interfacePath_scopeAt (trail : List String) (i : Interface) :
    interfacePath (scopeAt trail) i = interfaceAt trail i.name := by
  cases trail with
  | nil => exact String.empty_append
  | cons first trail => rfl

section Edits
variable {a b : Node} (named : a.WellNamed) (annotated : a.WellAnnotated) {trail : List String}
include named annotated

theorem betweenNodes_lacks {e : Part} (h : a.Lacks e b) (trail : List String) :
    betweenNodes (scopeAt trail) a b = [.removedElement e.kind (e.path trail) e.location] ∧
      betweenNodes (scopeAt trail) b a = [.addedElement e.kind (e.path trail) e.location] := by
  cases h with
  | child split =>
      have found := betweenNodes_child_lost named annotated (scopeAt trail) split
      rwa [childPath_scopeAt] at found
  | interface split =>
      have found := betweenNodes_interface_lost named annotated (scopeAt trail) split
      rwa [interfacePath_scopeAt] at found
  | @member before after i j m split lacks =>
      have hi : i ∈ a.interfaces := split ▸ List.mem_append_right _ List.mem_cons_self
      have name : j.name = i.name := by cases lacks <;> rfl
      obtain ⟨there, back⟩ :=
        betweenNodes_interface_replaced named annotated (scopeAt trail) split name
      obtain ⟨removed, added⟩ := betweenInterfaces_lacks lacks (named.here.members i hi)
        (annotated.here.2 i hi)
      rw [removed, interfacePath_scopeAt] at there
      rw [added, interfacePath_scopeAt] at back
      exact ⟨List.perm_singleton.1 there, List.perm_singleton.1 back⟩

theorem betweenNodes_appends {owner : String} {c : Callable} {g : Argument}
    (h : a.Appends owner c g b) (trail : List String) :
    betweenNodes (scopeAt trail) a b = [addedArgument c.kind
        (argumentPath (interfaceAt trail owner ++ "." ++ c.name) g c.args.length) g] ∧
      betweenNodes (scopeAt trail) b a = [removedArgument
        (argumentPath (interfaceAt trail owner ++ "." ++ c.name) g c.args.length) g] := by
  cases h with
  | @member before after i j _ _ split appends =>
      have hi : i ∈ a.interfaces := split ▸ List.mem_append_right _ List.mem_cons_self
      have name : j.name = i.name := by cases appends <;> rfl
      obtain ⟨there, back⟩ :=
        betweenNodes_interface_replaced named annotated (scopeAt trail) split name
      obtain ⟨added, removed⟩ := betweenInterfaces_appends appends (named.here.members i hi)
        (annotated.here.2 i hi)
      rw [added, interfacePath_scopeAt] at there
      rw [removed, interfacePath_scopeAt] at back
      exact ⟨List.perm_singleton.1 there, List.perm_singleton.1 back⟩

/-- What is found at one node is all that is found between two trees that differ there alone. -/
theorem betweenNodes_somewhere {R : Node → Node → Prop} {there back : List String → Change}
    (keeps : ∀ {a b : Node}, R a b → b.name = a.name)
    (own : ∀ {a b : Node}, a.WellNamed → a.WellAnnotated → R a b → ∀ trail,
      betweenNodes (scopeAt trail) a b = [there trail] ∧
        betweenNodes (scopeAt trail) b a = [back trail])
    (h : Node.Somewhere R trail a b) (outer : List String) :
    betweenNodes (scopeAt outer) a b = [there (outer ++ trail)] ∧
      betweenNodes (scopeAt outer) b a = [back (outer ++ trail)] := by
  induction h generalizing outer with
  | here h =>
      rw [List.append_nil]
      exact own named annotated h outer
  | @within a c d before after name trail split label deeper ih =>
      have hc : c ∈ a.nodes := split ▸ List.mem_append_right _ List.mem_cons_self
      obtain ⟨first, second⟩ := betweenNodes_child_replaced named annotated (scopeAt outer) split
        (deeper.name_eq keeps)
      obtain ⟨found, found'⟩ := ih (named.below hc) (annotated.below hc) (outer ++ [name])
      have scope : some (childPath (scopeAt outer) (nameOf c)) = scopeAt (outer ++ [name]) := by
        rw [scopeAt_concat, nameOf, label, Option.getD_some]
      rw [scope, found, List.append_assoc] at first
      rw [scope, found', List.append_assoc] at second
      exact ⟨List.perm_singleton.1 first, List.perm_singleton.1 second⟩

end Edits

end Compare

open Compare in
/-- One edit is one change. When a part is taken out of a tree, wherever it stands, its removal is
all that is found, and its addition the other way round. When a callable takes a further argument,
this argument's addition is all that is found, and its removal the other way round. -/
theorem one_edit_one_change {a : Node} (named : a.WellNamed) (annotated : a.WellAnnotated) :
    (∀ trail e b, Node.Somewhere (fun m n => m.Lacks e n) trail a b →
      (compare a b).map Change.summary =
          [(.removed, .backwards, .removed e.kind, e.path trail, e.location)] ∧
        (compare b a).map Change.summary =
          [(.added, .info, .added e.kind, e.path trail, e.location)]) ∧
    ∀ trail owner c g b, Node.Somewhere (fun m n => m.Appends owner c g n) trail a b →
      (compare a b).map Change.summary =
          [(.added, if c.kind = .method ∧ g.direction = some .output then .backwards else .forwards,
            .added .argument, interfaceAt trail owner ++ "." ++ c.name ++ "." ++
              g.name.getD (toString c.args.length), g.location)] ∧
        (compare b a).map Change.summary =
          [(.removed, .backwards, .removed .argument, interfaceAt trail owner ++ "." ++ c.name ++
            "." ++ g.name.getD (toString c.args.length), g.location)] := by
  constructor
  · intro trail e b h
    have keeps {m n : Node} (h : m.Lacks e n) : n.name = m.name := by cases h <;> rfl
    obtain ⟨removed, added⟩ := betweenNodes_somewhere named annotated keeps
      (fun named annotated h => betweenNodes_lacks named annotated h) h []
    exact ⟨congrArg (List.map Change.summary) removed, congrArg (List.map Change.summary) added⟩
  · intro trail owner c g b h
    have keeps {m n : Node} (h : m.Appends owner c g n) : n.name = m.name := by cases h; rfl
    obtain ⟨added, removed⟩ := betweenNodes_somewhere named annotated keeps
      (fun named annotated h => betweenNodes_appends named annotated h) h []
    exact ⟨congrArg (List.map Change.summary) added, congrArg (List.map Change.summary) removed⟩

def scan : Callable where
  kind := .method
  name := "Scan"
  location := ⟨5, 7⟩

def tune : Callable where
  kind := .method
  name := "Tune"
  args := [{ name := some "frequency", type := .ofText "d", direction := some .input }]

def station : Argument where
  type := .ofText "s"
  direction := some .output
  location := ⟨8, 9⟩

def tunerWith (methods : List Callable) : Node where
  name := some "tuner"
  interfaces := [{
    name := "o.Tuner"
    methods
    signals := [{ kind := .signal, name := "Tune" }]
    properties := [{ name := "Scan", type := .ofText "b", access := .read }]
    annotations := ⟨[⟨AnnotationName.emitsChanged, "const", {}⟩]⟩ }]

/-- A radio with a tuner in its front. -/
def radioWith (methods : List Callable) : Node where
  nodes := [{ name := some "front", nodes := [tunerWith methods] }]

/-- A tuner that does not scan any more, and one that tells which station it has tuned to. -/
theorem radio_edits :
    ((radioWith [scan, tune]).WellNamed ∧ (radioWith [scan, tune]).WellAnnotated) ∧
    (compare (radioWith [scan, tune]) (radioWith [tune])).map Change.summary =
      [(.removed, .backwards, .removed .method, "front/tuner:o.Tuner.Scan", ⟨5, 7⟩)] ∧
    (compare (radioWith [scan, tune]) (radioWith [scan, tune.taking station])).map Change.summary =
      [(.added, .backwards, .added .argument, "front/tuner:o.Tuner.Tune.1", ⟨8, 9⟩)] := by
  have named : (radioWith [scan, tune]).WellNamed := by decide
  have annotated : (radioWith [scan, tune]).WellAnnotated := by decide
  have single {α : Type} (x : α) : [x] = [] ++ x :: [] := rfl
  have deep {R : Node → Node → Prop} {methods methods' : List Callable}
      (h : R (tunerWith methods) (tunerWith methods')) :
      Node.Somewhere R ["front", "tuner"] (radioWith methods) (radioWith methods') :=
    have front : Node.Somewhere R ["tuner"] { name := some "front", nodes := [tunerWith methods] }
        { name := some "front", nodes := [tunerWith methods'] } :=
      Node.Somewhere.within (a := { name := some "front", nodes := [tunerWith methods] })
        (single _) rfl (.here h)
    Node.Somewhere.within (a := radioWith methods) (single _) rfl front
  have lacks : (tunerWith [scan, tune]).Lacks (.member "o.Tuner" (.method scan))
      (tunerWith [tune]) :=
    Node.Lacks.member (a := tunerWith [scan, tune]) (single _)
      (@Interface.Lacks.method _ [] [tune] scan rfl)
  have appends : (tunerWith [scan, tune]).Appends "o.Tuner" tune station
      (tunerWith [scan, tune.taking station]) :=
    Node.Appends.member (a := tunerWith [scan, tune]) (single _)
      (@Interface.Appends.method _ [scan] [] tune station rfl)
  obtain ⟨lost, -⟩ := (one_edit_one_change named annotated).1 _ _ _ (deep lacks)
  obtain ⟨gained, -⟩ := (one_edit_one_change named annotated).2 _ _ _ _ _ (deep appends)
  refine ⟨⟨named, annotated⟩, ?_, ?_⟩
  · rw [lost]
    decide +kernel
  · rw [gained]
    decide +kernel

end ApiDrift
