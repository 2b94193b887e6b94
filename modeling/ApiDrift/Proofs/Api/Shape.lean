import ApiDrift.Api.Member
import ApiDrift.Proofs.Api.Annotation
import ApiDrift.Text.Blank
/-! The shape of descriptions that are read from documents: names within a kind do not repeat,
child nodes are named, arguments of methods have a direction and those of signals none, types
are read off their texts and documentation is not blank. -/
namespace ApiDrift

/-- The members kind by kind. -/
def Interface.declared (i : Interface) : List Member :=
  i.methods.map .method ++ i.signals.map .signal ++ i.properties.map .property

theorem Interface.members_perm (i : Interface) : i.members.Perm i.declared :=
  List.mergeSort_perm _ _

/-- No two methods, no two signals and no two properties have one name. -/
structure Interface.NamesDistinct (i : Interface) : Prop where
  methods : (i.methods.map Callable.name).Nodup
  signals : (i.signals.map Callable.name).Nodup
  properties : (i.properties.map Property.name).Nodup

instance (i : Interface) : Decidable i.NamesDistinct :=
  decidable_of_iff ((i.methods.map Callable.name).Nodup ∧ (i.signals.map Callable.name).Nodup ∧
      (i.properties.map Property.name).Nodup)
    ⟨fun h => ⟨h.1, h.2.1, h.2.2⟩, fun h => ⟨h.methods, h.signals, h.properties⟩⟩

/-- Interfaces, child nodes and members can be told apart by their names. -/
structure Node.NamesDistinct (n : Node) : Prop where
  interfaces : (n.interfaces.map Interface.name).Nodup
  children : (n.nodes.map Node.name).Nodup
  childNamed : ∀ c ∈ n.nodes, c.name.isSome
  members : ∀ i ∈ n.interfaces, i.NamesDistinct

instance : DecidablePred Node.NamesDistinct := fun n =>
  decidable_of_iff ((n.interfaces.map Interface.name).Nodup ∧ (n.nodes.map Node.name).Nodup ∧
      (∀ c ∈ n.nodes, c.name.isSome) ∧ ∀ i ∈ n.interfaces, i.NamesDistinct)
    ⟨fun h => ⟨h.1, h.2.1, h.2.2.1, h.2.2.2⟩,
      fun h => ⟨h.interfaces, h.children, h.childNamed, h.members⟩⟩

/-- At every depth names tell elements apart. -/
def Node.WellNamed (n : Node) : Prop := n.Everywhere Node.NamesDistinct

instance (n : Node) : Decidable n.WellNamed :=
  inferInstanceAs (Decidable (n.Everywhere Node.NamesDistinct))

/-- Arguments of methods have a direction, those of signals have none. -/
def Argument.Directed (kind : CallableKind) (a : Argument) : Prop :=
  match kind with
  | .method => a.direction.isSome
  | .signal => a.direction = none

instance (kind : CallableKind) (a : Argument) : Decidable (a.Directed kind) :=
  match kind with
  | .method => inferInstanceAs (Decidable (a.direction.isSome = true))
  | .signal => inferInstanceAs (Decidable (a.direction = none))

theorem Argument.Directed.isSome_eq {kind : CallableKind} {o n : Argument} (ho : o.Directed kind)
    (hn : n.Directed kind) : o.direction.isSome = n.direction.isSome := by
  cases kind with
  | method => exact Eq.trans ho (Eq.symm hn)
  | signal => rw [show o.direction = none from ho, show n.direction = none from hn]

/-- A callable of a kind with arguments as the kind has them. -/
structure Callable.Directed (kind : CallableKind) (c : Callable) : Prop where
  kind_eq : c.kind = kind
  args : ∀ a ∈ c.args, a.Directed kind

instance (kind : CallableKind) (c : Callable) : Decidable (c.Directed kind) :=
  decidable_of_iff (c.kind = kind ∧ ∀ a ∈ c.args, a.Directed kind)
    ⟨fun h => ⟨h.1, h.2⟩, fun h => ⟨h.kind_eq, h.args⟩⟩

/-- Methods stand among the methods and signals among the signals. -/
structure Interface.Directed (i : Interface) : Prop where
  methods : ∀ m ∈ i.methods, m.Directed .method
  signals : ∀ s ∈ i.signals, s.Directed .signal

instance (i : Interface) : Decidable i.Directed :=
  decidable_of_iff ((∀ m ∈ i.methods, m.Directed .method) ∧ ∀ s ∈ i.signals, s.Directed .signal)
    ⟨fun h => ⟨h.1, h.2⟩, fun h => ⟨h.methods, h.signals⟩⟩

/-- At every depth callables and their arguments are as their kinds have them. -/
def Node.WellDirected (n : Node) : Prop :=
  n.Everywhere fun m => ∀ i ∈ m.interfaces, i.Directed

instance (n : Node) : Decidable n.WellDirected :=
  inferInstanceAs (Decidable (n.Everywhere fun m => ∀ i ∈ m.interfaces, i.Directed))

/-- A callable whose annotations, and those of its arguments, have different names. -/
structure Callable.Annotated (c : Callable) : Prop where
  own : c.annotations.Distinct
  args : ∀ a ∈ c.args, a.annotations.Distinct

instance (c : Callable) : Decidable c.Annotated :=
  decidable_of_iff (c.annotations.Distinct ∧ ∀ a ∈ c.args, a.annotations.Distinct)
    ⟨fun h => ⟨h.1, h.2⟩, fun h => ⟨h.own, h.args⟩⟩

/-- On an interface and on all parts of it annotations have different names. -/
structure Interface.Annotated (i : Interface) : Prop where
  own : i.annotations.Distinct
  methods : ∀ m ∈ i.methods, m.Annotated
  signals : ∀ s ∈ i.signals, s.Annotated
  properties : ∀ p ∈ i.properties, p.annotations.Distinct

instance (i : Interface) : Decidable i.Annotated :=
  decidable_of_iff (i.annotations.Distinct ∧ (∀ m ∈ i.methods, m.Annotated) ∧
      (∀ s ∈ i.signals, s.Annotated) ∧ ∀ p ∈ i.properties, p.annotations.Distinct)
    ⟨fun h => ⟨h.1, h.2.1, h.2.2.1, h.2.2.2⟩,
      fun h => ⟨h.own, h.methods, h.signals, h.properties⟩⟩

/-- On every element at every depth annotations have different names. -/
def Node.WellAnnotated (n : Node) : Prop :=
  n.Everywhere fun m => m.annotations.Distinct ∧ ∀ i ∈ m.interfaces, i.Annotated

instance (n : Node) : Decidable n.WellAnnotated :=
  inferInstanceAs (Decidable (n.Everywhere fun m =>
    m.annotations.Distinct ∧ ∀ i ∈ m.interfaces, i.Annotated))

/-- A type that was read off its own text. -/
def DeclaredType.Faithful (t : DeclaredType) : Prop := t.parsed = Signature.parse t.text

/-- Documentation that says something, unless a comment is all there was. -/
def Documentation.Written (d : Documentation) : Prop :=
  d.source = .annotated ∨ d.source = .element → Text.trim d.text ≠ ""

/-- Annotations of different names, and documentation that says something. -/
structure WellNoted (annotations : Annotations) (doc : Option Documentation) : Prop where
  distinct : annotations.Distinct
  written : ∀ d ∈ doc, d.Written

structure Argument.Sound (kind : CallableKind) (a : Argument) : Prop where
  directed : a.Directed kind
  type : a.type.Faithful
  noted : WellNoted a.annotations a.doc

structure Callable.Sound (kind : CallableKind) (c : Callable) : Prop where
  kind_eq : c.kind = kind
  args : ∀ a ∈ c.args, a.Sound kind
  noted : WellNoted c.annotations c.doc

structure Property.Sound (p : Property) : Prop where
  type : p.type.Faithful
  noted : WellNoted p.annotations p.doc

structure Interface.Sound (i : Interface) : Prop where
  names : i.NamesDistinct
  methods : ∀ m ∈ i.methods, m.Sound .method
  signals : ∀ s ∈ i.signals, s.Sound .signal
  properties : ∀ p ∈ i.properties, p.Sound
  noted : WellNoted i.annotations i.doc

/-- All that holds of a node that was read, its children apart. -/
structure Node.SoundHere (n : Node) : Prop where
  interfaceNames : (n.interfaces.map Interface.name).Nodup
  childNames : (n.nodes.map Node.name).Nodup
  childNamed : ∀ c ∈ n.nodes, c.name.isSome
  interfaces : ∀ i ∈ n.interfaces, i.Sound
  noted : WellNoted n.annotations n.doc

/-- All that holds of a description that was read, at every depth. -/
def Node.Sound (n : Node) : Prop := n.Everywhere Node.SoundHere

theorem Callable.Sound.toDirected {kind : CallableKind} {c : Callable} (h : c.Sound kind) :
    c.Directed kind := ⟨h.kind_eq, fun a ha => (h.args a ha).directed⟩

theorem Callable.Sound.toAnnotated {kind : CallableKind} {c : Callable} (h : c.Sound kind) :
    c.Annotated := ⟨h.noted.distinct, fun a ha => (h.args a ha).noted.distinct⟩

theorem Node.Sound.wellNamed {n : Node} (h : n.Sound) : n.WellNamed := by
  refine h.mono fun _ here => ⟨here.interfaceNames, here.childNames, here.childNamed, ?_⟩
  intro i hi
  exact (here.interfaces i hi).names

theorem Node.Sound.wellDirected {n : Node} (h : n.Sound) : n.WellDirected := by
  refine h.mono fun _ here i hi => ?_
  have sound := here.interfaces i hi
  exact ⟨fun m hm => (sound.methods m hm).toDirected, fun s hs => (sound.signals s hs).toDirected⟩

theorem Node.Sound.wellAnnotated {n : Node} (h : n.Sound) : n.WellAnnotated := by
  refine h.mono fun _ here => ⟨here.noted.distinct, fun i hi => ?_⟩
  have sound := here.interfaces i hi
  exact ⟨sound.noted.distinct, fun m hm => (sound.methods m hm).toAnnotated,
    fun s hs => (sound.signals s hs).toAnnotated,
    fun p hp => (sound.properties p hp).noted.distinct⟩

end ApiDrift
