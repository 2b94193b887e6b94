import ApiDrift.Proofs.Change.Pass
/-! The elements of a description with the paths under which a comparison reports them. Every change
is found at an element of the new version, or it is the loss of an element of the old one. -/
namespace ApiDrift
open Compare

/-- An element at its path, with what can change about it. -/
structure Site where
  kind : ElementKind
  path : String
  location : Location
  annotations : Annotations
  doc : Option Documentation

def Site.subject (s : Site) : Subject := ⟨s.kind, s.path, s.location⟩

def Argument.site (path : String) (a : Argument) : Site :=
  ⟨.argument, path, a.location, a.annotations, a.doc⟩

/-- Arguments from a position on. -/
def argumentSites (path : String) (position : Nat) : List Argument → List Site
  | [] => []
  | a :: rest => a.site (argumentPath path a position) :: argumentSites path (position + 1) rest

/-- A callable among those of a kind, and its arguments. -/
def Callable.sites (kind : ElementKind) (path : String) (c : Callable) : List Site :=
  ⟨kind, path, c.location, c.annotations, c.doc⟩ :: argumentSites path 0 c.args

def Property.site (path : String) (p : Property) : Site :=
  ⟨.property, path, p.location, p.annotations, p.doc⟩

def Member.sites (path : String) (m : Member) : List Site :=
  match m with
  | .method c => c.sites .method (memberPath path m)
  | .signal c => c.sites .signal (memberPath path m)
  | .property p => [p.site (memberPath path m)]

def Interface.sites (path : String) (i : Interface) : List Site :=
  ⟨.interface, path, i.location, i.annotations, i.doc⟩ :: i.members.flatMap (Member.sites path)

mutual

/-- A node whose path below the root is `scope`, and all that is in it. -/
def Node.sitesIn (scope : Option String) : Node → List Site
  | ⟨name, interfaces, nodes, annotations, doc, location⟩ =>
    ⟨.node, (scope.or name).getD "/", location, annotations, doc⟩ ::
      (interfaces.flatMap (fun i => i.sites (interfacePath scope i)) ++ Node.sitesBelow scope nodes)

def Node.sitesBelow (scope : Option String) : List Node → List Site
  | [] => []
  | child :: rest =>
    child.sitesIn (some (childPath scope (nameOf child))) ++ Node.sitesBelow scope rest

end

/-- All elements of a description. -/
def Node.sites (n : Node) : List Site := n.sitesIn none

theorem Node.mem_sitesBelow {scope : Option String} {s : Site} {l : List Node} :
    s ∈ Node.sitesBelow scope l ↔
      ∃ c ∈ l, s ∈ c.sitesIn (some (childPath scope (nameOf c))) := by
  induction l with
  | nil => simp only [Node.sitesBelow, List.not_mem_nil, false_and, exists_false]
  | cons c rest ih =>
      simp only [Node.sitesBelow, List.mem_append, ih, List.mem_cons, exists_eq_or_imp]

theorem Node.mem_sitesIn {scope : Option String} {s : Site} {n : Node} :
    s ∈ n.sitesIn scope ↔
      s = ⟨.node, (scope.or n.name).getD "/", n.location, n.annotations, n.doc⟩ ∨
      (∃ i ∈ n.interfaces, s ∈ i.sites (interfacePath scope i)) ∨
      ∃ c ∈ n.nodes, s ∈ c.sitesIn (some (childPath scope (nameOf c))) := by
  cases n with
  | mk name interfaces nodes annotations doc location =>
      simp only [Node.sitesIn, List.mem_cons, List.mem_append, List.mem_flatMap,
        Node.mem_sitesBelow]

theorem Direction.text_injective : Function.Injective Direction.text := by
  intro d e same
  cases d <;> cases e <;> first | rfl | exact absurd same (by decide)

theorem Access.text_injective : Function.Injective Access.text := by
  intro a b same
  cases a <;> cases b <;> first | rfl | exact absurd same (by decide)

/-- The code of an attribute that has changed from one value to another. Codes that name values name
these. -/
def ChangeCode.OfAttribute : ChangeCode → Option String → Option String → Prop
  | argumentDirection x y, old, new => old = some x.text ∧ new = some y.text
  | propertyAccess x y, old, new => old = some x.text ∧ new = some y.text
  | emitsChanged x y, old, new => old = some x ∧ new = some y
  | argumentName, _, _ => True
  | argumentType, _, _ => True
  | propertyType, _, _ => True
  | _, _, _ => False

/-- A change that is found at an element of the new version: that it came, that one of its
attributes has changed, or what is noted about it. -/
inductive Site.Finds (s : Site) : Change → Prop
  | element : Finds s (.addedElement s.kind s.path s.location)
  | argument {kind : CallableKind} {a : Argument} (same : s.kind = .argument)
      (location : a.location = s.location) : Finds s (addedArgument kind s.path a)
  | altered {category : Category} {code : ChangeCode} {old new : Option String} {what : String}
      (differ : old ≠ new) (own : code.OfAttribute old new) :
      Finds s (s.subject.change .modified category code old new what)
  | annotations {old : Annotations} {c : Change}
      (h : c ∈ compareAnnotations s.subject old s.annotations) : Finds s c
  | doc {old : Option Documentation} {c : Change} (h : c ∈ compareDoc s.subject old s.doc) :
      Finds s c

/-- The loss of an element of the old version. -/
inductive Site.Loses (s : Site) : Change → Prop
  | element : Loses s (.removedElement s.kind s.path s.location)
  | argument {a : Argument} (same : s.kind = .argument) (location : a.location = s.location) :
      Loses s (removedArgument s.path a)

namespace Compare
variable {c : Change} {path : String} {scope : Option String}

theorem mem_unless_iff {p : Prop} [Decidable p] {d : Change} :
    c ∈ (if p then [] else [d]) ↔ ¬p ∧ c = d := by
  split
  · next unchanged => simp [unchanged]
  · next changed => simp [changed]

/-- What a look-up leads to, the element with the key or what stands for its absence. -/
theorem mem_elim {α : Type} {x : Option α} {missing : Change} {f : α → List Change}
    (h : c ∈ x.elim [missing] f) : c = missing ∨ ∃ a, x = some a ∧ c ∈ f a := by
  cases x with
  | none => exact .inl (List.mem_singleton.1 h)
  | some a => exact .inr ⟨a, rfl, h⟩

theorem finds_attribute {s : Site} {p : Prop} [Decidable p] {category : Category}
    {code : ChangeCode} {old new : Option String} {what : String}
    (h : c ∈ if p then [] else [s.subject.change .modified category code old new what])
    (differ : old = new → p) (own : code.OfAttribute old new) : s.Finds c := by
  obtain ⟨changed, rfl⟩ := mem_unless_iff.1 h
  exact .altered (fun same => changed (differ same)) own

theorem finds_direction {s : Site} {o n : Option Direction}
    (h : c ∈ compareDirection s.subject o n) : s.Finds c := by
  unfold compareDirection at h
  split at h
  · refine finds_attribute h (fun same => ?_) ⟨rfl, rfl⟩
    exact Direction.text_injective (Option.some_inj.1 same)
  · exact absurd h List.not_mem_nil

theorem finds_emits {s : Site} {o n : String} (h : c ∈ compareEmits s.subject o n) :
    s.Finds c :=
  finds_attribute h Option.some_inj.1 ⟨rfl, rfl⟩

theorem finds_access {s : Site} {o n : Access} (h : c ∈ compareAccess s.subject o n) :
    s.Finds c := by
  refine finds_attribute h (fun same => ?_) ⟨rfl, rfl⟩
  exact Access.text_injective (Option.some_inj.1 same)

theorem finds_argument {o n : Argument} (h : c ∈ compareArgument path o n) :
    (n.site path).Finds c := by
  simp only [compareArgument, List.mem_append] at h
  rcases h with (((h | h) | h) | h) | h
  · exact finds_attribute h id trivial
  · exact finds_attribute h Option.some_inj.1 trivial
  · exact finds_direction h
  · exact .annotations h
  · exact .doc h

theorem exists_finds_arguments {kind : CallableKind} {k : Nat} {old new : List Argument}
    (h : c ∈ compareArguments kind path k old new) :
    ∃ s ∈ argumentSites path k new, s.Finds c := by
  induction new generalizing old k with
  | nil =>
      rw [compareArguments] at h
      exact absurd h List.not_mem_nil
  | cons a rest ih =>
      have own {d : Change} (found : (a.site (argumentPath path a k)).Finds d) :
          ∃ s ∈ argumentSites path k (a :: rest), s.Finds d :=
        ⟨_, List.mem_cons_self, found⟩
      have later {old : List Argument} (h : c ∈ compareArguments kind path (k + 1) old rest) :
          ∃ s ∈ argumentSites path k (a :: rest), s.Finds c := by
        obtain ⟨s, hs, found⟩ := ih h
        exact ⟨s, List.mem_cons_of_mem _ hs, found⟩
      cases old with
      | nil =>
          rw [compareArguments] at h
          rcases List.mem_cons.1 h with rfl | h
          · exact own (.argument rfl rfl)
          · exact later h
      | cons o old =>
          rw [compareArguments] at h
          rcases List.mem_append.1 h with h | h
          · exact own (finds_argument h)
          · exact later h

theorem exists_loses_arguments {k : Nat} {old new : List Argument}
    (h : c ∈ removedArguments path k old new) :
    ∃ s ∈ argumentSites path k old, s.Loses c := by
  induction old generalizing new k with
  | nil =>
      rw [removedArguments] at h
      exact absurd h List.not_mem_nil
  | cons a rest ih =>
      have later {new : List Argument} (h : c ∈ removedArguments path (k + 1) rest new) :
          ∃ s ∈ argumentSites path k (a :: rest), s.Loses c := by
        obtain ⟨s, hs, lost⟩ := ih h
        exact ⟨s, List.mem_cons_of_mem _ hs, lost⟩
      cases new with
      | nil =>
          rw [removedArguments] at h
          rcases List.mem_cons.1 h with rfl | h
          · exact ⟨_, List.mem_cons_self, .argument rfl rfl⟩
          · exact later h
      | cons n new =>
          rw [removedArguments] at h
          exact later h

theorem exists_finds_callable {kind : ElementKind} {o n : Callable}
    (same : ElementKind.ofCallable n.kind = kind) (h : c ∈ compareCallable path o n) :
    ∃ s ∈ n.sites kind path, s.Finds c := by
  subst same
  simp only [compareCallable, List.mem_append] at h
  rcases h with (h | h) | h
  · exact ⟨_, List.mem_cons_self, .annotations h⟩
  · exact ⟨_, List.mem_cons_self, .doc h⟩
  · obtain ⟨s, hs, found⟩ := exists_finds_arguments h
    exact ⟨s, List.mem_cons_of_mem _ hs, found⟩

theorem finds_property {oldOuter newOuter : Annotations} {o n : Property}
    (h : c ∈ compareProperty path oldOuter newOuter o n) : (n.site path).Finds c := by
  simp only [compareProperty, List.mem_append] at h
  rcases h with (((h | h) | h) | h) | h
  · exact finds_attribute h Option.some_inj.1 trivial
  · exact finds_access h
  · exact finds_emits h
  · exact .annotations h
  · exact .doc h

theorem exists_finds_member {old new : Interface} {m : Member} (directed : new.Directed)
    (hm : m ∈ new.members) (h : c ∈ compareMember path old new m) :
    ∃ s ∈ m.sites path, s.Finds c := by
  have members := Interface.mem_members.1 hm
  cases m with
  | method n =>
      rw [compareMember_method] at h
      rcases mem_elim h with rfl | ⟨o, -, h⟩
      · exact ⟨_, List.mem_cons_self, .element⟩
      · have listed : n ∈ new.methods := by simpa using members
        rw [Member.sites]
        exact exists_finds_callable
          (congrArg ElementKind.ofCallable (directed.methods n listed).kind_eq) h
  | signal n =>
      rw [compareMember_signal] at h
      rcases mem_elim h with rfl | ⟨o, -, h⟩
      · exact ⟨_, List.mem_cons_self, .element⟩
      · have listed : n ∈ new.signals := by simpa using members
        rw [Member.sites]
        exact exists_finds_callable
          (congrArg ElementKind.ofCallable (directed.signals n listed).kind_eq) h
  | property n =>
      rw [compareMember_property] at h
      rcases mem_elim h with rfl | ⟨o, -, h⟩
      · exact ⟨_, List.mem_cons_self, .element⟩
      · exact ⟨_, List.mem_cons_self, finds_property h⟩

theorem exists_loses_member {new : Interface} {m : Member} (h : c ∈ removedMember path new m) :
    ∃ s ∈ m.sites path, s.Loses c := by
  have beyond {kind : ElementKind} {path : String} {o n : Callable}
      (h : c ∈ removedArguments path 0 o.args n.args) : ∃ s ∈ o.sites kind path, s.Loses c := by
    obtain ⟨s, hs, lost⟩ := exists_loses_arguments h
    exact ⟨s, List.mem_cons_of_mem _ hs, lost⟩
  cases m with
  | method o =>
      rw [removedMember_method] at h
      rcases mem_elim h with rfl | ⟨n, -, h⟩
      · exact ⟨_, List.mem_cons_self, .element⟩
      · exact beyond h
  | signal o =>
      rw [removedMember_signal] at h
      rcases mem_elim h with rfl | ⟨n, -, h⟩
      · exact ⟨_, List.mem_cons_self, .element⟩
      · exact beyond h
  | property o =>
      rw [removedMember_property] at h
      rcases mem_elim h with rfl | ⟨n, -, h⟩
      · exact ⟨_, List.mem_cons_self, .element⟩
      · exact absurd h List.not_mem_nil

theorem exists_finds_interface {old new : Interface} (directed : new.Directed)
    (h : c ∈ compareInterface path old new) : ∃ s ∈ new.sites path, s.Finds c := by
  simp only [compareInterface, List.mem_append] at h
  rcases h with ((h | h) | h) | h
  · exact ⟨_, List.mem_cons_self, finds_emits h⟩
  · exact ⟨_, List.mem_cons_self, .annotations h⟩
  · exact ⟨_, List.mem_cons_self, .doc h⟩
  · obtain ⟨m, hm, h⟩ := List.mem_flatMap.1 h
    obtain ⟨s, hs, found⟩ := exists_finds_member directed hm h
    exact ⟨s, List.mem_cons_of_mem _ (List.mem_flatMap.2 ⟨m, hm, hs⟩), found⟩

theorem mem_compareChild {old child : Node} (h : c ∈ compareChild scope old child) :
    c = .addedElement .node (childPath scope (nameOf child)) child.location ∨
      ∃ o, c ∈ compareNode (some (childPath scope (nameOf child))) o child := by
  unfold compareChild at h
  unfold nameOf
  cases name : child.name with
  | none =>
      rw [name] at h
      exact absurd h List.not_mem_nil
  | some n =>
      rw [name] at h
      exact (mem_elim h).imp_right fun ⟨o, _, h⟩ => ⟨o, h⟩

theorem mem_removedChild {new child : Node} (h : c ∈ removedChild scope new child) :
    c = .removedElement .node (childPath scope (nameOf child)) child.location ∨
      ∃ n, c ∈ removedNode (some (childPath scope (nameOf child))) n child := by
  unfold removedChild at h
  unfold nameOf
  cases name : child.name with
  | none =>
      rw [name] at h
      exact absurd h List.not_mem_nil
  | some n =>
      rw [name] at h
      exact (mem_elim h).imp_right fun ⟨n, _, h⟩ => ⟨n, h⟩

theorem exists_site_interface {n : Node} {i : Interface} {P : Site → Prop} (hi : i ∈ n.interfaces)
    (h : ∃ s ∈ i.sites (interfacePath scope i), P s) : ∃ s ∈ n.sitesIn scope, P s := by
  obtain ⟨s, hs, holds⟩ := h
  exact ⟨s, Node.mem_sitesIn.2 (.inr (.inl ⟨i, hi, hs⟩)), holds⟩

theorem exists_site_child {n child : Node} {P : Site → Prop} (hc : child ∈ n.nodes)
    (h : ∃ s ∈ child.sitesIn (some (childPath scope (nameOf child))), P s) :
    ∃ s ∈ n.sitesIn scope, P s := by
  obtain ⟨s, hs, holds⟩ := h
  exact ⟨s, Node.mem_sitesIn.2 (.inr (.inr ⟨child, hc, hs⟩)), holds⟩

theorem exists_site_self {n : Node} {P : Site → Prop}
    (h : P ⟨.node, (scope.or n.name).getD "/", n.location, n.annotations, n.doc⟩) :
    ∃ s ∈ n.sitesIn scope, P s := ⟨_, Node.mem_sitesIn.2 (.inl rfl), h⟩

theorem exists_finds_node {old new : Node} (directed : new.WellDirected)
    (h : c ∈ compareNode scope old new) : ∃ s ∈ new.sitesIn scope, s.Finds c := by
  induction new using Node.induction generalizing old scope with
  | step new ih =>
      simp only [compareNode_eq, List.mem_append] at h
      rcases h with ((h | h) | h) | h
      · exact exists_site_self (.annotations h)
      · exact exists_site_self (.doc h)
      · obtain ⟨i, hi, h⟩ := List.mem_flatMap.1 h
        rw [compareOwned_eq] at h
        apply exists_site_interface hi
        rcases mem_elim h with rfl | ⟨o, -, h⟩
        · exact ⟨_, List.mem_cons_self, .element⟩
        · exact exists_finds_interface (directed.here i hi) h
      · obtain ⟨child, hc, h⟩ := List.mem_flatMap.1 h
        apply exists_site_child hc
        rcases mem_compareChild h with rfl | ⟨o, h⟩
        · exact exists_site_self .element
        · exact ih child hc (directed.below hc) h

theorem exists_loses_node {new old : Node} (h : c ∈ removedNode scope new old) :
    ∃ s ∈ old.sitesIn scope, s.Loses c := by
  induction old using Node.induction generalizing new scope with
  | step old ih =>
      simp only [removedNode_eq, List.mem_append] at h
      rcases h with h | h
      · obtain ⟨i, hi, h⟩ := List.mem_flatMap.1 h
        rw [removedOwned_eq] at h
        apply exists_site_interface hi
        rcases mem_elim h with rfl | ⟨n, -, h⟩
        · exact ⟨_, List.mem_cons_self, .element⟩
        · obtain ⟨m, hm, h⟩ := List.mem_flatMap.1 h
          obtain ⟨s, hs, lost⟩ := exists_loses_member h
          exact ⟨s, List.mem_cons_of_mem _ (List.mem_flatMap.2 ⟨m, hm, hs⟩), lost⟩
      · obtain ⟨child, hc, h⟩ := List.mem_flatMap.1 h
        apply exists_site_child hc
        rcases mem_removedChild h with rfl | ⟨n, h⟩
        · exact exists_site_self .element
        · exact ih child hc h

end Compare

/-- Every change is found at an element of the new version or is the loss of an old one. -/
theorem exists_site_of_mem_compare {a b : Node} {c : Change} (directed : b.WellDirected)
    (h : c ∈ compare a b) : (∃ s ∈ b.sites, s.Finds c) ∨ ∃ s ∈ a.sites, s.Loses c := by
  rw [compare, List.mem_append] at h
  exact h.imp (Compare.exists_finds_node directed) Compare.exists_loses_node

end ApiDrift
