import ApiDrift.Change.Compare
import ApiDrift.Proofs.Api.Shape
import Mathlib.Algebra.Module.Submodule.Lattice
import Mathlib.Computability.Primrec.List
import Mathlib.Data.List.Permutation
-- The last three hold equations with which `cbv` evaluates comparisons of fixed descriptions.
/-! The two passes of a comparison opened: what it takes for every change that a pass finds to
have some property, said of the elements that have one name in both versions and of those that
only one version has. -/
namespace ApiDrift

theorem Interface.mem_members {i : Interface} {m : Member} :
    m ∈ i.members ↔ (∃ c ∈ i.methods, m = .method c) ∨ (∃ c ∈ i.signals, m = .signal c) ∨
      ∃ p ∈ i.properties, m = .property p := by
  simp only [Interface.members, List.mem_mergeSort, List.mem_append, List.mem_map, or_assoc,
    eq_comm (a := m)]

theorem Interface.forall_members {i : Interface} {Q : Member → Prop} :
    (∀ m ∈ i.members, Q m) ↔ (∀ c ∈ i.methods, Q (.method c)) ∧ (∀ c ∈ i.signals, Q (.signal c)) ∧
      ∀ p ∈ i.properties, Q (.property p) := by
  constructor
  · intro h
    refine ⟨fun c hc => h _ ?_, fun c hc => h _ ?_, fun p hp => h _ ?_⟩
    · exact Interface.mem_members.2 (.inl ⟨c, hc, rfl⟩)
    · exact Interface.mem_members.2 (.inr (.inl ⟨c, hc, rfl⟩))
    · exact Interface.mem_members.2 (.inr (.inr ⟨p, hp, rfl⟩))
  · rintro ⟨hm, hs, hp⟩ m h
    rcases Interface.mem_members.1 h with ⟨c, hc, rfl⟩ | ⟨c, hc, rfl⟩ | ⟨p, hp', rfl⟩
    · exact hm c hc
    · exact hs c hc
    · exact hp p hp'

namespace Compare
variable {P : Change → Prop} {path : String} {scope : Option String}

theorem eq_of_mem_unless {p : Prop} [Decidable p] {c d : Change}
    (h : c ∈ if p then [] else [d]) : c = d := by
  split at h
  · exact absurd h List.not_mem_nil
  · exact List.mem_singleton.1 h

theorem forall_mem_unless {p : Prop} [Decidable p] {d : Change} (h : P d) :
    ∀ c ∈ if p then [] else [d], P c := by
  intro c hc
  rw [eq_of_mem_unless hc]
  exact h

/-- What the first pass finds at one child node. -/
def compareChild (scope : Option String) (old child : Node) : List Change :=
  child.name.elim [] fun name =>
    (old.child? name).elim [.addedElement .node (childPath scope name) child.location]
      fun o => compareNode (some (childPath scope name)) o child

/-- What the second pass finds at one child node. -/
def removedChild (scope : Option String) (new child : Node) : List Change :=
  child.name.elim [] fun name =>
    (new.child? name).elim [.removedElement .node (childPath scope name) child.location]
      fun n => removedNode (some (childPath scope name)) n child

theorem compareChildren_eq_flatMap (old : Node) (l : List Node) :
    compareChildren scope old l = l.flatMap (compareChild scope old) := by
  induction l with
  | nil => rfl
  | cons child rest ih =>
      rw [compareChildren, List.flatMap_cons, ih, compareChild]
      cases child.name with
      | none => rfl
      | some name => dsimp only [Option.elim_some]; cases old.child? name <;> rfl

theorem removedChildren_eq_flatMap (new : Node) (l : List Node) :
    removedChildren scope new l = l.flatMap (removedChild scope new) := by
  induction l with
  | nil => rfl
  | cons child rest ih =>
      rw [removedChildren, List.flatMap_cons, ih, removedChild]
      cases child.name with
      | none => rfl
      | some name => dsimp only [Option.elim_some]; cases new.child? name <;> rfl

theorem compareNode_eq (old new : Node) :
    compareNode scope old new =
      compareAnnotations ⟨.node, (scope.or new.name).getD "/", new.location⟩
          old.annotations new.annotations
        ++ compareDoc ⟨.node, (scope.or new.name).getD "/", new.location⟩ old.doc new.doc
        ++ new.interfaces.flatMap (compareOwned scope old)
        ++ new.nodes.flatMap (compareChild scope old) := by
  cases new with
  | mk name interfaces nodes annotations doc location =>
      rw [compareNode, compareChildren_eq_flatMap]

theorem removedNode_eq (new old : Node) :
    removedNode scope new old =
      old.interfaces.flatMap (removedOwned scope new)
        ++ old.nodes.flatMap (removedChild scope new) := by
  cases old with
  | mk name interfaces nodes annotations doc location =>
      rw [removedNode, removedChildren_eq_flatMap]

theorem compareOwned_eq (old : Node) (i : Interface) :
    compareOwned scope old i =
      (old.interface? i.name).elim [.addedElement .interface (interfacePath scope i) i.location]
        fun o => compareInterface (interfacePath scope i) o i := by
  rw [compareOwned]
  cases old.interface? i.name <;> rfl

theorem removedOwned_eq (new : Node) (i : Interface) :
    removedOwned scope new i =
      (new.interface? i.name).elim [.removedElement .interface (interfacePath scope i) i.location]
        fun n => i.members.flatMap (removedMember (interfacePath scope i) n) := by
  rw [removedOwned]
  cases new.interface? i.name <;> rfl

theorem compareMember_method (old new : Interface) (m : Callable) :
    compareMember path old new (.method m) =
      (old.method? m.name).elim [.addedElement .method (memberPath path (.method m)) m.location]
        fun o => compareCallable (memberPath path (.method m)) o m := by
  rw [compareMember]
  cases old.method? m.name <;> rfl

theorem compareMember_signal (old new : Interface) (s : Callable) :
    compareMember path old new (.signal s) =
      (old.signal? s.name).elim [.addedElement .signal (memberPath path (.signal s)) s.location]
        fun o => compareCallable (memberPath path (.signal s)) o s := by
  rw [compareMember]
  cases old.signal? s.name <;> rfl

theorem compareMember_property (old new : Interface) (p : Property) :
    compareMember path old new (.property p) =
      (old.property? p.name).elim
        [.addedElement .property (memberPath path (.property p)) p.location]
        fun o => compareProperty (memberPath path (.property p)) old.annotations new.annotations
          o p := by
  rw [compareMember]
  cases old.property? p.name <;> rfl

theorem removedMember_method (new : Interface) (m : Callable) :
    removedMember path new (.method m) =
      (new.method? m.name).elim [.removedElement .method (memberPath path (.method m)) m.location]
        fun n => removedArguments (memberPath path (.method m)) 0 m.args n.args := by
  rw [removedMember]
  cases new.method? m.name <;> rfl

theorem removedMember_signal (new : Interface) (s : Callable) :
    removedMember path new (.signal s) =
      (new.signal? s.name).elim [.removedElement .signal (memberPath path (.signal s)) s.location]
        fun n => removedArguments (memberPath path (.signal s)) 0 s.args n.args := by
  rw [removedMember]
  cases new.signal? s.name <;> rfl

theorem removedMember_property (new : Interface) (p : Property) :
    removedMember path new (.property p) =
      (new.property? p.name).elim
        [.removedElement .property (memberPath path (.property p)) p.location] fun _ => [] := by
  rw [removedMember]
  cases new.property? p.name <;> rfl

/-- Two lists matched by a key: what holds of elements that the new one has lost, of those that
it has gained, and of any two with one key. -/
structure Matched {α κ : Type} (f : α → κ) (old new : List α) (lost gained : α → Prop)
    (both : α → α → Prop) : Prop where
  lost : ∀ o ∈ old, (∀ n ∈ new, f n ≠ f o) → lost o
  gained : ∀ n ∈ new, (∀ o ∈ old, f o ≠ f n) → gained n
  both : ∀ o ∈ old, ∀ n ∈ new, f o = f n → both o n

/-- Both passes over a list of elements that are looked up by a key on the other side. -/
theorem forall_passes_iff {α κ : Type} [BEq κ] [LawfulBEq κ] {f : α → κ} {old new : List α}
    {first second : α → List Change} {added removed : α → Change}
    {compared dropped both : α → α → List Change}
    (oldDistinct : (old.map f).Nodup) (newDistinct : (new.map f).Nodup)
    (onFirst : ∀ n ∈ new, first n = (old.find? fun y => f y == f n).elim [added n] (compared · n))
    (onSecond : ∀ o ∈ old, second o = (new.find? fun y => f y == f o).elim [removed o] (dropped o))
    (onBoth : ∀ o n, f o = f n → both o n = compared o n ++ dropped o n) :
    ((∀ n ∈ new, ∀ c ∈ first n, P c) ∧ ∀ o ∈ old, ∀ c ∈ second o, P c) ↔
      Matched f old new (fun o => P (removed o)) (fun n => P (added n))
        fun o n => ∀ c ∈ both o n, P c := by
  have atNew : ∀ n ∈ new, (∀ c ∈ first n, P c) ↔
      (∀ o ∈ old, f o = f n → ∀ c ∈ compared o n, P c) ∧
      ((∀ o ∈ old, f o ≠ f n) → P (added n)) := by
    intro n hn
    rw [onFirst n hn, forall_mem_lookup_iff oldDistinct]
    simp only [List.mem_singleton, forall_eq]
  have atOld : ∀ o ∈ old, (∀ c ∈ second o, P c) ↔
      (∀ n ∈ new, f n = f o → ∀ c ∈ dropped o n, P c) ∧
      ((∀ n ∈ new, f n ≠ f o) → P (removed o)) := by
    intro o ho
    rw [onSecond o ho, forall_mem_lookup_iff newDistinct]
    simp only [List.mem_singleton, forall_eq]
  rw [forall₂_congr atNew, forall₂_congr atOld]
  constructor
  · rintro ⟨first, second⟩
    refine ⟨fun o ho => (second o ho).2, fun n hn => (first n hn).2, fun o ho n hn same => ?_⟩
    rw [onBoth o n same, List.forall_mem_append]
    exact ⟨(first n hn).1 o ho same, (second o ho).1 n hn same.symm⟩
  · intro h
    have split : ∀ o ∈ old, ∀ n ∈ new, f o = f n →
        (∀ c ∈ compared o n, P c) ∧ ∀ c ∈ dropped o n, P c := by
      intro o ho n hn same
      rw [← List.forall_mem_append, ← onBoth o n same]
      exact h.both o ho n hn same
    exact ⟨fun n hn => ⟨fun o ho same => (split o ho n hn same).1, h.gained n hn⟩,
      fun o ho => ⟨fun n hn same => (split o ho n hn same.symm).2, h.lost o ho⟩⟩

/-- What both passes find between two callables. -/
def betweenCallables (path : String) (old new : Callable) : List Change :=
  compareCallable path old new ++ removedArguments path 0 old.args new.args

/-- What both passes find between two interfaces. -/
def betweenInterfaces (path : String) (old new : Interface) : List Change :=
  compareInterface path old new ++ old.members.flatMap (removedMember path new)

/-- What both passes find between two nodes. -/
def betweenNodes (scope : Option String) (old new : Node) : List Change :=
  compareNode scope old new ++ removedNode scope new old

section Members
variable {old new : Interface}

theorem forall_methods_iff (oldDistinct : (old.methods.map Callable.name).Nodup)
    (newDistinct : (new.methods.map Callable.name).Nodup) :
    ((∀ n ∈ new.methods, ∀ c ∈ compareMember path old new (.method n), P c) ∧
      ∀ o ∈ old.methods, ∀ c ∈ removedMember path new (.method o), P c) ↔
    Matched Callable.name old.methods new.methods
      (fun o => P (.removedElement .method (memberPath path (.method o)) o.location))
      (fun n => P (.addedElement .method (memberPath path (.method n)) n.location))
      fun o n => ∀ c ∈ betweenCallables (memberPath path (.method n)) o n, P c := by
  refine forall_passes_iff oldDistinct newDistinct (fun n _ => compareMember_method old new n)
    (fun o _ => removedMember_method new o) ?_
  intro o n same
  simp only [betweenCallables, memberPath, Member.name, same]

theorem forall_signals_iff (oldDistinct : (old.signals.map Callable.name).Nodup)
    (newDistinct : (new.signals.map Callable.name).Nodup) :
    ((∀ n ∈ new.signals, ∀ c ∈ compareMember path old new (.signal n), P c) ∧
      ∀ o ∈ old.signals, ∀ c ∈ removedMember path new (.signal o), P c) ↔
    Matched Callable.name old.signals new.signals
      (fun o => P (.removedElement .signal (memberPath path (.signal o)) o.location))
      (fun n => P (.addedElement .signal (memberPath path (.signal n)) n.location))
      fun o n => ∀ c ∈ betweenCallables (memberPath path (.signal n)) o n, P c := by
  refine forall_passes_iff oldDistinct newDistinct (fun n _ => compareMember_signal old new n)
    (fun o _ => removedMember_signal new o) ?_
  intro o n same
  simp only [betweenCallables, memberPath, Member.name, same]

theorem forall_properties_iff (oldDistinct : (old.properties.map Property.name).Nodup)
    (newDistinct : (new.properties.map Property.name).Nodup) :
    ((∀ n ∈ new.properties, ∀ c ∈ compareMember path old new (.property n), P c) ∧
      ∀ o ∈ old.properties, ∀ c ∈ removedMember path new (.property o), P c) ↔
    Matched Property.name old.properties new.properties
      (fun o => P (.removedElement .property (memberPath path (.property o)) o.location))
      (fun n => P (.addedElement .property (memberPath path (.property n)) n.location))
      fun o n => ∀ c ∈ compareProperty (memberPath path (.property n)) old.annotations
        new.annotations o n, P c :=
  forall_passes_iff oldDistinct newDistinct (fun n _ => compareMember_property old new n)
    (fun o _ => removedMember_property new o) fun _ _ _ => (List.append_nil _).symm

theorem forall_betweenInterfaces_iff (oldDistinct : old.NamesDistinct)
    (newDistinct : new.NamesDistinct) :
    (∀ c ∈ betweenInterfaces path old new, P c) ↔
      (∀ c ∈ compareEmits ⟨.interface, path, new.location⟩ (effectiveEmits {} old.annotations)
        (effectiveEmits {} new.annotations), P c) ∧
      (∀ c ∈ compareAnnotations ⟨.interface, path, new.location⟩ old.annotations new.annotations,
        P c) ∧
      (∀ c ∈ compareDoc ⟨.interface, path, new.location⟩ old.doc new.doc, P c) ∧
      Matched Callable.name old.methods new.methods
        (fun o => P (.removedElement .method (memberPath path (.method o)) o.location))
        (fun n => P (.addedElement .method (memberPath path (.method n)) n.location))
        (fun o n => ∀ c ∈ betweenCallables (memberPath path (.method n)) o n, P c) ∧
      Matched Callable.name old.signals new.signals
        (fun o => P (.removedElement .signal (memberPath path (.signal o)) o.location))
        (fun n => P (.addedElement .signal (memberPath path (.signal n)) n.location))
        (fun o n => ∀ c ∈ betweenCallables (memberPath path (.signal n)) o n, P c) ∧
      Matched Property.name old.properties new.properties
        (fun o => P (.removedElement .property (memberPath path (.property o)) o.location))
        (fun n => P (.addedElement .property (memberPath path (.property n)) n.location))
        (fun o n => ∀ c ∈ compareProperty (memberPath path (.property n)) old.annotations
          new.annotations o n, P c) := by
  rw [← forall_methods_iff oldDistinct.methods newDistinct.methods,
    ← forall_signals_iff oldDistinct.signals newDistinct.signals,
    ← forall_properties_iff oldDistinct.properties newDistinct.properties]
  simp only [betweenInterfaces, compareInterface, List.forall_mem_append, List.forall_mem_flatMap,
    Interface.forall_members]
  tauto

end Members

section Nodes
variable {old new : Node}

theorem forall_interfaces_iff (oldDistinct : (old.interfaces.map Interface.name).Nodup)
    (newDistinct : (new.interfaces.map Interface.name).Nodup) :
    ((∀ n ∈ new.interfaces, ∀ c ∈ compareOwned scope old n, P c) ∧
      ∀ o ∈ old.interfaces, ∀ c ∈ removedOwned scope new o, P c) ↔
    Matched Interface.name old.interfaces new.interfaces
      (fun o => P (.removedElement .interface (interfacePath scope o) o.location))
      (fun n => P (.addedElement .interface (interfacePath scope n) n.location))
      fun o n => ∀ c ∈ betweenInterfaces (interfacePath scope n) o n, P c := by
  refine forall_passes_iff oldDistinct newDistinct (fun n _ => compareOwned_eq old n)
    (fun o _ => removedOwned_eq new o) ?_
  intro o n same
  simp only [betweenInterfaces, interfacePath, same]

/-- The name of a child node that has one. -/
def nameOf (child : Node) : String := child.name.getD ""

theorem compareChild_eq {child : Node} (named : child.name.isSome) :
    compareChild scope old child =
      (old.nodes.find? fun c => c.name == child.name).elim
        [.addedElement .node (childPath scope (nameOf child)) child.location]
        fun o => compareNode (some (childPath scope (nameOf child))) o child := by
  obtain ⟨name, h⟩ := Option.isSome_iff_exists.1 named
  simp only [compareChild, nameOf, Node.child?, h, Option.elim_some, Option.getD_some]

theorem removedChild_eq {child : Node} (named : child.name.isSome) :
    removedChild scope new child =
      (new.nodes.find? fun c => c.name == child.name).elim
        [.removedElement .node (childPath scope (nameOf child)) child.location]
        fun n => removedNode (some (childPath scope (nameOf child))) n child := by
  obtain ⟨name, h⟩ := Option.isSome_iff_exists.1 named
  simp only [removedChild, nameOf, Node.child?, h, Option.elim_some, Option.getD_some]

theorem forall_children_iff (oldDistinct : old.NamesDistinct) (newDistinct : new.NamesDistinct) :
    ((∀ n ∈ new.nodes, ∀ c ∈ compareChild scope old n, P c) ∧
      ∀ o ∈ old.nodes, ∀ c ∈ removedChild scope new o, P c) ↔
    Matched Node.name old.nodes new.nodes
      (fun o => P (.removedElement .node (childPath scope (nameOf o)) o.location))
      (fun n => P (.addedElement .node (childPath scope (nameOf n)) n.location))
      fun o n => ∀ c ∈ betweenNodes (some (childPath scope (nameOf n))) o n, P c := by
  refine forall_passes_iff oldDistinct.children newDistinct.children
    (fun n hn => compareChild_eq (newDistinct.childNamed n hn))
    (fun o ho => removedChild_eq (oldDistinct.childNamed o ho)) ?_
  intro o n same
  simp only [betweenNodes, nameOf, same]

theorem forall_betweenNodes_iff (oldDistinct : old.NamesDistinct)
    (newDistinct : new.NamesDistinct) :
    (∀ c ∈ betweenNodes scope old new, P c) ↔
      (∀ c ∈ compareAnnotations ⟨.node, (scope.or new.name).getD "/", new.location⟩
        old.annotations new.annotations, P c) ∧
      (∀ c ∈ compareDoc ⟨.node, (scope.or new.name).getD "/", new.location⟩ old.doc new.doc,
        P c) ∧
      Matched Interface.name old.interfaces new.interfaces
        (fun o => P (.removedElement .interface (interfacePath scope o) o.location))
        (fun n => P (.addedElement .interface (interfacePath scope n) n.location))
        (fun o n => ∀ c ∈ betweenInterfaces (interfacePath scope n) o n, P c) ∧
      Matched Node.name old.nodes new.nodes
        (fun o => P (.removedElement .node (childPath scope (nameOf o)) o.location))
        (fun n => P (.addedElement .node (childPath scope (nameOf n)) n.location))
        (fun o n => ∀ c ∈ betweenNodes (some (childPath scope (nameOf n))) o n, P c) := by
  rw [← forall_interfaces_iff oldDistinct.interfaces newDistinct.interfaces,
    ← forall_children_iff oldDistinct newDistinct]
  simp only [betweenNodes, compareNode_eq, removedNode_eq, List.forall_mem_append,
    List.forall_mem_flatMap]
  tauto

end Nodes

end Compare

end ApiDrift
