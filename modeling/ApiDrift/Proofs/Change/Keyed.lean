import ApiDrift.Proofs.Change.Agreement
/-! Comparisons by key. Child nodes, interfaces and members, whatever kind they are of, are all
looked up by a key on the other side, in both passes. Two lists that differ in one element differ by
what is found of this element, if nothing is found between an element and itself. -/
namespace ApiDrift

namespace Member

def kind : Member → ElementKind
  | method _ => .method
  | signal _ => .signal
  | property _ => .property

/-- What tells a member from the others of its interface. -/
def key (m : Member) : ElementKind × String := (m.kind, m.name)

end Member

namespace Interface

theorem NamesDistinct.declared {i : Interface} (h : i.NamesDistinct) :
    (i.declared.map Member.key).Nodup := by
  have keyed {α : Type} {l : List α} {name : α → String} (kind : ElementKind)
      (distinct : (l.map name).Nodup) : (l.map fun x => (kind, name x)).Nodup := by
    have pairs := distinct.map (f := Prod.mk kind) (Prod.mk_right_injective kind)
    rwa [List.map_map] at pairs
  simp only [Interface.declared, List.map_append, List.map_map]
  refine ((keyed .method h.methods).append (keyed .signal h.signals) ?_).append
    (keyed .property h.properties) ?_
  · simp [List.disjoint_left]
  · simp [List.disjoint_left, or_imp, forall_and, Member.key, Member.kind]

variable (i : Interface) (name : String)

theorem find?_tagged {α : Type} (tag kind : ElementKind) (l : List α) (f : α → String) :
    (l.find? fun x => (tag, f x) == (kind, name)) =
      if tag = kind then l.find? fun x => f x == name else none := by
  split
  · next same =>
    subst same
    refine congrArg (List.find? · l) (funext fun x => ?_)
    rw [Bool.eq_iff_iff, beq_iff_eq, beq_iff_eq, Prod.mk.injEq, and_iff_right rfl]
  · next other => exact List.find?_eq_none.2 fun x _ => by simp [other]

theorem find?_declared_method :
    (i.declared.find? fun y => y.key == (ElementKind.method, name)) =
      (i.method? name).map .method := by
  simp [declared, List.find?_append, List.find?_map, Member.key, Member.kind,
    Member.name, find?_tagged, method?, Function.comp_def]

theorem find?_declared_signal :
    (i.declared.find? fun y => y.key == (ElementKind.signal, name)) =
      (i.signal? name).map .signal := by
  simp [declared, List.find?_append, List.find?_map, Member.key, Member.kind,
    Member.name, find?_tagged, signal?, Function.comp_def]

theorem find?_declared_property :
    (i.declared.find? fun y => y.key == (ElementKind.property, name)) =
      (i.property? name).map .property := by
  simp [declared, List.find?_append, List.find?_map, Member.key, Member.kind,
    Member.name, find?_tagged, property?, Function.comp_def]

end Interface

namespace Compare

theorem flatMap_perm_of_idle {α : Type} {g : α → List Change} {l rest : List α} {x : α}
    (split : l.Perm (x :: rest)) (idle : ∀ y ∈ rest, g y = []) : (l.flatMap g).Perm (g x) := by
  refine (split.flatMap_right g).trans (.of_eq ?_)
  rw [List.flatMap_cons, List.flatMap_eq_nil_iff.2 idle, List.append_nil]

theorem nodup_replaced {α κ : Type} {f : α → κ} {l m rest : List α} {x y : α}
    (distinct : (l.map f).Nodup) (own : l.Perm (x :: rest)) (others : m.Perm (y :: rest))
    (key : f x = f y) : (m.map f).Nodup := by
  rw [(others.map f).nodup_iff, List.map_cons, ← key]
  exact (own.map f).nodup_iff.1 distinct

section Passes
variable {α κ : Type} [BEq κ]

/-- What both passes find, element by element. -/
structure Passes (f : α → κ) (old new : List α) (first second : α → List Change)
    (added removed : α → Change) (compared dropped : α → α → List Change) : Prop where
  first : ∀ n ∈ new, first n = (old.find? fun y => f y == f n).elim [added n] (compared · n)
  second : ∀ o ∈ old, second o = (new.find? fun y => f y == f o).elim [removed o] (dropped o)

/-- Nothing is found between the element and itself. -/
def Idle (compared dropped : α → α → List Change) (x : α) : Prop :=
  compared x x = [] ∧ dropped x x = []

variable {f : α → κ} {l m rest : List α} {x y : α} {first second : α → List Change}
  {added removed : α → Change} {compared dropped : α → α → List Change}

namespace Passes

theorem swap (h : Passes f l m first second added removed compared dropped) :
    Passes f m l second first removed added (fun y x => dropped x y) (fun y x => compared x y) :=
  ⟨h.second, h.first⟩

variable [LawfulBEq κ]

theorem first_of_mem (h : Passes f l m first second added removed compared dropped)
    (distinct : (l.map f).Nodup) (hx : x ∈ l) (hy : y ∈ m) (same : f x = f y) :
    first y = compared x y := by
  rw [h.first y hy, (find?_key_eq_some_iff distinct).2 ⟨hx, same⟩, Option.elim_some]

theorem first_of_absent (h : Passes f l m first second added removed compared dropped)
    (hy : y ∈ m) (absent : ∀ x ∈ l, f x ≠ f y) : first y = [added y] := by
  rw [h.first y hy, find?_key_eq_none_iff.2 absent, Option.elim_none]

theorem first_known (h : Passes f l m first second added removed compared dropped)
    (distinct : (l.map f).Nodup) (known : ∀ y ∈ m, y ∈ l)
    (idle : ∀ y ∈ m, Idle compared dropped y) : m.flatMap first = [] := by
  refine List.flatMap_eq_nil_iff.2 fun y hy => ?_
  rw [h.first_of_mem distinct (known y hy) hy rfl, (idle y hy).1]

theorem first_extra (h : Passes f l m first second added removed compared dropped)
    (distinct : (m.map f).Nodup) (split : m.Perm (x :: l))
    (idle : ∀ y ∈ l, Idle compared dropped y) : m.flatMap first = [added x] := by
  obtain ⟨fresh, others⟩ := List.nodup_cons.1 ((split.map f).nodup_iff.1 distinct)
  have alone : first x = [added x] := by
    refine h.first_of_absent (split.mem_iff.2 List.mem_cons_self) fun y hy same => fresh ?_
    exact same ▸ List.mem_map_of_mem hy
  rw [← List.perm_singleton, ← alone]
  refine flatMap_perm_of_idle split fun y hy => ?_
  rw [h.first_of_mem others hy (split.mem_iff.2 (List.mem_cons_of_mem x hy)) rfl, (idle y hy).1]

theorem first_replaced (h : Passes f l m first second added removed compared dropped)
    (distinct : (l.map f).Nodup) (own : l.Perm (x :: rest)) (others : m.Perm (y :: rest))
    (key : f x = f y) (idle : ∀ z ∈ rest, Idle compared dropped z) :
    (m.flatMap first).Perm (compared x y) := by
  have here : first y = compared x y := h.first_of_mem distinct
    (own.mem_iff.2 List.mem_cons_self) (others.mem_iff.2 List.mem_cons_self) key
  rw [← here]
  refine flatMap_perm_of_idle others fun z hz => ?_
  rw [h.first_of_mem distinct (own.mem_iff.2 (List.mem_cons_of_mem x hz))
    (others.mem_iff.2 (List.mem_cons_of_mem y hz)) rfl, (idle z hz).1]

theorem same (h : Passes f l l first second added removed compared dropped)
    (distinct : (l.map f).Nodup) (idle : ∀ x ∈ l, Idle compared dropped x) :
    l.flatMap first = [] ∧ l.flatMap second = [] :=
  ⟨h.first_known distinct (fun _ => id) idle,
    h.swap.first_known distinct (fun _ => id) fun x hx => (idle x hx).symm⟩

theorem gained (h : Passes f l m first second added removed compared dropped)
    (distinct : (m.map f).Nodup) (split : m.Perm (x :: l))
    (idle : ∀ y ∈ l, Idle compared dropped y) :
    m.flatMap first = [added x] ∧ l.flatMap second = [] :=
  ⟨h.first_extra distinct split idle, h.swap.first_known distinct
    (fun _ hy => split.mem_iff.2 (List.mem_cons_of_mem x hy)) fun y hy => (idle y hy).symm⟩

theorem lost (h : Passes f l m first second added removed compared dropped)
    (distinct : (l.map f).Nodup) (split : l.Perm (x :: m))
    (idle : ∀ y ∈ m, Idle compared dropped y) :
    m.flatMap first = [] ∧ l.flatMap second = [removed x] :=
  (h.swap.gained distinct split fun y hy => (idle y hy).symm).symm

/-- Between lists that differ in one element with one key, what is found is found there. -/
theorem replaced (h : Passes f l m first second added removed compared dropped)
    (distinct : (l.map f).Nodup) (own : l.Perm (x :: rest)) (others : m.Perm (y :: rest))
    (key : f x = f y) (idle : ∀ z ∈ rest, Idle compared dropped z) :
    (m.flatMap first).Perm (compared x y) ∧ (l.flatMap second).Perm (dropped x y) := by
  have distinct' := nodup_replaced distinct own others key
  exact ⟨h.first_replaced distinct own others key idle,
    h.swap.first_replaced distinct' others own key.symm fun z hz => (idle z hz).symm⟩

end Passes

end Passes

section Instances
variable (path : String) (scope : Option String)

/-- What the first pass finds at two members with one key. -/
def comparedMembers (path : String) (oldOuter newOuter : Annotations) :
    Member → Member → List Change
  | .method o, .method n => compareCallable (memberPath path (.method n)) o n
  | .signal o, .signal n => compareCallable (memberPath path (.signal n)) o n
  | .property o, .property n =>
    compareProperty (memberPath path (.property n)) oldOuter newOuter o n
  | _, _ => []

/-- What the second pass finds at two members with one key. -/
def droppedMembers (path : String) : Member → Member → List Change
  | .method o, .method n => removedArguments (memberPath path (.method o)) 0 o.args n.args
  | .signal o, .signal n => removedArguments (memberPath path (.signal o)) 0 o.args n.args
  | _, _ => []

theorem passes_members (old new : Interface) :
    Passes Member.key old.declared new.declared (compareMember path old new)
      (removedMember path new) (fun m => .addedElement m.kind (memberPath path m) m.location)
      (fun m => .removedElement m.kind (memberPath path m) m.location)
      (comparedMembers path old.annotations new.annotations) (droppedMembers path) where
  first n _ := by
    cases n with
    | method n =>
        refine (compareMember_method old new n).trans ?_
        refine Eq.trans ?_ (congrArg (Option.elim · _ _) (old.find?_declared_method n.name)).symm
        cases old.method? n.name <;> rfl
    | signal n =>
        refine (compareMember_signal old new n).trans ?_
        refine Eq.trans ?_ (congrArg (Option.elim · _ _) (old.find?_declared_signal n.name)).symm
        cases old.signal? n.name <;> rfl
    | property n =>
        refine (compareMember_property old new n).trans ?_
        refine Eq.trans ?_ (congrArg (Option.elim · _ _) (old.find?_declared_property n.name)).symm
        cases old.property? n.name <;> rfl
  second o _ := by
    cases o with
    | method o =>
        refine (removedMember_method new o).trans ?_
        refine Eq.trans ?_ (congrArg (Option.elim · _ _) (new.find?_declared_method o.name)).symm
        cases new.method? o.name <;> rfl
    | signal o =>
        refine (removedMember_signal new o).trans ?_
        refine Eq.trans ?_ (congrArg (Option.elim · _ _) (new.find?_declared_signal o.name)).symm
        cases new.signal? o.name <;> rfl
    | property o =>
        refine (removedMember_property new o).trans ?_
        refine Eq.trans ?_ (congrArg (Option.elim · _ _) (new.find?_declared_property o.name)).symm
        cases new.property? o.name <;> rfl

theorem passes_interfaces (old new : Node) :
    Passes Interface.name old.interfaces new.interfaces (compareOwned scope old)
      (removedOwned scope new)
      (fun i => .addedElement .interface (interfacePath scope i) i.location)
      (fun i => .removedElement .interface (interfacePath scope i) i.location)
      (fun o n => compareInterface (interfacePath scope n) o n)
      (fun o n => o.members.flatMap (removedMember (interfacePath scope o) n)) where
  first n _ := compareOwned_eq old n
  second o _ := removedOwned_eq new o

theorem passes_children (old new : Node) (oldNamed : ∀ c ∈ old.nodes, c.name.isSome)
    (newNamed : ∀ c ∈ new.nodes, c.name.isSome) :
    Passes Node.name old.nodes new.nodes (compareChild scope old) (removedChild scope new)
      (fun c => .addedElement .node (childPath scope (nameOf c)) c.location)
      (fun c => .removedElement .node (childPath scope (nameOf c)) c.location)
      (fun o n => compareNode (some (childPath scope (nameOf n))) o n)
      (fun o n => removedNode (some (childPath scope (nameOf o))) n o) where
  first n hn := compareChild_eq (newNamed n hn)
  second o ho := removedChild_eq (oldNamed o ho)

end Instances

end Compare

end ApiDrift
