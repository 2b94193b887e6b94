import ApiDrift.Proofs.Change.Pass
import Mathlib.Data.Multiset.Bind
/-! A comparison taken the other way round finds the inverse of every change, as often as the
change itself was found. Places and messages are left out, since they belong to one version. -/
namespace ApiDrift

def ChangeKind.inverse : ChangeKind → ChangeKind
  | added => removed
  | removed => added
  | modified => modified

def ChangeCode.inverse : ChangeCode → ChangeCode
  | added k => removed k
  | removed k => added k
  | argumentDirection o n => argumentDirection n o
  | propertyAccess o n => propertyAccess n o
  | deprecated => undeprecated
  | undeprecated => deprecated
  | replyAdded => replyRemoved
  | replyRemoved => replyAdded
  | emitsChanged o n => emitsChanged n o
  | annotationAdded => annotationRemoved
  | annotationRemoved => annotationAdded
  | argumentName => argumentName
  | argumentType => argumentType
  | propertyType => propertyType
  | cSymbol => cSymbol
  | annotationChanged => annotationChanged
  | documentation => documentation

/-- What a change does, apart from where. -/
structure Transition where
  kind : ChangeKind
  code : ChangeCode
  old : Option String
  new : Option String
deriving DecidableEq, Repr

def Transition.inverse (t : Transition) : Transition :=
  ⟨t.kind.inverse, t.code.inverse, t.new, t.old⟩

def Change.transition (c : Change) : Transition := ⟨c.kind, c.code, c.old, c.new⟩

/-- What is found between two versions, in no order. -/
def transitions (l : List Change) : Multiset Transition := (l.map Change.transition : List Transition)

theorem transitions_append (l m : List Change) :
    transitions (l ++ m) = transitions l + transitions m := by
  rw [transitions, List.map_append, ← Multiset.coe_add]
  rfl

theorem transitions_flatMap {α : Type} (l : List α) (f : α → List Change) :
    transitions (l.flatMap f) = (l : Multiset α).bind fun x => transitions (f x) := by
  rw [transitions, List.map_flatMap, ← Multiset.coe_bind]
  rfl

theorem transitions_perm {l m : List Change} (h : l.Perm m) : transitions l = transitions m :=
  Multiset.coe_eq_coe.2 (h.map _)

/-- One list of changes undoes the other. -/
def Reverses (l m : List Change) : Prop :=
  transitions m = (transitions l).map Transition.inverse

namespace Reverses

theorem nil : Reverses [] [] := rfl

theorem single {c d : Change} (h : d.transition = c.transition.inverse) : Reverses [c] [d] := by
  show (([d.transition] : List Transition) : Multiset Transition) = _
  rw [h]
  rfl

theorem append {l m l' m' : List Change} (h : Reverses l m) (h' : Reverses l' m') :
    Reverses (l ++ l') (m ++ m') := by
  rw [Reverses, transitions_append, transitions_append, Multiset.map_add, h, h']

theorem interleave {a b c d a' b' c' d' : List Change} (h : Reverses (a ++ b) (a' ++ b'))
    (h' : Reverses (c ++ d) (c' ++ d')) :
    Reverses ((a ++ c) ++ (b ++ d)) ((a' ++ c') ++ (b' ++ d')) := by
  have whole := h.append h'
  simp only [Reverses, transitions_append] at whole ⊢
  rwa [add_add_add_comm, add_add_add_comm (transitions a)]

theorem of_perm {l l' m m' : List Change} (h : Reverses l m) (first : l.Perm l')
    (second : m.Perm m') : Reverses l' m' := by
  rw [Reverses, ← transitions_perm first, ← transitions_perm second]
  exact h

theorem of_iff {p q : Prop} [Decidable p] [Decidable q] {c d : Change} (same : p ↔ q)
    (h : d.transition = c.transition.inverse) :
    Reverses (if p then [] else [c]) (if q then [] else [d]) := by
  by_cases unchanged : p
  · rw [if_pos unchanged, if_pos (same.1 unchanged)]
    exact nil
  · rw [if_neg unchanged, if_neg fun hq => unchanged (same.2 hq)]
    exact single h

end Reverses

section Sums
variable {α κ β γ : Type} [DecidableEq κ] {f : α → κ} {l m : List α}

/-- The sum over all pairs of elements that have one key. -/
def pairSum (f : α → κ) (l m : List α) (g : α → α → Multiset β) : Multiset β :=
  (l : Multiset α).bind fun x => (m : Multiset α).bind fun y => if f x = f y then g x y else 0

/-- The sum over the elements of the first list whose keys the second one lacks. -/
def aloneSum (f : α → κ) (l m : List α) (g : α → Multiset β) : Multiset β :=
  (l : Multiset α).bind fun x => if ∀ y ∈ m, f y ≠ f x then g x else 0

theorem pairSum_swap (g : α → α → Multiset β) :
    pairSum f l m g = pairSum f m l fun y x => g x y := by
  rw [pairSum, Multiset.bind_bind]
  simp only [pairSum, eq_comm]

theorem pairSum_add (g h : α → α → Multiset β) :
    pairSum f l m g + pairSum f l m h = pairSum f l m fun x y => g x y + h x y := by
  rw [pairSum, pairSum, ← Multiset.bind_add]
  refine Multiset.bind_congr fun x _ => ?_
  rw [← Multiset.bind_add]
  refine Multiset.bind_congr fun y _ => ?_
  split
  · rfl
  · exact add_zero 0

theorem map_pairSum {g : α → α → Multiset β} {h : α → α → Multiset γ} {e : β → γ}
    (each : ∀ x ∈ l, ∀ y ∈ m, f x = f y → h x y = (g x y).map e) :
    (pairSum f l m g).map e = pairSum f l m h := by
  rw [pairSum, Multiset.map_bind]
  refine Multiset.bind_congr fun x hx => ?_
  rw [Multiset.map_bind]
  refine Multiset.bind_congr fun y hy => ?_
  split
  · next same => exact (each x hx y hy same).symm
  · rfl

theorem map_aloneSum {g : α → Multiset β} {h : α → Multiset γ} {e : β → γ}
    (each : ∀ x ∈ l, h x = (g x).map e) : (aloneSum f l m g).map e = aloneSum f l m h := by
  rw [aloneSum, Multiset.map_bind]
  refine Multiset.bind_congr fun x hx => ?_
  split
  · exact (each x hx).symm
  · rfl

end Sums

section Lookup
variable {α κ β : Type} [BEq κ] [LawfulBEq κ] [DecidableEq κ] {f : α → κ} {l m old new : List α}

/-- What a look-up leads to, as a sum over all elements, of which at most one counts. -/
theorem lookup_eq_bind (distinct : (l.map f).Nodup) (k : κ) (missing : Multiset β)
    (found : α → Multiset β) :
    (l.find? fun y => f y == k).elim missing found =
      ((l : Multiset α).bind fun y => if k = f y then found y else 0) +
        if ∀ y ∈ l, f y ≠ k then missing else 0 := by
  induction l with
  | nil =>
      rw [List.find?_nil, Multiset.coe_nil, Multiset.zero_bind, zero_add]
      exact (if_pos (List.forall_mem_nil _)).symm
  | cons x rest ih =>
      rw [List.map_cons, List.nodup_cons] at distinct
      rw [← Multiset.cons_coe, Multiset.cons_bind]
      by_cases same : k = f x
      · have others : ∀ y ∈ (rest : Multiset α), (if k = f y then found y else 0) = 0 := by
          intro y hy
          refine if_neg fun e => distinct.1 ?_
          rw [← same, e]
          exact List.mem_map_of_mem hy
        have known : ¬∀ y ∈ x :: rest, f y ≠ k := fun none => none x List.mem_cons_self same.symm
        rw [List.find?_cons_of_pos (p := fun y => f y == k) (beq_iff_eq.2 same.symm), if_pos same,
          Multiset.bind_congr others, Multiset.bind_zero, add_zero, if_neg known, add_zero]
        rfl
      · have passed : ¬(f x == k) = true := fun e => same (beq_iff_eq.1 e).symm
        rw [List.find?_cons_of_neg (p := fun y => f y == k) passed, if_neg same, zero_add,
          ih distinct.2]
        simp only [List.forall_mem_cons, ne_eq, eq_comm (a := f x), same, not_false_eq_true,
          true_and]

/-- One pass over a list whose elements are looked up by their keys in another one. -/
theorem transitions_lookups (distinct : (m.map f).Nodup) {pass alone : α → List Change}
    {met : α → α → List Change}
    (lookup : ∀ x ∈ l, pass x = (m.find? fun y => f y == f x).elim (alone x) (met x)) :
    transitions (l.flatMap pass) =
      pairSum f l m (fun x y => transitions (met x y)) +
        aloneSum f l m fun x => transitions (alone x) := by
  rw [transitions_flatMap, pairSum, aloneSum, ← Multiset.bind_add]
  refine Multiset.bind_congr fun x hx => ?_
  rw [lookup x hx, ← lookup_eq_bind distinct (f x) _ fun y => transitions (met x y)]
  cases m.find? fun y => f y == f x with
  | none => rfl
  | some y => rfl

/-- Both passes over elements that are matched by their keys, one way and the other. -/
theorem reverses_passes (oldDistinct : (old.map f).Nodup) (newDistinct : (new.map f).Nodup)
    {first second first' second' gained lost gained' lost' : α → List Change}
    {compared dropped compared' dropped' : α → α → List Change}
    (onFirst : ∀ n ∈ new, first n = (old.find? fun y => f y == f n).elim (gained n) (compared n))
    (onSecond : ∀ o ∈ old, second o = (new.find? fun y => f y == f o).elim (lost o) (dropped o))
    (onFirst' : ∀ o ∈ old, first' o =
      (new.find? fun y => f y == f o).elim (gained' o) (compared' o))
    (onSecond' : ∀ n ∈ new, second' n =
      (old.find? fun y => f y == f n).elim (lost' n) (dropped' n))
    (onGained : ∀ n ∈ new, Reverses (gained n) (lost' n))
    (onLost : ∀ o ∈ old, Reverses (lost o) (gained' o))
    (onBoth : ∀ o ∈ old, ∀ n ∈ new, f o = f n →
      Reverses (compared n o ++ dropped o n) (compared' o n ++ dropped' n o)) :
    Reverses (new.flatMap first ++ old.flatMap second)
      (old.flatMap first' ++ new.flatMap second') := by
  have both : (pairSum f old new fun o n => transitions (compared n o) +
        transitions (dropped o n)).map Transition.inverse =
      pairSum f old new fun o n => transitions (compared' o n) + transitions (dropped' n o) := by
    refine map_pairSum fun o ho n hn same => ?_
    rw [← transitions_append, ← transitions_append]
    exact onBoth o ho n hn same
  have forth : transitions (new.flatMap first ++ old.flatMap second) =
      (pairSum f old new fun o n => transitions (compared n o) + transitions (dropped o n)) +
        ((aloneSum f new old fun n => transitions (gained n)) +
          aloneSum f old new fun o => transitions (lost o)) := by
    rw [transitions_append, transitions_lookups oldDistinct onFirst,
      transitions_lookups newDistinct onSecond, add_add_add_comm, pairSum_swap, pairSum_add]
  have back : transitions (old.flatMap first' ++ new.flatMap second') =
      (pairSum f old new fun o n => transitions (compared' o n) + transitions (dropped' n o)) +
        ((aloneSum f old new fun o => transitions (gained' o)) +
          aloneSum f new old fun n => transitions (lost' n)) := by
    rw [transitions_append, transitions_lookups newDistinct onFirst',
      transitions_lookups oldDistinct onSecond', add_add_add_comm,
      pairSum_swap (l := new), pairSum_add]
  rw [Reverses, forth, back, Multiset.map_add, Multiset.map_add, both, map_aloneSum onGained,
    map_aloneSum onLost, add_comm (aloneSum f new old _)]

end Lookup

namespace Compare

theorem presenceKind_inverse (o n : Option String) :
    presenceKind n o = (presenceKind o n).inverse := by
  cases o <;> cases n <;> rfl

/-- Whatever is said of a subject is said of the other one with the values exchanged. -/
theorem reverses_change {s s' : Subject} {kind kind' : ChangeKind} {category category' : Category}
    {code code' : ChangeCode} {o n : Option String} {what what' : String}
    (sameKind : kind' = kind.inverse) (sameCode : code' = code.inverse) :
    (s'.change kind' category' code' n o what').transition =
      (s.change kind category code o n what).transition.inverse := by
  rw [sameKind, sameCode]
  rfl

theorem reverses_mark {s s' : Subject} {o n : Option String} {set unset : ChangeCode}
    {whenSet whenUnset : String} (h : unset = set.inverse) (h' : set = unset.inverse) :
    Reverses (compareMark s o n set unset whenSet whenUnset)
      (compareMark s' n o set unset whenSet whenUnset) := by
  unfold compareMark
  dsimp only
  cases before : o == some "true" with
  | true =>
      cases after : n == some "true" with
      | true => exact .nil
      | false => exact .single (reverses_change (presenceKind_inverse o n) h')
  | false =>
      cases after : n == some "true" with
      | true => exact .single (reverses_change (presenceKind_inverse o n) h)
      | false => exact .nil

theorem reverses_symbol {s s' : Subject} {o n : Option String} :
    Reverses (compareSymbol s o n) (compareSymbol s' n o) :=
  .of_iff eq_comm (reverses_change (presenceKind_inverse o n) rfl)

/-- Among the annotations without a comparison of their own one is found just as among all. -/
theorem find?_filter_isGeneric {l : List Annotation} {a : Annotation} (h : isGeneric a = true) :
    ((l.filter isGeneric).find? fun b => b.name == a.name) = l.find? fun b => b.name == a.name := by
  rw [List.find?_filter]
  congr 1
  funext b
  by_cases same : b.name = a.name
  · have generic : isGeneric b = isGeneric a := by rw [isGeneric, isGeneric, same]
    simp only [generic, h, true_and, Bool.decide_eq_true]
  · simp only [beq_eq_false_iff_ne.2 same, Bool.false_eq_true, and_false, decide_false]

/-- An annotation that only the new version has. -/
def annotationGain (s : Subject) (a : Annotation) : Change :=
  ⟨.added, .info, .annotationAdded, s.path, none, some a.value,
    "Annotation ‘" ++ a.name ++ "’ has been added to " ++ s.named ++ ".", a.location⟩

/-- An annotation that only the old version has. -/
def annotationLoss (s : Subject) (a : Annotation) : Change :=
  ⟨.removed, .info, .annotationRemoved, s.path, some a.value, none,
    "Annotation ‘" ++ a.name ++ "’ has been removed from " ++ s.named ++ ".", s.location⟩

/-- An annotation that had the value of `b` before. -/
def annotationRevision (s : Subject) (a b : Annotation) : Change :=
  ⟨.modified, .info, .annotationChanged, s.path, some b.value, some a.value,
    "Annotation ‘" ++ a.name ++ "’ on " ++ s.named ++ " has changed value "
      ++ fromTo b.value a.value ++ ".", a.location⟩

theorem compareGeneric_eq {s : Subject} {old : Annotations} {a : Annotation}
    (generic : isGeneric a = true) :
    compareGeneric s old a =
      ((old.toList.filter isGeneric).find? fun b => b.name == a.name).elim [annotationGain s a]
        fun b => if b.value = a.value then [] else [annotationRevision s a b] := by
  rw [find?_filter_isGeneric generic, compareGeneric, Annotations.value?, Annotations.get?]
  cases old.toList.find? fun b => b.name == a.name <;> rfl

theorem removeGeneric_eq {s : Subject} {new : Annotations} {a : Annotation}
    (generic : isGeneric a = true) :
    removeGeneric s new a =
      ((new.toList.filter isGeneric).find? fun b => b.name == a.name).elim [annotationLoss s a]
        fun _ => [] := by
  rw [find?_filter_isGeneric generic, removeGeneric, Annotations.get?]
  cases new.toList.find? fun b => b.name == a.name <;> rfl

theorem reverses_generics {s s' : Subject} {old new : Annotations} (oldDistinct : old.Distinct)
    (newDistinct : new.Distinct) :
    Reverses ((new.toList.filter isGeneric).flatMap (compareGeneric s old)
        ++ (old.toList.filter isGeneric).flatMap (removeGeneric s new))
      ((old.toList.filter isGeneric).flatMap (compareGeneric s' new)
        ++ (new.toList.filter isGeneric).flatMap (removeGeneric s' old)) := by
  have apart {t : Annotations} (distinct : t.Distinct) :
      ((t.toList.filter isGeneric).map Annotation.name).Nodup :=
    distinct.sublist (List.filter_sublist.map _)
  refine reverses_passes (apart oldDistinct) (apart newDistinct)
    (fun a ha => compareGeneric_eq (List.mem_filter.1 ha).2)
    (fun a ha => removeGeneric_eq (List.mem_filter.1 ha).2)
    (fun a ha => compareGeneric_eq (List.mem_filter.1 ha).2)
    (fun a ha => removeGeneric_eq (List.mem_filter.1 ha).2)
    (fun _ _ => .single rfl) (fun _ _ => .single rfl) ?_
  intro o _ n _ _
  rw [List.append_nil, List.append_nil]
  exact .of_iff eq_comm rfl

theorem reverses_annotations {s s' : Subject} {old new : Annotations} (oldDistinct : old.Distinct)
    (newDistinct : new.Distinct) :
    Reverses (compareAnnotations s old new) (compareAnnotations s' new old) := by
  simp only [compareAnnotations, List.append_assoc]
  refine .append (reverses_mark rfl rfl) (.append reverses_symbol (.append ?_ ?_))
  · exact reverses_mark rfl rfl
  · exact reverses_generics oldDistinct newDistinct

theorem reverses_doc {s s' : Subject} {old new : Option Documentation} :
    Reverses (compareDoc s old new) (compareDoc s' new old) := .of_iff eq_comm rfl

theorem reverses_emits {s s' : Subject} {old new : String} :
    Reverses (compareEmits s old new) (compareEmits s' new old) :=
  .of_iff eq_comm (reverses_change rfl rfl)

theorem reverses_direction {s s' : Subject} {old new : Option Direction} :
    Reverses (compareDirection s old new) (compareDirection s' new old) := by
  cases old with
  | none =>
      cases new with
      | none => exact .nil
      | some n => exact .nil
  | some o =>
      cases new with
      | none => exact .nil
      | some n => exact .of_iff eq_comm (reverses_change rfl rfl)

theorem reverses_argument {path path' : String} {o n : Argument}
    (oDistinct : o.annotations.Distinct) (nDistinct : n.annotations.Distinct) :
    Reverses (compareArgument path o n) (compareArgument path' n o) := by
  unfold compareArgument
  refine .append (.append (.append (.append ?_ ?_) reverses_direction) ?_) reverses_doc
  · exact .of_iff eq_comm (reverses_change rfl rfl)
  · exact .of_iff eq_comm (reverses_change rfl rfl)
  · exact reverses_annotations oDistinct nDistinct

theorem reverses_addedArguments {kind : CallableKind} {path path' : String} {k : Nat}
    (l : List Argument) :
    Reverses (compareArguments kind path k [] l) (removedArguments path' k l []) := by
  induction l generalizing k with
  | nil => exact .nil
  | cons a rest ih =>
      rw [compareArguments, removedArguments]
      exact .append (.single rfl) ih

theorem reverses_removedArguments {kind : CallableKind} {path path' : String} {k : Nat}
    (l : List Argument) :
    Reverses (removedArguments path k l []) (compareArguments kind path' k [] l) := by
  induction l generalizing k with
  | nil => exact .nil
  | cons a rest ih =>
      rw [compareArguments, removedArguments]
      exact .append (.single rfl) ih

theorem reverses_arguments {kind kind' : CallableKind} {path path' : String} {k : Nat}
    {old new : List Argument} (oldDistinct : ∀ a ∈ old, a.annotations.Distinct)
    (newDistinct : ∀ a ∈ new, a.annotations.Distinct) :
    Reverses (compareArguments kind path k old new ++ removedArguments path k old new)
      (compareArguments kind' path' k new old ++ removedArguments path' k new old) := by
  induction old generalizing new k with
  | nil =>
      rw [show removedArguments path k [] new = [] from rfl, List.append_nil,
        compareArguments, List.nil_append]
      exact reverses_addedArguments new
  | cons o old ih =>
      cases new with
      | nil =>
          rw [compareArguments, List.nil_append, removedArguments, List.append_nil]
          exact reverses_removedArguments (o :: old)
      | cons n new =>
          have ⟨oDistinct, oldDistinct⟩ := List.forall_mem_cons.1 oldDistinct
          have ⟨nDistinct, newDistinct⟩ := List.forall_mem_cons.1 newDistinct
          simp only [compareArguments, removedArguments, List.append_assoc]
          exact .append (reverses_argument oDistinct nDistinct) (ih oldDistinct newDistinct)

theorem reverses_callables {path path' : String} {old new : Callable} (oldAnnotated : old.Annotated)
    (newAnnotated : new.Annotated) :
    Reverses (betweenCallables path old new) (betweenCallables path' new old) := by
  simp only [betweenCallables, compareCallable, List.append_assoc]
  refine .append ?_ (.append reverses_doc ?_)
  · exact reverses_annotations oldAnnotated.own newAnnotated.own
  · exact reverses_arguments oldAnnotated.args newAnnotated.args

theorem reverses_property {path path' : String} {oldOuter newOuter : Annotations}
    {old new : Property} (oldDistinct : old.annotations.Distinct)
    (newDistinct : new.annotations.Distinct) :
    Reverses (compareProperty path oldOuter newOuter old new)
      (compareProperty path' newOuter oldOuter new old) := by
  simp only [compareProperty, List.append_assoc]
  refine .append ?_ (.append ?_ (.append reverses_emits (.append ?_ reverses_doc)))
  · exact .of_iff eq_comm (reverses_change rfl rfl)
  · exact .of_iff eq_comm (reverses_change rfl rfl)
  · exact reverses_annotations oldDistinct newDistinct

section Members
variable (path : String) {old new : Interface}

theorem flatMap_members_perm (i : Interface) (f : Member → List Change) :
    (i.members.flatMap f).Perm (i.methods.flatMap (fun m => f (.method m)) ++
      (i.signals.flatMap (fun s => f (.signal s)) ++
        i.properties.flatMap fun p => f (.property p))) := by
  refine (List.Perm.flatMap_right f (List.mergeSort_perm _ _)).trans (.of_eq ?_)
  simp only [List.flatMap_append, List.flatMap_map, List.append_assoc]

theorem reverses_members {kind : ElementKind} {make : Callable → Member}
    (select : Interface → List Callable) (named : ∀ c, (make c).name = c.name)
    (compared : ∀ o n c, compareMember path o n (make c) =
      ((select o).find? fun d => d.name == c.name).elim
        [.addedElement kind (memberPath path (make c)) c.location]
        fun d => compareCallable (memberPath path (make c)) d c)
    (removed : ∀ n c, removedMember path n (make c) =
      ((select n).find? fun d => d.name == c.name).elim
        [.removedElement kind (memberPath path (make c)) c.location]
        fun d => removedArguments (memberPath path (make c)) 0 c.args d.args)
    (oldDistinct : ((select old).map Callable.name).Nodup)
    (newDistinct : ((select new).map Callable.name).Nodup)
    (oldAnnotated : ∀ c ∈ select old, c.Annotated) (newAnnotated : ∀ c ∈ select new, c.Annotated) :
    Reverses
      ((select new).flatMap (fun c => compareMember path old new (make c)) ++
        (select old).flatMap fun c => removedMember path new (make c))
      ((select old).flatMap (fun c => compareMember path new old (make c)) ++
        (select new).flatMap fun c => removedMember path old (make c)) := by
  refine reverses_passes oldDistinct newDistinct (fun n _ => compared old new n)
    (fun o _ => removed new o) (fun o _ => compared new old o) (fun n _ => removed old n)
    (fun _ _ => .single rfl) (fun _ _ => .single rfl) ?_
  intro o ho n hn same
  simp only [memberPath, named, same]
  exact reverses_callables (oldAnnotated o ho) (newAnnotated n hn)

theorem reverses_properties (oldDistinct : (old.properties.map Property.name).Nodup)
    (newDistinct : (new.properties.map Property.name).Nodup)
    (oldAnnotated : ∀ p ∈ old.properties, p.annotations.Distinct)
    (newAnnotated : ∀ p ∈ new.properties, p.annotations.Distinct) :
    Reverses
      (new.properties.flatMap (fun p => compareMember path old new (.property p)) ++
        old.properties.flatMap fun p => removedMember path new (.property p))
      (old.properties.flatMap (fun p => compareMember path new old (.property p)) ++
        new.properties.flatMap fun p => removedMember path old (.property p)) := by
  refine reverses_passes oldDistinct newDistinct (fun n _ => compareMember_property old new n)
    (fun o _ => removedMember_property new o) (fun o _ => compareMember_property new old o)
    (fun n _ => removedMember_property old n) (fun _ _ => .single rfl) (fun _ _ => .single rfl) ?_
  intro o ho n hn _
  rw [List.append_nil, List.append_nil]
  exact reverses_property (oldAnnotated o ho) (newAnnotated n hn)

theorem reverses_interfaces (oldDistinct : old.NamesDistinct) (newDistinct : new.NamesDistinct)
    (oldAnnotated : old.Annotated) (newAnnotated : new.Annotated) :
    Reverses (betweenInterfaces path old new) (betweenInterfaces path new old) := by
  have methods := reverses_members path Interface.methods (fun _ => rfl)
    compareMember_method removedMember_method oldDistinct.methods newDistinct.methods
    oldAnnotated.methods newAnnotated.methods
  have signals := reverses_members path Interface.signals (fun _ => rfl)
    compareMember_signal removedMember_signal oldDistinct.signals newDistinct.signals
    oldAnnotated.signals newAnnotated.signals
  have properties := reverses_properties path oldDistinct.properties
    newDistinct.properties oldAnnotated.properties newAnnotated.properties
  have members := (methods.interleave (signals.interleave properties)).of_perm
    ((flatMap_members_perm new _).append (flatMap_members_perm old _)).symm
    ((flatMap_members_perm old _).append (flatMap_members_perm new _)).symm
  simp only [betweenInterfaces, compareInterface, List.append_assoc]
  refine .append reverses_emits (.append ?_ (.append reverses_doc members))
  exact reverses_annotations oldAnnotated.own newAnnotated.own

end Members

section Nodes
variable {old new : Node}

theorem reverses_owned (scope : Option String) (oldNamed : old.NamesDistinct) (newNamed : new.NamesDistinct)
    (oldAnnotated : ∀ i ∈ old.interfaces, i.Annotated)
    (newAnnotated : ∀ i ∈ new.interfaces, i.Annotated) :
    Reverses
      (new.interfaces.flatMap (compareOwned scope old) ++
        old.interfaces.flatMap (removedOwned scope new))
      (old.interfaces.flatMap (compareOwned scope new) ++
        new.interfaces.flatMap (removedOwned scope old)) := by
  refine reverses_passes oldNamed.interfaces newNamed.interfaces (fun n _ => compareOwned_eq old n)
    (fun o _ => removedOwned_eq new o) (fun o _ => compareOwned_eq new o)
    (fun n _ => removedOwned_eq old n) (fun _ _ => .single rfl) (fun _ _ => .single rfl) ?_
  intro o ho n hn same
  simp only [interfacePath, same]
  exact reverses_interfaces _ (oldNamed.members o ho) (newNamed.members n hn) (oldAnnotated o ho)
    (newAnnotated n hn)

theorem reverses_nodes {scope : Option String} (oldNamed : old.WellNamed) (newNamed : new.WellNamed)
    (oldAnnotated : old.WellAnnotated) (newAnnotated : new.WellAnnotated) :
    Reverses (betweenNodes scope old new) (betweenNodes scope new old) := by
  induction old using Node.induction generalizing new scope with
  | step old ih =>
      have owned := reverses_owned scope oldNamed.here newNamed.here oldAnnotated.here.2
        newAnnotated.here.2
      have children : Reverses
          (new.nodes.flatMap (compareChild scope old) ++ old.nodes.flatMap (removedChild scope new))
          (old.nodes.flatMap (compareChild scope new) ++
            new.nodes.flatMap (removedChild scope old)) := by
        refine reverses_passes oldNamed.here.children newNamed.here.children
          (fun n hn => compareChild_eq (newNamed.here.childNamed n hn))
          (fun o ho => removedChild_eq (oldNamed.here.childNamed o ho))
          (fun o ho => compareChild_eq (oldNamed.here.childNamed o ho))
          (fun n hn => removedChild_eq (newNamed.here.childNamed n hn)) ?_ ?_ ?_
        · exact fun _ _ => .single rfl
        · exact fun _ _ => .single rfl
        · intro o ho n hn same
          simp only [nameOf, same]
          exact ih o ho (oldNamed.below ho) (newNamed.below hn) (oldAnnotated.below ho)
            (newAnnotated.below hn)
      simp only [betweenNodes, compareNode_eq, removedNode_eq, List.append_assoc]
      refine .append ?_ (.append reverses_doc ?_)
      · exact reverses_annotations oldAnnotated.here.1 newAnnotated.here.1
      · simpa only [List.append_assoc] using owned.interleave children

end Nodes

end Compare

/-- Two versions compared the other way round: the same changes, each one undone. -/
theorem compare_reverse_transitions {a b : Node} (aNamed : a.WellNamed) (bNamed : b.WellNamed)
    (aAnnotated : a.WellAnnotated) (bAnnotated : b.WellAnnotated) :
    transitions (compare b a) = (transitions (compare a b)).map Transition.inverse :=
  Compare.reverses_nodes aNamed bNamed aAnnotated bAnnotated

/-- A bell in its first version. -/
def bell : Node where
  interfaces := [
    { name := "org.example.Bell"
      methods := [
        { kind := .method, name := "Ring"
          args := [
            { type := .ofText "u", direction := some .input },
            { type := .ofText "b", direction := some .output }]
          annotations := ⟨[⟨"Since", "1", {}⟩]⟩ }]
      properties := [{ name := "Pitch", type := .ofText "d", access := .read }] },
    { name := "org.example.Clapper" }]

/-- A later version of the bell, with a change of almost every sort. -/
def laterBell : Node where
  interfaces := [
    { name := "org.example.Bell"
      methods := [
        { kind := .method, name := "Ring"
          args := [{ name := some "times", type := .ofText "q", direction := some .output }]
          annotations := ⟨[⟨AnnotationName.deprecated, "true", {}⟩, ⟨"Since", "2", {}⟩]⟩ }]
      signals := [{ kind := .signal, name := "Rung" }]
      properties := [
        { name := "Pitch", type := .ofText "d", access := .readWrite
          annotations := ⟨[⟨AnnotationName.emitsChanged, "const", {}⟩]⟩ }] }]
  nodes := [{ name := some "clapper" }]

theorem bell_laterBell_reversed :
    (bell.WellNamed ∧ laterBell.WellNamed ∧ bell.WellAnnotated ∧ laterBell.WellAnnotated) ∧
      (compare bell laterBell).length = 11 ∧
      transitions (compare laterBell bell) =
        (transitions (compare bell laterBell)).map Transition.inverse := by
  have named : bell.WellNamed := by decide
  have laterNamed : laterBell.WellNamed := by decide
  have annotated : bell.WellAnnotated := by decide
  have laterAnnotated : laterBell.WellAnnotated := by decide
  have many : (compare bell laterBell).length = 11 := by cbv
  exact ⟨⟨named, laterNamed, annotated, laterAnnotated⟩, many,
    compare_reverse_transitions named laterNamed annotated laterAnnotated⟩

end ApiDrift
