import ApiDrift.Proofs.Change.Pass
import Mathlib.Data.List.Forall2
/-! The removals from one version to another are the additions the other way round, at the same
places and in the same order: both passes walk one tree and look its elements up in the other.
Nothing is asked of the names in the two trees. -/
namespace ApiDrift

namespace Change

/-- An addition of an element, of whatever kind. -/
def isAddition (c : Change) : Bool :=
  match c.code with
  | .added _ => true
  | _ => false

/-- A removal of an element, of whatever kind. -/
def isRemoval (c : Change) : Bool :=
  match c.code with
  | .removed _ => true
  | _ => false

/-- An element that came, and the same element as it goes. -/
structure Mirrors (gain loss : Change) : Prop where
  element : ∃ kind, gain.code = .added kind ∧ loss.code = .removed kind
  path : gain.path = loss.path
  location : gain.location = loss.location
  value : gain.new = loss.old
  gainOld : gain.old = none
  lossNew : loss.new = none
  category : loss.category = .backwards

/-- A change of an element that both versions have. -/
def Amends (c : Change) : Prop := ∀ kind, c.code ≠ .added kind ∧ c.code ≠ .removed kind

theorem isAddition_iff {c : Change} : c.isAddition = true ↔ ∃ kind, c.code = .added kind := by
  unfold isAddition
  cases c.code <;> simp

theorem isRemoval_iff {c : Change} : c.isRemoval = true ↔ ∃ kind, c.code = .removed kind := by
  unfold isRemoval
  cases c.code <;> simp

theorem Amends.not_isAddition {c : Change} (h : c.Amends) : ¬c.isAddition = true := by
  rw [isAddition_iff]
  rintro ⟨kind, added⟩
  exact (h kind).1 added

theorem Amends.not_isRemoval {c : Change} (h : c.Amends) : ¬c.isRemoval = true := by
  rw [isRemoval_iff]
  rintro ⟨kind, removed⟩
  exact (h kind).2 removed

theorem mirrors_element (kind : ElementKind) (path : String) (location : Location) :
    Mirrors (addedElement kind path location) (removedElement kind path location) :=
  ⟨⟨kind, rfl, rfl⟩, rfl, rfl, rfl, rfl, rfl, rfl⟩

end Change

namespace Compare

theorem mirrors_argument (kind : CallableKind) (path : String) (a : Argument) :
    Change.Mirrors (addedArgument kind path a) (removedArgument path a) :=
  ⟨⟨.argument, rfl, rfl⟩, rfl, rfl, rfl, rfl, rfl, rfl⟩

/-- A run of the first pass beside the second pass the other way round, change by change. -/
inductive Mirrored : List Change → List Change → Prop
  | nil : Mirrored [] []
  | amend {c : Change} {first second : List Change} :
      c.Amends → Mirrored first second → Mirrored (c :: first) second
  | mirror {gain loss : Change} {first second : List Change} :
      gain.Mirrors loss → Mirrored first second → Mirrored (gain :: first) (loss :: second)

namespace Mirrored

theorem single {gain loss : Change} (h : gain.Mirrors loss) : Mirrored [gain] [loss] :=
  .mirror h .nil

theorem append {first second first' second' : List Change} (h : Mirrored first second)
    (h' : Mirrored first' second') : Mirrored (first ++ first') (second ++ second') := by
  induction h with
  | nil => exact h'
  | amend amends _ ih => exact .amend amends ih
  | mirror mirrors _ ih => exact .mirror mirrors ih

theorem of_amends {l : List Change} (h : ∀ c ∈ l, c.Amends) : Mirrored l [] := by
  induction l with
  | nil => exact .nil
  | cons c rest ih =>
      have ⟨own, others⟩ := List.forall_mem_cons.1 h
      exact .amend own (ih others)

theorem after_amends {l first second : List Change} (h : ∀ c ∈ l, c.Amends)
    (later : Mirrored first second) : Mirrored (l ++ first) second := (of_amends h).append later

theorem flatMap {α : Type} {first second : α → List Change} {l : List α}
    (h : ∀ x ∈ l, Mirrored (first x) (second x)) : Mirrored (l.flatMap first) (l.flatMap second) := by
  induction l with
  | nil => exact .nil
  | cons x rest ih =>
      have ⟨own, others⟩ := List.forall_mem_cons.1 h
      rw [List.flatMap_cons, List.flatMap_cons]
      exact own.append (ih others)

theorem elim {α : Type} {found : Option α} {gain loss : Change} {first second : α → List Change}
    (missing : gain.Mirrors loss) (met : ∀ x ∈ found, Mirrored (first x) (second x)) :
    Mirrored (found.elim [gain] first) (found.elim [loss] second) := by
  cases found with
  | none => exact single missing
  | some x => exact met x rfl

theorem forall₂ {first second : List Change} (h : Mirrored first second) :
    List.Forall₂ Change.Mirrors (first.filter Change.isAddition) second := by
  induction h with
  | nil => exact .nil
  | amend amends _ ih => rwa [List.filter_cons_of_neg amends.not_isAddition]
  | mirror mirrors _ ih =>
      obtain ⟨kind, added, -⟩ := mirrors.element
      rw [List.filter_cons_of_pos (Change.isAddition_iff.2 ⟨kind, added⟩)]
      exact .cons mirrors ih

theorem first_not_removal {first second : List Change} (h : Mirrored first second) :
    ∀ c ∈ first, ¬c.isRemoval = true := by
  induction h with
  | nil => exact List.forall_mem_nil _
  | amend amends _ ih => exact List.forall_mem_cons.2 ⟨amends.not_isRemoval, ih⟩
  | mirror mirrors _ ih =>
      obtain ⟨kind, added, -⟩ := mirrors.element
      refine List.forall_mem_cons.2 ⟨?_, ih⟩
      rw [Change.isRemoval_iff, added]
      rintro ⟨other, removed⟩
      cases removed

theorem second_removal {first second : List Change} (h : Mirrored first second) :
    ∀ c ∈ second, c.isRemoval = true ∧ ¬c.isAddition = true := by
  induction h with
  | nil => exact List.forall_mem_nil _
  | amend _ _ ih => exact ih
  | mirror mirrors _ ih =>
      obtain ⟨kind, -, removed⟩ := mirrors.element
      refine List.forall_mem_cons.2 ⟨⟨Change.isRemoval_iff.2 ⟨kind, removed⟩, ?_⟩, ih⟩
      rw [Change.isAddition_iff, removed]
      rintro ⟨other, added⟩
      cases added

end Mirrored

theorem amends_compareMark {s : Subject} {o n : Option String} {set unset : ChangeCode}
    {whenSet whenUnset : String} (onSet : ∀ kind, set ≠ .added kind ∧ set ≠ .removed kind)
    (onUnset : ∀ kind, unset ≠ .added kind ∧ unset ≠ .removed kind) :
    ∀ c ∈ compareMark s o n set unset whenSet whenUnset, c.Amends := by
  refine forall_mem_unless fun kind => ?_
  show (if _ then set else unset) ≠ _ ∧ (if _ then set else unset) ≠ _
  split
  · exact onSet kind
  · exact onUnset kind

theorem amends_compareAnnotations {s : Subject} {old new : Annotations} :
    ∀ c ∈ compareAnnotations s old new, c.Amends := by
  simp only [compareAnnotations, List.forall_mem_append, List.forall_mem_flatMap]
  refine ⟨⟨⟨⟨?_, ?_⟩, ?_⟩, ?_⟩, ?_⟩
  · exact amends_compareMark (fun _ => ⟨nofun, nofun⟩) (fun _ => ⟨nofun, nofun⟩)
  · exact forall_mem_unless fun _ => ⟨nofun, nofun⟩
  · exact amends_compareMark (fun _ => ⟨nofun, nofun⟩) (fun _ => ⟨nofun, nofun⟩)
  · intro a _
    unfold compareGeneric
    split
    · exact List.forall_mem_singleton.2 fun _ => ⟨nofun, nofun⟩
    · exact forall_mem_unless fun _ => ⟨nofun, nofun⟩
  · intro a _
    exact forall_mem_unless fun _ => ⟨nofun, nofun⟩

theorem amends_compareDoc {s : Subject} {old new : Option Documentation} :
    ∀ c ∈ compareDoc s old new, c.Amends := forall_mem_unless fun _ => ⟨nofun, nofun⟩

theorem amends_compareEmits {s : Subject} {old new : String} :
    ∀ c ∈ compareEmits s old new, c.Amends := forall_mem_unless fun _ => ⟨nofun, nofun⟩

theorem amends_compareDirection {s : Subject} {old new : Option Direction} :
    ∀ c ∈ compareDirection s old new, c.Amends := by
  unfold compareDirection
  split
  · exact forall_mem_unless fun _ => ⟨nofun, nofun⟩
  · exact List.forall_mem_nil _

theorem amends_compareArgument {path : String} {old new : Argument} :
    ∀ c ∈ compareArgument path old new, c.Amends := by
  simp only [compareArgument, List.forall_mem_append]
  refine ⟨⟨⟨⟨?_, ?_⟩, amends_compareDirection⟩, amends_compareAnnotations⟩, amends_compareDoc⟩
  · exact forall_mem_unless fun _ => ⟨nofun, nofun⟩
  · exact forall_mem_unless fun _ => ⟨nofun, nofun⟩

theorem amends_compareProperty {path : String} {oldOuter newOuter : Annotations}
    {old new : Property} : ∀ c ∈ compareProperty path oldOuter newOuter old new, c.Amends := by
  simp only [compareProperty, List.forall_mem_append]
  refine ⟨⟨⟨⟨?_, ?_⟩, amends_compareEmits⟩, amends_compareAnnotations⟩, amends_compareDoc⟩
  · exact forall_mem_unless fun _ => ⟨nofun, nofun⟩
  · exact forall_mem_unless fun _ => ⟨nofun, nofun⟩

/-- Arguments beyond those of the other version are found by their positions in either pass. -/
theorem mirrored_arguments (kind : CallableKind) (path : String) (position : Nat)
    (old new : List Argument) :
    Mirrored (compareArguments kind path position old new)
      (removedArguments path position new old) := by
  induction new generalizing old position with
  | nil =>
      rw [compareArguments, removedArguments]
      exact .nil
  | cons a rest ih =>
      cases old with
      | nil =>
          rw [compareArguments, removedArguments]
          exact .mirror (mirrors_argument kind _ a) (ih (position + 1) [])
      | cons o old =>
          rw [compareArguments, removedArguments]
          exact .after_amends amends_compareArgument (ih (position + 1) old)

theorem mirrored_callable (path : String) (old new : Callable) :
    Mirrored (compareCallable path old new) (removedArguments path 0 new.args old.args) := by
  rw [compareCallable, List.append_assoc]
  refine .after_amends amends_compareAnnotations (.after_amends amends_compareDoc ?_)
  exact mirrored_arguments new.kind path 0 old.args new.args

theorem mirrored_member (path : String) (old new : Interface) (m : Member) :
    Mirrored (compareMember path old new m) (removedMember path old m) := by
  cases m with
  | method c =>
      rw [compareMember_method, removedMember_method]
      exact .elim (Change.mirrors_element ..) fun o _ => mirrored_callable _ o c
  | signal c =>
      rw [compareMember_signal, removedMember_signal]
      exact .elim (Change.mirrors_element ..) fun o _ => mirrored_callable _ o c
  | property p =>
      rw [compareMember_property, removedMember_property]
      exact .elim (Change.mirrors_element ..) fun o _ => .of_amends amends_compareProperty

theorem mirrored_interface (path : String) (old new : Interface) :
    Mirrored (compareInterface path old new) (new.members.flatMap (removedMember path old)) := by
  rw [compareInterface, List.append_assoc, List.append_assoc]
  refine .after_amends amends_compareEmits (.after_amends amends_compareAnnotations
    (.after_amends amends_compareDoc ?_))
  exact .flatMap fun m _ => mirrored_member path old new m

theorem mirrored_owned (scope : Option String) (old : Node) (i : Interface) :
    Mirrored (compareOwned scope old i) (removedOwned scope old i) := by
  rw [compareOwned_eq, removedOwned_eq]
  exact .elim (Change.mirrors_element ..) fun o _ => mirrored_interface _ o i

theorem mirrored_node (scope : Option String) (old new : Node) :
    Mirrored (compareNode scope old new) (removedNode scope old new) := by
  induction new using Node.induction generalizing scope old with
  | step new ih =>
      rw [compareNode_eq, removedNode_eq, List.append_assoc, List.append_assoc]
      refine .after_amends amends_compareAnnotations (.after_amends amends_compareDoc
        (.append ?_ ?_))
      · exact .flatMap fun i _ => mirrored_owned scope old i
      · refine .flatMap fun child hc => ?_
        rw [compareChild, removedChild]
        cases child.name with
        | none => exact .nil
        | some name => exact .elim (Change.mirrors_element ..) fun o _ => ih child hc _ o

theorem filter_isAddition_compare (a b : Node) :
    (compare a b).filter Change.isAddition = (compareNode none a b).filter Change.isAddition := by
  rw [compare, List.filter_append, List.filter_eq_nil_iff.2 fun c hc =>
    ((mirrored_node none b a).second_removal c hc).2, List.append_nil]

theorem filter_isRemoval_compare (a b : Node) :
    (compare a b).filter Change.isRemoval = removedNode none b a := by
  rw [compare, List.filter_append,
    List.filter_eq_nil_iff.2 (mirrored_node none a b).first_not_removal, List.nil_append]
  exact List.filter_eq_self.2 fun c hc => ((mirrored_node none b a).second_removal c hc).1

end Compare

/-- What comes from one version to another goes the other way round: the additions of elements
are, one by one, the removals of the opposite comparison. -/
theorem additions_mirror_removals (a b : Node) :
    List.Forall₂ Change.Mirrors ((compare a b).filter Change.isAddition)
      ((compare b a).filter Change.isRemoval) := by
  rw [Compare.filter_isAddition_compare, Compare.filter_isRemoval_compare]
  exact (Compare.mirrored_node none a b).forall₂

end ApiDrift
