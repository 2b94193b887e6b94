import ApiDrift.Proofs.Change.Agreement
import ApiDrift.Proofs.Change.Inverse
/-! Descriptions in another order and at other places. What a comparison finds between two versions
does not depend on the order of their declarations, on places or on the source of a documentation,
except for the places and the order of the changes themselves. -/
namespace ApiDrift

/-- One list in another order, with elements that are related one by one. -/
def Shuffled {α : Type} (R : α → α → Prop) (l m : List α) : Prop :=
  ∃ k, l.Perm k ∧ List.Forall₂ R k m

/-- The same annotation at another place. -/
structure Annotation.Moved (a b : Annotation) : Prop where
  name : a.name = b.name
  value : a.value = b.value

def Annotations.Rearranged (a b : Annotations) : Prop :=
  Shuffled Annotation.Moved a.toList b.toList

structure Argument.Rearranged (a b : Argument) : Prop where
  name : a.name = b.name
  type : a.type = b.type
  direction : a.direction = b.direction
  annotations : a.annotations.Rearranged b.annotations
  doc : SameText a.doc b.doc

/-- The arguments stay in their order, which callers depend on. -/
structure Callable.Rearranged (a b : Callable) : Prop where
  kind : a.kind = b.kind
  name : a.name = b.name
  args : List.Forall₂ Argument.Rearranged a.args b.args
  annotations : a.annotations.Rearranged b.annotations
  doc : SameText a.doc b.doc

structure Property.Rearranged (p q : Property) : Prop where
  name : p.name = q.name
  type : p.type = q.type
  access : p.access = q.access
  annotations : p.annotations.Rearranged q.annotations
  doc : SameText p.doc q.doc

structure Interface.Rearranged (i j : Interface) : Prop where
  name : i.name = j.name
  methods : Shuffled Callable.Rearranged i.methods j.methods
  signals : Shuffled Callable.Rearranged i.signals j.signals
  properties : Shuffled Property.Rearranged i.properties j.properties
  annotations : i.annotations.Rearranged j.annotations
  doc : SameText i.doc j.doc

/-- A description in another order and at other places, at every depth. -/
inductive Node.Rearranged : Node → Node → Prop
  | intro {a b : Node} {children : List Node}
      (name : a.name = b.name)
      (interfaces : Shuffled Interface.Rearranged a.interfaces b.interfaces)
      (annotations : a.annotations.Rearranged b.annotations)
      (doc : SameText a.doc b.doc)
      (order : a.nodes.Perm children)
      (each : List.Forall₂ Rearranged children b.nodes) :
      Rearranged a b

theorem Node.Rearranged.name_eq {a b : Node} (h : a.Rearranged b) : a.name = b.name := by
  cases h with
  | intro name _ _ _ _ _ => exact name

theorem Node.Rearranged.shuffled {a b : Node} (h : a.Rearranged b) :
    Shuffled Node.Rearranged a.nodes b.nodes := by
  cases h with
  | intro _ _ _ _ order each => exact ⟨_, order, each⟩

section Lookup
variable {α κ : Type} [BEq κ] [LawfulBEq κ] {R : α → α → Prop} {f : α → κ} {l m : List α}

theorem find?_key_perm (distinct : (l.map f).Nodup) (order : l.Perm m) (k : κ) :
    (l.find? fun x => f x == k) = m.find? fun x => f x == k := by
  have others : (m.map f).Nodup := (order.map f).nodup_iff.1 distinct
  apply Option.ext
  intro x
  rw [find?_key_eq_some_iff distinct, find?_key_eq_some_iff others, order.mem_iff]

/-- What a key leads to on the one side is related to what it leads to on the other side. -/
theorem Shuffled.find? (h : Shuffled R l m) (distinct : (l.map f).Nodup)
    (keys : ∀ x y, R x y → f x = f y) (k : κ) :
    Option.Rel R (l.find? fun x => f x == k) (m.find? fun y => f y == k) := by
  obtain ⟨l', order, each⟩ := h
  rw [find?_key_perm distinct order]
  clear order distinct
  induction each with
  | nil => exact .none
  | @cons x y l m first rest ih =>
      rw [List.find?_cons, List.find?_cons, keys x y first]
      cases f y == k with
      | true => exact .some first
      | false => exact ih

end Lookup

/-- The change wherever it stands. -/
def Change.placeless (c : Change) : Change := { c with location := {} }

namespace Compare

/-- Both lists tell the same changes as often, in any order and at any places. -/
def Retold (l m : List Change) : Prop := (l.map Change.placeless).Perm (m.map Change.placeless)

namespace Retold
variable {α : Type} {R : α → α → Prop} {f g : α → List Change}

theorem nil : Retold [] [] := .refl _

theorem single {c d : Change} (h : c.placeless = d.placeless) : Retold [c] [d] := by
  unfold Retold
  rw [List.map_singleton, List.map_singleton, h]

theorem append {l m l' m' : List Change} (first : Retold l m) (second : Retold l' m') :
    Retold (l ++ l') (m ++ m') := by
  unfold Retold
  rw [List.map_append, List.map_append]
  exact List.Perm.append first second

theorem of_perm {l l' m m' : List Change} (h : Retold l m) (first : l'.Perm l)
    (second : m'.Perm m) : Retold l' m' :=
  ((first.map _).trans h).trans (second.map _).symm

theorem of_iff {p q : Prop} [Decidable p] [Decidable q] {c d : Change} (same : p ↔ q)
    (h : c.placeless = d.placeless) :
    Retold (if p then [] else [c]) (if q then [] else [d]) := by
  by_cases unchanged : p
  · rw [if_pos unchanged, if_pos (same.1 unchanged)]
    exact nil
  · rw [if_neg unchanged, if_neg fun hq => unchanged (same.2 hq)]
    exact single h

theorem flatMap {l m : List α} (each : List.Forall₂ R l m)
    (retold : ∀ x ∈ l, ∀ y, R x y → Retold (f x) (g y)) :
    Retold (l.flatMap f) (m.flatMap g) := by
  induction each with
  | nil => exact nil
  | cons first _ ih =>
      obtain ⟨here, later⟩ := List.forall_mem_cons.1 retold
      rw [List.flatMap_cons, List.flatMap_cons]
      exact append (here _ first) (ih later)

theorem elim {x y : Option α} {l m : List Change} (found : Option.Rel R x y) (missing : Retold l m)
    (met : ∀ a, x = some a → ∀ b, R a b → Retold (f a) (g b)) :
    Retold (x.elim l f) (y.elim m g) := by
  cases found with
  | some related => exact met _ rfl _ related
  | none => exact missing

end Retold

end Compare

section
variable {α : Type} {R : α → α → Prop} {f g : α → List Change} {l m : List α}

theorem Shuffled.retold (h : Shuffled R l m)
    (each : ∀ x ∈ l, ∀ y, R x y → Compare.Retold (f x) (g y)) :
    Compare.Retold (l.flatMap f) (m.flatMap g) := by
  obtain ⟨k, order, related⟩ := h
  refine .of_perm (.flatMap related fun x hx => ?_) (order.flatMap_right f) (.refl _)
  exact each x (order.mem_iff.2 hx)

/-- What each element leads to with the one that its key leads to on the other side. -/
theorem Shuffled.retold_lookups {κ : Type} [BEq κ] [LawfulBEq κ] {key : α → κ}
    {others others' : List α} {alone : α → List Change} {met met' : α → α → List Change}
    (h : Shuffled R l m) (h' : Shuffled R others others') (distinct : (others.map key).Nodup)
    (keys : ∀ x y, R x y → key x = key y)
    (lookup : ∀ x ∈ l, f x = (others.find? fun o => key o == key x).elim (alone x) (met x))
    (lookup' : ∀ x ∈ l, ∀ y, R x y →
      g y = (others'.find? fun o => key o == key y).elim (alone y) (met' y))
    (onAlone : ∀ x y, R x y → Compare.Retold (alone x) (alone y))
    (onMet : ∀ x ∈ l, ∀ y, R x y → ∀ o ∈ others, ∀ o', R o o' →
      Compare.Retold (met x o) (met' y o')) :
    Compare.Retold (l.flatMap f) (m.flatMap g) := by
  apply h.retold
  intro x hx y moved
  rw [lookup x hx, lookup' x hx y moved, ← keys x y moved]
  refine .elim (h'.find? distinct keys (key x)) (onAlone x y moved) ?_
  intro o found o' before
  exact onMet x hx y moved o (List.mem_of_find?_eq_some found) o' before

theorem Shuffled.filter (h : Shuffled R l m) {p : α → Bool} (same : ∀ ⦃x y⦄, R x y → (p x ↔ p y)) :
    Shuffled R (l.filter p) (m.filter p) := by
  obtain ⟨k, order, related⟩ := h
  exact ⟨k.filter p, order.filter p, List.rel_filter same related⟩

end

namespace Compare

section Parts
variable {kind : ElementKind} {path : String} {here there : Location}
  {old new old' new' : Annotations}

theorem value?_rearranged (h : old.Rearranged old') (distinct : old.Distinct) (name : String) :
    old.value? name = old'.value? name := by
  have found := h.find? distinct (fun _ _ moved => moved.name) name
  unfold Annotations.value? Annotations.get?
  revert found
  generalize (old.toList.find? fun a => a.name == name) = x
  generalize (old'.toList.find? fun a => a.name == name) = y
  intro found
  cases found with
  | some moved => exact congrArg some moved.value
  | none => rfl

theorem retold_generic {a b : Annotation} (moved : a.Moved b)
    (values : ∀ name, old.value? name = old'.value? name) :
    Retold (compareGeneric ⟨kind, path, here⟩ old a)
      (compareGeneric ⟨kind, path, there⟩ old' b) := by
  unfold compareGeneric
  rw [← moved.name, ← moved.value, ← values]
  cases old.value? a.name with
  | none =>
      apply Retold.single
      simp only [Change.placeless, Subject.named, moved.name]
  | some v =>
      apply Retold.of_iff Iff.rfl
      simp only [Change.placeless, Subject.named, moved.name]

theorem retold_removeGeneric {a b : Annotation} (moved : a.Moved b)
    (values : ∀ name, new.value? name = new'.value? name) :
    Retold (removeGeneric ⟨kind, path, here⟩ new a) (removeGeneric ⟨kind, path, there⟩ new' b) := by
  have known (s : Annotations) : (s.get? a.name).isSome = (s.value? a.name).isSome :=
    (Option.isSome_map ..).symm
  unfold removeGeneric
  rw [← moved.name, known, known, ← values]
  apply Retold.of_iff Iff.rfl
  simp only [Change.placeless, Subject.named, moved.value]

theorem isGeneric_moved {a b : Annotation} (moved : a.Moved b) : isGeneric a ↔ isGeneric b := by
  rw [isGeneric, isGeneric, moved.name]

theorem addedElement_moved {place place' : String} (same : place' = place) :
    Retold [.addedElement kind place here] [.addedElement kind place' there] := by
  rw [same]
  exact .single rfl

theorem removedElement_moved {place place' : String} (same : place' = place) :
    Retold [.removedElement kind place here] [.removedElement kind place' there] := by
  rw [same]
  exact .single rfl

theorem retold_annotations (oldMoved : old.Rearranged old') (newMoved : new.Rearranged new')
    (oldDistinct : old.Distinct) (newDistinct : new.Distinct) :
    Retold (compareAnnotations ⟨kind, path, here⟩ old new)
      (compareAnnotations ⟨kind, path, there⟩ old' new') := by
  have oldValues := value?_rearranged oldMoved oldDistinct
  have newValues := value?_rearranged newMoved newDistinct
  simp only [compareAnnotations, ← oldValues, ← newValues]
  refine .append (.append (.append (.append ?_ ?_) ?_) ?_) ?_
  · exact .of_iff Iff.rfl rfl
  · exact .of_iff Iff.rfl rfl
  · exact .of_iff Iff.rfl rfl
  · apply (newMoved.filter fun _ _ => isGeneric_moved).retold
    intro a _ b moved
    exact retold_generic moved oldValues
  · apply (oldMoved.filter fun _ _ => isGeneric_moved).retold
    intro a _ b moved
    exact retold_removeGeneric moved newValues

theorem retold_doc {old new old' new' : Option Documentation} (oldText : SameText old old')
    (newText : SameText new new') :
    Retold (compareDoc ⟨kind, path, here⟩ old new) (compareDoc ⟨kind, path, there⟩ old' new') := by
  unfold SameText at oldText newText
  simp only [compareDoc, ← oldText, ← newText]
  exact .of_iff Iff.rfl rfl

theorem retold_direction {o n : Option Direction} :
    Retold (compareDirection ⟨kind, path, here⟩ o n)
      (compareDirection ⟨kind, path, there⟩ o n) := by
  unfold compareDirection
  split
  · exact .of_iff Iff.rfl rfl
  · exact .nil

theorem retold_argument {o n o' n' : Argument} (oldMoved : o.Rearranged o')
    (newMoved : n.Rearranged n') (oldDistinct : o.annotations.Distinct)
    (newDistinct : n.annotations.Distinct) :
    Retold (compareArgument path o n) (compareArgument path o' n') := by
  simp only [compareArgument, ← oldMoved.name, ← newMoved.name, ← oldMoved.type, ← newMoved.type,
    ← oldMoved.direction, ← newMoved.direction]
  refine .append (.append (.append (.append ?_ ?_) retold_direction) ?_) ?_
  · exact .of_iff Iff.rfl rfl
  · exact .of_iff Iff.rfl rfl
  · exact retold_annotations oldMoved.annotations newMoved.annotations oldDistinct newDistinct
  · exact retold_doc oldMoved.doc newMoved.doc

theorem argumentPath_moved {a b : Argument} (moved : a.Rearranged b) (k : Nat) :
    argumentPath path b k = argumentPath path a k := by
  rw [argumentPath, argumentPath, argumentLabel, argumentLabel, moved.name]

/-- By induction on the arguments of the new version, which have their positions on both sides. -/
theorem retold_arguments {callable : CallableKind} {k : Nat} {old new old' new' : List Argument}
    (oldMoved : List.Forall₂ Argument.Rearranged old old')
    (newMoved : List.Forall₂ Argument.Rearranged new new')
    (oldDistinct : ∀ a ∈ old, a.annotations.Distinct)
    (newDistinct : ∀ a ∈ new, a.annotations.Distinct) :
    Retold (compareArguments callable path k old new)
      (compareArguments callable path k old' new') := by
  induction newMoved generalizing old old' k with
  | nil =>
      rw [compareArguments, compareArguments]
      exact .nil
  | cons n rest ih =>
      obtain ⟨nDistinct, newDistinct⟩ := List.forall_mem_cons.1 newDistinct
      cases oldMoved with
      | nil =>
          rw [compareArguments, compareArguments]
          refine .append (l := [_]) (m := [_]) (.single ?_) (ih .nil oldDistinct newDistinct)
          rw [argumentPath_moved n]
          simp only [addedArgument, Change.placeless, n.direction, n.type]
      | cons o oldRest =>
          obtain ⟨oDistinct, oldDistinct⟩ := List.forall_mem_cons.1 oldDistinct
          rw [compareArguments, compareArguments, argumentPath_moved n]
          exact .append (retold_argument o n oDistinct nDistinct)
            (ih oldRest oldDistinct newDistinct)

theorem retold_removedArguments {k : Nat} {old new old' new' : List Argument}
    (oldMoved : List.Forall₂ Argument.Rearranged old old')
    (newMoved : List.Forall₂ Argument.Rearranged new new') :
    Retold (removedArguments path k old new) (removedArguments path k old' new') := by
  induction oldMoved generalizing new new' k with
  | nil =>
      rw [removedArguments, removedArguments]
      exact .nil
  | cons o rest ih =>
      cases newMoved with
      | nil =>
          rw [removedArguments, removedArguments]
          refine .append (l := [_]) (m := [_]) (.single ?_) (ih .nil)
          rw [argumentPath_moved o]
          simp only [removedArgument, Change.placeless, o.type]
      | cons n newRest =>
          rw [removedArguments, removedArguments]
          exact ih newRest

theorem retold_callable {old new old' new' : Callable} (oldMoved : old.Rearranged old')
    (newMoved : new.Rearranged new') (oldAnnotated : old.Annotated) (newAnnotated : new.Annotated) :
    Retold (compareCallable path old new) (compareCallable path old' new') := by
  simp only [compareCallable, ← newMoved.kind]
  refine .append (.append ?_ ?_) ?_
  · exact retold_annotations oldMoved.annotations newMoved.annotations oldAnnotated.own
      newAnnotated.own
  · exact retold_doc oldMoved.doc newMoved.doc
  · exact retold_arguments oldMoved.args newMoved.args oldAnnotated.args newAnnotated.args

theorem effectiveEmits_moved {outer own outer' own' : Annotations}
    (outerMoved : outer.Rearranged outer') (ownMoved : own.Rearranged own')
    (outerDistinct : outer.Distinct) (ownDistinct : own.Distinct) :
    effectiveEmits outer' own' = effectiveEmits outer own := by
  rw [effectiveEmits, effectiveEmits, value?_rearranged outerMoved outerDistinct,
    value?_rearranged ownMoved ownDistinct]

/-- A property may inherit from its interface, so that the annotations of both count. -/
theorem retold_property {outer outer' newOuter newOuter' : Annotations} {p p' q q' : Property}
    (oldOuter : outer.Rearranged outer') (newerOuter : newOuter.Rearranged newOuter')
    (oldMoved : p.Rearranged p') (newMoved : q.Rearranged q') (outerDistinct : outer.Distinct)
    (newOuterDistinct : newOuter.Distinct) (oldDistinct : p.annotations.Distinct)
    (newDistinct : q.annotations.Distinct) :
    Retold (compareProperty path outer newOuter p q)
      (compareProperty path outer' newOuter' p' q') := by
  simp only [compareProperty, ← oldMoved.type, ← newMoved.type, ← oldMoved.access,
    ← newMoved.access, effectiveEmits_moved oldOuter oldMoved.annotations outerDistinct oldDistinct,
    effectiveEmits_moved newerOuter newMoved.annotations newOuterDistinct newDistinct]
  refine .append (.append (.append (.append ?_ ?_) ?_) ?_) ?_
  · exact .of_iff Iff.rfl rfl
  · exact .of_iff Iff.rfl rfl
  · exact .of_iff Iff.rfl rfl
  · exact retold_annotations oldMoved.annotations newMoved.annotations oldDistinct newDistinct
  · exact retold_doc oldMoved.doc newMoved.doc

end Parts

section Members
variable {path : String} {old new old' new' : Interface}

theorem memberPath_moved (m m' : Member) (same : m.name = m'.name) :
    memberPath path m' = memberPath path m := by rw [memberPath, memberPath, same]

theorem retold_compareMembers (oldMoved : old.Rearranged old') (newMoved : new.Rearranged new')
    (oldNamed : old.NamesDistinct) (oldAnnotated : old.Annotated) (newAnnotated : new.Annotated) :
    Retold (new.members.flatMap (compareMember path old new))
      (new'.members.flatMap (compareMember path old' new')) := by
  refine .of_perm (.append ?_ (.append ?_ ?_)) (flatMap_members_perm _ _)
    (flatMap_members_perm _ _)
  · refine newMoved.methods.retold_lookups oldMoved.methods oldNamed.methods
      (fun _ _ moved => moved.name)
      (fun m _ => compareMember_method old new m) (fun _ _ m _ => compareMember_method old' new' m)
      (fun m m' moved => addedElement_moved
        (memberPath_moved (.method m) (.method m') moved.name)) ?_
    intro m hm m' moved o ho o' before
    simp only [memberPath, Member.name, ← moved.name]
    exact retold_callable before moved (oldAnnotated.methods o ho) (newAnnotated.methods m hm)
  · refine newMoved.signals.retold_lookups oldMoved.signals oldNamed.signals
      (fun _ _ moved => moved.name)
      (fun s _ => compareMember_signal old new s) (fun _ _ s _ => compareMember_signal old' new' s)
      (fun m m' moved => addedElement_moved
        (memberPath_moved (.signal m) (.signal m') moved.name)) ?_
    intro s hs s' moved o ho o' before
    simp only [memberPath, Member.name, ← moved.name]
    exact retold_callable before moved (oldAnnotated.signals o ho) (newAnnotated.signals s hs)
  · refine newMoved.properties.retold_lookups oldMoved.properties oldNamed.properties
      (fun _ _ moved => moved.name)
      (fun p _ => compareMember_property old new p)
      (fun _ _ p _ => compareMember_property old' new' p)
      (fun m m' moved => addedElement_moved
        (memberPath_moved (.property m) (.property m') moved.name)) ?_
    intro p hp p' moved o ho o' before
    simp only [memberPath, Member.name, ← moved.name]
    exact retold_property oldMoved.annotations newMoved.annotations before moved oldAnnotated.own
      newAnnotated.own (oldAnnotated.properties o ho) (newAnnotated.properties p hp)

theorem retold_removedMembers (oldMoved : old.Rearranged old') (newMoved : new.Rearranged new')
    (newNamed : new.NamesDistinct) :
    Retold (old.members.flatMap (removedMember path new))
      (old'.members.flatMap (removedMember path new')) := by
  refine .of_perm (.append ?_ (.append ?_ ?_)) (flatMap_members_perm _ _)
    (flatMap_members_perm _ _)
  · refine oldMoved.methods.retold_lookups newMoved.methods newNamed.methods
      (fun _ _ moved => moved.name)
      (fun m _ => removedMember_method new m) (fun _ _ m _ => removedMember_method new' m)
      (fun m m' moved => removedElement_moved
        (memberPath_moved (.method m) (.method m') moved.name)) ?_
    intro m _ m' moved n _ n' after
    simp only [memberPath, Member.name, ← moved.name]
    exact retold_removedArguments moved.args after.args
  · refine oldMoved.signals.retold_lookups newMoved.signals newNamed.signals
      (fun _ _ moved => moved.name)
      (fun s _ => removedMember_signal new s) (fun _ _ s _ => removedMember_signal new' s)
      (fun m m' moved => removedElement_moved
        (memberPath_moved (.signal m) (.signal m') moved.name)) ?_
    intro s _ s' moved n _ n' after
    simp only [memberPath, Member.name, ← moved.name]
    exact retold_removedArguments moved.args after.args
  · refine oldMoved.properties.retold_lookups newMoved.properties newNamed.properties
      (fun _ _ moved => moved.name)
      (fun p _ => removedMember_property new p) (fun _ _ p _ => removedMember_property new' p)
      (fun m m' moved => removedElement_moved
        (memberPath_moved (.property m) (.property m') moved.name)) ?_
    intros
    exact .nil

theorem retold_compareInterface (oldMoved : old.Rearranged old') (newMoved : new.Rearranged new')
    (oldNamed : old.NamesDistinct) (oldAnnotated : old.Annotated) (newAnnotated : new.Annotated) :
    Retold (compareInterface path old new) (compareInterface path old' new') := by
  have own {i i' : Interface} (moved : i.Rearranged i') (annotated : i.Annotated) :
      effectiveEmits {} i'.annotations = effectiveEmits {} i.annotations := by
    rw [effectiveEmits_interface, effectiveEmits_interface, Interface.emits, Interface.emits,
      value?_rearranged moved.annotations annotated.own]
  simp only [compareInterface, own oldMoved oldAnnotated, own newMoved newAnnotated]
  refine .append (.append (.append ?_ ?_) ?_) ?_
  · exact .of_iff Iff.rfl rfl
  · exact retold_annotations oldMoved.annotations newMoved.annotations oldAnnotated.own
      newAnnotated.own
  · exact retold_doc oldMoved.doc newMoved.doc
  · exact retold_compareMembers oldMoved newMoved oldNamed oldAnnotated newAnnotated

end Members

section Nodes
variable {scope : Option String} {old new old' new' : Node}

theorem interfacePath_moved {i i' : Interface} (moved : i.Rearranged i') :
    interfacePath scope i' = interfacePath scope i := by
  rw [interfacePath, interfacePath, moved.name]

theorem childPath_moved {c c' : Node} (moved : c.Rearranged c') :
    childPath scope (nameOf c') = childPath scope (nameOf c) := by
  rw [nameOf, nameOf, moved.name_eq]

theorem retold_compareNode (oldMoved : old.Rearranged old') (newMoved : new.Rearranged new')
    (oldNamed : old.WellNamed) (newNamed : new.WellNamed) (oldAnnotated : old.WellAnnotated)
    (newAnnotated : new.WellAnnotated) :
    Retold (compareNode scope old new) (compareNode scope old' new') := by
  induction new using Node.induction generalizing old old' new' scope with
  | step new ih =>
      have oldChildren := oldMoved.shuffled
      have newChildren := newMoved.shuffled
      have label := newMoved.name_eq
      cases oldMoved with
      | intro _ oldInterfaces oldAnnotations oldDoc _ _ =>
      cases newMoved with
      | intro _ newInterfaces newAnnotations newDoc _ _ =>
      rw [compareNode_eq, compareNode_eq, ← label]
      refine .append (.append (.append ?_ ?_) ?_) ?_
      · exact retold_annotations oldAnnotations newAnnotations oldAnnotated.here.1
          newAnnotated.here.1
      · exact retold_doc oldDoc newDoc
      · refine newInterfaces.retold_lookups oldInterfaces oldNamed.here.interfaces
          (fun _ _ moved => moved.name)
          (fun i _ => compareOwned_eq old i) (fun _ _ i _ => compareOwned_eq old' i)
          (fun _ _ moved => addedElement_moved (interfacePath_moved moved)) ?_
        intro i hi i' moved o ho o' before
        rw [interfacePath_moved moved]
        exact retold_compareInterface before moved (oldNamed.here.members o ho)
          (oldAnnotated.here.2 o ho) (newAnnotated.here.2 i hi)
      · refine newChildren.retold_lookups oldChildren oldNamed.here.children
          (fun _ _ moved => moved.name_eq)
          (fun c hc => compareChild_eq (newNamed.here.childNamed c hc))
          (fun c hc _ moved => compareChild_eq (moved.name_eq ▸ newNamed.here.childNamed c hc))
          (fun _ _ moved => addedElement_moved (childPath_moved moved)) ?_
        intro c hc c' moved o ho o' before
        rw [childPath_moved moved]
        exact ih c hc before moved (oldNamed.below ho) (newNamed.below hc) (oldAnnotated.below ho)
          (newAnnotated.below hc)

theorem retold_removedNode (oldMoved : old.Rearranged old') (newMoved : new.Rearranged new')
    (oldNamed : old.WellNamed) (newNamed : new.WellNamed) :
    Retold (removedNode scope new old) (removedNode scope new' old') := by
  induction old using Node.induction generalizing new old' new' scope with
  | step old ih =>
      have oldChildren := oldMoved.shuffled
      have newChildren := newMoved.shuffled
      cases oldMoved with
      | intro _ oldInterfaces _ _ _ _ =>
      cases newMoved with
      | intro _ newInterfaces _ _ _ _ =>
      rw [removedNode_eq, removedNode_eq]
      refine .append ?_ ?_
      · refine oldInterfaces.retold_lookups newInterfaces newNamed.here.interfaces
          (fun _ _ moved => moved.name)
          (fun i _ => removedOwned_eq new i) (fun _ _ i _ => removedOwned_eq new' i)
          (fun _ _ moved => removedElement_moved (interfacePath_moved moved)) ?_
        intro i hi i' moved n hn n' after
        rw [interfacePath_moved moved]
        exact retold_removedMembers moved after (newNamed.here.members n hn)
      · refine oldChildren.retold_lookups newChildren newNamed.here.children
          (fun _ _ moved => moved.name_eq)
          (fun c hc => removedChild_eq (oldNamed.here.childNamed c hc))
          (fun c hc _ moved => removedChild_eq (moved.name_eq ▸ oldNamed.here.childNamed c hc))
          (fun _ _ moved => removedElement_moved (childPath_moved moved)) ?_
        intro c hc c' moved n hn n' after
        rw [childPath_moved moved]
        exact ih c hc moved after (oldNamed.below hc) (newNamed.below hn)

end Nodes

end Compare

/-- Two versions in another order and at other places have the same changes between them, each as
often and told in the same words. -/
theorem compare_rearranged_perm {old new old' new' : Node} (oldNamed : old.WellNamed)
    (newNamed : new.WellNamed) (oldAnnotated : old.WellAnnotated)
    (newAnnotated : new.WellAnnotated) (oldMoved : old.Rearranged old')
    (newMoved : new.Rearranged new') :
    ((compare old' new').map Change.placeless).Perm ((compare old new).map Change.placeless) := by
  have compared : Compare.Retold (Compare.compareNode none old new)
      (Compare.compareNode none old' new') :=
    Compare.retold_compareNode oldMoved newMoved oldNamed newNamed oldAnnotated newAnnotated
  have removed : Compare.Retold (Compare.removedNode none new old)
      (Compare.removedNode none new' old') :=
    Compare.retold_removedNode oldMoved newMoved oldNamed newNamed
  exact (compared.append removed).symm

/-- A shop whose shutter goes up and down. -/
def shop : Node where
  interfaces := [
    { name := "org.example.Shutter"
      methods := [{ kind := .method, name := "Raise" }, { kind := .method, name := "Lower" }] },
    { name := "org.example.Till" }]

/-- The shop declared the other way round. -/
def shopRewritten : Node where
  interfaces := [
    { name := "org.example.Till", location := ⟨2, 3⟩ },
    { name := "org.example.Shutter"
      methods := [
        { kind := .method, name := "Lower", location := ⟨4, 5⟩ },
        { kind := .method, name := "Raise", location := ⟨5, 5⟩ }]
      location := ⟨3, 3⟩ }]

/-- A later shop, which has no till and whose shutter only goes up. -/
def laterShop : Node where
  interfaces := [
    { name := "org.example.Shutter"
      methods := [{ kind := .method, name := "Raise" }]
      annotations := ⟨[⟨"Since", "2", {}⟩, ⟨"By", "hand", {}⟩]⟩
      doc := some ⟨"Made of steel.", .comment, {}⟩ }]

/-- The later shop with its notes the other way round. -/
def laterShopRewritten : Node where
  interfaces := [
    { name := "org.example.Shutter"
      methods := [{ kind := .method, name := "Raise", location := ⟨8, 5⟩ }]
      annotations := ⟨[⟨"By", "hand", ⟨6, 5⟩⟩, ⟨"Since", "2", ⟨7, 5⟩⟩]⟩
      doc := some ⟨"Made of steel.", .annotated, ⟨5, 5⟩⟩
      location := ⟨4, 3⟩ }]

theorem shop_rearranged : shop.Rearranged shopRewritten := by
  have bare : Annotations.Rearranged {} {} := ⟨[], .nil, .nil⟩
  have moved (name : String) (here there : Location) : Callable.Rearranged
      { kind := .method, name, location := here } { kind := .method, name, location := there } :=
    ⟨rfl, rfl, .nil, bare, rfl⟩
  refine .intro rfl ⟨_, .swap _ _ [], .cons ?_ (.cons ?_ .nil)⟩ bare rfl .nil .nil
  · exact ⟨rfl, ⟨[], .nil, .nil⟩, ⟨[], .nil, .nil⟩, ⟨[], .nil, .nil⟩, bare, rfl⟩
  · refine ⟨rfl, ⟨_, .swap _ _ [], ?_⟩, ⟨[], .nil, .nil⟩, ⟨[], .nil, .nil⟩, bare, rfl⟩
    exact .cons (moved ..) (.cons (moved ..) .nil)

theorem laterShop_rearranged : laterShop.Rearranged laterShopRewritten := by
  have bare : Annotations.Rearranged {} {} := ⟨[], .nil, .nil⟩
  refine .intro rfl ⟨_, .refl _, .cons ?_ .nil⟩ bare rfl .nil .nil
  refine ⟨rfl, ⟨_, .refl _, ?_⟩, ⟨[], .nil, .nil⟩, ⟨[], .nil, .nil⟩, ?_, rfl⟩
  · exact .cons ⟨rfl, rfl, .nil, bare, rfl⟩ .nil
  · exact ⟨_, .swap _ _ [], .cons ⟨rfl, rfl⟩ (.cons ⟨rfl, rfl⟩ .nil)⟩

/-- Five changes between the two shops, however they are written. -/
theorem shops_rearranged_perm :
    ((shop.WellNamed ∧ laterShop.WellNamed) ∧ (shop.WellAnnotated ∧ laterShop.WellAnnotated) ∧
      shop.Rearranged shopRewritten ∧ laterShop.Rearranged laterShopRewritten) ∧
    (compare shop laterShop).length = 5 ∧
    ((compare shopRewritten laterShopRewritten).map Change.placeless).Perm
      ((compare shop laterShop).map Change.placeless) := by
  have named : shop.WellNamed := by decide
  have laterNamed : laterShop.WellNamed := by decide
  have annotated : shop.WellAnnotated := by decide
  have laterAnnotated : laterShop.WellAnnotated := by decide
  have five : (compare shop laterShop).length = 5 := by cbv
  refine ⟨⟨⟨named, laterNamed⟩, ⟨annotated, laterAnnotated⟩, shop_rearranged,
    laterShop_rearranged⟩, five, ?_⟩
  exact compare_rearranged_perm named laterNamed annotated laterAnnotated shop_rearranged
    laterShop_rearranged

end ApiDrift
