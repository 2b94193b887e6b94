import ApiDrift.Proofs.Change.Compatibility
import ApiDrift.Proofs.Change.Inverse
import ApiDrift.Proofs.Introspection.Parse
/-! Where additions and removals are reported. Unless a path is that of a renamed argument or root,
something comes there one way just if something goes there the other way. Paths of what both
versions have are built from the names in the new one, so that a rename moves what is removed to
another path. -/
namespace ApiDrift

theorem ChangeKind.inverse_inverse (kind : ChangeKind) : kind.inverse.inverse = kind := by
  cases kind <;> rfl

/-- An addition that is reported at this path, of an element or of what one has. -/
def Change.CameAt (path : String) (c : Change) : Prop := c.kind = .added ∧ c.path = path

def Change.WentAt (path : String) (c : Change) : Prop := c.kind = .removed ∧ c.path = path

/-- An argument at this path, which had another name before. -/
def Change.RenamesAt (path : String) (c : Change) : Prop := c.code = .argumentName ∧ c.path = path

namespace Compare

/-- Nothing comes at the path in the one list just if nothing goes there in the other one. -/
def MirrorAt (path : String) (l m : List Change) : Prop :=
  (∀ c ∈ l, ¬c.CameAt path) ↔ ∀ c ∈ m, ¬c.WentAt path

namespace MirrorAt
variable {x : String}

theorem nil : MirrorAt x [] [] := by simp [MirrorAt]

theorem append {l m l' m' : List Change} (first : MirrorAt x l m) (second : MirrorAt x l' m') :
    MirrorAt x (l ++ l') (m ++ m') := by
  unfold MirrorAt at *
  rw [List.forall_mem_append, List.forall_mem_append, first, second]

theorem of_reverses {l m : List Change} {here there : String} (h : Reverses l m)
    (first : ∀ c ∈ l, c.path = here) (second : ∀ c ∈ m, c.path = there)
    (alike : here = x ↔ there = x) : MirrorAt x l m := by
  have matched (t : Transition) : t ∈ transitions m ↔ ∃ s ∈ transitions l, s.inverse = t := by
    rw [h, Multiset.mem_map]
  have mem (l : List Change) (t : Transition) : t ∈ transitions l ↔ ∃ c ∈ l, c.transition = t := by
    rw [transitions, Multiset.mem_coe, List.mem_map]
  constructor
  · rintro none d hd ⟨gone, place⟩
    obtain ⟨s, hs, inverse⟩ := (matched d.transition).1 ((mem m _).2 ⟨d, hd, rfl⟩)
    obtain ⟨c, hc, rfl⟩ := (mem l s).1 hs
    have came : c.kind = .added := by
      have kinds : c.kind.inverse = .removed := (congrArg Transition.kind inverse).trans gone
      rw [← c.kind.inverse_inverse, kinds]
      rfl
    exact none c hc ⟨came, (first c hc).trans (alike.2 ((second d hd).symm.trans place))⟩
  · rintro none c hc ⟨came, place⟩
    have inverse := (matched _).2 ⟨c.transition, (mem l _).2 ⟨c, hc, rfl⟩, rfl⟩
    obtain ⟨d, hd, same⟩ := (mem m _).1 inverse
    have gone : d.kind = .removed := by
      have kinds : d.kind = c.kind.inverse := congrArg Transition.kind same
      rw [kinds, came]
      rfl
    exact none d hd ⟨gone, (second d hd).trans (alike.1 ((first c hc).symm.trans place))⟩

theorem of_forall {l m : List Change} (first : ∀ c ∈ l, c.kind ≠ .added)
    (second : ∀ c ∈ m, c.kind ≠ .removed) : MirrorAt x l m :=
  ⟨fun _ c hc gone => second c hc gone.1, fun _ c hc came => first c hc came.1⟩

end MirrorAt

theorem path_compareAnnotations {s : Subject} {old new : Annotations} :
    ∀ c ∈ compareAnnotations s old new, c.path = s.path := by
  simp only [compareAnnotations, List.forall_mem_append, List.forall_mem_flatMap]
  refine ⟨⟨⟨⟨forall_mem_unless rfl, forall_mem_unless rfl⟩, forall_mem_unless rfl⟩, ?_⟩, ?_⟩
  · intro a _
    unfold compareGeneric
    split
    · exact List.forall_mem_singleton.2 rfl
    · exact forall_mem_unless rfl
  · intro a _
    exact forall_mem_unless rfl

theorem path_compareDoc {s : Subject} {old new : Option Documentation} :
    ∀ c ∈ compareDoc s old new, c.path = s.path := forall_mem_unless rfl

theorem path_compareEmits {s : Subject} {old new : String} :
    ∀ c ∈ compareEmits s old new, c.path = s.path := forall_mem_unless rfl

theorem path_compareDirection {s : Subject} {old new : Option Direction} :
    ∀ c ∈ compareDirection s old new, c.path = s.path := by
  unfold compareDirection
  split
  · exact forall_mem_unless rfl
  · exact List.forall_mem_nil _

theorem path_compareArgument {path : String} {old new : Argument} :
    ∀ c ∈ compareArgument path old new, c.path = path := by
  simp only [compareArgument, List.forall_mem_append]
  exact ⟨⟨⟨⟨forall_mem_unless rfl, forall_mem_unless rfl⟩, path_compareDirection⟩,
    path_compareAnnotations⟩, path_compareDoc⟩

theorem path_compareProperty {path : String} {oldOuter newOuter : Annotations}
    {old new : Property} :
    ∀ c ∈ compareProperty path oldOuter newOuter old new, c.path = path := by
  simp only [compareProperty, List.forall_mem_append]
  exact ⟨⟨⟨⟨forall_mem_unless rfl, forall_mem_unless rfl⟩, path_compareEmits⟩,
    path_compareAnnotations⟩, path_compareDoc⟩

theorem Matched.swap_iff {α κ : Type} {f : α → κ} {old new : List α}
    {lost gained lost' gained' : α → Prop} {both both' : α → α → Prop}
    (onLost : ∀ o ∈ old, (lost o ↔ gained' o)) (onGained : ∀ n ∈ new, (gained n ↔ lost' n))
    (onBoth : ∀ o ∈ old, ∀ n ∈ new, f o = f n → (both o n ↔ both' n o)) :
    Matched f old new lost gained both ↔ Matched f new old lost' gained' both' := by
  constructor
  · intro h
    refine ⟨fun n hn alone => ?_, fun o ho alone => ?_, fun n hn o ho same => ?_⟩
    · exact (onGained n hn).1 (h.gained n hn alone)
    · exact (onLost o ho).1 (h.lost o ho alone)
    · exact (onBoth o ho n hn same.symm).1 (h.both o ho n hn same.symm)
  · intro h
    refine ⟨fun o ho alone => ?_, fun n hn alone => ?_, fun o ho n hn same => ?_⟩
    · exact (onLost o ho).2 (h.gained o ho alone)
    · exact (onGained n hn).2 (h.lost n hn alone)
    · exact (onBoth o ho n hn same).2 (h.both n hn o ho same.symm)

section Elements
variable {x path : String} {kind kind' : CallableKind} {k : Nat}

/-- Elements of one kind that are matched by name, where those that both versions have mirror. -/
theorem mirrorAt_matched {α κ : Type} {f : α → κ} {old new : List α} {kind : ElementKind}
    {place : α → String} {location : α → Location} {both both' : α → α → Prop}
    (onBoth : ∀ o ∈ old, ∀ n ∈ new, f o = f n → (both o n ↔ both' n o)) :
    Matched f old new (fun o => ¬(Change.removedElement kind (place o) (location o)).CameAt x)
        (fun n => ¬(Change.addedElement kind (place n) (location n)).CameAt x) both ↔
      Matched f new old (fun n => ¬(Change.removedElement kind (place n) (location n)).WentAt x)
        (fun o => ¬(Change.addedElement kind (place o) (location o)).WentAt x) both' := by
  refine Matched.swap_iff (fun o _ => ?_) (fun n _ => ?_) onBoth
  · exact iff_of_true (fun came => nomatch came.1) (fun gone => nomatch gone.1)
  · simp [Change.CameAt, Change.WentAt, Change.addedElement, Change.removedElement]

theorem path_ne_of_renamed {o n : Argument} (renamed : o.name ≠ n.name)
    (kept : ∀ c ∈ compareArgument path o n, ¬c.RenamesAt x) : path ≠ x := by
  simp only [compareArgument, List.forall_mem_append, if_neg renamed] at kept
  exact fun here => kept.1.1.1.1 _ List.mem_cons_self ⟨rfl, here⟩

/-- An argument that is not renamed at the path has it in both versions or in neither. -/
theorem argumentPath_eq_iff {o n : Argument}
    (forth : ∀ c ∈ compareArgument (argumentPath path n k) o n, ¬c.RenamesAt x)
    (back : ∀ c ∈ compareArgument (argumentPath path o k) n o, ¬c.RenamesAt x) :
    argumentPath path n k = x ↔ argumentPath path o k = x := by
  by_cases name : o.name = n.name
  · rw [argumentPath, argumentPath, argumentLabel, argumentLabel, name]
  · exact iff_of_false (path_ne_of_renamed name forth) (path_ne_of_renamed (Ne.symm name) back)

theorem mirrorAt_addedArguments {l : List Argument} :
    MirrorAt x (compareArguments kind path k [] l) (removedArguments path k l []) := by
  induction l generalizing k with
  | nil =>
      rw [compareArguments, removedArguments]
      exact .nil
  | cons a rest ih =>
      rw [compareArguments, removedArguments]
      refine MirrorAt.append (l := [_]) (m := [_]) ?_ ih
      simp [MirrorAt, Change.CameAt, Change.WentAt, addedArgument, removedArgument]

theorem kind_addedArguments {l : List Argument} :
    ∀ c ∈ compareArguments kind path k [] l, c.kind ≠ .removed := by
  induction l generalizing k with
  | nil => simp [compareArguments]
  | cons a rest ih =>
      rw [compareArguments, List.forall_mem_cons]
      refine ⟨fun removed => ?_, ih⟩
      cases removed

theorem kind_removedArguments {l : List Argument} :
    ∀ c ∈ removedArguments path k l [], c.kind ≠ .added := by
  induction l generalizing k with
  | nil => simp [removedArguments]
  | cons a rest ih =>
      rw [removedArguments, List.forall_mem_cons]
      refine ⟨fun added => ?_, ih⟩
      cases added

/-- By induction on the positions. An argument that has the path in both versions brings there on
one way what it takes from there on the other. -/
theorem mirrorAt_arguments {old new : List Argument}
    (oldDistinct : ∀ a ∈ old, a.annotations.Distinct)
    (newDistinct : ∀ a ∈ new, a.annotations.Distinct)
    (forth : ∀ c ∈ compareArguments kind path k old new, ¬c.RenamesAt x)
    (back : ∀ c ∈ compareArguments kind' path k new old, ¬c.RenamesAt x) :
    MirrorAt x (compareArguments kind path k old new ++ removedArguments path k old new)
      (compareArguments kind' path k new old ++ removedArguments path k new old) := by
  induction old generalizing new k with
  | nil =>
      rw [show removedArguments path k [] new = [] from rfl, List.append_nil,
        show compareArguments kind' path k new [] = [] from rfl, List.nil_append]
      exact mirrorAt_addedArguments
  | cons o old ih =>
      cases new with
      | nil =>
          rw [compareArguments, List.nil_append, removedArguments, List.append_nil]
          exact .of_forall kind_removedArguments kind_addedArguments
      | cons n new =>
          obtain ⟨oDistinct, oldDistinct⟩ := List.forall_mem_cons.1 oldDistinct
          obtain ⟨nDistinct, newDistinct⟩ := List.forall_mem_cons.1 newDistinct
          rw [compareArguments, List.forall_mem_append] at forth back
          simp only [compareArguments, removedArguments, List.append_assoc]
          refine .append ?_ (ih oldDistinct newDistinct forth.2 back.2)
          exact .of_reverses (reverses_argument oDistinct nDistinct) path_compareArgument
            path_compareArgument (argumentPath_eq_iff forth.1 back.1)

theorem mirrorAt_callables {old new : Callable} (oldAnnotated : old.Annotated)
    (newAnnotated : new.Annotated) (forth : ∀ c ∈ betweenCallables path old new, ¬c.RenamesAt x)
    (back : ∀ c ∈ betweenCallables path new old, ¬c.RenamesAt x) :
    MirrorAt x (betweenCallables path old new) (betweenCallables path new old) := by
  simp only [betweenCallables, compareCallable, List.append_assoc, List.forall_mem_append]
    at forth back ⊢
  refine .append ?_ (.append ?_ ?_)
  · exact .of_reverses (reverses_annotations oldAnnotated.own newAnnotated.own)
      path_compareAnnotations path_compareAnnotations Iff.rfl
  · exact .of_reverses reverses_doc path_compareDoc path_compareDoc Iff.rfl
  · exact mirrorAt_arguments oldAnnotated.args newAnnotated.args forth.2.2.1 back.2.2.1

theorem mirrorAt_interfaces {old new : Interface} (oldDistinct : old.NamesDistinct)
    (newDistinct : new.NamesDistinct) (oldAnnotated : old.Annotated)
    (newAnnotated : new.Annotated) (forth : ∀ c ∈ betweenInterfaces path old new, ¬c.RenamesAt x)
    (back : ∀ c ∈ betweenInterfaces path new old, ¬c.RenamesAt x) :
    MirrorAt x (betweenInterfaces path old new) (betweenInterfaces path new old) := by
  rw [forall_betweenInterfaces_iff oldDistinct newDistinct] at forth
  rw [forall_betweenInterfaces_iff newDistinct oldDistinct] at back
  obtain ⟨-, -, -, methods, signals, -⟩ := forth
  obtain ⟨-, -, -, methods', signals', -⟩ := back
  rw [MirrorAt, forall_betweenInterfaces_iff oldDistinct newDistinct,
    forall_betweenInterfaces_iff newDistinct oldDistinct]
  refine and_congr ?_ (and_congr ?_ (and_congr ?_ (and_congr ?_ (and_congr ?_ ?_))))
  · exact MirrorAt.of_reverses reverses_emits path_compareEmits path_compareEmits Iff.rfl
  · exact MirrorAt.of_reverses (reverses_annotations oldAnnotated.own newAnnotated.own)
      path_compareAnnotations path_compareAnnotations Iff.rfl
  · exact MirrorAt.of_reverses reverses_doc path_compareDoc path_compareDoc Iff.rfl
  · refine mirrorAt_matched fun o ho n hn same => ?_
    have here := methods.both o ho n hn same
    have there := methods'.both n hn o ho same.symm
    simp only [memberPath, Member.name, same] at here there ⊢
    exact mirrorAt_callables (oldAnnotated.methods o ho) (newAnnotated.methods n hn) here there
  · refine mirrorAt_matched fun o ho n hn same => ?_
    have here := signals.both o ho n hn same
    have there := signals'.both n hn o ho same.symm
    simp only [memberPath, Member.name, same] at here there ⊢
    exact mirrorAt_callables (oldAnnotated.signals o ho) (newAnnotated.signals n hn) here there
  · refine mirrorAt_matched fun o ho n hn same => ?_
    simp only [memberPath, Member.name, same]
    exact MirrorAt.of_reverses (reverses_property (oldAnnotated.properties o ho)
      (newAnnotated.properties n hn)) path_compareProperty path_compareProperty Iff.rfl

theorem mirrorAt_nodes {scope : Option String} {old new : Node} (oldNamed : old.WellNamed)
    (newNamed : new.WellNamed) (oldAnnotated : old.WellAnnotated)
    (newAnnotated : new.WellAnnotated)
    (label : (scope.or new.name).getD "/" = x ↔ (scope.or old.name).getD "/" = x)
    (forth : ∀ c ∈ betweenNodes scope old new, ¬c.RenamesAt x)
    (back : ∀ c ∈ betweenNodes scope new old, ¬c.RenamesAt x) :
    MirrorAt x (betweenNodes scope old new) (betweenNodes scope new old) := by
  induction old using Node.induction generalizing new scope with
  | step old ih =>
      rw [forall_betweenNodes_iff oldNamed.here newNamed.here] at forth
      rw [forall_betweenNodes_iff newNamed.here oldNamed.here] at back
      obtain ⟨-, -, interfaces, children⟩ := forth
      obtain ⟨-, -, interfaces', children'⟩ := back
      rw [MirrorAt, forall_betweenNodes_iff oldNamed.here newNamed.here,
        forall_betweenNodes_iff newNamed.here oldNamed.here]
      refine and_congr ?_ (and_congr ?_ (and_congr ?_ ?_))
      · exact MirrorAt.of_reverses (reverses_annotations oldAnnotated.here.1 newAnnotated.here.1)
          path_compareAnnotations path_compareAnnotations label
      · exact MirrorAt.of_reverses reverses_doc path_compareDoc path_compareDoc label
      · refine mirrorAt_matched fun o ho n hn same => ?_
        have here := interfaces.both o ho n hn same
        have there := interfaces'.both n hn o ho same.symm
        simp only [interfacePath, same] at here there ⊢
        exact mirrorAt_interfaces (oldNamed.here.members o ho) (newNamed.here.members n hn)
          (oldAnnotated.here.2 o ho) (newAnnotated.here.2 n hn) here there
      · refine mirrorAt_matched fun o ho n hn same => ?_
        have here := children.both o ho n hn same
        have there := children'.both n hn o ho same.symm
        simp only [nameOf, same] at here there ⊢
        exact ih o ho (oldNamed.below ho) (newNamed.below hn) (oldAnnotated.below ho)
          (newAnnotated.below hn) Iff.rfl here there

end Elements

end Compare

/-- The name that a root has in paths. -/
def Node.rootLabel (n : Node) : String := n.name.getD "/"

/-- The path is that of the root in both versions or in neither, and of no renamed argument. -/
structure Node.NamesKeptAt (path : String) (old new : Node) : Prop where
  root : new.rootLabel = path ↔ old.rootLabel = path
  forth : ∀ c ∈ compare old new, ¬c.RenamesAt path
  back : ∀ c ∈ compare new old, ¬c.RenamesAt path

instance (path : String) (c : Change) : Decidable (c.RenamesAt path) :=
  inferInstanceAs (Decidable (_ ∧ _))

instance (path : String) (old new : Node) : Decidable (Node.NamesKeptAt path old new) :=
  decidable_of_iff
    ((new.rootLabel = path ↔ old.rootLabel = path) ∧ (∀ c ∈ compare old new, ¬c.RenamesAt path) ∧
      ∀ c ∈ compare new old, ¬c.RenamesAt path)
    ⟨fun ⟨root, forth, back⟩ => ⟨root, forth, back⟩, fun h => ⟨h.root, h.forth, h.back⟩⟩

/-- At a path where no argument or root is renamed between two documents, something comes one way
just if something goes the other way. -/
theorem parsed_came_iff_went {options options' : Introspection.Options} {first second : List UInt8}
    {a b : Introspection.Parsed} (readFirst : Introspection.parseBytes options first = .ok a)
    (readSecond : Introspection.parseBytes options' second = .ok b) {path : String}
    (kept : Node.NamesKeptAt path a.root b.root) :
    (∃ c ∈ compare a.root b.root, c.kind = .added ∧ c.path = path) ↔
      ∃ c ∈ compare b.root a.root, c.kind = .removed ∧ c.path = path := by
  have soundA := (Introspection.trusted_of_parseBytes readFirst).root
  have soundB := (Introspection.trusted_of_parseBytes readSecond).root
  have mirror : Compare.MirrorAt path (compare a.root b.root) (compare b.root a.root) :=
    Compare.mirrorAt_nodes soundA.wellNamed soundB.wellNamed soundA.wellAnnotated
      soundB.wellAnnotated kept.root kept.forth kept.back
  simpa [Compare.MirrorAt, Change.CameAt, Change.WentAt] using not_congr mirror

/-- Whether nothing is renamed at a path between two documents, whether something comes there from
the first to the second, and whether something goes there the other way. -/
def cameAndWent (first second : List UInt8) (path : String) : Option (Bool × Bool × Bool) := do
  let a ← (Introspection.parseBytes {} first).toOption
  let b ← (Introspection.parseBytes {} second).toOption
  some (decide (Node.NamesKeptAt path a.root b.root),
    (compare a.root b.root).any fun c => c.kind == .added && c.path == path,
    (compare b.root a.root).any fun c => c.kind == .removed && c.path == path)

theorem of_cameAndWent_eq_some {first second : List UInt8} {path : String} {kept came went : Bool}
    (h : cameAndWent first second path = some (kept, came, went)) :
    ∃ a b, Introspection.parseBytes {} first = .ok a ∧ Introspection.parseBytes {} second = .ok b ∧
      (kept = true ↔ Node.NamesKeptAt path a.root b.root) ∧
      (came = true ↔ ∃ c ∈ compare a.root b.root, c.kind = .added ∧ c.path = path) ∧
      (went = true ↔ ∃ c ∈ compare b.root a.root, c.kind = .removed ∧ c.path = path) := by
  unfold cameAndWent at h
  cases readFirst : Introspection.parseBytes {} first with
  | error e =>
      rw [readFirst] at h
      exact nomatch h
  | ok a =>
      cases readSecond : Introspection.parseBytes {} second with
      | error e =>
          rw [readFirst, readSecond] at h
          exact nomatch h
      | ok b =>
          rw [readFirst, readSecond] at h
          have found := Option.some_inj.1 h
          simp only [Prod.mk.injEq] at found
          obtain ⟨rfl, rfl, rfl⟩ := found
          refine ⟨a, b, rfl, rfl, ?_, ?_, ?_⟩ <;> simp

/-- A bell that takes one argument, with what is noted about the argument and about the bell. -/
def bellTaking (argument argumentNote ownNote : String) : List UInt8 :=
  Text.Utf8.encode
    ("<node><interface name='o.B'>" ++ ownNote ++ "<method name='R'><arg name='" ++ argument
      ++ "' type='' direction='in'>" ++ argumentNote ++ "</arg></method></interface></node>").toList

/-- Since when there has been such a thing. -/
def sinceNote : String := "<annotation name='o.Since' value='2'/>"

/-- An argument is renamed, and a note comes at another path. -/
theorem bell_note_came_and_went :
    ∃ a b, Introspection.parseBytes {} (bellTaking "n" "" "") = .ok a ∧
      Introspection.parseBytes {} (bellTaking "m" "" sinceNote) = .ok b ∧
      Node.NamesKeptAt "o.B" a.root b.root ∧
      (∃ c ∈ compare a.root b.root, c.kind = .added ∧ c.path = "o.B") ∧
      ∃ c ∈ compare b.root a.root, c.kind = .removed ∧ c.path = "o.B" := by
  have found : cameAndWent (bellTaking "n" "" "") (bellTaking "m" "" sinceNote) "o.B" =
      some (true, true, true) := by decide +kernel
  obtain ⟨a, b, readFirst, readSecond, alike, came, _⟩ := of_cameAndWent_eq_some found
  have kept := alike.1 rfl
  have first := came.1 rfl
  exact ⟨a, b, readFirst, readSecond, kept, first,
    (parsed_came_iff_went readFirst readSecond kept).1 first⟩

/-- Without that condition the law fails: an argument is renamed and gets an annotation, which comes
at the path with the new name one way and goes at the path with the old name the other way. -/
theorem renamed_argument_not_mirrored :
    ∃ a b, Introspection.parseBytes {} (bellTaking "n" "" "") = .ok a ∧
      Introspection.parseBytes {} (bellTaking "m" sinceNote "") = .ok b ∧
      (∃ c ∈ compare a.root b.root, c.kind = .added ∧ c.path = "o.B.R.m") ∧
      ¬∃ c ∈ compare b.root a.root, c.kind = .removed ∧ c.path = "o.B.R.m" := by
  have found : cameAndWent (bellTaking "n" "" "") (bellTaking "m" sinceNote "") "o.B.R.m" =
      some (false, true, false) := by decide +kernel
  obtain ⟨a, b, readFirst, readSecond, _, came, went⟩ := of_cameAndWent_eq_some found
  exact ⟨a, b, readFirst, readSecond, came.1 rfl, fun gone => Bool.false_ne_true (went.2 gone)⟩

end ApiDrift
