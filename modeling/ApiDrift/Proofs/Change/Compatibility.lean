import ApiDrift.Policy
import ApiDrift.Proofs.Change.Pass
/-! When a new version can take the place of an old one. A version offers what another one
offered if all that clients of the old one rely on is still there; the default policy passes
just those pairs of versions. -/
namespace ApiDrift

/-- What both ends of a call agree on about an argument. -/
def Argument.passing (a : Argument) : String × Option Direction := (a.type.text, a.direction)

def Argument.typeText (a : Argument) : String := a.type.text

/-- A method that old callers can go on calling: it takes and gives back what it did, and all it
has in addition are arguments that go in. -/
structure Callable.MethodKept (old new : Callable) : Prop where
  args : old.args.map Argument.passing <+: new.args.map Argument.passing
  extra : ∀ a ∈ new.args.drop old.args.length, a.direction = some .input

/-- A signal that still brings what it brought. -/
def Callable.SignalKept (old new : Callable) : Prop :=
  old.args.map Argument.typeText <+: new.args.map Argument.typeText

/-- A property of the same type that allows what it allowed. -/
structure Property.Kept (old new : Property) : Prop where
  type_eq : old.type.text = new.type.text
  access : old.access = new.access ∨ new.access = .readWrite

/-- Every member of the old interface is kept by one of its kind and name in the new one. -/
structure Interface.OfferedBy (old new : Interface) : Prop where
  methods : ∀ m ∈ old.methods, ∃ n ∈ new.methods, n.name = m.name ∧ m.MethodKept n
  signals : ∀ s ∈ old.signals, ∃ n ∈ new.signals, n.name = s.name ∧ s.SignalKept n
  properties : ∀ p ∈ old.properties, ∃ n ∈ new.properties, n.name = p.name ∧ p.Kept n

/-- Everything that the old node offers, at every depth, is offered by the new one. -/
inductive Node.OfferedBy : Node → Node → Prop
  | intro {old new : Node}
      (interfaces : ∀ i ∈ old.interfaces, ∃ n ∈ new.interfaces, n.name = i.name ∧ i.OfferedBy n)
      (children : ∀ c ∈ old.nodes, ∃ n ∈ new.nodes, n.name = c.name)
      (below : ∀ c ∈ old.nodes, ∀ n ∈ new.nodes, n.name = c.name → OfferedBy c n) :
      OfferedBy old new

/-- A change that breaks no client of the old version. -/
def Change.Harmless (c : Change) : Prop := c.category ≠ .backwards

namespace Compare

theorem info_of_mem_compareMark {s : Subject} {o n : Option String} {set unset : ChangeCode}
    {whenSet whenUnset : String} {c : Change}
    (h : c ∈ compareMark s o n set unset whenSet whenUnset) : c.category = .info := by
  rw [eq_of_mem_unless h]
  rfl

theorem info_of_mem_compareSymbol {s : Subject} {o n : Option String} {c : Change}
    (h : c ∈ compareSymbol s o n) : c.category = .info := by
  rw [eq_of_mem_unless h]
  rfl

theorem info_of_mem_compareGeneric {s : Subject} {old : Annotations} {a : Annotation} {c : Change}
    (h : c ∈ compareGeneric s old a) : c.category = .info := by
  unfold compareGeneric at h
  split at h
  · rw [List.mem_singleton.1 h]
  · rw [eq_of_mem_unless h]

theorem info_of_mem_removeGeneric {s : Subject} {new : Annotations} {a : Annotation} {c : Change}
    (h : c ∈ removeGeneric s new a) : c.category = .info := by
  rw [eq_of_mem_unless h]

theorem info_of_mem_compareAnnotations {s : Subject} {old new : Annotations} {c : Change}
    (h : c ∈ compareAnnotations s old new) : c.category = .info := by
  simp only [compareAnnotations, List.mem_append, List.mem_flatMap] at h
  rcases h with (((h | h) | h) | ⟨a, _, h⟩) | ⟨a, _, h⟩
  · exact info_of_mem_compareMark h
  · exact info_of_mem_compareSymbol h
  · exact info_of_mem_compareMark h
  · exact info_of_mem_compareGeneric h
  · exact info_of_mem_removeGeneric h

theorem info_of_mem_compareDoc {s : Subject} {old new : Option Documentation} {c : Change}
    (h : c ∈ compareDoc s old new) : c.category = .info := by
  rw [eq_of_mem_unless h]

theorem info_of_mem_compareEmits {s : Subject} {old new : String} {c : Change}
    (h : c ∈ compareEmits s old new) : c.category = .info := by
  rw [eq_of_mem_unless h]
  rfl

theorem harmless_of_info {c : Change} (h : c.category = .info) : c.Harmless := by
  rw [Change.Harmless, h]
  decide

theorem harmless_compareAnnotations {s : Subject} {old new : Annotations} :
    ∀ c ∈ compareAnnotations s old new, c.Harmless :=
  fun _ h => harmless_of_info (info_of_mem_compareAnnotations h)

theorem harmless_compareDoc {s : Subject} {old new : Option Documentation} :
    ∀ c ∈ compareDoc s old new, c.Harmless :=
  fun _ h => harmless_of_info (info_of_mem_compareDoc h)

theorem harmless_compareEmits {s : Subject} {old new : String} :
    ∀ c ∈ compareEmits s old new, c.Harmless :=
  fun _ h => harmless_of_info (info_of_mem_compareEmits h)

theorem harmless_compareDirection_iff {s : Subject} {o n : Option Direction} :
    (∀ c ∈ compareDirection s o n, c.Harmless) ↔ ∀ x ∈ o, ∀ y ∈ n, x = y := by
  unfold compareDirection
  split
  · next x y =>
    by_cases same : x = y
    · simp [same]
    · simp [same, Change.Harmless, Subject.change]
  · next apart =>
    refine ⟨fun _ x hx y hy => absurd hy ?_, fun _ c hc => absurd hc List.not_mem_nil⟩
    exact apart x y hx

theorem harmless_difference_iff {α : Type} [DecidableEq α] {a b : α} {c : Change}
    (breaks : c.category = .backwards) :
    (∀ d ∈ (if a = b then [] else [c]), d.Harmless) ↔ a = b := by
  by_cases same : a = b
  · simp [same]
  · simp [same, Change.Harmless, breaks]

theorem harmless_compareArgument_iff {path : String} {o n : Argument} :
    (∀ c ∈ compareArgument path o n, c.Harmless) ↔
      o.type.text = n.type.text ∧ ∀ x ∈ o.direction, ∀ y ∈ n.direction, x = y := by
  simp only [compareArgument, List.forall_mem_append, harmless_compareDirection_iff]
  constructor
  · rintro ⟨⟨⟨⟨_, type⟩, direction⟩, _⟩, _⟩
    exact ⟨(harmless_difference_iff rfl).1 type, direction⟩
  · rintro ⟨type, direction⟩
    have name : ∀ c ∈ (if o.name = n.name then [] else
        [Subject.change ⟨.argument, path, n.location⟩ .modified .info .argumentName o.name n.name
          ("changed name " ++ fromTo (orNone o.name) (orNone n.name))]), c.Harmless := by
      intro c hc
      refine harmless_of_info ?_
      rw [eq_of_mem_unless hc]
      rfl
    exact ⟨⟨⟨⟨name, (harmless_difference_iff rfl).2 type⟩, direction⟩, harmless_compareAnnotations⟩,
      harmless_compareDoc⟩

theorem harmless_addedArgument_iff {kind : CallableKind} {path : String} {a : Argument} :
    (addedArgument kind path a).Harmless ↔ ¬(kind = .method ∧ a.direction = some .output) := by
  simp only [Change.Harmless, addedArgument]
  split <;> simp_all

theorem breaks_removedArgument {path : String} {a : Argument} :
    ¬(removedArgument path a).Harmless := fun h => h rfl

theorem harmless_addedArguments_iff {kind : CallableKind} {path : String} {k : Nat}
    {new : List Argument} :
    (∀ c ∈ compareArguments kind path k [] new, c.Harmless) ↔
      ∀ a ∈ new, ¬(kind = .method ∧ a.direction = some .output) := by
  induction new generalizing k with
  | nil => simp only [compareArguments, List.not_mem_nil, false_implies, implies_true]
  | cons a new ih =>
      simp only [compareArguments, List.forall_mem_cons, harmless_addedArgument_iff, ih]

theorem ne_output_iff {a : Argument} (directed : a.Directed .method) :
    ¬a.direction = some .output ↔ a.direction = some .input := by
  obtain ⟨d, h⟩ := Option.isSome_iff_exists.1 directed
  cases d <;> simp [h]

theorem same_direction_iff {o n : Argument} (old : o.Directed .method) (new : n.Directed .method) :
    (∀ x ∈ o.direction, ∀ y ∈ n.direction, x = y) ↔ o.direction = n.direction := by
  obtain ⟨x, hx⟩ := Option.isSome_iff_exists.1 old
  obtain ⟨y, hy⟩ := Option.isSome_iff_exists.1 new
  simp [hx, hy]

theorem harmless_methodArguments_iff {path : String} {k : Nat} {old new : List Argument}
    (oldDirected : ∀ a ∈ old, a.Directed .method) (newDirected : ∀ a ∈ new, a.Directed .method) :
    (∀ c ∈ compareArguments .method path k old new ++ removedArguments path k old new,
        c.Harmless) ↔
      old.map Argument.passing <+: new.map Argument.passing ∧
        ∀ a ∈ new.drop old.length, a.direction = some .input := by
  induction old generalizing new k with
  | nil =>
      rw [removedArguments, List.append_nil, harmless_addedArguments_iff]
      simp only [List.map_nil, List.nil_prefix, true_and, List.length_nil, List.drop_zero]
      exact forall₂_congr fun a ha => ne_output_iff (newDirected a ha)
  | cons o old ih =>
      cases new with
      | nil =>
          rw [compareArguments, removedArguments, List.nil_append, List.forall_mem_cons]
          simp [breaks_removedArgument]
      | cons n new =>
          obtain ⟨oDirected, oldDirected⟩ := List.forall_mem_cons.1 oldDirected
          obtain ⟨nDirected, newDirected⟩ := List.forall_mem_cons.1 newDirected
          have rest := ih (k := k + 1) oldDirected newDirected
          rw [compareArguments, removedArguments, List.append_assoc, List.forall_mem_append, rest,
            harmless_compareArgument_iff, same_direction_iff oDirected nDirected]
          simp only [List.map_cons, List.cons_prefix_cons, Argument.passing, Prod.mk.injEq,
            List.length_cons, List.drop_succ_cons, and_assoc]

theorem harmless_signalArguments_iff {path : String} {k : Nat} {kind : CallableKind}
    {old new : List Argument} (newDirected : ∀ a ∈ new, a.Directed .signal) :
    (∀ c ∈ compareArguments kind path k old new ++ removedArguments path k old new,
        c.Harmless) ↔
      old.map Argument.typeText <+: new.map Argument.typeText := by
  induction old generalizing new k with
  | nil =>
      rw [removedArguments, List.append_nil, harmless_addedArguments_iff]
      simp only [List.map_nil, List.nil_prefix, iff_true]
      intro a ha outward
      have none : a.direction = none := newDirected a ha
      rw [none] at outward
      exact absurd outward.2 (by decide)
  | cons o old ih =>
      cases new with
      | nil =>
          rw [compareArguments, removedArguments, List.nil_append, List.forall_mem_cons]
          simp [breaks_removedArgument]
      | cons n new =>
          obtain ⟨nDirected, newDirected⟩ := List.forall_mem_cons.1 newDirected
          have none : n.direction = none := nDirected
          rw [compareArguments, removedArguments, List.append_assoc, List.forall_mem_append,
            ih (k := k + 1) newDirected, harmless_compareArgument_iff, none]
          simp only [List.map_cons, List.cons_prefix_cons, Argument.typeText, Option.mem_def,
            reduceCtorEq, false_implies, implies_true, and_true]

theorem harmless_betweenCallables_iff {path : String} {old new : Callable} :
    (∀ c ∈ betweenCallables path old new, c.Harmless) ↔
      ∀ c ∈ compareArguments new.kind path 0 old.args new.args
        ++ removedArguments path 0 old.args new.args, c.Harmless := by
  simp only [betweenCallables, compareCallable, List.forall_mem_append]
  constructor
  · rintro ⟨⟨_, first⟩, second⟩
    exact ⟨first, second⟩
  · rintro ⟨first, second⟩
    exact ⟨⟨⟨harmless_compareAnnotations, harmless_compareDoc⟩, first⟩, second⟩

theorem harmless_betweenMethods_iff {path : String} {old new : Callable}
    (oldDirected : old.Directed .method) (newDirected : new.Directed .method) :
    (∀ c ∈ betweenCallables path old new, c.Harmless) ↔ old.MethodKept new := by
  rw [harmless_betweenCallables_iff, newDirected.kind_eq,
    harmless_methodArguments_iff oldDirected.args newDirected.args]
  exact ⟨fun h => ⟨h.1, h.2⟩, fun h => ⟨h.args, h.extra⟩⟩

theorem harmless_betweenSignals_iff {path : String} {old new : Callable}
    (newDirected : new.Directed .signal) :
    (∀ c ∈ betweenCallables path old new, c.Harmless) ↔ old.SignalKept new := by
  rw [harmless_betweenCallables_iff, harmless_signalArguments_iff newDirected.args]
  rfl

theorem harmless_compareAccess_iff {s : Subject} {old new : Access} :
    (∀ c ∈ compareAccess s old new, c.Harmless) ↔ old = new ∨ new = .readWrite := by
  unfold compareAccess
  by_cases same : old = new
  · simp [same]
  · by_cases widened : new = .readWrite
    · simp [widened, Change.Harmless, Subject.change]
    · simp [same, widened, Change.Harmless, Subject.change]

theorem harmless_compareProperty_iff {path : String} {oldOuter newOuter : Annotations}
    {old new : Property} :
    (∀ c ∈ compareProperty path oldOuter newOuter old new, c.Harmless) ↔ old.Kept new := by
  simp only [compareProperty, List.forall_mem_append, harmless_compareAccess_iff]
  constructor
  · rintro ⟨⟨⟨⟨type, access⟩, _⟩, _⟩, _⟩
    exact ⟨(harmless_difference_iff rfl).1 type, access⟩
  · intro h
    exact ⟨⟨⟨⟨(harmless_difference_iff rfl).2 h.type_eq, h.access⟩, harmless_compareEmits⟩,
      harmless_compareAnnotations⟩, harmless_compareDoc⟩

/-- Where a loss breaks clients and a gain does not, everything has to have a counterpart. -/
theorem matched_iff_exists {α κ : Type} {f : α → κ} {old new : List α} {lost gained : α → Prop}
    {both kept : α → α → Prop} (newDistinct : (new.map f).Nodup) (onLost : ∀ o ∈ old, ¬lost o)
    (onGained : ∀ n ∈ new, gained n) (onBoth : ∀ o ∈ old, ∀ n ∈ new, (both o n ↔ kept o n)) :
    Matched f old new lost gained both ↔ ∀ o ∈ old, ∃ n ∈ new, f n = f o ∧ kept o n := by
  constructor
  · intro h o ho
    by_contra none
    refine onLost o ho (h.lost o ho fun n hn same => none ⟨n, hn, same, ?_⟩)
    exact (onBoth o ho n hn).1 (h.both o ho n hn same.symm)
  · intro h
    refine ⟨fun o ho alone => ?_, fun n hn _ => onGained n hn, fun o ho n hn same => ?_⟩
    · obtain ⟨n, hn, same, _⟩ := h o ho
      exact absurd same (alone n hn)
    · obtain ⟨n', hn', same', kept⟩ := h o ho
      obtain rfl := List.inj_on_of_nodup_map newDistinct hn hn' (same.symm.trans same'.symm)
      exact (onBoth o ho n hn).2 kept

theorem breaks_removedElement {kind : ElementKind} {path : String} {location : Location} :
    ¬(Change.removedElement kind path location).Harmless := fun h => h rfl

theorem harmless_addedElement {kind : ElementKind} {path : String} {location : Location} :
    (Change.addedElement kind path location).Harmless := harmless_of_info rfl

theorem harmless_betweenInterfaces_iff {path : String} {old new : Interface}
    (oldDistinct : old.NamesDistinct) (newDistinct : new.NamesDistinct)
    (oldDirected : old.Directed) (newDirected : new.Directed) :
    (∀ c ∈ betweenInterfaces path old new, c.Harmless) ↔ old.OfferedBy new := by
  rw [forall_betweenInterfaces_iff oldDistinct newDistinct,
    matched_iff_exists newDistinct.methods (fun _ _ => breaks_removedElement)
      (fun _ _ => harmless_addedElement) fun o ho n hn =>
      harmless_betweenMethods_iff (oldDirected.methods o ho) (newDirected.methods n hn),
    matched_iff_exists newDistinct.signals (fun _ _ => breaks_removedElement)
      (fun _ _ => harmless_addedElement) fun _ _ n hn =>
      harmless_betweenSignals_iff (newDirected.signals n hn),
    matched_iff_exists newDistinct.properties (fun _ _ => breaks_removedElement)
      (fun _ _ => harmless_addedElement) fun _ _ _ _ => harmless_compareProperty_iff]
  constructor
  · rintro ⟨_, _, _, methods, signals, properties⟩
    exact ⟨methods, signals, properties⟩
  · intro h
    exact ⟨harmless_compareEmits, harmless_compareAnnotations, harmless_compareDoc, h.methods,
      h.signals, h.properties⟩

end Compare

theorem Node.offeredBy_iff {old new : Node} (newDistinct : (new.nodes.map Node.name).Nodup) :
    old.OfferedBy new ↔
      (∀ i ∈ old.interfaces, ∃ n ∈ new.interfaces, n.name = i.name ∧ i.OfferedBy n) ∧
        ∀ c ∈ old.nodes, ∃ n ∈ new.nodes, n.name = c.name ∧ c.OfferedBy n := by
  constructor
  · intro h
    cases h with
    | intro interfaces children below =>
        refine ⟨interfaces, fun c hc => ?_⟩
        obtain ⟨n, hn, same⟩ := children c hc
        exact ⟨n, hn, same, below c hc n hn same⟩
  · rintro ⟨interfaces, children⟩
    refine .intro interfaces (fun c hc => ?_) fun c hc n hn same => ?_
    · obtain ⟨n, hn, same, _⟩ := children c hc
      exact ⟨n, hn, same⟩
    · obtain ⟨n', hn', same', offered⟩ := children c hc
      obtain rfl := List.inj_on_of_nodup_map newDistinct hn hn' (same.trans same'.symm)
      exact offered

namespace Compare

/-- No client is broken by what is found between two nodes just if the new one offers everything
that the old one offered. -/
theorem harmless_betweenNodes_iff {old new : Node} {scope : Option String}
    (oldNamed : old.WellNamed) (newNamed : new.WellNamed) (oldDirected : old.WellDirected)
    (newDirected : new.WellDirected) :
    (∀ c ∈ betweenNodes scope old new, c.Harmless) ↔ old.OfferedBy new := by
  induction old using Node.induction generalizing new scope with
  | step old ih =>
      rw [forall_betweenNodes_iff oldNamed.here newNamed.here,
        Node.offeredBy_iff newNamed.here.children,
        matched_iff_exists newNamed.here.interfaces (fun _ _ => breaks_removedElement)
          (fun _ _ => harmless_addedElement) fun i hi n hn =>
          harmless_betweenInterfaces_iff (oldNamed.here.members i hi) (newNamed.here.members n hn)
            (oldDirected.here i hi) (newDirected.here n hn),
        matched_iff_exists newNamed.here.children (fun _ _ => breaks_removedElement)
          (fun _ _ => harmless_addedElement) fun c hc n hn =>
          ih c hc (oldNamed.below hc) (newNamed.below hn) (oldDirected.below hc)
            (newDirected.below hn)]
      constructor
      · rintro ⟨_, _, interfaces, children⟩
        exact ⟨interfaces, children⟩
      · rintro ⟨interfaces, children⟩
        exact ⟨harmless_compareAnnotations, harmless_compareDoc, interfaces, children⟩

end Compare

theorem ChangeCode.text_ne_backwards (code : ChangeCode) : code.text ≠ Category.backwards.text := by
  cases code with
  | added k => cases k <;> decide
  | removed k => cases k <;> decide
  | argumentDirection o n => cases o <;> cases n <;> decide
  | propertyAccess o n => cases o <;> cases n <;> decide
  | emitsChanged o n =>
      intro same
      have heads := congrArg (fun s => s.toList.head?) same
      simp [ChangeCode.text, ChangeCode.emitsHeading, Category.text] at heads
  | _ => decide

namespace Policy

theorem default_isEnabled (c : Change) : ({} : Policy).isEnabled c = true := by
  have category : ({} : Policy).enabled.contains c.category.text = true := by
    cases c.category <;> decide
  have disabled : ∀ entry, ({} : Policy).disabled.contains entry = false := fun _ => rfl
  simp only [isEnabled, category, disabled, Bool.not_false, Bool.and_true, Bool.true_or]

theorem default_fatal_contains (entry : String) :
    ({} : Policy).fatal.contains entry = true ↔ entry = Category.backwards.text := by
  show ((Table.empty.insert Category.backwards.text ()).get? entry).isSome = true ↔ _
  rw [Table.get?_insert]
  split <;> simp_all

theorem default_isFatal (c : Change) :
    ({} : Policy).isFatal c = true ↔ c.category = .backwards := by
  rw [isFatal, Bool.or_eq_true, default_fatal_contains, default_fatal_contains,
    or_iff_left c.code.text_ne_backwards]
  cases c.category <;> decide

theorem default_judge_passed (changes : List Change) :
    (({} : Policy).judge changes).passed = true ↔ ∀ c ∈ changes, c.Harmless := by
  have reported : changes.filter ({} : Policy).isEnabled = changes :=
    List.filter_eq_self.2 fun c _ => default_isEnabled c
  simp only [judge, reported, Bool.not_eq_true', List.any_eq_false, default_isFatal,
    Change.Harmless, ne_eq]

end Policy

/-- The default policy passes a new version just if it offers everything that the old one
offered: the verdict misses no break and reports none that is not there. -/
theorem check_passed_iff_offeredBy {old new : Node} (oldNamed : old.WellNamed)
    (newNamed : new.WellNamed) (oldDirected : old.WellDirected) (newDirected : new.WellDirected) :
    (check old new {}).passed = true ↔ old.OfferedBy new := by
  rw [check, Policy.default_judge_passed]
  exact Compare.harmless_betweenNodes_iff oldNamed newNamed oldDirected newDirected

/-- A player in its first version. -/
def player : Node where
  interfaces := [
    { name := "org.example.Player"
      methods := [
        { kind := .method, name := "Play"
          args := [
            { type := .ofText "s", direction := some .input },
            { type := .ofText "u", direction := some .output }] }]
      signals := [{ kind := .signal, name := "Stopped", args := [{ type := .ofText "u" }] }]
      properties := [{ name := "Volume", type := .ofText "d", access := .read }] }]
  nodes := [{ name := some "tracks", interfaces := [{ name := "org.example.Tracks" }] }]

/-- A later version of the player: more arguments, more rights and another interface. -/
def laterPlayer : Node where
  interfaces := [
    { name := "org.example.Queue" },
    { name := "org.example.Player"
      methods := [
        { kind := .method, name := "Play"
          args := [
            { type := .ofText "s", direction := some .input },
            { name := some "id", type := .ofText "u", direction := some .output },
            { type := .ofText "b", direction := some .input }] }]
      signals := [
        { kind := .signal, name := "Stopped"
          args := [{ type := .ofText "u" }, { type := .ofText "s" }] }]
      properties := [{ name := "Volume", type := .ofText "d", access := .readWrite }] }]
  nodes := [{ name := some "tracks", interfaces := [{ name := "org.example.Tracks" }] }]

/-- The later player can take the place of the first one, and not the other way round. -/
theorem player_offeredBy_laterPlayer :
    (player.WellNamed ∧ laterPlayer.WellNamed ∧ player.WellDirected ∧ laterPlayer.WellDirected) ∧
      player.OfferedBy laterPlayer ∧ ¬laterPlayer.OfferedBy player := by
  have firstNamed : player.WellNamed := by decide
  have laterNamed : laterPlayer.WellNamed := by decide
  have firstDirected : player.WellDirected := by decide
  have laterDirected : laterPlayer.WellDirected := by decide
  have forth : (check player laterPlayer {}).passed = true := by cbv
  have back : (check laterPlayer player {}).passed = false := by cbv
  refine ⟨⟨firstNamed, laterNamed, firstDirected, laterDirected⟩, ?_, fun offered => ?_⟩
  · exact (check_passed_iff_offeredBy firstNamed laterNamed firstDirected laterDirected).1 forth
  · have passed := (check_passed_iff_offeredBy laterNamed firstNamed laterDirected
      firstDirected).2 offered
    exact absurd (back.symm.trans passed) Bool.false_ne_true

end ApiDrift
