import ApiDrift.Proofs.Change.Pass
/-! When two descriptions say the same. Places, the order of declarations, the source of a
documentation and the name of the root do not count; nothing else is passed over. -/
namespace ApiDrift

/-- The annotations that have a comparison of their own, or none. -/
def AnnotationName.special : List String :=
  [deprecated, cSymbol, noReply, emitsChanged, docString]

/-- Annotations that say the same. Of the two marks only the value `true` counts. -/
structure Annotations.Agree (a b : Annotations) : Prop where
  deprecated : a.value? AnnotationName.deprecated = some "true" ↔
    b.value? AnnotationName.deprecated = some "true"
  noReply : a.value? AnnotationName.noReply = some "true" ↔
    b.value? AnnotationName.noReply = some "true"
  cSymbol : a.value? AnnotationName.cSymbol = b.value? AnnotationName.cSymbol
  others : ∀ name, name ∉ AnnotationName.special → a.value? name = b.value? name

/-- Documentation with one text, wherever it was written. -/
def SameText (d e : Option Documentation) : Prop :=
  d.map Documentation.text = e.map Documentation.text

structure Argument.Agrees (a b : Argument) : Prop where
  name : a.name = b.name
  type : a.type.text = b.type.text
  direction : a.direction = b.direction
  annotations : a.annotations.Agree b.annotations
  doc : SameText a.doc b.doc

/-- Callables with arguments that agree one by one. -/
structure Callable.Agrees (a b : Callable) : Prop where
  args : List.Forall₂ Argument.Agrees a.args b.args
  annotations : a.annotations.Agree b.annotations
  doc : SameText a.doc b.doc

/-- How an interface announces that properties change: always, unless it says so. -/
def Interface.emits (i : Interface) : String :=
  (i.annotations.value? AnnotationName.emitsChanged).getD "true"

/-- How a property of an interface announces that it changes. -/
def Property.emitsIn (i : Interface) (p : Property) : String :=
  (p.annotations.value? AnnotationName.emitsChanged).getD i.emits

/-- Properties of two interfaces that agree. -/
structure Property.Agrees (i j : Interface) (p q : Property) : Prop where
  type : p.type.text = q.type.text
  access : p.access = q.access
  emits : p.emitsIn i = q.emitsIn j
  annotations : p.annotations.Agree q.annotations
  doc : SameText p.doc q.doc

/-- Lists with the same keys, where elements with one key are related. -/
structure SameByKey {α κ : Type} (f : α → κ) (same : α → α → Prop) (l m : List α) : Prop where
  keys : ∀ k, k ∈ l.map f ↔ k ∈ m.map f
  each : ∀ x ∈ l, ∀ y ∈ m, f x = f y → same x y

structure Interface.Agrees (i j : Interface) : Prop where
  emits : i.emits = j.emits
  annotations : i.annotations.Agree j.annotations
  doc : SameText i.doc j.doc
  methods : SameByKey Callable.name Callable.Agrees i.methods j.methods
  signals : SameByKey Callable.name Callable.Agrees i.signals j.signals
  properties : SameByKey Property.name (Property.Agrees i j) i.properties j.properties

/-- Two nodes that say the same at every depth. -/
inductive Node.Agrees : Node → Node → Prop
  | intro {a b : Node}
      (annotations : a.annotations.Agree b.annotations)
      (doc : SameText a.doc b.doc)
      (interfaces : SameByKey Interface.name Interface.Agrees a.interfaces b.interfaces)
      (childNames : ∀ name, name ∈ a.nodes.map Node.name ↔ name ∈ b.nodes.map Node.name)
      (children : ∀ c ∈ a.nodes, ∀ d ∈ b.nodes, c.name = d.name → Agrees c d) :
      Agrees a b

namespace Compare

theorem isGeneric_iff {a : Annotation} : isGeneric a = true ↔ a.name ∉ AnnotationName.special := by
  simp only [isGeneric, AnnotationName.special, Bool.not_eq_true', List.contains_eq_mem,
    decide_eq_false_iff_not]

theorem compareMark_eq_nil_iff {s : Subject} {o n : Option String} {set unset : ChangeCode}
    {whenSet whenUnset : String} :
    compareMark s o n set unset whenSet whenUnset = [] ↔ (o = some "true" ↔ n = some "true") := by
  unfold compareMark
  by_cases old : o = some "true" <;> by_cases new : n = some "true" <;> simp [old, new]

theorem compareSymbol_eq_nil_iff {s : Subject} {o n : Option String} :
    compareSymbol s o n = [] ↔ o = n := by
  unfold compareSymbol
  split <;> simp_all

theorem compareGeneric_eq_nil_iff {s : Subject} {old : Annotations} {a : Annotation} :
    compareGeneric s old a = [] ↔ old.value? a.name = some a.value := by
  unfold compareGeneric
  split
  · next none => simp [none]
  · next v found => by_cases same : v = a.value <;> simp [found, same]

theorem removeGeneric_eq_nil_iff {s : Subject} {new : Annotations} {a : Annotation} :
    removeGeneric s new a = [] ↔ (new.value? a.name).isSome := by
  unfold removeGeneric Annotations.value?
  rw [Option.isSome_map]
  split <;> simp_all

theorem generics_eq_nil_iff {s : Subject} {old new : Annotations} (distinct : new.Distinct) :
    ((new.toList.filter isGeneric).flatMap (compareGeneric s old) = [] ∧
      (old.toList.filter isGeneric).flatMap (removeGeneric s new) = []) ↔
    ∀ name, name ∉ AnnotationName.special → old.value? name = new.value? name := by
  simp only [List.flatMap_eq_nil_iff, List.mem_filter, isGeneric_iff, compareGeneric_eq_nil_iff,
    removeGeneric_eq_nil_iff, and_imp]
  constructor
  · rintro ⟨kept, gone⟩ name generic
    cases there : new.value? name with
    | some v =>
        obtain ⟨a, ha, rfl, rfl⟩ := Annotations.exists_of_value? there
        exact kept a ha generic
    | none =>
        by_contra present
        obtain ⟨v, before⟩ := Option.ne_none_iff_exists'.1 present
        obtain ⟨a, ha, rfl, -⟩ := Annotations.exists_of_value? before
        have still := gone a ha generic
        rw [there] at still
        exact absurd still (by decide)
  · intro h
    refine ⟨fun a ha generic => ?_, fun a ha generic => ?_⟩
    · rw [h a.name generic]
      exact Annotations.value?_of_mem distinct ha
    · rw [← h a.name generic]
      exact Annotations.isSome_value?_of_mem ha

theorem compareAnnotations_eq_nil_iff {s : Subject} {old new : Annotations}
    (distinct : new.Distinct) : compareAnnotations s old new = [] ↔ old.Agree new := by
  simp only [compareAnnotations, List.append_eq_nil_iff, compareMark_eq_nil_iff,
    compareSymbol_eq_nil_iff]
  rw [and_assoc, generics_eq_nil_iff distinct]
  constructor
  · rintro ⟨⟨⟨deprecated, symbol⟩, reply⟩, others⟩
    exact ⟨deprecated, reply, symbol, others⟩
  · intro h
    exact ⟨⟨⟨h.deprecated, h.cSymbol⟩, h.noReply⟩, h.others⟩

theorem compareDoc_eq_nil_iff {s : Subject} {old new : Option Documentation} :
    compareDoc s old new = [] ↔ SameText old new := by
  unfold compareDoc SameText
  dsimp only
  split <;> simp_all

theorem compareEmits_eq_nil_iff {s : Subject} {old new : String} :
    compareEmits s old new = [] ↔ old = new := by
  unfold compareEmits
  split <;> simp_all

theorem compareDirection_eq_nil_iff {s : Subject} {o n : Option Direction}
    (both : o.isSome = n.isSome) : compareDirection s o n = [] ↔ o = n := by
  unfold compareDirection
  split
  · split <;> simp_all
  · next apart =>
    cases o with
    | none => cases n <;> simp_all
    | some x =>
        cases n with
        | none => simp_all
        | some y => exact absurd rfl (apart x y rfl)

theorem compareArgument_eq_nil_iff {path : String} {kind : CallableKind} {o n : Argument}
    (distinct : n.annotations.Distinct) (ho : o.Directed kind) (hn : n.Directed kind) :
    compareArgument path o n = [] ↔ o.Agrees n := by
  simp only [compareArgument, List.append_eq_nil_iff, compareAnnotations_eq_nil_iff distinct,
    compareDoc_eq_nil_iff, compareDirection_eq_nil_iff (ho.isSome_eq hn),
    ite_eq_left_iff, List.cons_ne_nil, imp_false, not_not]
  constructor
  · rintro ⟨⟨⟨⟨name, type⟩, direction⟩, annotations⟩, doc⟩
    exact ⟨name, type, direction, annotations, doc⟩
  · intro h
    exact ⟨⟨⟨⟨h.name, h.type⟩, h.direction⟩, h.annotations⟩, h.doc⟩

theorem arguments_eq_nil_iff {path : String} {kind : CallableKind} {k : Nat}
    {old new : List Argument} (distinct : ∀ a ∈ new, a.annotations.Distinct)
    (oldDirected : ∀ a ∈ old, a.Directed kind) (newDirected : ∀ a ∈ new, a.Directed kind) :
    compareArguments kind path k old new ++ removedArguments path k old new = [] ↔
      List.Forall₂ Argument.Agrees old new := by
  induction old generalizing new k with
  | nil =>
      cases new with
      | nil => simp [compareArguments, removedArguments]
      | cons n new => simp [compareArguments]
  | cons o old ih =>
      cases new with
      | nil => simp [removedArguments]
      | cons n new =>
          obtain ⟨nDistinct, distinct⟩ := List.forall_mem_cons.1 distinct
          obtain ⟨oDirected, oldDirected⟩ := List.forall_mem_cons.1 oldDirected
          obtain ⟨nDirected, newDirected⟩ := List.forall_mem_cons.1 newDirected
          rw [compareArguments, removedArguments, List.append_assoc, List.append_eq_nil_iff,
            ih distinct oldDirected newDirected, List.forall₂_cons,
            compareArgument_eq_nil_iff nDistinct oDirected nDirected]

theorem betweenCallables_eq_nil_iff {path : String} {kind : CallableKind} {old new : Callable}
    (annotated : new.Annotated) (oldDirected : old.Directed kind)
    (newDirected : new.Directed kind) :
    betweenCallables path old new = [] ↔ old.Agrees new := by
  simp only [betweenCallables, compareCallable, List.append_assoc]
  rw [List.append_eq_nil_iff, List.append_eq_nil_iff, newDirected.kind_eq,
    arguments_eq_nil_iff annotated.args oldDirected.args newDirected.args,
    compareAnnotations_eq_nil_iff annotated.own, compareDoc_eq_nil_iff]
  exact ⟨fun h => ⟨h.2.2, h.1, h.2.1⟩, fun h => ⟨h.annotations, h.doc, h.args⟩⟩

theorem effectiveEmits_interface {i : Interface} : effectiveEmits {} i.annotations = i.emits := by
  have outer : ({} : Annotations).value? AnnotationName.emitsChanged = none := rfl
  rw [effectiveEmits, outer, Option.or_none]
  rfl

theorem effectiveEmits_property {i : Interface} {p : Property} :
    effectiveEmits i.annotations p.annotations = p.emitsIn i := by
  unfold effectiveEmits Property.emitsIn Interface.emits
  cases p.annotations.value? AnnotationName.emitsChanged <;> simp

theorem compareAccess_eq_nil_iff {s : Subject} {o n : Access} :
    compareAccess s o n = [] ↔ o = n := by
  unfold compareAccess
  split <;> simp_all

theorem compareProperty_eq_nil_iff {path : String} {i j : Interface} {p q : Property}
    (distinct : q.annotations.Distinct) :
    compareProperty path i.annotations j.annotations p q = [] ↔ p.Agrees i j q := by
  simp only [compareProperty, List.append_eq_nil_iff, compareAnnotations_eq_nil_iff distinct,
    compareDoc_eq_nil_iff, compareAccess_eq_nil_iff, compareEmits_eq_nil_iff,
    effectiveEmits_property, ite_eq_left_iff, List.cons_ne_nil, imp_false, not_not]
  constructor
  · rintro ⟨⟨⟨⟨type, access⟩, emits⟩, annotations⟩, doc⟩
    exact ⟨type, access, emits, annotations, doc⟩
  · intro h
    exact ⟨⟨⟨⟨h.type, h.access⟩, h.emits⟩, h.annotations⟩, h.doc⟩

theorem matched_iff_sameByKey {α κ : Type} {f : α → κ} {old new : List α} {lost gained : α → Prop}
    {both same : α → α → Prop} (onLost : ∀ o ∈ old, ¬lost o) (onGained : ∀ n ∈ new, ¬gained n)
    (onBoth : ∀ o ∈ old, ∀ n ∈ new, (both o n ↔ same o n)) :
    Matched f old new lost gained both ↔ SameByKey f same old new := by
  constructor
  · intro h
    refine ⟨fun k => ⟨fun hk => ?_, fun hk => ?_⟩, fun o ho n hn e =>
      (onBoth o ho n hn).1 (h.both o ho n hn e)⟩
    · obtain ⟨o, ho, rfl⟩ := List.mem_map.1 hk
      by_contra gone
      exact onLost o ho (h.lost o ho fun n hn e => gone (List.mem_map.2 ⟨n, hn, e⟩))
    · obtain ⟨n, hn, rfl⟩ := List.mem_map.1 hk
      by_contra fresh
      exact onGained n hn (h.gained n hn fun o ho e => fresh (List.mem_map.2 ⟨o, ho, e⟩))
  · intro h
    refine ⟨fun o ho alone => ?_, fun n hn alone => ?_, fun o ho n hn e =>
      (onBoth o ho n hn).2 (h.each o ho n hn e)⟩
    · obtain ⟨n, hn, e⟩ := List.mem_map.1 ((h.keys (f o)).1 (List.mem_map_of_mem ho))
      exact absurd e (alone n hn)
    · obtain ⟨o, ho, e⟩ := List.mem_map.1 ((h.keys (f n)).2 (List.mem_map_of_mem hn))
      exact absurd e (alone o ho)

theorem eq_nil_iff_forall_false {l : List Change} : l = [] ↔ ∀ c ∈ l, False :=
  List.eq_nil_iff_forall_not_mem

theorem betweenInterfaces_eq_nil_iff {path : String} {old new : Interface}
    (oldDistinct : old.NamesDistinct) (newDistinct : new.NamesDistinct) (annotated : new.Annotated)
    (oldDirected : old.Directed) (newDirected : new.Directed) :
    betweenInterfaces path old new = [] ↔ old.Agrees new := by
  rw [eq_nil_iff_forall_false, forall_betweenInterfaces_iff oldDistinct newDistinct]
  simp only [← eq_nil_iff_forall_false, compareEmits_eq_nil_iff, effectiveEmits_interface,
    compareAnnotations_eq_nil_iff annotated.own, compareDoc_eq_nil_iff]
  rw [matched_iff_sameByKey (fun _ _ => id) (fun _ _ => id) fun o ho n hn =>
      betweenCallables_eq_nil_iff (annotated.methods n hn) (oldDirected.methods o ho)
        (newDirected.methods n hn),
    matched_iff_sameByKey (fun _ _ => id) (fun _ _ => id) fun o ho n hn =>
      betweenCallables_eq_nil_iff (annotated.signals n hn) (oldDirected.signals o ho)
        (newDirected.signals n hn),
    matched_iff_sameByKey (fun _ _ => id) (fun _ _ => id) fun _ _ n hn =>
      compareProperty_eq_nil_iff (annotated.properties n hn)]
  constructor
  · rintro ⟨emits, annotations, doc, methods, signals, properties⟩
    exact ⟨emits, annotations, doc, methods, signals, properties⟩
  · intro h
    exact ⟨h.emits, h.annotations, h.doc, h.methods, h.signals, h.properties⟩

end Compare

theorem Node.agrees_iff {a b : Node} :
    a.Agrees b ↔ a.annotations.Agree b.annotations ∧ SameText a.doc b.doc ∧
      SameByKey Interface.name Interface.Agrees a.interfaces b.interfaces ∧
      SameByKey Node.name Node.Agrees a.nodes b.nodes := by
  constructor
  · intro h
    cases h with
    | intro annotations doc interfaces childNames children =>
        exact ⟨annotations, doc, interfaces, childNames, children⟩
  · rintro ⟨annotations, doc, interfaces, children⟩
    exact .intro annotations doc interfaces children.keys children.each

namespace Compare

theorem betweenNodes_eq_nil_iff {scope : Option String} {old new : Node}
    (oldNamed : old.WellNamed) (newNamed : new.WellNamed) (annotated : new.WellAnnotated)
    (oldDirected : old.WellDirected) (newDirected : new.WellDirected) :
    betweenNodes scope old new = [] ↔ old.Agrees new := by
  induction old using Node.induction generalizing new scope with
  | step old ih =>
      rw [eq_nil_iff_forall_false, forall_betweenNodes_iff oldNamed.here newNamed.here,
        Node.agrees_iff]
      simp only [← eq_nil_iff_forall_false, compareDoc_eq_nil_iff,
        compareAnnotations_eq_nil_iff annotated.here.1]
      rw [matched_iff_sameByKey (fun _ _ => id) (fun _ _ => id) fun i hi j hj =>
          betweenInterfaces_eq_nil_iff (oldNamed.here.members i hi) (newNamed.here.members j hj)
            (annotated.here.2 j hj) (oldDirected.here i hi) (newDirected.here j hj),
        matched_iff_sameByKey (fun _ _ => id) (fun _ _ => id) fun c hc d hd =>
          ih c hc (oldNamed.below hc) (newNamed.below hd) (annotated.below hd)
            (oldDirected.below hc) (newDirected.below hd)]

end Compare

theorem Annotations.Agree.refl (s : Annotations) : s.Agree s :=
  ⟨Iff.rfl, Iff.rfl, rfl, fun _ _ => rfl⟩

theorem Argument.Agrees.refl (a : Argument) : a.Agrees a := ⟨rfl, rfl, rfl, .refl _, rfl⟩

theorem Callable.Agrees.refl (c : Callable) : c.Agrees c :=
  ⟨List.forall₂_same.2 fun a _ => .refl a, .refl _, rfl⟩

theorem Property.Agrees.refl (i : Interface) (p : Property) : p.Agrees i i p :=
  ⟨rfl, rfl, rfl, .refl _, rfl⟩

theorem SameByKey.refl {α κ : Type} {f : α → κ} {same : α → α → Prop} {l : List α}
    (distinct : (l.map f).Nodup) (self : ∀ x ∈ l, same x x) : SameByKey f same l l := by
  refine ⟨fun _ => Iff.rfl, fun x hx y hy e => ?_⟩
  rw [← List.inj_on_of_nodup_map distinct hx hy e]
  exact self x hx

theorem Interface.Agrees.refl {i : Interface} (h : i.NamesDistinct) : i.Agrees i :=
  ⟨rfl, .refl _, rfl, .refl h.methods fun m _ => .refl m, .refl h.signals fun s _ => .refl s,
    .refl h.properties fun p _ => .refl i p⟩

theorem Node.Agrees.refl {n : Node} (named : n.WellNamed) : n.Agrees n := by
  induction n using Node.induction with
  | step n ih =>
      refine Node.agrees_iff.2 ⟨.refl _, rfl, ?_, ?_⟩
      · exact .refl named.here.interfaces fun i hi => .refl (named.here.members i hi)
      · exact .refl named.here.children fun c hc => ih c hc (named.below hc)

theorem compare_self {n : Node} (named : n.WellNamed) (annotated : n.WellAnnotated)
    (directed : n.WellDirected) : compare n n = [] :=
  (Compare.betweenNodes_eq_nil_iff named named annotated directed directed).2 (.refl named)

/-- A comparison finds nothing just if the two descriptions say the same. -/
theorem compare_eq_nil_iff_agrees {a b : Node} (aNamed : a.WellNamed) (bNamed : b.WellNamed)
    (bAnnotated : b.WellAnnotated) (aDirected : a.WellDirected) (bDirected : b.WellDirected) :
    compare a b = [] ↔ a.Agrees b :=
  Compare.betweenNodes_eq_nil_iff aNamed bNamed bAnnotated aDirected bDirected

def clock : Node where
  name := some "/org/example/Clock"
  interfaces := [
    { name := "org.example.Clock"
      methods := [
        { kind := .method, name := "Start", location := ⟨3, 5⟩
          annotations := ⟨[⟨AnnotationName.noReply, "false", ⟨4, 7⟩⟩, ⟨"Since", "2", ⟨5, 7⟩⟩]⟩ },
        { kind := .method, name := "Stop", location := ⟨7, 5⟩ }]
      properties := [{ name := "Now", type := .ofText "t", access := .read }]
      annotations := ⟨[⟨AnnotationName.emitsChanged, "const", ⟨9, 5⟩⟩]⟩
      doc := some ⟨"Tells the time.", .comment, ⟨1, 1⟩⟩ }]

/-- The same clock written down in another way. -/
def rewrittenClock : Node where
  interfaces := [
    { name := "org.example.Clock"
      methods := [
        { kind := .method, name := "Stop", location := ⟨5, 3⟩ },
        { kind := .method, name := "Start", annotations := ⟨[⟨"Since", "2", {}⟩]⟩ }]
      properties := [
        { name := "Now", type := .ofText "t", access := .read
          annotations := ⟨[⟨AnnotationName.emitsChanged, "const", {}⟩]⟩ }]
      annotations := ⟨[⟨AnnotationName.emitsChanged, "const", {}⟩]⟩
      doc := some ⟨"Tells the time.", .element, ⟨2, 3⟩⟩ }]

/-- The two clocks say the same, and an object without interfaces says something else. -/
theorem clock_agrees_rewrittenClock :
    (clock.WellNamed ∧ rewrittenClock.WellNamed ∧ rewrittenClock.WellAnnotated ∧
      clock.WellDirected ∧ rewrittenClock.WellDirected) ∧
    clock.Agrees rewrittenClock ∧ ¬clock.Agrees {} := by
  have named : clock.WellNamed := by decide
  have otherNamed : rewrittenClock.WellNamed := by decide
  have otherAnnotated : rewrittenClock.WellAnnotated := by decide
  have directed : clock.WellDirected := by decide
  have otherDirected : rewrittenClock.WellDirected := by decide
  have unchanged : compare clock rewrittenClock = [] := by cbv
  have gone : (compare clock {}).length = 1 := by cbv
  refine ⟨⟨named, otherNamed, otherAnnotated, directed, otherDirected⟩, ?_, fun agrees => ?_⟩
  · exact (compare_eq_nil_iff_agrees named otherNamed otherAnnotated directed otherDirected).1
      unchanged
  · have none := (compare_eq_nil_iff_agrees named (by decide) (by decide) directed
      (by decide)).2 agrees
    rw [none] at gone
    exact absurd gone (by decide)

end ApiDrift
