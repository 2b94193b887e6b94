import ApiDrift.Proofs.Api.Annotation
import ApiDrift.Proofs.Introspection.Gather
/-! Annotations, arguments, members and interfaces are described without any finding just when
they are in the grammar. -/
namespace ApiDrift.Introspection

section Annotations

def annotationDefinitions (annotations : Annotations) : List (String × String) :=
  definitions "annotation" (annotations.toList.map Annotation.name)

theorem clean_required_iff {e : Xml.Element} {attr : String} :
    (required e attr).Clean ↔ (e.attribute? attr).isSome := by
  simp only [required, Logged.clean_bind, Logged.clean_reportWhen, Logged.clean_pure, and_true]
  cases e.attribute? attr with
  | none => exact iff_of_false Bool.noConfusion Bool.noConfusion
  | some value => exact iff_of_true rfl rfl

theorem value_required (e : Xml.Element) (attr : String) :
    (required e attr).value = e.attribute? attr := rfl

theorem clean_required_bind_iff {α : Type} {e : Xml.Element} {attr : String}
    {f : Option String → Logged α} :
    (required e attr >>= f).Clean ↔ ∃ value, e.attribute? attr = some value ∧
      (f (some value)).Clean := by
  rw [Logged.clean_bind, clean_required_iff, value_required]
  cases e.attribute? attr with
  | none => exact iff_of_false (fun h => nomatch h.1) fun ⟨_, h, _⟩ => nomatch h
  | some value => exact ⟨fun h => ⟨value, rfl, h.2⟩, fun ⟨_, rfl, h⟩ => ⟨rfl, h⟩⟩

theorem tidy_nil_iff {children : List Xml.Node} {place : Place} :
    (reportChildren [] place children).Clean ↔ Tidy [] children := by
  rw [clean_reportChildren_iff]
  constructor
  · rintro ⟨known, documented⟩
    refine ⟨known, documented, ?_⟩
    have nothing : children.filterMap definition? = [] := by
      refine List.filterMap_eq_nil_iff.2 fun n hn => ?_
      cases n with
      | element head below => exact if_neg fun plain => nomatch known head below hn plain
      | text s => rfl
      | comment s location => rfl
      | instruction => rfl
    rw [nothing]
    exact List.nodup_nil
  · exact fun tidy => ⟨tidy.known, tidy.documented⟩

theorem isSome_replaced_iff {annotations : Annotations} {a : Annotation} :
    (annotations.insert a).2.isSome ↔ a.name ∈ annotations.toList.map Annotation.name := by
  rw [Annotations.insert, Annotations.insertInto_snd, isSome_find?_key_iff]

theorem clean_annotate_iff {annotations : Annotations} {owner : Place} {c : Child} :
    (annotate annotations owner c).Clean ↔ AnnotationFits c.head c.children ∧
      ∀ name ∈ c.head.attribute? "name", name ∉ annotations.toList.map Annotation.name := by
  rw [annotate, clean_required_bind_iff]
  constructor
  · rintro ⟨name, named, clean⟩
    simp only [Logged.clean_bind, Logged.clean_reportWhen, Logged.clean_pure, and_true,
      tidy_nil_iff, Bool.eq_false_iff (b := Option.isSome _), isSome_replaced_iff, ne_eq] at clean
    obtain ⟨tidy, standard, documented, fresh⟩ := clean
    refine ⟨⟨⟨name, named, standard, ?_⟩, tidy⟩, fun other h => ?_⟩
    · rintro rfl blank
      rw [Text.trim_eq_empty_iff.1 blank] at documented
      cases documented
    · rwa [← Option.some.inj (named.symm.trans h)]
  · rintro ⟨⟨⟨name, named, standard, documented⟩, tidy⟩, fresh⟩
    refine ⟨name, named, ?_⟩
    simp only [Logged.clean_bind, Logged.clean_reportWhen, Logged.clean_pure, and_true,
      tidy_nil_iff, Bool.eq_false_iff, isSome_replaced_iff, ne_eq, Bool.and_eq_true, beq_iff_eq,
      not_and, ← Text.trim_eq_empty_iff]
    exact ⟨tidy, Bool.eq_false_iff.1 standard, documented, fresh name named⟩

theorem mem_names_annotate_iff {annotations : Annotations} {owner : Place} {c : Child}
    {name : String} :
    name ∈ (annotate annotations owner c).value.toList.map Annotation.name ↔
      name ∈ annotations.toList.map Annotation.name ∨ name ∈ c.head.attribute? "name" := by
  simp only [annotate, required, Logged.value_bind, Logged.value_pure]
  cases c.head.attribute? "name" with
  | none => exact (or_iff_left (Option.not_mem_none name)).symm
  | some own =>
      dsimp only [Logged.value_bind, Logged.value_pure, Annotations.insert]
      rw [Annotations.map_name_insertInto, Option.mem_some_iff]
      split
      · next known =>
        refine (or_iff_left_of_imp ?_).symm
        rintro rfl
        exact known
      · rw [List.mem_append, List.mem_singleton, eq_comm]

theorem takes_annotated (annotations : Annotations) (owner : Place) {c : Child}
    (base : c.head.base = "annotation") :
    Takes annotationDefinitions annotations c.head (AnnotationFits c.head c.children)
      (annotate annotations owner c) := by
  have named : c.head.base ≠ "arg" := by
    rw [base]
    decide
  constructor
  · rw [clean_annotate_iff]
    refine and_congr_right fun _ => ⟨fun fresh d hd known => ?_, fun fresh name hn known => ?_⟩
    · exact fresh d.2 ((mem_defines?_iff named).1 hd).2 (mem_definitions_iff.1 known).2
    · refine fresh ("annotation", name) ((mem_defines?_iff named).2 ⟨base.symm, hn⟩) ?_
      exact mem_definitions_iff.2 ⟨rfl, known⟩
  · intro _ d
    rw [annotationDefinitions, annotationDefinitions, mem_definitions_iff, mem_definitions_iff,
      mem_defines?_iff named, base, mem_names_annotate_iff, and_or_left]

theorem annotateAll_eq_foldlM {annotations : Annotations} {owner : Place} {l : List Child} :
    annotateAll annotations owner l =
      l.foldlM (fun a c => annotate a owner c) annotations := by
  induction l generalizing annotations with
  | nil => rfl
  | cons c rest ih =>
      rw [List.foldlM_cons, annotateAll]
      simp only [ih]

theorem collects_annotations (children : List Xml.Node) (owner : Place) :
    Collects ["annotation"] children (fun a c => annotate a owner c) annotationDefinitions
      fun _ head below => head.base = "annotation" → AnnotationFits head below where
  takes _ _ _ _ base :=
    (takes_annotated _ _ (List.mem_singleton.1 base)).of_iff (by simp [List.mem_singleton.1 base])
  fits_step _ _ := rfl

theorem clean_annotations_iff (children : List Xml.Node) (place : Place) :
    (reportChildren ["annotation"] place children).Clean ∧
        (annotateAll {} place (acceptedChildren ["annotation"] none children)).Clean ↔
      Tidy ["annotation"] children ∧ Each "annotation" AnnotationFits children := by
  rw [annotateAll_eq_foldlM, (collects_annotations children place).clean_children_iff _ _ _ rfl,
    eachOf_named_iff (by decide)]

end Annotations

section Attributes

theorem direction_ofText?_eq_some_iff {s : String} {d : Direction} :
    Direction.ofText? s = some d ↔ s = d.text := by
  constructor
  · intro h
    have found := List.find?_some h
    exact (beq_iff_eq.1 found).symm
  · rintro rfl
    cases d <;> rfl

theorem access_ofText?_eq_some_iff {s : String} {a : Access} :
    Access.ofText? s = some a ↔ s = a.text := by
  constructor
  · intro h
    have found := List.find?_some h
    exact (beq_iff_eq.1 found).symm
  · rintro rfl
    cases a <;> rfl

theorem clean_argumentDirection_iff {e : Xml.Element} {kind : CallableKind} {label : ArgumentLabel}
    {owner : Place} : (argumentDirection e kind label owner).Clean ↔
      e.attribute? "direction" ∈ CallableKind.directions kind := by
  unfold argumentDirection
  cases e.attribute? "direction" with
  | none => cases kind <;> simp [CallableKind.directions]
  | some value =>
      cases given : Direction.ofText? value with
      | none =>
          have other (d : Direction) : value ≠ d.text := fun same => by
            rw [direction_ofText?_eq_some_iff.2 same] at given
            exact nomatch given
          have inward : value ≠ "in" := other .input
          have outward : value ≠ "out" := other .output
          cases kind <;> simp [CallableKind.directions, inward, outward, given]
      | some d =>
          obtain rfl := direction_ofText?_eq_some_iff.1 given
          cases kind <;> cases d <;> simp [CallableKind.directions, Direction.text, Direction.ofText?]

theorem isSome_access_iff {value : String} :
    (Access.ofText? value).isSome ↔ value ∈ ["read", "write", "readwrite"] := by
  simp only [Option.isSome_iff_exists, access_ofText?_eq_some_iff, List.mem_cons, List.not_mem_nil,
    or_false]
  constructor
  · rintro ⟨a, rfl⟩
    cases a <;> decide
  · rintro (rfl | rfl | rfl)
    · exact ⟨.read, rfl⟩
    · exact ⟨.write, rfl⟩
    · exact ⟨.readWrite, rfl⟩

theorem clean_propertyAccess_iff {value interface name : String} {location : Location} :
    (propertyAccess (some value) location interface name).Clean ↔
      value ∈ ["read", "write", "readwrite"] := by
  simp only [propertyAccess, Logged.clean_bind, Logged.clean_reportWhen, Logged.clean_pure,
    Option.bind_some, and_true, ← isSome_access_iff]
  cases Access.ofText? value with
  | none => exact iff_of_false Bool.noConfusion Bool.noConfusion
  | some a => exact iff_of_true rfl rfl

theorem value_propertyAccess (value? : Option String) (location : Location)
    (interface name : String) :
    (propertyAccess value? location interface name).value = value?.bind Access.ofText? := by
  cases value? with
  | none => rfl
  | some value => rfl

theorem error?_ofText_eq_none_iff {text : String} :
    (DeclaredType.ofText text).error? = none ↔ ∃ s, Signature.parse text = .ok s := by
  unfold DeclaredType.ofText DeclaredType.error?
  cases Signature.parse text with
  | ok signature => exact iff_of_true rfl ⟨signature, rfl⟩
  | error e => exact iff_of_false nofun fun ⟨_, h⟩ => nomatch h

theorem typeFits_iff {head : Xml.Element} :
    TypeFits head ↔ ∃ text, head.attribute? "type" = some text ∧
      (DeclaredType.ofText text).error? = none := by
  simp only [TypeFits, error?_ofText_eq_none_iff, exists_and_left]

theorem clean_type_iff {α : Type} {location : Location} {problem : SignatureError → Problem} {a : α}
    {error? : Option SignatureError} : (match error? with
      | some e => do
        Logged.report location (problem e)
        pure a
      | none => pure a : Logged α).Clean ↔ error? = none := by
  cases error? with
  | none => exact iff_of_true rfl rfl
  | some e => exact iff_of_false (fun h => Logged.not_clean_report _ _ (Logged.clean_bind.1 h).1) nofun

end Attributes

section Callables
variable {kind : CallableKind} {interface name : String} {c : Child}

theorem clean_describeArgument_iff {position : Nat} :
    (describeArgument kind interface name position c).Clean ↔
      ArgumentFits kind c.head c.children := by
  unfold describeArgument
  dsimp only
  rw [clean_required_bind_iff]
  simp only [Logged.clean_bind, clean_argumentDirection_iff]
  constructor
  · rintro ⟨text, typed, direction, report, each, valid⟩
    obtain ⟨tidy, annotations⟩ := (clean_annotations_iff _ _).1 ⟨report, each⟩
    exact ⟨typeFits_iff.2 ⟨text, typed, clean_type_iff.1 valid⟩, direction, tidy, annotations⟩
  · rintro ⟨type, direction, tidy, annotations⟩
    obtain ⟨text, typed, valid⟩ := typeFits_iff.1 type
    obtain ⟨report, each⟩ := (clean_annotations_iff _ _).2 ⟨tidy, annotations⟩
    exact ⟨text, typed, direction, report, each, clean_type_iff.2 valid⟩

/-- The method or signal with what one accepted child adds to it. -/
def addCallablePart (interface : String) (callable : Callable) (c : Child) : Logged Callable :=
  if c.head.base = "arg" then do
    let arg? ← describeArgument callable.kind interface callable.name callable.args.length c
    pure { callable with args := callable.args ++ arg?.toList }
  else do
    let place := Place.callable callable.kind interface callable.name
    let annotations ← annotate callable.annotations place c
    pure { callable with annotations }

theorem addCallableParts_eq_foldlM {callable : Callable} {l : List Child} :
    addCallableParts callable interface l = l.foldlM (addCallablePart interface) callable := by
  induction l generalizing callable with
  | nil => rfl
  | cons c rest ih =>
      rw [List.foldlM_cons, addCallableParts, addCallablePart]
      split
      · rw [Logged.bind_assoc]
        simp only [ih]
      · rw [Logged.bind_assoc]
        simp only [ih]

theorem addCallablePart_keeps (callable : Callable) (c : Child) :
    (addCallablePart interface callable c).value.kind = callable.kind ∧
      (addCallablePart interface callable c).value.name = callable.name ∧
      (addCallablePart interface callable c).value.location = callable.location := by
  unfold addCallablePart
  split
  · exact ⟨rfl, rfl, rfl⟩
  · exact ⟨rfl, rfl, rfl⟩

theorem collects_callableParts (interface : String) (children : List Xml.Node) :
    Collects ["arg", "annotation"] children (addCallablePart interface)
      (fun callable => annotationDefinitions callable.annotations)
      fun callable head below => (head.base = "arg" → ArgumentFits callable.kind head below) ∧
        (head.base = "annotation" → AnnotationFits head below) where
  takes callable c _ _ base := by
    unfold addCallablePart
    by_cases arg : c.head.base = "arg"
    · rw [if_pos arg]
      have nothing : defines? c.head = none := if_pos arg
      constructor
      · simp [clean_describeArgument_iff, arg, nothing]
      · intro _ d
        rw [nothing]
        exact (or_iff_left nofun).symm
    · rw [if_neg arg]
      have own : c.head.base = "annotation" := by simpa [arg] using base
      have taken := takes_annotated callable.annotations
        (.callable callable.kind interface callable.name) own
      have whole := taken.within (fun callable => annotationDefinitions callable.annotations)
        (fun annotations => { callable with annotations }) [] (fun _ => rfl)
        fun _ _ => List.not_mem_nil
      refine whole.of_iff ?_
      simp [own]
  fits_step callable c := by
    rw [(addCallablePart_keeps callable c).1]

theorem clean_describeCallable_iff : (describeCallable kind interface c).Clean ↔
    CallableFits kind c.head c.children := by
  rw [describeCallable, clean_required_bind_iff]
  have collected (name : String) := (collects_callableParts interface c.children).clean_children_iff
    { kind, name, location := c.head.location } (.callable kind interface name) none rfl
  simp only [Logged.clean_bind, Logged.clean_reportWhen, Logged.clean_pure, and_true,
    Bool.not_eq_false', addCallableParts_eq_foldlM, collected]
  rw [eachOf_and_iff, eachOf_named_iff (by decide), eachOf_named_iff (by decide)]
  constructor
  · rintro ⟨name, named, valid, tidy, args, annotations⟩
    exact ⟨⟨name, named, valid⟩, tidy, args, annotations⟩
  · rintro ⟨⟨name, named, valid⟩, tidy, args, annotations⟩
    exact ⟨name, named, valid, tidy, args, annotations⟩

theorem name_addCallableParts {callable : Callable} {l : List Child} :
    (addCallableParts callable interface l).value.name = callable.name := by
  rw [addCallableParts_eq_foldlM]
  exact value_foldlM_kept (fun callable c => (addCallablePart_keeps callable c).2.1) l callable

theorem name_describeCallable :
    (describeCallable kind interface c).value.map Callable.name = c.head.attribute? "name" := by
  unfold describeCallable
  rw [Logged.value_bind, value_required]
  cases c.head.attribute? "name" with
  | none => rfl
  | some name => exact congrArg some name_addCallableParts

end Callables

section Properties
variable {interface : String} {c : Child}

theorem clean_describeProperty_iff : (describeProperty interface c).Clean ↔
    PropertyFits c.head c.children := by
  unfold describeProperty
  simp only [clean_required_bind_iff]
  simp only [Logged.clean_bind, Logged.clean_reportWhen, Bool.not_eq_false',
    clean_propertyAccess_iff]
  constructor
  · rintro ⟨name, named, text, typed, value, given, valid, access, report, each, signature⟩
    obtain ⟨tidy, annotations⟩ := (clean_annotations_iff _ _).1 ⟨report, each⟩
    exact ⟨⟨name, named, valid⟩, typeFits_iff.2 ⟨text, typed, clean_type_iff.1 signature⟩,
      ⟨value, given, access⟩, tidy, annotations⟩
  · rintro ⟨⟨name, named, valid⟩, type, ⟨value, given, access⟩, tidy, annotations⟩
    obtain ⟨text, typed, signature⟩ := typeFits_iff.1 type
    obtain ⟨report, each⟩ := (clean_annotations_iff _ _).2 ⟨tidy, annotations⟩
    exact ⟨name, named, text, typed, value, given, valid, access, report, each,
      clean_type_iff.2 signature⟩

theorem name_describeProperty (clean : (describeProperty interface c).Clean) :
    (describeProperty interface c).value.map Property.name = c.head.attribute? "name" := by
  obtain ⟨⟨name, named, -⟩, ⟨text, signature, typed, -⟩, ⟨value, given, access⟩, -, -⟩ :=
    clean_describeProperty_iff.1 clean
  obtain ⟨a, known⟩ := Option.isSome_iff_exists.1 (isSome_access_iff.2 access)
  unfold describeProperty
  simp only [Logged.value_bind, value_required, named, typed, given]
  split
  · rw [Logged.value_bind, Logged.value_pure, value_propertyAccess, Option.bind_some, known]
    rfl
  · rw [Logged.value_pure, value_propertyAccess, Option.bind_some, known]
    rfl

end Properties

section Interfaces

/-- What an interface defines. -/
def interfaceDefinitions (i : Interface) : List (String × String) :=
  definitions "method" (i.methods.map Callable.name) ++
    definitions "signal" (i.signals.map Callable.name) ++
    definitions "property" (i.properties.map Property.name) ++
    annotationDefinitions i.annotations

theorem mem_interfaceDefinitions_iff {i : Interface} {kind name : String} :
    (kind, name) ∈ interfaceDefinitions i ↔ kind = "method" ∧ name ∈ i.methods.map Callable.name ∨
      kind = "signal" ∧ name ∈ i.signals.map Callable.name ∨
      kind = "property" ∧ name ∈ i.properties.map Property.name ∨
      kind = "annotation" ∧ name ∈ i.annotations.toList.map Annotation.name := by
  simp only [interfaceDefinitions, annotationDefinitions, List.mem_append, mem_definitions_iff,
    or_assoc]

variable {i : Interface} {c : Child}

theorem takes_method (base : c.head.base = "method") :
    Takes interfaceDefinitions i c.head (CallableFits .method c.head c.children)
      (addMember i c) := by
  rw [addMember, if_pos base]
  refine takes_named base (by decide) clean_describeCallable_iff
    (fun fits => fits.named.imp fun _ h => h.1) (fun _ => name_describeCallable) (fun _ => rfl)
    (fun name => ?_) fun m e => ?_
  · simp [mem_interfaceDefinitions_iff]
  · simp only [interfaceDefinitions, List.map_append, List.map_cons, List.map_nil, List.mem_append,
      mem_definitions_concat_iff]
    tauto

theorem takes_signal (base : c.head.base = "signal") :
    Takes interfaceDefinitions i c.head (CallableFits .signal c.head c.children)
      (addMember i c) := by
  have other : ¬c.head.base = "method" := by simp [base]
  rw [addMember, if_neg other, if_pos base]
  refine takes_named base (by decide) clean_describeCallable_iff
    (fun fits => fits.named.imp fun _ h => h.1) (fun _ => name_describeCallable) (fun _ => rfl)
    (fun name => ?_) fun m e => ?_
  · simp [mem_interfaceDefinitions_iff]
  · simp only [interfaceDefinitions, List.map_append, List.map_cons, List.map_nil, List.mem_append,
      mem_definitions_concat_iff]
    tauto

theorem takes_property (base : c.head.base = "property") :
    Takes interfaceDefinitions i c.head (PropertyFits c.head c.children) (addMember i c) := by
  have other : ¬c.head.base = "method" ∧ ¬c.head.base = "signal" := by simp [base]
  rw [addMember, if_neg other.1, if_neg other.2, if_pos base]
  refine takes_named base (by decide) clean_describeProperty_iff
    (fun fits => fits.named.imp fun _ h => h.1) name_describeProperty (fun _ => rfl)
    (fun name => ?_) fun m e => ?_
  · simp [mem_interfaceDefinitions_iff]
  · simp only [interfaceDefinitions, List.map_append, List.map_cons, List.map_nil, List.mem_append,
      mem_definitions_concat_iff]
    tauto

theorem interface_takes_annotated (base : c.head.base = "annotation") :
    Takes interfaceDefinitions i c.head (AnnotationFits c.head c.children) (addMember i c) := by
  have other : ¬c.head.base = "method" ∧ ¬c.head.base = "signal" ∧ ¬c.head.base = "property" := by
    simp [base]
  rw [addMember, if_neg other.1, if_neg other.2.1, if_neg other.2.2]
  refine (takes_annotated i.annotations (.interface i.name) base).within interfaceDefinitions
    (fun annotations => { i with annotations })
    (definitions "method" (i.methods.map Callable.name) ++
      definitions "signal" (i.signals.map Callable.name) ++
      definitions "property" (i.properties.map Property.name)) (fun _ => rfl) fun d hd => ?_
  have kind := ((mem_defines?_iff (by simp [base])).1 hd).1
  simp [mem_definitions_iff, kind, base]

theorem collects_members (children : List Xml.Node) :
    Collects interfaceNames children addMember interfaceDefinitions
      fun _ head below => (head.base = "method" → CallableFits .method head below) ∧
        (head.base = "signal" → CallableFits .signal head below) ∧
        (head.base = "property" → PropertyFits head below) ∧
        (head.base = "annotation" → AnnotationFits head below) where
  takes i c _ _ base := by
    simp only [interfaceNames, List.mem_cons, List.not_mem_nil, or_false] at base
    obtain kind | kind | kind | kind := base
    · exact (takes_method kind).of_iff (by simp [kind])
    · exact (takes_signal kind).of_iff (by simp [kind])
    · exact (takes_property kind).of_iff (by simp [kind])
    · exact (interface_takes_annotated kind).of_iff (by simp [kind])
  fits_step _ _ := rfl

theorem addMembers_eq_foldlM {l : List Child} : addMembers i l = l.foldlM addMember i := by
  induction l generalizing i with
  | nil => rfl
  | cons c rest ih =>
      rw [List.foldlM_cons, addMembers]
      simp only [ih]

theorem clean_describeInterface_iff :
    (describeInterface c).Clean ↔ InterfaceFits c.head c.children := by
  rw [describeInterface, clean_required_bind_iff]
  have collected (name : String) := (collects_members c.children).clean_children_iff
    { name, location := c.head.location } (.interface name) none rfl
  simp only [Logged.clean_bind, Logged.clean_reportWhen, Logged.clean_pure, and_true,
    Bool.not_eq_false', addMembers_eq_foldlM, collected]
  rw [eachOf_and_iff, eachOf_and_iff, eachOf_and_iff, eachOf_named_iff (by decide),
    eachOf_named_iff (by decide), eachOf_named_iff (by decide), eachOf_named_iff (by decide)]
  constructor
  · rintro ⟨name, named, valid, tidy, methods, signals, properties, annotations⟩
    exact ⟨⟨name, named, valid⟩, tidy, methods, signals, properties, annotations⟩
  · rintro ⟨⟨name, named, valid⟩, tidy, methods, signals, properties, annotations⟩
    exact ⟨name, named, valid, tidy, methods, signals, properties, annotations⟩

theorem addMember_keeps (i : Interface) (c : Child) :
    (addMember i c).value.name = i.name ∧ (addMember i c).value.location = i.location := by
  unfold addMember
  split
  · rw [Logged.value_bind]
    split
    · simp only [addMethod, Logged.value_bind, Logged.value_pure]
      split <;> exact ⟨rfl, rfl⟩
    · exact ⟨rfl, rfl⟩
  · split
    · rw [Logged.value_bind]
      split
      · simp only [addSignal, Logged.value_bind, Logged.value_pure]
        split <;> exact ⟨rfl, rfl⟩
      · exact ⟨rfl, rfl⟩
    · split
      · rw [Logged.value_bind]
        split
        · simp only [addProperty, Logged.value_bind, Logged.value_pure]
          split <;> exact ⟨rfl, rfl⟩
        · exact ⟨rfl, rfl⟩
      · exact ⟨rfl, rfl⟩

theorem name_addMembers {l : List Child} : (addMembers i l).value.name = i.name := by
  rw [addMembers_eq_foldlM]
  exact value_foldlM_kept (fun i c => (addMember_keeps i c).1) l i

theorem name_describeInterface :
    (describeInterface c).value.map Interface.name = c.head.attribute? "name" := by
  unfold describeInterface
  rw [Logged.value_bind, value_required]
  cases c.head.attribute? "name" with
  | none => rfl
  | some name => exact congrArg some name_addMembers

end Interfaces

end ApiDrift.Introspection
