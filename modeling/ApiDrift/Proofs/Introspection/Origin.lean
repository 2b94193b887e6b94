import ApiDrift.Proofs.Introspection.Documentation
import ApiDrift.Proofs.Introspection.Told
/-! What each part of a description was read from. An accepted document is described element by
element: of namesakes the first one counts, and every part is documented as its element is. -/
namespace ApiDrift.Introspection

section Notions

/-- The argument that an element describes. -/
structure ArgumentOf (p : Placed) (a : Argument) : Prop where
  name : a.name = p.name?
  location : a.location = p.head.location
  doc : Documented p a.doc

/-- The method or signal that an element describes, with an argument for each one in it. -/
structure CallableOf (p : Placed) (c : Callable) : Prop where
  name : p.name? = some c.name
  location : c.location = p.head.location
  doc : Documented p c.doc
  args : List.Forall₂ ArgumentOf (p.inside "arg") c.args

structure PropertyOf (p : Placed) (r : Property) : Prop where
  name : p.name? = some r.name
  location : r.location = p.head.location
  doc : Documented p r.doc

/-- The interface that an element describes, with the first member of each kind and name in it. -/
structure InterfaceOf (p : Placed) (i : Interface) : Prop where
  name : p.name? = some i.name
  location : i.location = p.head.location
  doc : Documented p i.doc
  methods : List.Forall₂ CallableOf (p.firsts "method") i.methods
  signals : List.Forall₂ CallableOf (p.firsts "signal") i.signals
  properties : List.Forall₂ PropertyOf (p.firsts "property") i.properties

/-- The node that an element describes, with the first interface of each name in it, and the first
node of each name. -/
inductive NodeOf : Placed → Node → Prop
  | intro {p : Placed} {n : Node} (name : n.name = p.name?)
      (location : n.location = p.head.location) (doc : Documented p n.doc)
      (interfaces : List.Forall₂ InterfaceOf (p.firsts "interface") n.interfaces)
      (nodes : List.Forall₂ NodeOf (p.firsts "node") n.nodes) : NodeOf p n

theorem NodeOf.name {p : Placed} {n : Node} (h : NodeOf p n) : n.name = p.name? := by
  cases h with
  | intro name => exact name

end Notions

section Harmless
variable {names : List String} {σ : Type} {step : σ → Child → Logged σ}

/-- Where nothing fatal was found, what holds before any child is taken in, and goes on to hold with
each one more, holds when all are. -/
theorem harmless_induction {So : List Placed → σ → Prop} {s : σ} {children : List Xml.Node}
    (start : So [] s)
    (taken : ∀ q t, .element q.head q.children ∈ children → isAccepted names q.head = true →
      So (acceptedPlaces names q.before) t → (step t q.toChild).fatal = [] →
        So (acceptedPlaces names q.before ++ [q]) (step t q.toChild).value)
    (harmless : ((acceptedChildren names none children).foldlM step s).fatal = []) :
    So (acceptedPlaces names children)
      ((acceptedChildren names none children).foldlM step s).value := by
  refine taken_induction (I := fun l x => x.fatal = [] → So l x.value) (fun _ => start)
    (fun q x here accepted before harmless => ?_) harmless
  rw [Logged.fatal_bind] at harmless
  obtain ⟨earlier, own⟩ := List.append_eq_nil_iff.1 harmless
  exact taken q x.value here accepted (before earlier) own

theorem exists_of_missingIn_eq_nil {head : Xml.Element} {attr : String}
    (given : missingIn head [attr] = []) : ∃ value, head.attribute? attr = some value := by
  rw [missingIn, List.map_eq_nil_iff, List.filter_eq_nil_iff] at given
  have present := given attr (List.mem_singleton.2 rfl)
  rwa [Bool.not_eq_true, Option.isNone_eq_false_iff, Option.isSome_iff_exists] at present

/-- Where nothing fatal was found after a required attribute was asked for, it was there. -/
theorem exists_of_fatal_required {α : Type} {head : Xml.Element} {attr : String}
    {f : Option String → Logged α} (harmless : (required head attr >>= f).fatal = []) :
    ∃ value, head.attribute? attr = some value ∧ (f (some value)).fatal = [] := by
  rw [fatal_required_bind] at harmless
  obtain ⟨given, later⟩ := List.append_eq_nil_iff.1 harmless
  obtain ⟨value, present⟩ := exists_of_missingIn_eq_nil given
  rw [present] at later
  exact ⟨value, present, later⟩

/-- One more element of a kind is taken in unless its name is known, which it is just when the
element has an earlier namesake. -/
theorem takes_unless_known {α : Type} {R : Placed → α → Prop} (name : α → Option String)
    {base own : String} {q : Placed} {a : α} {as : List α} {known : Bool} (part : base ∈ names)
    (plain : q.head.isPlain base = true)
    (h : List.Forall₂ R (firstsAmong base (acceptedPlaces names q.before)) as)
    (keyed : ∀ q a, R q a → q.name? = name a) (new : R q a) (named : q.name? = some own)
    (found : known = true ↔ some own ∈ as.map name) :
    known = q.hasNamesake ∧
      List.Forall₂ R (firstsAmong base (acceptedPlaces names q.before ++ [q]))
        (if known then as else as ++ [a]) := by
  have same : known = q.hasNamesake := by
    rw [Bool.eq_iff_iff, found, hasNamesake_iff_mem_names part plain named,
      map_eq_of_forall₂ keyed h]
  refine ⟨same, ?_⟩
  rw [firstsAmong_concat, firstsAmong_own plain named, same]
  cases q.hasNamesake with
  | true => simpa using h
  | false => exact List.rel_append h (.cons new .nil)

theorem forall₂_other {α : Type} {R : Placed → α → Prop} {base : String} {q : Placed}
    {l : List Placed} {as : List α} (other : q.head.base ≠ base)
    (h : List.Forall₂ R (firstsAmong base l) as) :
    List.Forall₂ R (firstsAmong base (l ++ [q])) as := by
  rw [firstsAmong_concat, firstsAmong_other other, List.append_nil]
  exact h

end Harmless

section Parts
variable {p : Placed}

theorem noted_annotateAll (owner : Place) (children : List Xml.Node) :
    Noted (acceptedPlaces ["annotation"] children)
      (annotateAll {} owner (acceptedChildren ["annotation"] none children)).value := by
  rw [annotateAll_eq_foldlM]
  refine taken_induction (I := fun l x => Noted l x.value) noted_empty
    fun q x _ accepted before => ?_
  obtain ⟨uri, base⟩ := isAccepted_iff.1 accepted
  exact before.add (isPlain_iff.2 ⟨uri, List.mem_singleton.1 base⟩) owner

theorem argumentOf_describeArgument {kind : CallableKind} {interface name : String} {position : Nat}
    (harmless : (describeArgument kind interface name position p.toChild).fatal = []) :
    ∃ a, (describeArgument kind interface name position p.toChild).value = some a ∧
      ArgumentOf p a := by
  obtain ⟨type, typed, -⟩ := exists_of_fatal_required harmless
  have typed : p.toChild.head.attribute? "type" = some type := typed
  have noted (place : Place) := documented_resolveDoc (p := p) (List.mem_singleton.2 rfl)
    (noted_annotateAll place p.children)
  simp only [describeArgument, Logged.value_bind, value_required, typed]
  split
  · exact ⟨_, rfl, rfl, rfl, noted _⟩
  · exact ⟨_, rfl, rfl, rfl, noted _⟩

/-- What is known of a method or signal after some parts of it. -/
structure CallableSoFar (p : Placed) (l : List Placed) (c : Callable) : Prop where
  name : p.name? = some c.name
  location : c.location = p.head.location
  noted : Noted l c.annotations
  args : List.Forall₂ ArgumentOf (l.filter fun q => q.head.isPlain "arg") c.args

theorem CallableSoFar.step {l : List Placed} {c : Callable} {interface : String} {q : Placed}
    (h : CallableSoFar p l c) (accepted : isAccepted ["arg", "annotation"] q.head = true)
    (harmless : (addCallablePart interface c q.toChild).fatal = []) :
    CallableSoFar p (l ++ [q]) (addCallablePart interface c q.toChild).value := by
  obtain ⟨uri, base⟩ := isAccepted_iff.1 accepted
  simp only [List.mem_cons, List.not_mem_nil, or_false] at base
  rw [addCallablePart] at harmless ⊢
  obtain base | base := base
  · have arg : q.toChild.head.base = "arg" := base
    rw [if_pos arg] at harmless ⊢
    have own := List.append_eq_nil_iff.1 ((Logged.fatal_bind ..).symm.trans harmless)
    obtain ⟨a, described, origin⟩ := argumentOf_describeArgument own.1
    refine ⟨h.name, h.location, h.noted.other (by simp [base]), ?_⟩
    rw [Logged.value_bind, described, List.filter_append, List.filter_cons,
      if_pos (isPlain_iff.2 ⟨uri, base⟩)]
    exact List.rel_append h.args (.cons origin .nil)
  · have other : ¬q.toChild.head.base = "arg" := by
      show ¬q.head.base = "arg"
      simp [base]
    rw [if_neg other]
    refine ⟨h.name, h.location, h.noted.add (isPlain_iff.2 ⟨uri, base⟩) _, ?_⟩
    have passed : ¬q.head.isPlain "arg" = true := fun arg => other (isPlain_iff.1 arg).2
    rw [List.filter_append, List.filter_cons, if_neg passed, List.filter_nil, List.append_nil]
    exact h.args

theorem callableOf_describeCallable {kind : CallableKind} {interface : String}
    (harmless : (describeCallable kind interface p.toChild).fatal = []) :
    ∃ c, (describeCallable kind interface p.toChild).value = some c ∧ CallableOf p c := by
  obtain ⟨name, named, later⟩ := exists_of_fatal_required harmless
  have named : p.toChild.head.attribute? "name" = some name := named
  simp only [Logged.fatal_bind, List.append_eq_nil_iff, addCallableParts_eq_foldlM] at later
  obtain ⟨-, -, parts, -⟩ := later
  have start : CallableSoFar p [] { kind, name, location := p.head.location } :=
    ⟨named, rfl, noted_empty, .nil⟩
  have whole := harmless_induction start
    (fun q t _ accepted before own => before.step accepted own) parts
  simp only [describeCallable, Logged.value_bind, value_required, named, addCallableParts_eq_foldlM]
  refine ⟨_, rfl, whole.name, whole.location, documented_resolveDoc (by decide) whole.noted, ?_⟩
  rw [inside_eq_filter (show "arg" ∈ ["arg", "annotation"] by decide)]
  exact whole.args

theorem propertyOf_describeProperty {interface : String}
    (harmless : (describeProperty interface p.toChild).fatal = []) :
    ∃ r, (describeProperty interface p.toChild).value = some r ∧ PropertyOf p r := by
  obtain ⟨name, named, later⟩ := exists_of_fatal_required harmless
  obtain ⟨type, typed, later⟩ := exists_of_fatal_required later
  obtain ⟨value, given, later⟩ := exists_of_fatal_required later
  have named : p.toChild.head.attribute? "name" = some name := named
  have typed : p.toChild.head.attribute? "type" = some type := typed
  have given : p.toChild.head.attribute? "access" = some value := given
  simp only [Logged.fatal_bind, List.append_eq_nil_iff] at later
  have known : ∃ access, Access.ofText? value = some access := by
    have access := later.2.1
    simp only [propertyAccess, Logged.fatal_bind, Logged.fatal_reportWhen, Logged.fatal_report,
      Problem.severity, if_true, Option.bind_some] at access
    cases found : Access.ofText? value with
    | some access => exact ⟨access, rfl⟩
    | none =>
        rw [found] at access
        simp at access
  obtain ⟨access, known⟩ := known
  have noted (place : Place) := documented_resolveDoc (p := p) (List.mem_singleton.2 rfl)
    (noted_annotateAll place p.children)
  simp only [describeProperty, Logged.value_bind, value_required, named, typed, given,
    value_propertyAccess, Option.bind_some, known]
  split
  · exact ⟨_, rfl, named, rfl, noted _⟩
  · exact ⟨_, rfl, named, rfl, noted _⟩

end Parts

section Interfaces
variable {p : Placed}

/-- What is known of an interface after some parts of it. -/
structure InterfaceSoFar (p : Placed) (l : List Placed) (i : Interface) : Prop where
  name : p.name? = some i.name
  location : i.location = p.head.location
  noted : Noted l i.annotations
  methods : List.Forall₂ CallableOf (firstsAmong "method" l) i.methods
  signals : List.Forall₂ CallableOf (firstsAmong "signal" l) i.signals
  properties : List.Forall₂ PropertyOf (firstsAmong "property" l) i.properties

theorem known_iff {α : Type} (key : α → String) {as : List α} {name : String} :
    (as.find? fun a => key a == name).isSome = true ↔
      some name ∈ as.map fun a => some (key a) := by
  simp only [isSome_find?_key_iff, List.mem_map, Option.some_inj]

theorem value_addMethod (i : Interface) (m : Callable) :
    (addMethod i m).value = { i with
      methods := if (i.method? m.name).isSome then i.methods else i.methods ++ [m] } := by
  simp only [addMethod, Logged.value_bind, Logged.value_pure]
  split <;> rfl

theorem value_addSignal (i : Interface) (s : Callable) :
    (addSignal i s).value = { i with
      signals := if (i.signal? s.name).isSome then i.signals else i.signals ++ [s] } := by
  simp only [addSignal, Logged.value_bind, Logged.value_pure]
  split <;> rfl

theorem value_addProperty (i : Interface) (r : Property) :
    (addProperty i r).value = { i with
      properties := if (i.property? r.name).isSome then i.properties else i.properties ++ [r] } := by
  simp only [addProperty, Logged.value_bind, Logged.value_pure]
  split <;> rfl

namespace InterfaceSoFar
variable {i : Interface} {q : Placed}
  (h : InterfaceSoFar p (acceptedPlaces interfaceNames q.before) i)
include h

theorem method {m : Callable} (plain : q.head.isPlain "method" = true) (origin : CallableOf q m) :
    (i.method? m.name).isSome = q.hasNamesake ∧
      InterfaceSoFar p (acceptedPlaces interfaceNames q.before ++ [q]) (addMethod i m).value := by
  have base := (isPlain_iff.1 plain).2
  have part : "method" ∈ interfaceNames := by decide
  obtain ⟨same, methods⟩ := takes_unless_known (fun c => some c.name) part plain h.methods
    (fun _ _ own => own.name) origin origin.name (known_iff Callable.name)
  rw [value_addMethod]
  exact ⟨same, h.name, h.location, h.noted.other (by simp [base]), methods,
    forall₂_other (by simp [base]) h.signals, forall₂_other (by simp [base]) h.properties⟩

theorem signal {s : Callable} (plain : q.head.isPlain "signal" = true) (origin : CallableOf q s) :
    (i.signal? s.name).isSome = q.hasNamesake ∧
      InterfaceSoFar p (acceptedPlaces interfaceNames q.before ++ [q]) (addSignal i s).value := by
  have base := (isPlain_iff.1 plain).2
  have part : "signal" ∈ interfaceNames := by decide
  obtain ⟨same, signals⟩ := takes_unless_known (fun c => some c.name) part plain h.signals
    (fun _ _ own => own.name) origin origin.name (known_iff Callable.name)
  rw [value_addSignal]
  exact ⟨same, h.name, h.location, h.noted.other (by simp [base]),
    forall₂_other (by simp [base]) h.methods, signals,
    forall₂_other (by simp [base]) h.properties⟩

theorem property {r : Property} (plain : q.head.isPlain "property" = true)
    (origin : PropertyOf q r) : (i.property? r.name).isSome = q.hasNamesake ∧
      InterfaceSoFar p (acceptedPlaces interfaceNames q.before ++ [q]) (addProperty i r).value := by
  have base := (isPlain_iff.1 plain).2
  have part : "property" ∈ interfaceNames := by decide
  obtain ⟨same, properties⟩ := takes_unless_known (fun r => some r.name) part plain h.properties
    (fun _ _ own => own.name) origin origin.name (known_iff Property.name)
  rw [value_addProperty]
  exact ⟨same, h.name, h.location, h.noted.other (by simp [base]),
    forall₂_other (by simp [base]) h.methods, forall₂_other (by simp [base]) h.signals, properties⟩

theorem note (plain : q.head.isPlain "annotation" = true) (owner : Place) :
    InterfaceSoFar p (acceptedPlaces interfaceNames q.before ++ [q])
      { i with annotations := (annotate i.annotations owner q.toChild).value } := by
  have base := (isPlain_iff.1 plain).2
  exact ⟨h.name, h.location, h.noted.add plain owner,
    forall₂_other (by simp [base]) h.methods, forall₂_other (by simp [base]) h.signals,
    forall₂_other (by simp [base]) h.properties⟩

end InterfaceSoFar

/-- How a part of an interface is taken in where nothing fatal is found in it. -/
inductive MemberTaken (i : Interface) (q : Placed) : Logged Interface → Prop
  | method {m : Callable} (plain : q.head.isPlain "method" = true)
      (described : (describeCallable .method i.name q.toChild).value = some m)
      (origin : CallableOf q m) :
      MemberTaken i q (describeCallable .method i.name q.toChild >>= fun _ => addMethod i m)
  | signal {s : Callable} (plain : q.head.isPlain "signal" = true)
      (described : (describeCallable .signal i.name q.toChild).value = some s)
      (origin : CallableOf q s) :
      MemberTaken i q (describeCallable .signal i.name q.toChild >>= fun _ => addSignal i s)
  | property {r : Property} (plain : q.head.isPlain "property" = true)
      (described : (describeProperty i.name q.toChild).value = some r)
      (origin : PropertyOf q r) :
      MemberTaken i q (describeProperty i.name q.toChild >>= fun _ => addProperty i r)
  | note (plain : q.head.isPlain "annotation" = true) :
      MemberTaken i q (annotate i.annotations (.interface i.name) q.toChild >>=
        fun annotations => pure { i with annotations })

theorem bind_of_value {α β : Type} {x : Logged (Option α)} {f : Option α → Logged β} {a : α}
    (described : x.value = some a) : x >>= f = x >>= fun _ => f (some a) := by
  show (⟨(f x.value).value, x.log ++ (f x.value).log⟩ : Logged β) = _
  rw [described]
  rfl

theorem memberTaken_addMember {i : Interface} {q : Placed}
    (accepted : isAccepted interfaceNames q.head = true)
    (harmless : (addMember i q.toChild).fatal = []) : MemberTaken i q (addMember i q.toChild) := by
  obtain ⟨uri, base⟩ := isAccepted_iff.1 accepted
  have plain {name : String} (own : q.toChild.head.base = name) : q.head.isPlain name = true :=
    isPlain_iff.2 ⟨uri, own⟩
  rw [addMember] at harmless ⊢
  by_cases method : q.toChild.head.base = "method"
  · rw [if_pos method] at harmless ⊢
    have own := (List.append_eq_nil_iff.1 ((Logged.fatal_bind ..).symm.trans harmless)).1
    obtain ⟨m, described, origin⟩ := callableOf_describeCallable own
    rw [bind_of_value described]
    exact .method (plain method) described origin
  rw [if_neg method] at harmless ⊢
  by_cases signal : q.toChild.head.base = "signal"
  · rw [if_pos signal] at harmless ⊢
    have own := (List.append_eq_nil_iff.1 ((Logged.fatal_bind ..).symm.trans harmless)).1
    obtain ⟨s, described, origin⟩ := callableOf_describeCallable own
    rw [bind_of_value described]
    exact .signal (plain signal) described origin
  rw [if_neg signal] at harmless ⊢
  by_cases property : q.toChild.head.base = "property"
  · rw [if_pos property] at harmless ⊢
    have own := (List.append_eq_nil_iff.1 ((Logged.fatal_bind ..).symm.trans harmless)).1
    obtain ⟨r, described, origin⟩ := propertyOf_describeProperty own
    rw [bind_of_value described]
    exact .property (plain property) described origin
  · rw [if_neg property]
    have other : q.toChild.head.base = "annotation" := by
      simp only [interfaceNames, List.mem_cons, List.not_mem_nil, or_false] at base
      exact ((base.resolve_left method).resolve_left signal).resolve_left property
    exact .note (plain other)

theorem InterfaceSoFar.step {i : Interface} {q : Placed} {x : Logged Interface}
    (h : InterfaceSoFar p (acceptedPlaces interfaceNames q.before) i) (taken : MemberTaken i q x) :
    InterfaceSoFar p (acceptedPlaces interfaceNames q.before ++ [q]) x.value := by
  cases taken with
  | method plain _ origin => exact (h.method plain origin).2
  | signal plain _ origin => exact (h.signal plain origin).2
  | property plain _ origin => exact (h.property plain origin).2
  | note plain => exact h.note plain _

theorem interfaceOf_describeInterface
    (harmless : (describeInterface p.toChild).fatal = []) :
    ∃ i, (describeInterface p.toChild).value = some i ∧ InterfaceOf p i := by
  obtain ⟨name, named, later⟩ := exists_of_fatal_required harmless
  have named : p.toChild.head.attribute? "name" = some name := named
  simp only [Logged.fatal_bind, List.append_eq_nil_iff, addMembers_eq_foldlM] at later
  obtain ⟨-, -, parts, -⟩ := later
  have start : InterfaceSoFar p [] { name, location := p.head.location } :=
    ⟨named, rfl, noted_empty, .nil, .nil, .nil⟩
  have whole := harmless_induction start
    (fun q t _ accepted before own => before.step (memberTaken_addMember accepted own)) parts
  simp only [describeInterface, Logged.value_bind, value_required, named, addMembers_eq_foldlM]
  have doc := documented_resolveDoc (p := p) (by decide) whole.noted
  refine ⟨_, rfl, whole.name, whole.location, doc, ?_, ?_, ?_⟩
  · rw [firsts_eq (show "method" ∈ interfaceNames by decide)]
    exact whole.methods
  · rw [firsts_eq (show "signal" ∈ interfaceNames by decide)]
    exact whole.signals
  · rw [firsts_eq (show "property" ∈ interfaceNames by decide)]
    exact whole.properties

end Interfaces

section Nodes
variable {p : Placed}

/-- What is known of a node after some parts of it. -/
structure NodeSoFar (p : Placed) (l : List Placed) (n : Node) : Prop where
  name : n.name = p.name?
  location : n.location = p.head.location
  noted : Noted l n.annotations
  interfaces : List.Forall₂ InterfaceOf (firstsAmong "interface" l) n.interfaces
  nodes : List.Forall₂ NodeOf (firstsAmong "node" l) n.nodes

theorem value_addInterface (n : Node) (i : Interface) :
    (addInterface n i).value = { n with
      interfaces := if (n.interface? i.name).isSome then n.interfaces
        else n.interfaces ++ [i] } := by
  simp only [addInterface, Logged.value_bind, Logged.value_pure]
  cases n
  split <;> rfl

theorem value_addNode (n child : Node) (name path : String) (location : Location) :
    (addNode n name path location child).value = { n with
      nodes := if (n.child? name).isSome then n.nodes else n.nodes ++ [child] } := by
  simp only [addNode, Logged.value_bind, Logged.value_pure]
  cases n
  split <;> rfl

namespace NodeSoFar
variable {n : Node} {q : Placed} (h : NodeSoFar p (acceptedPlaces nodeNames q.before) n)
include h

theorem interface {i : Interface} (plain : q.head.isPlain "interface" = true)
    (origin : InterfaceOf q i) : (n.interface? i.name).isSome = q.hasNamesake ∧
      NodeSoFar p (acceptedPlaces nodeNames q.before ++ [q]) (addInterface n i).value := by
  have base := (isPlain_iff.1 plain).2
  have part : "interface" ∈ nodeNames := by decide
  obtain ⟨same, interfaces⟩ := takes_unless_known (fun i => some i.name) part plain h.interfaces
    (fun _ _ own => own.name) origin origin.name (known_iff Interface.name)
  rw [value_addInterface]
  exact ⟨same, h.name, h.location, h.noted.other (by simp [base]), interfaces,
    forall₂_other (by simp [base]) h.nodes⟩

theorem node {child : Node} {name : String} (plain : q.head.isPlain "node" = true)
    (named : q.name? = some name) (origin : NodeOf q child) (path : String) (location : Location) :
    (n.child? name).isSome = q.hasNamesake ∧
      NodeSoFar p (acceptedPlaces nodeNames q.before ++ [q])
        (addNode n name path location child).value := by
  have base := (isPlain_iff.1 plain).2
  have part : "node" ∈ nodeNames := by decide
  obtain ⟨same, nodes⟩ := takes_unless_known Node.name part plain h.nodes
    (fun _ _ own => own.name.symm) origin named isSome_find?_key_iff
  rw [value_addNode]
  exact ⟨same, h.name, h.location, h.noted.other (by simp [base]),
    forall₂_other (by simp [base]) h.interfaces, nodes⟩

theorem unnamed (plain : q.head.isPlain "node" = true) (unnamed : q.name? = none) :
    NodeSoFar p (acceptedPlaces nodeNames q.before ++ [q]) n := by
  have base := (isPlain_iff.1 plain).2
  have passed : firstsAmong "node" [q] = [] := by
    rw [firstsAmong, List.filter_cons, unnamed]
    simp
  refine ⟨h.name, h.location, h.noted.other (by simp [base]),
    forall₂_other (by simp [base]) h.interfaces, ?_⟩
  rw [firstsAmong_concat, passed, List.append_nil]
  exact h.nodes

theorem note (plain : q.head.isPlain "annotation" = true) (owner : Place) :
    NodeSoFar p (acceptedPlaces nodeNames q.before ++ [q])
      { n with annotations := (annotate n.annotations owner q.toChild).value } := by
  have base := (isPlain_iff.1 plain).2
  exact ⟨h.name, h.location, h.noted.add plain owner,
    forall₂_other (by simp [base]) h.interfaces, forall₂_other (by simp [base]) h.nodes⟩

end NodeSoFar

/-- The node that an element below the root describes. -/
def Placed.describe (p : Placed) (path : Option String) : Logged Node :=
  describeNode path p.head p.children p.toChild.comment

/-- How a part of a node is taken in where nothing fatal is found in it. -/
inductive PartTaken (path : Option String) (n : Node) (q : Placed) : Logged Node → Prop
  | interface {i : Interface} (plain : q.head.isPlain "interface" = true)
      (harmless : (describeInterface q.toChild).fatal = [])
      (described : (describeInterface q.toChild).value = some i) :
      PartTaken path n q (describeInterface q.toChild >>= fun _ => addInterface n i)
  | node {name : String} (plain : q.head.isPlain "node" = true) (named : q.name? = some name)
      (harmless : (q.describe (some (childPath path name))).fatal = []) :
      PartTaken path n q (do
        Logged.reportWhen (!Name.isRelativePath name) q.head.location (.childNotRelative name)
        let child ← q.describe (some (childPath path name))
        addNode n name (childPath path name) q.head.location child)
  | unnamed (plain : q.head.isPlain "node" = true) (unnamed : q.name? = none) :
      PartTaken path n q (do
        Logged.report q.head.location .unnamedChild
        pure n)
  | note (plain : q.head.isPlain "annotation" = true) :
      PartTaken path n q (annotate n.annotations (nodePlace n.name) q.toChild >>=
        fun annotations => pure { n with annotations })

theorem partTaken_addNodeChild {path : Option String} {n : Node} {q : Placed}
    (accepted : isAccepted nodeNames q.head = true)
    (harmless : (addNodeChild path n q.toChild).fatal = []) :
    PartTaken path n q (addNodeChild path n q.toChild) := by
  obtain ⟨uri, base⟩ := isAccepted_iff.1 accepted
  have plain {name : String} (own : q.toChild.head.base = name) : q.head.isPlain name = true :=
    isPlain_iff.2 ⟨uri, own⟩
  have entered : ¬(!isAccepted nodeNames q.toChild.head) = true := by
    show ¬(!isAccepted nodeNames q.head) = true
    rw [accepted]
    decide
  rw [addNodeChild, addNodePart, if_neg entered] at harmless ⊢
  by_cases interface : q.toChild.head.base = "interface"
  · rw [if_pos interface] at harmless ⊢
    have own := (List.append_eq_nil_iff.1 ((Logged.fatal_bind ..).symm.trans harmless)).1
    obtain ⟨i, described, -⟩ := interfaceOf_describeInterface own
    rw [bind_of_value described]
    exact .interface (plain interface) own described
  rw [if_neg interface] at harmless ⊢
  by_cases node : q.toChild.head.base = "node"
  · rw [if_pos node] at harmless ⊢
    cases named : q.toChild.head.attribute? "name" with
    | none => exact .unnamed (plain node) named
    | some name =>
        rw [named] at harmless
        dsimp only at harmless
        have inside := List.append_eq_nil_iff.1 ((Logged.fatal_bind ..).symm.trans harmless)
        have own := List.append_eq_nil_iff.1 ((Logged.fatal_bind ..).symm.trans inside.2)
        exact .node (plain node) named own.1
  · rw [if_neg node]
    have other : q.toChild.head.base = "annotation" := by
      simp only [nodeNames, List.mem_cons, List.not_mem_nil, or_false] at base
      exact (base.resolve_left interface).resolve_left node
    exact .note (plain other)

theorem NodeSoFar.step {path : Option String} {n : Node} {q : Placed} {x : Logged Node}
    (h : NodeSoFar p (acceptedPlaces nodeNames q.before) n)
    (below : ∀ path, (q.describe path).fatal = [] → NodeOf q (q.describe path).value)
    (taken : PartTaken path n q x) :
    NodeSoFar p (acceptedPlaces nodeNames q.before ++ [q]) x.value := by
  cases taken with
  | interface plain harmless described =>
      obtain ⟨i, own, origin⟩ := interfaceOf_describeInterface harmless
      obtain rfl := Option.some_inj.1 (described.symm.trans own)
      exact (h.interface plain origin).2
  | @node name plain named harmless =>
      exact (h.node plain named (below _ harmless) (childPath path name) q.head.location).2
  | unnamed plain unnamed => exact h.unnamed plain unnamed
  | note plain => exact h.note plain _

theorem nodeOf_describe (path : Option String) (harmless : (p.describe path).fatal = []) :
    NodeOf p (p.describe path).value := by
  obtain ⟨before, head, children⟩ := p
  induction children using below_induction generalizing path head before with
  | step children ih =>
      have parts := (List.append_eq_nil_iff.1 ((Logged.fatal_bind ..).symm.trans harmless)).2
      replace parts := (List.append_eq_nil_iff.1 ((Logged.fatal_bind ..).symm.trans parts)).1
      dsimp only at parts
      rw [addNodeParts_eq_foldlM] at parts
      have start : NodeSoFar ⟨before, head, children⟩ []
          { name := head.attribute? "name", location := head.location } :=
        ⟨rfl, rfl, noted_empty, .nil, .nil⟩
      have whole := harmless_induction start
        (fun q t here accepted earlier own => earlier.step
          (fun path own => ih q.head q.children here path q.before q.head own)
          (partTaken_addNodeChild accepted own)) parts
      have doc := documented_resolveDoc (p := ⟨before, head, children⟩) (by decide) whole.noted
      rw [Placed.describe, describeNode, describeNodeWith]
      simp only [Logged.value_bind, Logged.value_pure, addNodeParts_eq_foldlM]
      refine .intro whole.name whole.location doc ?_ ?_
      · rw [firsts_eq (show "interface" ∈ nodeNames by decide)]
        exact whole.interfaces
      · rw [firsts_eq (show "node" ∈ nodeNames by decide)]
        exact whole.nodes

end Nodes

section Document

/-- What is said of the names of a document element and of the described one. -/
def Problem.IsOfRoot (problem : Problem) : Prop :=
  (∃ tag, problem = .unknownRoot tag) ∨ ∃ name, problem = .rootNotAbsolute name

theorem describeRoot_described (p : Placed) :
    (describeRoot p.head p.children p.toChild.comment).value = (p.describe none).value ∧
      ∃ after, (describeRoot p.head p.children p.toChild.comment).log =
          (p.describe none).log ++ after ∧ ∀ f ∈ after, f.problem.IsOfRoot := by
  have own := name_describeNode none p.head p.children p.toChild.comment
  unfold describeNode at own
  rw [describeRoot, Logged.value_bind, Logged.log_bind, own]
  cases p.head.attribute? "name" with
  | none => exact ⟨rfl, [], rfl, List.forall_mem_nil _⟩
  | some name =>
      refine ⟨rfl, _, rfl, fun f hf => ?_⟩
      simp only [Logged.reportWhen, Logged.log_bind, Logged.log_pure, List.append_nil] at hf
      split at hf
      · obtain rfl := List.mem_singleton.1 hf
        exact .inr ⟨name, rfl⟩
      · exact absurd hf List.not_mem_nil

theorem describeDocument_described {d : Xml.Document} {n : Node}
    (described : (describeDocument d).value = some n) :
    ∃ p before after, describedElement? d = some p ∧ n = (p.describe none).value ∧
      (describeDocument d).log = before ++ (p.describe none).log ++ after ∧
      ∀ f ∈ before ++ after, f.problem.IsOfRoot := by
  have outer := rootElement?_eq_head? [] d.children
  unfold describeDocument describedElement? at *
  rw [List.reverse_nil] at outer
  rw [outer] at described ⊢
  cases first : (placedAfter [] d.children).head? with
  | none =>
      rw [first] at described
      exact nomatch described
  | some root =>
      have inner := findElement?_eq_find? "node" root.before (.element root.head root.children)
      rw [placedAt] at inner
      rw [first] at described
      simp only [Option.map_some, Option.bind_some] at described ⊢
      rw [inner] at described ⊢
      cases found : (root :: placedAmong [] root.children).find? fun p =>
          p.head.isPlain "node" with
      | none =>
          rw [found] at described
          split at described <;> exact nomatch described
      | some p =>
          obtain ⟨same, after, log, ofRoot⟩ := describeRoot_described p
          rw [found] at described
          dsimp only [Option.map_some] at described ⊢
          split at described
          · next foreign =>
            rw [if_pos foreign]
            refine ⟨p, [⟨.unknownRoot root.head.display, root.head.location⟩], after, rfl,
              (Option.some_inj.1 described).symm.trans same, ?_, ?_⟩
            · simp only [Logged.log_bind, Logged.log_pure, List.append_nil, Logged.report]
              exact congrArg _ log
            · refine List.forall_mem_cons.2 ⟨.inl ⟨_, rfl⟩, ofRoot⟩
          · next known =>
            rw [if_neg known]
            refine ⟨p, [], after, rfl, (Option.some_inj.1 described).symm.trans same, ?_, ofRoot⟩
            simp only [Logged.log_bind, Logged.log_pure, List.append_nil, List.nil_append]
            exact log

theorem of_parseBytes {options : Options} {bytes : List UInt8} {p : Parsed}
    (read : parseBytes options bytes = .ok p) :
    ∃ text d, Text.Utf8.decode bytes = .ok text ∧ Xml.Document.parse text = .ok d ∧
      (describeDocument d).fatal = [] ∧ (describeDocument d).value = some p.root ∧
      p.diagnostics = (describeDocument d).log.map (Finding.toDiagnostic options.file) := by
  have shallow : ∀ location limit, parseBytes options bytes ≠ .error (.tooDeep location limit) := by
    intro location limit refused
    cases read.symm.trans refused
  cases decoded : Text.Utf8.decode bytes with
  | error fault =>
      rw [parseBytes, decoded] at read
      cases read
  | ok text =>
      cases wellFormed : Xml.Document.parse text with
      | error fault =>
          rw [parseBytes, decoded] at read
          dsimp only [parseChars] at read
          rw [wellFormed] at read
          split at read <;> cases read
      | ok d =>
          have outcome := parseBytes_eq_ofLogged decoded wellFormed shallow
          rw [read, Parsed.ofLogged] at outcome
          split at outcome
          · cases outcome
          · next harmless =>
            have nothing : (describeDocument d).fatal = [] := by
              rw [Logged.fatal, List.filter_eq_nil_iff]
              exact fun f hf fatal => harmless (List.any_eq_true.2 ⟨f, hf, fatal⟩)
            cases value : (describeDocument d).value with
            | none =>
                rw [value] at outcome
                cases outcome
            | some root =>
                rw [value] at outcome
                obtain rfl := Except.ok.inj outcome
                exact ⟨text, d, rfl, wellFormed, nothing, value, rfl⟩

/-- An accepted document describes its described element. Nothing fatal is found in it, and all
that is found besides is about the root. -/
theorem parseBytes_describes {options : Options} {bytes : List UInt8} {p : Parsed}
    (read : parseBytes options bytes = .ok p) :
    ∃ text d root before after, Text.Utf8.decode bytes = .ok text ∧
      Xml.Document.parse text = .ok d ∧ describedElement? d = some root ∧
      p.root = (root.describe none).value ∧ (root.describe none).fatal = [] ∧
      p.diagnostics = (before ++ (root.describe none).log ++ after).map
        (Finding.toDiagnostic options.file) ∧ ∀ f ∈ before ++ after, f.problem.IsOfRoot := by
  obtain ⟨text, d, decoded, wellFormed, harmless, value, diagnostics⟩ := of_parseBytes read
  obtain ⟨root, before, after, described, own, log, ofRoot⟩ := describeDocument_described value
  rw [log] at diagnostics
  rw [Logged.fatal, log, List.filter_append, List.filter_append] at harmless
  have nothing := (List.append_eq_nil_iff.1 (List.append_eq_nil_iff.1 harmless).1).2
  exact ⟨text, d, root, before, after, decoded, wellFormed, described, own, nothing, diagnostics,
    ofRoot⟩

end Document

end ApiDrift.Introspection
