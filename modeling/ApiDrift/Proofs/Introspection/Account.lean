import ApiDrift.Proofs.Introspection.Origin
/-! In which order things are told. What there is to say of an element itself comes first, then
what its children are that do not belong there, then all that is to say of the others, one after
the other, and last what shows only when the element is done with. -/
namespace ApiDrift.Introspection

section Notions

/-- When a problem is told: on coming to its element, while the children of the element around
that are sorted, or when its element is done with. -/
inductive Moment where
  | entering | sorting | leaving
deriving DecidableEq, Repr

def Problem.moment : Problem → Moment
  | unknownElement _ _ => .sorting
  | emptyDocElement _ => .sorting
  | rootNotAbsolute _ => .leaving
  | duplicateNode _ => .leaving
  | duplicateInterface _ => .leaving
  | duplicateMember _ _ _ => .leaving
  | annotationRepeated _ _ => .leaving
  | annotationUnknown _ _ => .leaving
  | annotationDocEmpty _ => .leaving
  | argumentType _ _ _ => .leaving
  | propertyType _ _ _ => .leaving
  | _ => .entering

/-- A finding of an element, made at this moment. -/
structure Finding.IsOf (f : Finding) (p : Placed) (moment : Moment) : Prop where
  moment : f.problem.moment = moment
  location : f.location = p.head.location

/-- What is told of an element with all that is in it: on coming to it, of those of its children
that do not belong there, of others one by one, and when it is done with. -/
inductive Account : Placed → List Finding → Prop where
  | intro {p : Placed} {opening strays closing : List Finding}
    {inside : List (Placed × List Finding)}
    (opens : ∀ f ∈ opening, f.IsOf p .entering)
    (sorts : ∀ f ∈ strays, f.problem.moment = .sorting)
    (placed : (strays.map Finding.location).Sublist
      ((placedAfter [] p.children).map fun q => q.head.location))
    (children : (inside.map Prod.fst).Sublist (placedAfter [] p.children))
    (each : ∀ e ∈ inside, Account e.1 e.2)
    (closes : ∀ f ∈ closing, f.IsOf p .leaving) :
    Account p (opening ++ (strays ++ (inside.flatMap Prod.snd ++ closing)))

/-- What is told of children of an element, each with all that is in it. -/
def Within (p : Placed) (told : List Finding) : Prop :=
  ∃ inside : List (Placed × List Finding), told = inside.flatMap Prod.snd ∧
    (inside.map Prod.fst).Sublist (placedAfter [] p.children) ∧ ∀ e ∈ inside, Account e.1 e.2

end Notions

section Tellings
variable {p : Placed} {m : Moment} {α β : Type}

/-- All that is told on the way to a value is of one element and one moment. -/
def Logged.TellsOf (x : Logged α) (p : Placed) (m : Moment) : Prop := ∀ f ∈ x.log, f.IsOf p m

namespace Logged

@[simp] theorem tellsOf_pure (a : α) : (pure a : Logged α).TellsOf p m := List.forall_mem_nil _

@[simp] theorem tellsOf_bind {x : Logged α} {f : α → Logged β} :
    (x >>= f).TellsOf p m ↔ x.TellsOf p m ∧ (f x.value).TellsOf p m := List.forall_mem_append

@[simp] theorem tellsOf_report {location : Location} {problem : Problem} :
    (report location problem).TellsOf p m ↔ problem.moment = m ∧ location = p.head.location := by
  constructor
  · intro h
    obtain ⟨moment, place⟩ := h _ (.head _)
    exact ⟨moment, place⟩
  · rintro ⟨moment, place⟩ f hf
    obtain rfl := List.mem_singleton.1 hf
    exact ⟨moment, place⟩

@[simp] theorem tellsOf_reportWhen {condition : Bool} {location : Location} {problem : Problem} :
    (reportWhen condition location problem).TellsOf p m ↔
      (condition = true → (report location problem).TellsOf p m) := by
  cases condition with
  | true => exact ⟨fun h _ => h, fun h => h rfl⟩
  | false => exact iff_of_true (List.forall_mem_nil _) fun h => nomatch h

end Logged

theorem Within.nil : Within p [] := ⟨[], rfl, List.nil_sublist _, List.forall_mem_nil _⟩

namespace Account
variable {told more : List Finding} {x : Logged α} {f : α → Logged β}

theorem prepend (first : ∀ f ∈ more, f.IsOf p .entering) (h : Account p told) :
    Account p (more ++ told) := by
  cases h with
  | intro opens sorts placed children each closes =>
      rw [← List.append_assoc]
      exact .intro (List.forall_mem_append.2 ⟨first, opens⟩) sorts placed children each closes

theorem append (h : Account p told) (last : ∀ f ∈ more, f.IsOf p .leaving) :
    Account p (told ++ more) := by
  cases h with
  | intro opens sorts placed children each closes =>
      simp only [List.append_assoc]
      exact .intro opens sorts placed children each (List.forall_mem_append.2 ⟨closes, last⟩)

theorem bind_entering (first : x.TellsOf p .entering) (rest : Account p (f x.value).log) :
    Account p (x >>= f).log := rest.prepend first

theorem bind_leaving (first : Account p x.log) (last : (f x.value).TellsOf p .leaving) :
    Account p (x >>= f).log := first.append last

end Account

theorem moment_of_childProblem? {names : List String} {place : Place} {n : Xml.Node} {f : Finding}
    (h : childProblem? names place n = some f) : f.problem.moment = .sorting ∧
      ∃ head children, n = .element head children ∧ f.location = head.location := by
  cases n with
  | element head children =>
      rw [childProblem?] at h
      split at h
      · obtain ⟨-, made⟩ := Option.ite_none_right_eq_some.1 h
        obtain rfl := Option.some_inj.1 made
        exact ⟨rfl, head, children, rfl, rfl⟩
      · obtain ⟨-, made⟩ := Option.ite_none_left_eq_some.1 h
        obtain rfl := Option.some_inj.1 made
        exact ⟨rfl, head, children, rfl, rfl⟩
  | text s => exact absurd h.symm (Option.some_ne_none f)
  | comment s location => exact absurd h.symm (Option.some_ne_none f)
  | instruction => exact absurd h.symm (Option.some_ne_none f)

theorem strays_sublist (names : List String) (place : Place) (before l : List Xml.Node) :
    ((l.filterMap (childProblem? names place)).map Finding.location).Sublist
      ((placedAfter before l).map fun q => q.head.location) := by
  induction l generalizing before with
  | nil => exact .slnil
  | cons n rest ih =>
      have later := ih (before ++ [n])
      rw [List.filterMap_cons]
      cases told : childProblem? names place n with
      | none =>
          cases n with
          | element head children => exact later.cons _
          | text s => exact later
          | comment s location => exact later
          | instruction => exact later
      | some f =>
          obtain ⟨-, head, children, rfl, here⟩ := moment_of_childProblem? told
          rw [List.map_cons, here]
          exact later.cons_cons _

theorem account_children {told closing : List Finding} (names : List String) (place : Place)
    (inside : Within p told) (last : ∀ f ∈ closing, f.IsOf p .leaving) :
    Account p ((reportChildren names place p.children).log ++ (told ++ closing)) := by
  obtain ⟨parts, rfl, children, each⟩ := inside
  have sorts : ∀ f ∈ (reportChildren names place p.children).log, f.problem.moment = .sorting := by
    intro f hf
    obtain ⟨n, -, told⟩ := List.mem_filterMap.1 hf
    exact (moment_of_childProblem? told).1
  rw [← List.nil_append ((reportChildren names place p.children).log ++ _)]
  exact .intro (List.forall_mem_nil _) sorts (strays_sublist names place [] _) children each last

namespace Account

theorem bind_children {x : Logged α} {f : α → Logged β} (names : List String) (place : Place)
    (inside : Within p x.log) (last : (f x.value).TellsOf p .leaving) :
    Account p (do
      reportChildren names place p.children
      let a ← x
      f a : Logged β).log :=
  account_children names place inside last

theorem bind_childless {x : Logged α} (names : List String) (place : Place)
    (last : x.TellsOf p .leaving) :
    Account p (do
      reportChildren names place p.children
      x : Logged α).log :=
  account_children names place .nil last

theorem nil : Account p [] :=
  @Account.intro p [] [] [] [] (List.forall_mem_nil _) (List.forall_mem_nil _)
    (List.nil_sublist _) (List.nil_sublist _) (List.forall_mem_nil _) (List.forall_mem_nil _)

end Account

section Fold
variable {σ : Type} {step : σ → Child → Logged σ}

theorem exists_accounts_foldlM (l : List Placed) (s : σ)
    (each : ∀ s, ∀ q ∈ l, Account q (step s q.toChild).log) :
    ∃ inside : List (Placed × List Finding),
      ((l.map Placed.toChild).foldlM step s).log = inside.flatMap Prod.snd ∧
      inside.map Prod.fst = l ∧ ∀ e ∈ inside, Account e.1 e.2 := by
  induction l generalizing s with
  | nil => exact ⟨[], rfl, rfl, List.forall_mem_nil _⟩
  | cons q rest ih =>
      obtain ⟨inside, told, children, others⟩ :=
        ih (step s q.toChild).value fun s r hr => each s r (.tail _ hr)
      refine ⟨(q, (step s q.toChild).log) :: inside, ?_, ?_, ?_⟩
      · rw [List.map_cons, List.foldlM_cons, Logged.log_bind, told, List.flatMap_cons]
      · rw [List.map_cons, children]
      · exact List.forall_mem_cons.2 ⟨each s q (.head _), others⟩

/-- Steps over the children that are part of a description tell of one after the other. -/
theorem within_foldlM (names : List String) (s : σ)
    (each : ∀ s, ∀ q ∈ placedAfter [] p.children, Account q (step s q.toChild).log) :
    Within p ((acceptedChildren names none p.children).foldlM step s).log := by
  have taken : acceptedChildren names none p.children =
      (acceptedPlaces names p.children).map Placed.toChild := acceptedChildren_eq_map [] _
  obtain ⟨inside, told, children, accounts⟩ := exists_accounts_foldlM
    (acceptedPlaces names p.children) s fun s q hq => each s q (List.mem_of_mem_filter hq)
  refine ⟨inside, by rw [taken, told], ?_, accounts⟩
  rw [children]
  exact List.filter_sublist

end Fold

end Tellings

section Locations
variable {c : Child}

theorem location_describeCallable {kind : CallableKind} {interface : String} {m : Callable}
    (h : (describeCallable kind interface c).value = some m) : m.location = c.head.location := by
  unfold describeCallable at h
  rw [Logged.value_bind] at h
  split at h
  · cases h
  · next name _ =>
    obtain rfl := Option.some_inj.1 h
    simp only [addCallableParts_eq_foldlM]
    exact value_foldlM_kept (fun callable d => (addCallablePart_keeps callable d).2.2) _
      { kind, name, location := c.head.location }

theorem location_describeProperty {interface : String} {r : Property}
    (h : (describeProperty interface c).value = some r) : r.location = c.head.location := by
  unfold describeProperty at h
  simp only [Logged.value_bind] at h
  split at h
  · cases h
  · simp only [Logged.value_bind] at h
    split at h
    · cases h
    · split at h <;>
      · obtain ⟨access, -, rfl⟩ := Option.map_eq_some_iff.1 h
        rfl

theorem location_describeInterface {i : Interface}
    (h : (describeInterface c).value = some i) : i.location = c.head.location := by
  unfold describeInterface at h
  rw [Logged.value_bind] at h
  split at h
  · cases h
  · next name _ =>
    obtain rfl := Option.some_inj.1 h
    simp only [addMembers_eq_foldlM]
    exact value_foldlM_kept (fun i d => (addMember_keeps i d).2) _
      { name, location := c.head.location }

theorem location_addNodeChild (path : Option String) (n : Node) (c : Child) :
    (addNodeChild path n c).value.location = n.location := by
  rw [addNodeChild, addNodePart]
  split
  · rfl
  · split
    · rw [Logged.value_bind]
      split
      · rw [value_addInterface]
      · rfl
    · split
      · split
        · rfl
        · simp only [Logged.value_bind, value_addNode]
      · rfl

theorem location_describe (p : Placed) (path : Option String) :
    (p.describe path).value.location = p.head.location := by
  unfold Placed.describe describeNode describeNodeWith
  simp only [Logged.value_bind, Logged.value_pure, addNodeParts_eq_foldlM]
  exact value_foldlM_kept (location_addNodeChild path) _
    { name := p.head.attribute? "name", location := p.head.location }

end Locations

section Builders
variable {α : Type} {p : Placed}

theorem tellsOf_required (p : Placed) (attr : String) :
    (required p.head attr).TellsOf p .entering := by
  simp [required, Problem.moment]

theorem account_annotate (annotations : Annotations) (owner : Place) (q : Placed) :
    Account q (annotate annotations owner q.toChild).log := by
  unfold annotate
  refine .bind_entering (tellsOf_required q "name") (.bind_childless [] _ ?_)
  rw [value_required]
  cases q.toChild.head.attribute? "name" with
  | none => exact Logged.tellsOf_pure annotations
  | some name => simp [Problem.moment, Placed.toChild]

theorem within_annotateAll (owner : Place) (p : Placed) :
    Within p (annotateAll {} owner (acceptedChildren ["annotation"] none p.children)).log := by
  rw [annotateAll_eq_foldlM]
  exact within_foldlM ["annotation"] {} fun annotations q _ =>
    account_annotate annotations owner q

theorem tellsOf_argumentDirection (kind : CallableKind) (label : ArgumentLabel) (owner : Place) :
    (argumentDirection p.head kind label owner).TellsOf p .entering := by
  unfold argumentDirection
  dsimp only
  split <;> simp [Problem.moment]

theorem tellsOf_type {problem : SignatureError → Problem} {a : α}
    (late : ∀ e, (problem e).moment = .leaving) (error? : Option SignatureError) :
    (match error? with
      | some e => do
        Logged.report p.head.location (problem e)
        pure a
      | none => pure a : Logged α).TellsOf p .leaving := by
  cases error? with
  | none => exact Logged.tellsOf_pure a
  | some e => simp [late e]

theorem account_describeArgument (kind : CallableKind) (interface name : String) (position : Nat)
    (q : Placed) : Account q (describeArgument kind interface name position q.toChild).log := by
  unfold describeArgument
  dsimp only
  refine .bind_entering (tellsOf_required q "type")
    (.bind_entering (tellsOf_argumentDirection _ _ _)
      (.bind_children _ _ (within_annotateAll _ q) ?_))
  rw [value_required]
  cases q.toChild.head.attribute? "type" with
  | none => exact Logged.tellsOf_pure none
  | some text => exact tellsOf_type (fun _ => rfl) _

theorem account_addCallablePart (interface : String) (callable : Callable) (q : Placed) :
    Account q (addCallablePart interface callable q.toChild).log := by
  unfold addCallablePart
  split
  · exact .bind_leaving (account_describeArgument ..) (Logged.tellsOf_pure _)
  · exact .bind_leaving (account_annotate ..) (Logged.tellsOf_pure _)

theorem account_describeCallable (kind : CallableKind) (interface : String) (q : Placed) :
    Account q (describeCallable kind interface q.toChild).log := by
  unfold describeCallable
  refine .bind_entering (tellsOf_required q "name") ?_
  rw [value_required]
  cases q.toChild.head.attribute? "name" with
  | none => exact .nil
  | some name =>
      dsimp only
      have parts := within_foldlM (p := q) ["arg", "annotation"]
        ({ kind, name, location := q.head.location } : Callable) fun callable r _ =>
          account_addCallablePart interface callable r
      rw [← addCallableParts_eq_foldlM] at parts
      refine .bind_entering ?_ (.bind_children _ _ parts (Logged.tellsOf_pure _))
      simp [Problem.moment, Placed.toChild]

theorem tellsOf_propertyAccess (value? : Option String) (interface name : String) :
    (propertyAccess value? p.head.location interface name).TellsOf p .entering := by
  unfold propertyAccess
  cases value? with
  | none => exact Logged.tellsOf_pure _
  | some value => simp [Problem.moment]

theorem account_describeProperty (interface : String) (q : Placed) :
    Account q (describeProperty interface q.toChild).log := by
  unfold describeProperty
  dsimp only
  refine .bind_entering (tellsOf_required q "name") (.bind_entering (tellsOf_required q "type")
    (.bind_entering (tellsOf_required q "access") ?_))
  simp only [value_required]
  cases q.toChild.head.attribute? "name" with
  | none => exact .nil
  | some name =>
      refine .bind_entering ?_ (.bind_entering (tellsOf_propertyAccess _ _ _)
        (.bind_children _ _ (within_annotateAll _ q) ?_))
      · simp [Problem.moment, Placed.toChild]
      · cases q.toChild.head.attribute? "type" with
        | none => exact Logged.tellsOf_pure none
        | some text => exact tellsOf_type (fun _ => rfl) _

theorem Account.bind_taken {σ : Type} {describe : Logged (Option α)} {next : Option α → Logged σ}
    (own : Account p describe.log) (absent : (next none).log = [])
    (present : ∀ a, describe.value = some a → (next (some a)).TellsOf p .leaving) :
    Account p (describe >>= next).log := by
  refine own.bind_leaving ?_
  cases value : describe.value with
  | none =>
      rw [Logged.TellsOf, absent]
      exact List.forall_mem_nil _
  | some a => exact present a value

theorem account_addMember (i : Interface) (q : Placed) :
    Account q (addMember i q.toChild).log := by
  unfold addMember
  split
  · refine .bind_taken (account_describeCallable ..) rfl fun m made => ?_
    simp [addMethod, Problem.moment, location_describeCallable made, Placed.toChild]
  · split
    · refine .bind_taken (account_describeCallable ..) rfl fun s made => ?_
      simp [addSignal, Problem.moment, location_describeCallable made, Placed.toChild]
    · split
      · refine .bind_taken (account_describeProperty ..) rfl fun r made => ?_
        simp [addProperty, Problem.moment, location_describeProperty made, Placed.toChild]
      · exact .bind_leaving (account_annotate ..) (Logged.tellsOf_pure _)

theorem account_describeInterface (q : Placed) :
    Account q (describeInterface q.toChild).log := by
  unfold describeInterface
  refine .bind_entering (tellsOf_required q "name") ?_
  rw [value_required]
  cases q.toChild.head.attribute? "name" with
  | none => exact .nil
  | some name =>
      have members := within_foldlM (p := q) interfaceNames
        ({ name, location := q.head.location } : Interface) fun i r _ => account_addMember i r
      rw [← addMembers_eq_foldlM] at members
      refine .bind_entering ?_ (.bind_children _ _ members (Logged.tellsOf_pure _))
      simp [Problem.moment, Placed.toChild]

/-- What is told of an element that adds to a node, given what is told of one that is a node. -/
theorem account_addNodeChild (path : Option String) (n : Node) (q : Placed)
    (below : ∀ path, Account q (q.describe path).log) :
    Account q (addNodeChild path n q.toChild).log := by
  unfold addNodeChild
  rw [addNodePart]
  split
  · exact .nil
  · split
    · refine .bind_taken (account_describeInterface q) rfl fun i made => ?_
      simp [addInterface, Problem.moment, location_describeInterface made, Placed.toChild]
    · split
      · cases q.toChild.head.attribute? "name" with
        | none =>
            refine .bind_entering ?_ .nil
            simp [Problem.moment, Placed.toChild]
        | some name =>
            refine .bind_entering ?_ (.bind_leaving (below _) ?_)
            · simp [Problem.moment, Placed.toChild]
            · simp [addNode, Problem.moment, Placed.toChild]
      · exact .bind_leaving (account_annotate ..) (Logged.tellsOf_pure _)

theorem account_describe (path : Option String) (p : Placed) :
    Account p (p.describe path).log := by
  obtain ⟨before, head, children⟩ := p
  induction children using below_induction generalizing path before head with
  | step children ih =>
      have parts := within_foldlM (p := ⟨before, head, children⟩) nodeNames
        ({ name := head.attribute? "name", location := head.location } : Node) fun n q hq => by
          have here := mem_of_mem_placedAfter hq
          exact account_addNodeChild path n q fun path =>
            ih q.head q.children here path q.before q.head
      rw [← addNodeParts_eq_foldlM] at parts
      exact .bind_children _ _ parts (Logged.tellsOf_pure _)

theorem account_describeRoot (p : Placed) :
    Account p (describeRoot p.head p.children p.toChild.comment).log := by
  refine (account_describe none p).bind_leaving ?_
  rw [location_describe]
  split <;> simp [Problem.moment]

end Builders

end ApiDrift.Introspection
