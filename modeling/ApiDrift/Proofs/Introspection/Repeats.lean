import ApiDrift.Proofs.Introspection.Origin
import Mathlib.Data.List.Perm.Basic
/-! Later namesakes. Of the children of a kind the first of each name counts. Each later one is
reported, also where the element around it is itself a later namesake. -/
namespace ApiDrift.Introspection

section Notions

/-- The children of which only the first of each name counts, and how the others are reported. -/
def Part.unrepeated : Part → List (String × IssueCode)
  | .node => [("interface", .duplicateInterface), ("node", .duplicateNode)]
  | .interface => [("method", .duplicateMethod), ("signal", .duplicateSignal),
      ("property", .duplicateProperty)]
  | _ => []

def repeatCodes : List IssueCode :=
  [.duplicateNode, .duplicateInterface, .duplicateMethod, .duplicateSignal, .duplicateProperty]

mutual

/-- The interfaces and named nodes that an element inside a node is and holds, in document order.
Later namesakes are not left out. -/
def walkedAt (before : List Xml.Node) : Xml.Node → List (Part × Placed)
  | .element head children =>
    if head.isPlain "interface" then [(.interface, ⟨before, head, children⟩)]
    else if head.isPlain "node" && (head.attribute? "name").isSome then
      (.node, ⟨before, head, children⟩) :: walkedAmong [] children
    else []
  | _ => []

def walkedAmong (before : List Xml.Node) : List Xml.Node → List (Part × Placed)
  | [] => []
  | n :: rest => walkedAt before n ++ walkedAmong (before ++ [n]) rest

end

/-- A node with all named nodes and all interfaces in it. -/
def Placed.walked (p : Placed) : List (Part × Placed) := (.node, p) :: walkedAmong [] p.children

/-- The children of a part that are later namesakes, each as it is to be reported. -/
def laterNamesakes (e : Part × Placed) : List (IssueCode × Option Location) :=
  e.1.unrepeated.flatMap fun kind =>
    (e.2.repeats kind.1).map fun q => (kind.2, some q.head.location)

end Notions

section Quiet

/-- The later namesakes that are reported. -/
def Logged.repeats {α : Type} (x : Logged α) : List (IssueCode × Option Location) :=
  (x.log.filter fun f => repeatCodes.contains f.problem.code).map fun f =>
    (f.problem.code, some f.location)

namespace Logged
variable {α β : Type}

@[simp] theorem repeats_pure (a : α) : (pure a : Logged α).repeats = [] := rfl

@[simp] theorem repeats_bind (x : Logged α) (f : α → Logged β) :
    (x >>= f).repeats = x.repeats ++ (f x.value).repeats := by
  rw [repeats, log_bind, List.filter_append, List.map_append]
  rfl

@[simp] theorem repeats_report (location : Location) (problem : Problem) :
    (report location problem).repeats =
      if repeatCodes.contains problem.code then [(problem.code, some location)] else [] := by
  rw [repeats, report, List.filter_cons, List.filter_nil]
  split <;> rfl

@[simp] theorem repeats_reportWhen (condition : Bool) (location : Location) (problem : Problem) :
    (reportWhen condition location problem).repeats =
      if condition then (report location problem).repeats else [] := by
  cases condition <;> rfl

end Logged

theorem repeats_reportChildren (names : List String) (place : Place) (children : List Xml.Node) :
    (reportChildren names place children).repeats = [] := by
  refine List.map_eq_nil_iff.2 (List.filter_eq_nil_iff.2 fun f hf => ?_)
  obtain ⟨n, -, found⟩ := List.mem_filterMap.1 hf
  cases n with
  | element head below =>
      rw [childProblem?] at found
      split at found
      · obtain ⟨-, made⟩ := Option.ite_none_right_eq_some.1 found
        obtain rfl := Option.some_inj.1 made
        exact Bool.false_ne_true
      · obtain ⟨-, made⟩ := Option.ite_none_left_eq_some.1 found
        obtain rfl := Option.some_inj.1 made
        exact Bool.false_ne_true
  | text s => exact absurd found.symm (Option.some_ne_none f)
  | comment s location => exact absurd found.symm (Option.some_ne_none f)
  | instruction => exact absurd found.symm (Option.some_ne_none f)

theorem repeats_required (e : Xml.Element) (attr : String) : (required e attr).repeats = [] := by
  simp [required, Problem.code, repeatCodes]

theorem repeats_annotate (annotations : Annotations) (owner : Place) (c : Child) :
    (annotate annotations owner c).repeats = [] := by
  rw [annotate, Logged.repeats_bind, repeats_required, Logged.repeats_bind,
    repeats_reportChildren]
  split <;> simp [Problem.code, repeatCodes]

theorem repeats_foldlM {σ : Type} {step : σ → Child → Logged σ}
    (quiet : ∀ s c, (step s c).repeats = []) (s : σ) (l : List Child) :
    (l.foldlM step s).repeats = [] := by
  induction l generalizing s with
  | nil => rfl
  | cons c rest ih => rw [List.foldlM_cons, Logged.repeats_bind, quiet, ih, List.append_nil]

theorem repeats_annotateAll (annotations : Annotations) (owner : Place) (l : List Child) :
    (annotateAll annotations owner l).repeats = [] := by
  rw [annotateAll_eq_foldlM]
  exact repeats_foldlM (fun a c => repeats_annotate a owner c) annotations l

theorem repeats_argumentDirection (e : Xml.Element) (kind : CallableKind) (label : ArgumentLabel)
    (owner : Place) : (argumentDirection e kind label owner).repeats = [] := by
  unfold argumentDirection
  dsimp only
  split <;> simp [Problem.code, repeatCodes]

theorem repeats_describeArgument (kind : CallableKind) (interface name : String) (position : Nat)
    (c : Child) : (describeArgument kind interface name position c).repeats = [] := by
  simp only [describeArgument, Logged.repeats_bind, repeats_required, repeats_argumentDirection,
    repeats_reportChildren, repeats_annotateAll, List.nil_append]
  split
  · rfl
  · split <;> simp [Problem.code, repeatCodes]

theorem repeats_describeCallable (kind : CallableKind) (interface : String) (c : Child) :
    (describeCallable kind interface c).repeats = [] := by
  have parts (callable : Callable) (c : Child) :
      (addCallablePart interface callable c).repeats = [] := by
    unfold addCallablePart
    split
    · rw [Logged.repeats_bind, repeats_describeArgument, Logged.repeats_pure, List.append_nil]
    · dsimp only
      rw [Logged.repeats_bind, repeats_annotate, Logged.repeats_pure, List.append_nil]
  rw [describeCallable, Logged.repeats_bind, repeats_required, List.nil_append]
  split
  · rfl
  · simp only [Logged.repeats_bind, Logged.repeats_reportWhen, Logged.repeats_report,
      repeats_reportChildren, addCallableParts_eq_foldlM, repeats_foldlM parts,
      Logged.repeats_pure, List.append_nil]
    cases kind <;> simp [Problem.code, CallableKind.toMemberKind, repeatCodes]

theorem repeats_propertyAccess (value? : Option String) (location : Location)
    (interface name : String) :
    (propertyAccess value? location interface name).repeats = [] := by
  unfold propertyAccess
  cases value? <;> simp [Problem.code, repeatCodes]

theorem repeats_describeProperty (interface : String) (c : Child) :
    (describeProperty interface c).repeats = [] := by
  simp only [describeProperty, Logged.repeats_bind, repeats_required, List.nil_append]
  split
  · rfl
  · simp only [Logged.repeats_bind, Logged.repeats_reportWhen, Logged.repeats_report,
      repeats_propertyAccess, repeats_reportChildren, repeats_annotateAll, List.nil_append]
    rw [value_required c.head "type"]
    cases c.head.attribute? "type" with
    | none => simp [Problem.code, repeatCodes]
    | some text =>
        dsimp only
        cases (DeclaredType.ofText text).error? <;> simp [Problem.code, repeatCodes]

end Quiet

section Told

/-- What is reported of an element, after what is reported inside it. -/
def reportedAs (part : Part) (q : Placed) : List (IssueCode × Option Location) :=
  part.unrepeated.flatMap fun kind =>
    (repeatsAmong kind.1 [q]).map fun r => (kind.2, some r.head.location)

theorem flatMap_reportedAs_perm (part : Part) (l : List Placed) :
    (l.flatMap (reportedAs part)).Perm (part.unrepeated.flatMap fun kind =>
      (repeatsAmong kind.1 l).map fun q => (kind.2, some q.head.location)) := by
  induction l with
  | nil =>
      have nothing : (part.unrepeated.flatMap fun kind => (repeatsAmong kind.1 []).map
          fun q => (kind.2, some q.head.location)) = [] := List.flatMap_eq_nil_iff.2 fun _ _ => rfl
      rw [nothing]
      rfl
  | cons q rest ih =>
      rw [List.flatMap_cons]
      refine (ih.append_left _).trans ?_
      refine (List.flatMap_append_perm ..).trans (List.Perm.flatMap_left _ fun kind _ => ?_)
      rw [← List.map_append]
      exact .of_eq (congrArg _ (List.filter_append [q] rest).symm)

theorem flatMap_acceptedPlaces_perm (p : Placed) (part : Part)
    (known : ∀ kind ∈ part.unrepeated, kind.1 ∈ part.names) :
    ((acceptedPlaces part.names p.children).flatMap (reportedAs part)).Perm
      (laterNamesakes (part, p)) := by
  refine (flatMap_reportedAs_perm part _).trans (List.Perm.flatMap_left _ fun kind hk => ?_)
  rw [repeats_eq (known kind hk)]

theorem reportedAs_note {part : Part} {q : Placed} (base : q.head.base = "annotation")
    (known : part = .node ∨ part = .interface) : reportedAs part q = [] := by
  obtain rfl | rfl := known
  · simp [reportedAs, Part.unrepeated, repeatsAmong_other, base]
  · simp [reportedAs, Part.unrepeated, repeatsAmong_other, base]

/-- Of a part of an interface it is said just that it is a later namesake, if it is one. -/
theorem repeats_memberTaken {p q : Placed} {i : Interface} {x : Logged Interface}
    (h : InterfaceSoFar p (acceptedPlaces interfaceNames q.before) i) (taken : MemberTaken i q x) :
    x.repeats = reportedAs .interface q := by
  cases taken with
  | @method m plain _ origin =>
      have base := (isPlain_iff.1 plain).2
      have known := (h.method plain origin).1
      simp [repeats_describeCallable, addMethod, known, origin.location, reportedAs,
        Part.unrepeated, repeatsAmong_own plain origin.name, repeatsAmong_other, base, Problem.code,
        repeatCodes, apply_ite]
  | @signal s plain _ origin =>
      have base := (isPlain_iff.1 plain).2
      have known := (h.signal plain origin).1
      simp [repeats_describeCallable, addSignal, known, origin.location, reportedAs,
        Part.unrepeated, repeatsAmong_own plain origin.name, repeatsAmong_other, base, Problem.code,
        repeatCodes, apply_ite]
  | @property r plain _ origin =>
      have base := (isPlain_iff.1 plain).2
      have known := (h.property plain origin).1
      simp [repeats_describeProperty, addProperty, known, origin.location, reportedAs,
        Part.unrepeated, repeatsAmong_own plain origin.name, repeatsAmong_other, base, Problem.code,
        repeatCodes, apply_ite]
  | note plain =>
      rw [Logged.repeats_bind, repeats_annotate, Logged.repeats_pure, List.append_nil,
        reportedAs_note (isPlain_iff.1 plain).2 (.inr rfl)]

/-- Where nothing fatal was found, what is reported of the children one by one is all that is. -/
theorem told_induction {names : List String} {σ : Type} {step : σ → Child → Logged σ}
    {So : List Placed → σ → Prop} {told : Placed → List (IssueCode × Option Location)} {s : σ}
    {children : List Xml.Node} (start : So [] s)
    (taken : ∀ q t, .element q.head q.children ∈ children → isAccepted names q.head = true →
      So (acceptedPlaces names q.before) t → (step t q.toChild).fatal = [] →
        So (acceptedPlaces names q.before ++ [q]) (step t q.toChild).value ∧
          (step t q.toChild).repeats.Perm (told q))
    (harmless : ((acceptedChildren names none children).foldlM step s).fatal = []) :
    ((acceptedChildren names none children).foldlM step s).repeats.Perm
      ((acceptedPlaces names children).flatMap told) := by
  refine (taken_induction (I := fun l x => x.fatal = [] →
    So l x.value ∧ x.repeats.Perm (l.flatMap told)) (fun _ => ⟨start, .nil⟩)
      (fun q x here accepted before harmless => ?_) harmless).2
  rw [Logged.fatal_bind] at harmless
  obtain ⟨earlier, own⟩ := List.append_eq_nil_iff.1 harmless
  obtain ⟨so, reported⟩ := before earlier
  obtain ⟨next, more⟩ := taken q x.value here accepted so own
  refine ⟨next, ?_⟩
  rw [Logged.repeats_bind, List.flatMap_append, List.flatMap_singleton]
  exact reported.append more

theorem repeats_describeInterface {p : Placed}
    (harmless : (describeInterface p.toChild).fatal = []) :
    (describeInterface p.toChild).repeats.Perm (laterNamesakes (.interface, p)) := by
  obtain ⟨name, named, later⟩ := exists_of_fatal_required harmless
  have named : p.toChild.head.attribute? "name" = some name := named
  simp only [Logged.fatal_bind, List.append_eq_nil_iff, addMembers_eq_foldlM] at later
  obtain ⟨-, -, parts, -⟩ := later
  have start : InterfaceSoFar p [] { name, location := p.head.location } :=
    ⟨named, rfl, noted_empty, .nil, .nil, .nil⟩
  have members := told_induction start (fun q t _ accepted before own =>
    have taken := memberTaken_addMember accepted own
    ⟨before.step taken, .of_eq (repeats_memberTaken before taken)⟩) parts
  have rest : (describeInterface p.toChild).repeats =
      ((acceptedChildren interfaceNames none p.children).foldlM addMember
        { name, location := p.head.location }).repeats := by
    simp [describeInterface, repeats_required, value_required, named, repeats_reportChildren,
      addMembers_eq_foldlM, Problem.code, repeatCodes]
    rfl
  rw [rest]
  exact members.trans (flatMap_acceptedPlaces_perm p .interface (by decide))

/-- What is reported inside an element that is walked, and then of itself. -/
def reportedIn (q : Placed) : List (IssueCode × Option Location) :=
  (walkedAt q.before (.element q.head q.children)).flatMap laterNamesakes ++ reportedAs .node q

theorem not_isPlain {head : Xml.Element} {base other : String} (own : head.base = base)
    (ne : base ≠ other) : ¬head.isPlain other = true := fun plain =>
  ne (own.symm.trans (isPlain_iff.1 plain).2)

theorem repeats_partTaken {p q : Placed} {path : Option String} {n : Node} {x : Logged Node}
    (h : NodeSoFar p (acceptedPlaces nodeNames q.before) n)
    (below : ∀ path, (q.describe path).fatal = [] →
      (q.describe path).repeats.Perm (q.walked.flatMap laterNamesakes))
    (taken : PartTaken path n q x) : x.repeats.Perm (reportedIn q) := by
  cases taken with
  | @interface i plain harmless described =>
      have base := (isPlain_iff.1 plain).2
      obtain ⟨own, same, origin⟩ := interfaceOf_describeInterface harmless
      obtain rfl := Option.some_inj.1 (described.symm.trans same)
      have known := (h.interface plain origin).1
      have inside := repeats_describeInterface harmless
      rw [Logged.repeats_bind, reportedIn, walkedAt, if_pos plain, List.flatMap_singleton]
      refine inside.append (.of_eq ?_)
      simp [addInterface, known, origin.location, reportedAs, Part.unrepeated,
        repeatsAmong_own plain origin.name, repeatsAmong_other, base, Problem.code, repeatCodes,
        apply_ite]
  | @node name plain named harmless =>
      have base := (isPlain_iff.1 plain).2
      have known := (h.node plain named (nodeOf_describe _ harmless) (childPath path name)
        q.head.location).1
      have inside := below _ harmless
      have other : ¬q.head.isPlain "interface" = true := not_isPlain base (by decide)
      have entered : (q.head.isPlain "node" && (q.head.attribute? "name").isSome) = true := by
        rw [plain, show q.head.attribute? "name" = some name from named]
        rfl
      rw [reportedIn, walkedAt, if_neg other, if_pos entered, Logged.repeats_bind,
        Logged.repeats_bind]
      have relative : (Logged.reportWhen (!Name.isRelativePath name) q.head.location
          (.childNotRelative name)).repeats = [] := by simp [Problem.code, repeatCodes]
      rw [relative, List.nil_append]
      refine inside.append (.of_eq ?_)
      simp [addNode, known, reportedAs, Part.unrepeated, repeatsAmong_own plain named,
        repeatsAmong_other, base, Problem.code, repeatCodes, apply_ite]
  | unnamed plain unnamed =>
      have base := (isPlain_iff.1 plain).2
      have other : ¬q.head.isPlain "interface" = true := not_isPlain base (by decide)
      have refused : ¬(q.head.isPlain "node" && (q.head.attribute? "name").isSome) = true := by
        rw [show q.head.attribute? "name" = none from unnamed, Option.isSome_none, Bool.and_false]
        exact Bool.false_ne_true
      have passed : repeatsAmong "node" [q] = [] := by
        rw [repeatsAmong, List.filter_cons, unnamed]
        simp
      rw [reportedIn, walkedAt, if_neg other, if_neg refused]
      simp [reportedAs, Part.unrepeated, passed, repeatsAmong_other, base, Problem.code,
        repeatCodes]
  | note plain =>
      have base := (isPlain_iff.1 plain).2
      have other : ¬q.head.isPlain "interface" = true := not_isPlain base (by decide)
      have refused : ¬(q.head.isPlain "node" && (q.head.attribute? "name").isSome) = true :=
        fun both => not_isPlain base (by decide) (Bool.and_eq_true_iff.1 both).1
      rw [reportedIn, walkedAt, if_neg other, if_neg refused, reportedAs_note base (.inl rfl),
        Logged.repeats_bind, repeats_annotate]
      exact .nil

/-- The walk through siblings is that through the accepted ones, one after the other. -/
theorem walkedAmong_eq_flatMap (before l : List Xml.Node) :
    walkedAmong before l = ((placedAfter before l).filter fun q => isAccepted nodeNames q.head).flatMap
      fun q => walkedAt q.before (.element q.head q.children) := by
  induction l generalizing before with
  | nil => rfl
  | cons n rest ih =>
      rw [walkedAmong, ih]
      cases n with
      | element head children =>
          simp only [placedAfter, List.filter_cons]
          split
          · rw [List.flatMap_cons]
          · next refused =>
            have passed (base : String) (known : base ∈ nodeNames) :
                ¬head.isPlain base = true := fun plain => by
              obtain ⟨uri, rfl⟩ := isPlain_iff.1 plain
              exact refused (isAccepted_iff.2 ⟨uri, known⟩)
            have unwalked : walkedAt before (.element head children) = [] := by
              rw [walkedAt, if_neg (passed "interface" (by decide)), if_neg fun both =>
                passed "node" (by decide) (Bool.and_eq_true_iff.1 both).1]
            rw [unwalked, List.nil_append]
      | text s => rfl
      | comment s location => rfl
      | instruction => rfl

theorem repeats_describe {p : Placed} (path : Option String)
    (harmless : (p.describe path).fatal = []) :
    (p.describe path).repeats.Perm (p.walked.flatMap laterNamesakes) := by
  obtain ⟨before, head, children⟩ := p
  induction children using below_induction generalizing path head before with
  | step children ih =>
      have parts := (List.append_eq_nil_iff.1 ((Logged.fatal_bind ..).symm.trans harmless)).2
      replace parts := (List.append_eq_nil_iff.1 ((Logged.fatal_bind ..).symm.trans parts)).1
      dsimp only at parts
      rw [addNodeParts_eq_foldlM] at parts
      have start : NodeSoFar ⟨before, head, children⟩ []
          { name := head.attribute? "name", location := head.location } :=
        ⟨rfl, rfl, noted_empty, .nil, .nil⟩
      have told := told_induction start
        (fun q t here accepted earlier own =>
          have taken := partTaken_addNodeChild accepted own
          ⟨earlier.step (fun path own => nodeOf_describe path own) taken,
            repeats_partTaken earlier
              (fun path own => ih q.head q.children here path q.before q.head own) taken⟩) parts
      have whole : (Placed.describe ⟨before, head, children⟩ path).repeats =
          ((acceptedChildren nodeNames none children).foldlM (addNodeChild path)
            { name := head.attribute? "name", location := head.location }).repeats := by
        rw [Placed.describe, describeNode, describeNodeWith]
        simp only [Logged.repeats_bind, repeats_reportChildren, addNodeParts_eq_foldlM,
          Logged.repeats_pure, List.nil_append, List.append_nil]
      rw [whole, Placed.walked, List.flatMap_cons, walkedAmong_eq_flatMap, List.flatMap_assoc]
      refine told.trans (((List.flatMap_append_perm ..).symm.trans
        List.perm_append_comm).trans ?_)
      exact (flatMap_acceptedPlaces_perm ⟨before, head, children⟩ .node
        (by decide)).append_right _

end Told

section Walked

/-- Nothing fatal is found in the description of an element that is walked. -/
structure Harmless (e : Part × Placed) : Prop where
  interface : e.1 = .interface → (describeInterface e.2.toChild).fatal = []
  node : e.1 = .node → ∀ path, (e.2.describe path).fatal = []

mutual

/-- Where no lapse is told of an element, nothing fatal is found in what is walked of it. -/
theorem harmless_of_mem_walkedAt {around : List Xml.Element} {before : List Xml.Node}
    {e : Part × Placed} (entered : around.all isEntered = true) (n : Xml.Node)
    (nothing : tellings (lapses .node around n) = []) (h : e ∈ walkedAt before n) :
    Harmless e := by
  cases n with
  | element head children =>
      rw [walkedAt] at h
      split at h
      · next plain =>
        obtain ⟨uri, base⟩ := isPlain_iff.1 plain
        have inside : Part.node.inside? head.base = some .interface := by rw [base]; rfl
        obtain rfl := List.mem_singleton.1 h
        refine ⟨fun _ => ?_, fun kind => nomatch kind⟩
        rw [fatal_describeInterface entered (by simp [Placed.toChild, base])]
        rwa [lapses_of_inside uri inside] at nothing
      · split at h
        · next named =>
          obtain ⟨plain, named⟩ := Bool.and_eq_true_iff.1 named
          obtain ⟨uri, base⟩ := isPlain_iff.1 plain
          have inside : Part.node.inside? head.base = some .node := by rw [base]; rfl
          have inward : (head :: around).all isEntered = true :=
            all_entered_cons entered (by rw [isEntered, named, Bool.or_true])
          rw [lapses_of_inside uri inside, lapsesOf, tellings_append] at nothing
          have below := (List.append_eq_nil_iff.1 nothing).2
          obtain rfl | deeper := List.mem_cons.1 h
          · refine ⟨(fun kind => nomatch kind), fun _ path => ?_⟩
            rw [Placed.describe, fatal_describeNode path head children _ inward]
            exact below
          · exact harmless_of_mem_walkedAmong inward children below deeper
        · exact absurd h List.not_mem_nil
  | text s => exact absurd h List.not_mem_nil
  | comment s location => exact absurd h List.not_mem_nil
  | instruction => exact absurd h List.not_mem_nil

theorem harmless_of_mem_walkedAmong {around : List Xml.Element} {before : List Xml.Node}
    {e : Part × Placed} (entered : around.all isEntered = true) (l : List Xml.Node)
    (nothing : tellings (lapsesAmong .node around l) = []) (h : e ∈ walkedAmong before l) :
    Harmless e := by
  cases l with
  | nil => exact absurd h List.not_mem_nil
  | cons n rest =>
      rw [lapsesAmong, tellings_append] at nothing
      obtain ⟨first, later⟩ := List.append_eq_nil_iff.1 nothing
      obtain here | there := List.mem_append.1 h
      · exact harmless_of_mem_walkedAt entered n first here
      · exact harmless_of_mem_walkedAmong entered rest later there

end

theorem harmless_of_mem_walked {root : Placed} {e : Part × Placed}
    (harmless : (root.describe none).fatal = []) (h : e ∈ root.walked) : Harmless e := by
  have nothing (path : Option String) :=
    fatal_describeNode path root.head root.children root.toChild.comment List.all_nil
  have told : tellings (lapsesAmong .node [] root.children) = [] := (nothing none).symm.trans harmless
  obtain rfl | inside := List.mem_cons.1 h
  · exact ⟨(fun kind => nomatch kind), fun _ path => (nothing path).trans told⟩
  · exact harmless_of_mem_walkedAmong List.all_nil root.children told inside

end Walked

section Document

theorem filter_isOfRoot {found : List Finding} (ofRoot : ∀ f ∈ found, f.problem.IsOfRoot) :
    (found.filter fun f => repeatCodes.contains f.problem.code) = [] := by
  refine List.filter_eq_nil_iff.2 fun f hf => ?_
  obtain ⟨tag, problem⟩ | ⟨name, problem⟩ := ofRoot f hf
  · rw [problem]
    exact Bool.false_ne_true
  · rw [problem]
    exact Bool.false_ne_true

theorem repeats_diagnostics (file : Option String) {x : Logged Node} {before after : List Finding}
    (ofRoot : ∀ f ∈ before ++ after, f.problem.IsOfRoot) :
    ((((before ++ x.log ++ after).map (Finding.toDiagnostic file)).filter fun found =>
      repeatCodes.contains found.code).map fun found => (found.code, found.location)) =
        x.repeats := by
  obtain ⟨earlier, later⟩ := List.forall_mem_append.1 ofRoot
  rw [List.filter_map, List.map_map]
  show ((before ++ x.log ++ after).filter fun f => repeatCodes.contains f.problem.code).map
    (fun f => (f.problem.code, some f.location)) = _
  rw [List.filter_append, List.filter_append, filter_isOfRoot earlier, filter_isOfRoot later,
    List.nil_append, List.append_nil]
  rfl

/-- A description by first namesakes. The interfaces, named nodes, methods, signals and properties
of all that is walked are the first children of each name, and each later one is reported once. -/
structure FirstsCount (root : Placed) (p : Parsed) : Prop where
  described : p.root = (root.describe none).value
  nodes : ∀ q, (Part.node, q) ∈ root.walked → ∀ path, NodeOf q (q.describe path).value
  interfaces : ∀ q, (Part.interface, q) ∈ root.walked →
    ∃ i, (describeInterface q.toChild).value = some i ∧ InterfaceOf q i
  reported : ((p.diagnostics.filter fun found => repeatCodes.contains found.code).map fun found =>
    (found.code, found.location)).Perm (root.walked.flatMap laterNamesakes)

/-- In every accepted document first namesakes count and later ones are reported. -/
theorem parseBytes_firsts_count {options : Options} {bytes : List UInt8} {p : Parsed}
    (read : parseBytes options bytes = .ok p) :
    ∃ text d root, Text.Utf8.decode bytes = .ok text ∧ Xml.Document.parse text = .ok d ∧
      describedElement? d = some root ∧ FirstsCount root p := by
  obtain ⟨text, d, root, before, after, decoded, wellFormed, described, own, harmless, diagnostics,
    ofRoot⟩ := parseBytes_describes read
  refine ⟨text, d, root, decoded, wellFormed, described, own, fun q hq path => ?_, fun q hq => ?_,
    ?_⟩
  · exact nodeOf_describe path ((harmless_of_mem_walked harmless hq).node rfl path)
  · exact interfaceOf_describeInterface ((harmless_of_mem_walked harmless hq).interface rfl)
  · rw [diagnostics, repeats_diagnostics options.file ofRoot]
    exact repeats_describe none harmless

/-- Two interfaces of one name, of which the second has two methods of one name. -/
def bellAgain : List UInt8 :=
  Text.Utf8.encode
    ("<node>\n<interface name='o.Bell'/>\n<interface name='o.Bell'>\n<method name='Ring'/>"
      ++ "<method name='Ring'/></interface></node>").toList

/-- The later interface does not count, and yet the later method in it is reported too. -/
theorem bellAgain_reported : ∃ p, parseBytes {} bellAgain = .ok p ∧
    (p.root.interfaces.map fun i => (i.location, i.methods.length)) = [(⟨2, 1⟩, 0)] ∧
    (p.diagnostics.map fun found => (found.code, found.location)) =
      [(.duplicateMethod, some ⟨4, 22⟩), (.duplicateInterface, some ⟨3, 1⟩)] ∧
    ∃ text d root, Text.Utf8.decode bellAgain = .ok text ∧ Xml.Document.parse text = .ok d ∧
      describedElement? d = some root ∧ FirstsCount root p := by
  have outcome : (parseBytes {} bellAgain).toOption.map (fun p =>
      (p.root.interfaces.map fun i => (i.location, i.methods.length),
        p.diagnostics.map fun found => (found.code, found.location))) =
      some ([(⟨2, 1⟩, 0)],
        [(.duplicateMethod, some ⟨4, 22⟩), (.duplicateInterface, some ⟨3, 1⟩)]) := by
    decide +kernel
  obtain ⟨p, read, told⟩ := exists_of_toOption_map outcome
  obtain ⟨interfaces, reported⟩ := Prod.mk.inj told
  exact ⟨p, read, interfaces, reported, parseBytes_firsts_count read⟩

end Document

end ApiDrift.Introspection
