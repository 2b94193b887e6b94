import Mathlib.Data.List.Perm.Subperm
import ApiDrift.Proofs.Introspection.Clean
import ApiDrift.Proofs.Introspection.Lapses
/-! What is found fatal in a document are its lapses that are told, in their order. This is shown
builder by builder, from annotations to nodes, and then for whole readings. -/
namespace ApiDrift.Introspection

section Fatal

/-- The findings after which nothing can be described. -/
def Logged.fatal {α : Type} (x : Logged α) : List Finding := x.log.filter Finding.isFatal

namespace Logged
variable {α β : Type}

@[simp] theorem fatal_pure (a : α) : (pure a : Logged α).fatal = [] := rfl

@[simp] theorem fatal_bind (x : Logged α) (f : α → Logged β) :
    (x >>= f).fatal = x.fatal ++ (f x.value).fatal := List.filter_append ..

@[simp] theorem fatal_report (location : Location) (problem : Problem) :
    (report location problem).fatal =
      if problem.severity = .fatal then [⟨problem, location⟩] else [] := by
  rw [fatal, report, List.filter_cons, List.filter_nil, Finding.isFatal]
  simp only [beq_iff_eq]

@[simp] theorem fatal_reportWhen (condition : Bool) (location : Location) (problem : Problem) :
    (reportWhen condition location problem).fatal =
      if condition then (report location problem).fatal else [] := by
  cases condition <;> rfl

end Logged

@[simp] theorem fatal_reportChildren (names : List String) (place : Place)
    (children : List Xml.Node) : (reportChildren names place children).fatal = [] := by
  refine List.filter_eq_nil_iff.2 fun f hf => ?_
  obtain ⟨n, -, found⟩ := List.mem_filterMap.1 hf
  cases n with
  | element head below =>
      rw [childProblem?] at found
      split at found
      · obtain ⟨-, made⟩ := Option.ite_none_right_eq_some.1 found
        obtain rfl := Option.some_inj.1 made
        exact Bool.noConfusion
      · obtain ⟨-, made⟩ := Option.ite_none_left_eq_some.1 found
        obtain rfl := Option.some_inj.1 made
        exact Bool.noConfusion
  | text s => exact absurd found.symm (Option.some_ne_none f)
  | comment s location => exact absurd found.symm (Option.some_ne_none f)
  | instruction => exact absurd found.symm (Option.some_ne_none f)

theorem fatal_required (e : Xml.Element) (attr : String) :
    (required e attr).fatal = missingIn e [attr] := by
  simp only [required, Logged.fatal_bind, Logged.fatal_reportWhen, Logged.fatal_report,
    Problem.severity, Logged.fatal_pure, if_true, List.append_nil, missingIn, List.filter_cons,
    List.filter_nil]
  cases e.attribute? attr <;> rfl

end Fatal

section Steps
variable {σ : Type} {Keeps : σ → Prop} {part : Part} {around : List Xml.Element}
  {step : σ → Child → Logged σ}

/-- A step over a child inside a part tells its lapses, and leaves what is kept. -/
structure Tells (Keeps : σ → Prop) (part : Part) (around : List Xml.Element)
    (children : List Xml.Node) (step : σ → Child → Logged σ) : Prop where
  keeps : ∀ s c, Keeps s → Keeps (step s c).value
  tells : ∀ s c q, Keeps s → .element c.head c.children ∈ children → c.head.uri = none →
    part.inside? c.head.base = some q →
      (step s c).fatal = tellings (lapsesOf q around c.head c.children)

theorem Tells.fatal_foldlM {children : List Xml.Node} (h : Tells Keeps part around children step)
    {s : σ} (kept : Keeps s) (pending : Option Documentation) :
    ((acceptedChildren part.names pending children).foldlM step s).fatal =
      tellings (lapsesAmong part around children) := by
  induction children generalizing s pending with
  | nil => rfl
  | cons n rest ih =>
      have later : Tells Keeps part around rest step :=
        ⟨h.keeps, fun s c q kept hc => h.tells s c q kept (.tail _ hc)⟩
      rw [lapsesAmong, tellings_append]
      simp only [acceptedChildren]
      cases n with
      | element head below =>
          by_cases accepted : isAccepted part.names head = true
          · obtain ⟨plain, known⟩ := isAccepted_iff.1 accepted
            obtain ⟨q, inside⟩ := Option.isSome_iff_exists.1 (mem_names_iff.1 known)
            dsimp only
            rw [if_pos accepted, List.foldlM_cons, Logged.fatal_bind,
              h.tells s ⟨head, below, pending⟩ q kept (.head _) plain inside,
              ih later (h.keeps s _ kept), lapses_of_inside plain inside]
          · dsimp only
            rw [if_neg accepted, ih later kept, lapses_of_outside accepted]
            rfl
      | text s => exact ih later kept _
      | comment s location => exact ih later kept _
      | instruction => exact ih later kept _

end Steps

section Builders
variable {around : List Xml.Element} {c : Child}

theorem fatal_required_bind {α : Type} (e : Xml.Element) (attr : String)
    (f : Option String → Logged α) :
    (required e attr >>= f).fatal = missingIn e [attr] ++ (f (e.attribute? attr)).fatal := by
  rw [Logged.fatal_bind, fatal_required, value_required]

/-- An element that needs a name alone is described inside where it has one; where it has none,
nothing is told of what is inside. -/
theorem fatal_named {α : Type} {p : Part} {f : Option String → Logged α}
    (only : p.required = ["name"]) (entered : around.all isEntered = true)
    (other : c.head.base ≠ "arg") (unnamed : (f none).fatal = [])
    (described : ∀ name, c.head.attribute? "name" = some name →
      (c.head :: around).all isEntered = true →
        (f (some name)).fatal = tellings (lapsesAmong p (c.head :: around) c.children)) :
    (required c.head "name" >>= f).fatal = tellings (lapsesOf p around c.head c.children) := by
  have nameAlone : p ≠ .property := by
    rintro rfl
    exact absurd only (by decide)
  have inward := isEntered_of_ne other
  rw [tellings_lapsesOf nameAlone entered, fatal_required_bind, only]
  refine congrArg (missingIn c.head ["name"] ++ ·) ?_
  cases named : c.head.attribute? "name" with
  | none =>
      rw [named] at inward
      rw [unnamed, tellings_hidden inward]
  | some name =>
      rw [named] at inward
      exact described name named (all_entered_cons entered inward)

theorem fatal_taken {α σ : Type} {describe : Logged (Option α)} {next : Option α → Logged σ}
    (absent : (next none).fatal = []) (present : ∀ x, (next (some x)).fatal = []) :
    (describe >>= next).fatal = describe.fatal := by
  rw [Logged.fatal_bind, List.append_right_eq_self]
  cases describe.value with
  | none => exact absent
  | some x => exact present x

theorem fatal_annotate (entered : around.all isEntered = true) (annotations : Annotations)
    (owner : Place) :
    (annotate annotations owner c).fatal =
      tellings (lapsesOf Part.annotation around c.head c.children) := by
  rw [tellings_lapsesOf (by decide) entered, lapsesAmong_annotation, annotate,
    fatal_required_bind, Logged.fatal_bind, fatal_reportChildren]
  refine congrArg (missingIn c.head ["name"] ++ ·) ?_
  cases c.head.attribute? "name" with
  | none => rfl
  | some name => simp [Problem.severity, tellings]

theorem fatal_annotations (part : Part) (only : part.contents = [("annotation", Part.annotation)])
    (entered : around.all isEntered = true) (owner : Place) (children : List Xml.Node) :
    (annotateAll {} owner (acceptedChildren ["annotation"] none children)).fatal =
      tellings (lapsesAmong part around children) := by
  have names : part.names = ["annotation"] := by rw [Part.names, only]; rfl
  have tells : Tells (fun _ => True) part around children
      (fun annotations c => annotate annotations owner c) := by
    refine ⟨fun _ _ _ => trivial, fun annotations c q _ _ _ inside => ?_⟩
    have own := mem_contents_of_inside? inside
    rw [only, List.mem_singleton, Prod.mk.injEq] at own
    rw [own.2]
    exact fatal_annotate entered annotations owner
  rw [annotateAll_eq_foldlM, ← names]
  exact tells.fatal_foldlM trivial none

theorem fatal_argumentDirection (e : Xml.Element) (kind : CallableKind) (label : ArgumentLabel)
    (owner : Place) : (argumentDirection e kind label owner).fatal = [] := by
  unfold argumentDirection
  dsimp only
  split <;> simp [Problem.severity]

theorem fatal_type {α : Type} {location : Location} {problem : SignatureError → Problem} {a : α}
    (mild : ∀ e, (problem e).severity = .error) (error? : Option SignatureError) :
    (match error? with
      | some e => do
        Logged.report location (problem e)
        pure a
      | none => pure a : Logged α).fatal = [] := by
  cases error? with
  | none => rfl
  | some e =>
      rw [Logged.fatal_bind, Logged.fatal_report, mild e]
      rfl

theorem fatal_describeArgument (entered : around.all isEntered = true) (arg : c.head.base = "arg")
    (kind : CallableKind) (interface name : String) (position : Nat) :
    (describeArgument kind interface name position c).fatal =
      tellings (lapsesOf .argument around c.head c.children) := by
  have inward : (c.head :: around).all isEntered = true :=
    all_entered_cons entered (by rw [isEntered, arg]; rfl)
  rw [tellings_lapsesOf (by decide) entered, describeArgument]
  dsimp only
  rw [fatal_required_bind, Logged.fatal_bind, fatal_argumentDirection, Logged.fatal_bind,
    fatal_reportChildren, Logged.fatal_bind, fatal_annotations .argument rfl inward]
  refine congrArg (missingIn c.head ["type"] ++ ·) ?_
  rw [List.nil_append, List.nil_append, List.append_right_eq_self]
  cases c.head.attribute? "type" with
  | none => rfl
  | some text => exact fatal_type (fun _ => rfl) _

theorem tells_callable (children : List Xml.Node) (interface : String)
    (entered : around.all isEntered = true) :
    Tells (fun _ => True) .callable around children (addCallablePart interface) := by
  refine ⟨fun _ _ _ => trivial, fun callable c q _ _ _ inside => ?_⟩
  have own := mem_contents_of_inside? inside
  simp only [Part.contents, List.mem_cons, Prod.mk.injEq, List.not_mem_nil, or_false] at own
  rw [addCallablePart]
  obtain ⟨base, rfl⟩ | ⟨base, rfl⟩ := own
  · rw [if_pos base, Logged.fatal_bind, fatal_describeArgument entered base, Logged.fatal_pure,
      List.append_nil]
  · have other : ¬c.head.base = "arg" := by simp [base]
    rw [if_neg other]
    dsimp only
    rw [Logged.fatal_bind, fatal_annotate entered, Logged.fatal_pure, List.append_nil]

theorem fatal_describeCallable (entered : around.all isEntered = true)
    (other : c.head.base ≠ "arg") (kind : CallableKind) (interface : String) :
    (describeCallable kind interface c).fatal =
      tellings (lapsesOf .callable around c.head c.children) := by
  refine fatal_named rfl entered other rfl fun name _ inward => ?_
  have parts := (tells_callable c.children interface inward).fatal_foldlM
    (s := { kind, name, location := c.head.location }) trivial none
  simp only [Logged.fatal_bind, Logged.fatal_reportWhen, Logged.fatal_report, Problem.severity,
    fatal_reportChildren, addCallableParts_eq_foldlM, Logged.fatal_pure, reduceCtorEq, if_false,
    ite_self, List.nil_append, List.append_nil]
  exact parts

def accessLapses (around : List Xml.Element) (head : Xml.Element) : List Lapse :=
  if hasUnknownAccess head then [⟨around, head, "access"⟩] else []

theorem tellings_property (entered : around.all isEntered = true) (head : Xml.Element)
    (children : List Xml.Node) :
    tellings (lapsesOf .property around head children) =
      missingIn head ["name"] ++ (missingIn head ["type"] ++ (missingIn head ["access"] ++
        (tellings (accessLapses around head) ++
          tellings (lapsesAmong .property (head :: around) children)))) := by
  have access : (if Part.property = .property ∧ hasUnknownAccess head then ["access"] else []).map
      (Lapse.mk around head) = accessLapses around head := by
    unfold accessLapses
    cases hasUnknownAccess head <;> rfl
  rw [lapsesOf, lapsesAt, List.map_append, tellings_append, tellings_append,
    tellings_missing entered, access, Part.required, missingIn_cons, missingIn_cons head "type"]
  simp only [List.append_assoc]

theorem fatal_propertyAccess {interface name : String} (entered : around.all isEntered = true)
    (owner : (around.head?.bind fun e => e.attribute? "name") = some interface)
    (named : c.head.attribute? "name" = some name) :
    (propertyAccess (c.head.attribute? "access") c.head.location interface name).fatal =
      tellings (accessLapses around c.head) := by
  rw [accessLapses, hasUnknownAccess]
  cases given : c.head.attribute? "access" with
  | none => rfl
  | some value =>
      have known : (Access.ofText? value).isNone =
          decide (value ∉ ["read", "write", "readwrite"]) := by
        rw [← Option.not_isSome, Bool.eq_iff_iff, Bool.not_eq_true', Bool.eq_false_iff, ne_eq,
          isSome_access_iff, decide_eq_true_iff]
      have told : Lapse.isTold ⟨around, c.head, "access"⟩ = true := by
        rw [Lapse.isTold, entered, named, Option.isSome_some, Bool.or_true, Bool.true_and]
      rw [propertyAccess]
      simp only [Logged.fatal_bind, Logged.fatal_reportWhen, Logged.fatal_report, Problem.severity,
        Logged.fatal_pure, if_true, List.append_nil, Option.bind_some, Option.any_some, known]
      split
      · rw [tellings, List.filter_cons, if_pos told, List.filter_nil, List.map_singleton,
          Lapse.finding, Lapse.problem]
        simp only [given, owner, named, Option.getD_some]
      · rfl

theorem tellings_accessLapses (unnamed : c.head.attribute? "name" = none) :
    tellings (accessLapses around c.head) = [] := by
  unfold accessLapses
  split
  · next unknown =>
    have given : (c.head.attribute? "access").isNone = false := by
      rw [Option.isNone_eq_false_iff]
      obtain ⟨value, given, -⟩ := Option.any_eq_true .. |>.1 unknown
      exact Option.isSome_of_eq_some given
    rw [tellings, List.filter_cons, if_neg, List.filter_nil, List.map_nil]
    rw [Lapse.isTold, given, unnamed, Option.isSome_none, Bool.or_false, Bool.and_false]
    exact Bool.false_ne_true
  · rfl

theorem fatal_describeProperty {interface : String} (entered : around.all isEntered = true)
    (owner : (around.head?.bind fun e => e.attribute? "name") = some interface)
    (other : c.head.base ≠ "arg") :
    (describeProperty interface c).fatal =
      tellings (lapsesOf .property around c.head c.children) := by
  have inward := isEntered_of_ne other
  rw [tellings_property entered, describeProperty]
  dsimp only
  rw [fatal_required_bind, fatal_required_bind, fatal_required_bind]
  refine congrArg (missingIn c.head ["name"] ++ ·) (congrArg (missingIn c.head ["type"] ++ ·)
    (congrArg (missingIn c.head ["access"] ++ ·) ?_))
  cases named : c.head.attribute? "name" with
  | none =>
      rw [named] at inward
      rw [tellings_accessLapses named, tellings_hidden inward]
      rfl
  | some name =>
      rw [named] at inward
      rw [Logged.fatal_bind, Logged.fatal_bind, fatal_propertyAccess entered owner named,
        Logged.fatal_bind, fatal_reportChildren, Logged.fatal_bind,
        fatal_annotations .property rfl (all_entered_cons entered inward)]
      simp only [Logged.fatal_reportWhen, Logged.fatal_report, Problem.severity, reduceCtorEq,
        if_false, ite_self, List.nil_append]
      refine congrArg (tellings (accessLapses around c.head) ++ ·) ?_
      rw [List.append_right_eq_self]
      cases c.head.attribute? "type" with
      | none => rfl
      | some text => exact fatal_type (fun _ => rfl) _

theorem tells_interface (children : List Xml.Node) {name : String}
    (entered : around.all isEntered = true)
    (owner : (around.head?.bind fun e => e.attribute? "name") = some name) :
    Tells (fun i => i.name = name) .interface around children addMember := by
  refine ⟨fun i c kept => (addMember_keeps i c).1.trans kept, ?_⟩
  rintro i c q rfl _ _ inside
  have own := mem_contents_of_inside? inside
  simp only [Part.contents, List.mem_cons, Prod.mk.injEq, List.not_mem_nil, or_false] at own
  rw [addMember]
  obtain ⟨base, rfl⟩ | ⟨base, rfl⟩ | ⟨base, rfl⟩ | ⟨base, rfl⟩ := own
  · have other : c.head.base ≠ "arg" := by simp [base]
    rw [if_pos base]
    refine (fatal_taken rfl fun m => ?_).trans (fatal_describeCallable entered other _ _)
    simp [addMethod, Problem.severity]
  · have other : c.head.base ≠ "arg" ∧ ¬c.head.base = "method" := by simp [base]
    rw [if_neg other.2, if_pos base]
    refine (fatal_taken rfl fun m => ?_).trans (fatal_describeCallable entered other.1 _ _)
    simp [addSignal, Problem.severity]
  · have other : c.head.base ≠ "arg" ∧ ¬c.head.base = "method" ∧ ¬c.head.base = "signal" := by
      simp [base]
    rw [if_neg other.2.1, if_neg other.2.2, if_pos base]
    refine (fatal_taken rfl fun p => ?_).trans (fatal_describeProperty entered owner other.1)
    simp [addProperty, Problem.severity]
  · have other : ¬c.head.base = "method" ∧ ¬c.head.base = "signal" ∧ ¬c.head.base = "property" := by
      simp [base]
    rw [if_neg other.1, if_neg other.2.1, if_neg other.2.2, Logged.fatal_bind,
      fatal_annotate entered, Logged.fatal_pure, List.append_nil]

theorem fatal_describeInterface (entered : around.all isEntered = true)
    (other : c.head.base ≠ "arg") :
    (describeInterface c).fatal = tellings (lapsesOf .interface around c.head c.children) := by
  refine fatal_named rfl entered other rfl fun name named inward => ?_
  have members := (tells_interface c.children inward named).fatal_foldlM
    (s := { name, location := c.head.location }) rfl none
  simp only [Logged.fatal_bind, Logged.fatal_reportWhen, Logged.fatal_report, Problem.severity,
    fatal_reportChildren, addMembers_eq_foldlM, Logged.fatal_pure, reduceCtorEq, if_false,
    ite_self, List.nil_append, List.append_nil]
  exact members

theorem tells_node (children : List Xml.Node) (path : Option String)
    (entered : around.all isEntered = true)
    (below : ∀ head inside, .element head inside ∈ children →
      ∀ path comment, ((head :: around).all isEntered = true) →
        (describeNode path head inside comment).fatal =
          tellings (lapsesAmong .node (head :: around) inside)) :
    Tells (fun _ => True) .node around children (addNodeChild path) := by
  refine ⟨fun _ _ _ => trivial, fun n c q _ hc plain inside => ?_⟩
  have accepted : isAccepted nodeNames c.head = true :=
    isAccepted_iff.2 ⟨plain, mem_names_iff (p := .node).2 (by rw [inside]; rfl)⟩
  have own := mem_contents_of_inside? inside
  simp only [Part.contents, List.mem_cons, Prod.mk.injEq, List.not_mem_nil, or_false] at own
  rw [addNodeChild, addNodePart, accepted, if_neg (by decide)]
  obtain ⟨base, rfl⟩ | ⟨base, rfl⟩ | ⟨base, rfl⟩ := own
  · have other : c.head.base ≠ "arg" := by simp [base]
    rw [if_pos base]
    refine (fatal_taken rfl fun i => ?_).trans (fatal_describeInterface entered other)
    simp [addInterface, Problem.severity]
  · have other : c.head.base ≠ "arg" ∧ ¬c.head.base = "interface" := by simp [base]
    have inward := isEntered_of_ne other.1
    rw [if_neg other.2, if_pos base, tellings_lapsesOf (by decide) entered]
    cases named : c.head.attribute? "name" with
    | none =>
        rw [named] at inward
        rw [tellings_hidden inward]
        rfl
    | some name =>
        rw [named] at inward
        have described := below c.head c.children hc (some (childPath path name)) c.comment
          (all_entered_cons entered inward)
        rw [describeNode] at described
        simp [Problem.severity, described, addNode, missingIn, Part.required]
  · have other : ¬c.head.base = "interface" ∧ ¬c.head.base = "node" := by simp [base]
    rw [if_neg other.1, if_neg other.2, Logged.fatal_bind, fatal_annotate entered,
      Logged.fatal_pure, List.append_nil]

/-- Of the lapses in a node those are told that its description comes to. The elements around are
those around the children, so the document element is not among them. -/
theorem fatal_describeNode (path : Option String) (head : Xml.Element) (children : List Xml.Node)
    (comment : Option Documentation) {around : List Xml.Element}
    (entered : around.all isEntered = true) :
    (describeNode path head children comment).fatal =
      tellings (lapsesAmong .node around children) := by
  induction children using below_induction generalizing path head comment around with
  | step children ih =>
      have parts := (tells_node children path entered
        fun below inside h path comment inward =>
          ih below inside h path below comment inward).fatal_foldlM
            (s := { name := head.attribute? "name", location := head.location }) trivial none
      rw [describeNode, describeNodeWith]
      simp only [Logged.fatal_bind, fatal_reportChildren, addNodeParts_eq_foldlM,
        Logged.fatal_pure, List.nil_append, List.append_nil]
      exact parts

theorem fatal_describeRoot (head : Xml.Element) (children : List Xml.Node)
    (comment : Option Documentation) :
    (describeRoot head children comment).fatal = tellings (lapsesAmong .node [] children) := by
  have below := fatal_describeNode none head children comment List.all_nil
  rw [describeNode] at below
  rw [describeRoot, Logged.fatal_bind, below, List.append_right_eq_self]
  split <;> simp [Problem.severity]

end Builders

section Document

theorem describeDocument_node {d : Xml.Document} {head : Xml.Element} {children : List Xml.Node}
    (root : d.children.find? Xml.Node.isElement = some (.element head children))
    (plain : head.isPlain "node" = true) : ∃ comment,
      (describeDocument d).value = some (describeRoot head children comment).value ∧
        (describeDocument d).log = (describeRoot head children comment).log := by
  rw [← rootElement?_eq []] at root
  obtain ⟨⟨head, children, before⟩, found, same⟩ := Option.map_eq_some_iff.1 root
  obtain ⟨rfl, rfl⟩ := Xml.Node.element.inj same
  have itself : findElement? "node" before (.element head children) =
      some (head, children, before) := by rw [findElement?, if_pos plain]
  refine ⟨precedingComment before, ?_⟩
  unfold describeDocument
  rw [found]
  simp only [plain, itself, Bool.not_true, Bool.false_and, Bool.false_eq_true, if_false,
    Logged.value_bind, Logged.log_bind, Logged.value_pure, Logged.log_pure,
    List.append_nil, and_self]

theorem ofLogged_described {file : Option String} {found : Logged (Option Node)} {root : Node}
    {ls : List Lapse} (described : found.value = some root) (fatal : found.fatal = tellings ls) :
    Parsed.ofLogged file found = if ∃ l ∈ ls, l.isTold = true then
        .error (.structural (found.log.map (Finding.toDiagnostic file)))
      else .ok ⟨root, found.log.map (Finding.toDiagnostic file)⟩ := by
  have told : found.log.any Finding.isFatal = true ↔ ∃ l ∈ ls, l.isTold = true := by
    rw [← not_iff_not, Bool.not_eq_true, List.any_eq_false, ← List.filter_eq_nil_iff]
    rw [← Logged.fatal, fatal, tellings, List.map_eq_nil_iff, List.filter_eq_nil_iff]
    simp only [not_exists, not_and]
  unfold Parsed.ofLogged
  simp only [described, told]

def Lapse.diagnostic (file : Option String) (l : Lapse) : Diagnostic := l.finding.toDiagnostic file

theorem filter_isFatal_diagnostics (file : Option String) {log : List Finding} {ls : List Lapse}
    (fatal : log.filter Finding.isFatal = tellings ls) :
    (log.map (Finding.toDiagnostic file)).filter Diagnostic.isFatal =
      (ls.filter Lapse.isTold).map (Lapse.diagnostic file) := by
  have same : Diagnostic.isFatal ∘ Finding.toDiagnostic file = Finding.isFatal := rfl
  rw [List.filter_map, same, fatal, tellings, List.map_map]
  rfl

theorem filter_isFatal_map_diagnostic (file : Option String) (ls : List Lapse) :
    (ls.map (Lapse.diagnostic file)).filter Diagnostic.isFatal =
      ls.map (Lapse.diagnostic file) := by
  refine List.filter_eq_self.2 fun diagnostic h => ?_
  obtain ⟨l, -, rfl⟩ := List.mem_map.1 h
  exact isFatal_finding l

/-- Where there are lapses there is no description, but a fatal diagnostic for each of them. -/
def TellsEach (file : Option String) (ls : List Lapse) (outcome : Except ParseError Parsed) :
    Prop :=
  ls ≠ [] → ∃ found, outcome = .error (.structural found) ∧
    (ls.map (Lapse.diagnostic file)).Subperm found

theorem TellsEach.length_le {file : Option String} {ls : List Lapse} {found : List Diagnostic}
    (each : TellsEach file ls (.error (.structural found))) :
    ls.length ≤ (found.filter Diagnostic.isFatal).length := by
  by_cases none : ls = []
  · rw [none]
    exact Nat.zero_le _
  · obtain ⟨found, same, contained⟩ := each none
    obtain rfl := ParseError.structural.inj (Except.error.inj same)
    have fatals := List.Subperm.filter Diagnostic.isFatal contained
    rw [filter_isFatal_map_diagnostic] at fatals
    simpa using fatals.length_le

/-- Of the lapses in a document that is a node, those are reported together that the reading comes
to; each of them is told just when none is hidden by an element without a name. -/
theorem parseBytes_lapses_told {options : Options} {bytes : List UInt8} {text : List Char}
    {d : Xml.Document} {head : Xml.Element} {children : List Xml.Node}
    (decoded : Text.Utf8.decode bytes = .ok text) (wellFormed : Xml.Document.parse text = .ok d)
    (shallow : ∀ location limit, parseBytes options bytes ≠ .error (.tooDeep location limit))
    (root : d.children.find? Xml.Node.isElement = some (.element head children))
    (plain : head.isPlain "node" = true) :
    ((∃ found, parseBytes options bytes = .error (.structural found)) ↔
        ∃ l ∈ lapsesAmong .node [] children, l.isTold = true) ∧
      (∀ found, parseBytes options bytes = .error (.structural found) →
        found.filter Diagnostic.isFatal = ((lapsesAmong .node [] children).filter Lapse.isTold).map
          (Lapse.diagnostic options.file)) ∧
      (TellsEach options.file (lapsesAmong .node [] children) (parseBytes options bytes) ↔
        ∀ l ∈ lapsesAmong .node [] children, l.isTold = true) := by
  obtain ⟨comment, value, log⟩ := describeDocument_node root plain
  have fatal : (describeDocument d).fatal = tellings (lapsesAmong .node [] children) := by
    rw [Logged.fatal, log]
    exact fatal_describeRoot head children comment
  have read := parseBytes_eq_ofLogged decoded wellFormed shallow
  rw [ofLogged_described value fatal] at read
  generalize lapsesAmong .node [] children = ls at fatal read ⊢
  have reported := filter_isFatal_diagnostics options.file fatal
  by_cases told : ∃ l ∈ ls, l.isTold = true
  · rw [if_pos told] at read
    rw [read]
    refine ⟨iff_of_true ⟨_, rfl⟩ told, fun found same => ?_, ?_⟩
    · obtain rfl := ParseError.structural.inj (Except.error.inj same)
      exact reported
    · constructor
      · intro each
        have many := each.length_le
        rw [reported, List.length_map] at many
        exact List.length_filter_eq_length_iff.1 (le_antisymm (List.length_filter_le ..) many)
      · intro all _
        refine ⟨_, rfl, ?_⟩
        rw [List.filter_eq_self.2 all] at reported
        rw [← reported]
        exact List.filter_sublist.subperm
  · rw [if_neg told] at read
    rw [read]
    refine ⟨iff_of_false nofun told, nofun, ?_⟩
    constructor
    · intro each l hl
      obtain ⟨found, failed, -⟩ := each (List.ne_nil_of_mem hl)
      exact nomatch failed
    · intro all some
      obtain ⟨l, hl⟩ := List.exists_mem_of_ne_nil ls some
      exact absurd ⟨l, hl, all l hl⟩ told

/-- The lapses of a document that is a node, each with whether it is told. -/
def listLapses (bytes : List UInt8) : Option (List (String × String × Bool)) :=
  match Text.Utf8.decode bytes with
  | .error _ => none
  | .ok text =>
    match Xml.Document.parse text with
    | .error _ => none
    | .ok d =>
      match d.children.find? Xml.Node.isElement with
      | some (.element head children) =>
        if head.isPlain "node" then
          some ((lapsesAmong .node [] children).map fun l => (l.head.base, l.attr, l.isTold))
        else none
      | _ => none

theorem of_listLapses {bytes : List UInt8} {listed : List (String × String × Bool)}
    (h : listLapses bytes = some listed) : ∃ text d head children,
      Text.Utf8.decode bytes = .ok text ∧ Xml.Document.parse text = .ok d ∧
      d.children.find? Xml.Node.isElement = some (.element head children) ∧
      head.isPlain "node" = true ∧
      (lapsesAmong .node [] children).map (fun l => (l.head.base, l.attr, l.isTold)) = listed := by
  unfold listLapses at h
  split at h
  · exact nomatch h
  · next text decoded =>
    split at h
    · exact nomatch h
    · next d wellFormed =>
      split at h
      · next head children root =>
        obtain ⟨plain, same⟩ := Option.ite_none_right_eq_some.1 h
        exact ⟨text, d, head, children, decoded, wellFormed, root, plain, Option.some_inj.1 same⟩
      · exact nomatch h

/-- What stands against a document whose structure cannot be trusted. -/
def fatalOf? : Except ParseError Parsed → Option (List Diagnostic)
  | .error (.structural found) => some (found.filter Diagnostic.isFatal)
  | _ => none

theorem of_fatalOf? {outcome : Except ParseError Parsed} {fatal : List Diagnostic}
    (h : fatalOf? outcome = some fatal) : ∃ found, outcome = .error (.structural found) ∧
      found.filter Diagnostic.isFatal = fatal := by
  unfold fatalOf? at h
  split at h
  · next found => exact ⟨found, rfl, Option.some_inj.1 h⟩
  · exact nomatch h

/-- A method without a name, a property with an access that there is not, and an interface without
a name in which nothing is missing. -/
def mutedBell : List UInt8 :=
  Text.Utf8.encode
    ("<node><interface name='o.Bell'><method/><property name='Tone' type='s' access='loud'/>"
      ++ "</interface><interface><method name='Ring'/></interface></node>").toList

theorem mutedBell_told : ∃ text d head children, Text.Utf8.decode mutedBell = .ok text ∧
    Xml.Document.parse text = .ok d ∧
    d.children.find? Xml.Node.isElement = some (.element head children) ∧
    head.isPlain "node" = true ∧ (lapsesAmong .node [] children).length = 3 ∧
    (∃ found, parseBytes {} mutedBell = .error (.structural found)) ∧
    TellsEach none (lapsesAmong .node [] children) (parseBytes {} mutedBell) := by
  have listed : listLapses mutedBell = some [("method", "name", true),
      ("property", "access", true), ("interface", "name", true)] := by
    decide +kernel
  have failed : (fatalOf? (parseBytes {} mutedBell)).isSome = true := by decide +kernel
  obtain ⟨text, d, head, children, decoded, wellFormed, root, plain, lapses⟩ := of_listLapses listed
  obtain ⟨fatal, failed⟩ := Option.isSome_iff_exists.1 failed
  obtain ⟨found, read, -⟩ := of_fatalOf? failed
  have shallow : ∀ location limit, parseBytes {} mutedBell ≠ .error (.tooDeep location limit) := by
    intro location limit deep
    rw [read] at deep
    exact nomatch deep
  have law := parseBytes_lapses_told decoded wellFormed shallow root plain
  have all : ∀ l ∈ lapsesAmong .node [] children, l.isTold = true := by
    intro l hl
    have entry := List.mem_map_of_mem (f := fun l => (l.head.base, l.attr, l.isTold)) hl
    rw [lapses] at entry
    simp only [List.mem_cons, List.not_mem_nil, Prod.mk.injEq, or_false] at entry
    obtain ⟨-, -, told⟩ | ⟨-, -, told⟩ | ⟨-, -, told⟩ := entry <;> exact told
  have three := congrArg List.length lapses
  rw [List.length_map] at three
  exact ⟨text, d, head, children, decoded, wellFormed, root, plain, three, ⟨found, read⟩,
    law.2.2.2 all⟩

/-- A method without a name in an interface without a name. -/
def namelessBell : List UInt8 :=
  Text.Utf8.encode "<node><interface><method/></interface></node>".toList

/-- Not all lapses are told: here there are two, and one fatal diagnostic. -/
theorem namelessBell_hides : ∃ text d head children found,
    Text.Utf8.decode namelessBell = .ok text ∧ Xml.Document.parse text = .ok d ∧
    d.children.find? Xml.Node.isElement = some (.element head children) ∧
    head.isPlain "node" = true ∧ (lapsesAmong .node [] children).length = 2 ∧
    parseBytes {} namelessBell = .error (.structural found) ∧
    (found.filter Diagnostic.isFatal).length = 1 ∧
    ¬ TellsEach none (lapsesAmong .node [] children) (parseBytes {} namelessBell) := by
  have listed : listLapses namelessBell =
      some [("interface", "name", true), ("method", "name", false)] := by
    decide +kernel
  have failed : (fatalOf? (parseBytes {} namelessBell)).map List.length = some 1 := by
    decide +kernel
  obtain ⟨text, d, head, children, decoded, wellFormed, root, plain, lapses⟩ := of_listLapses listed
  obtain ⟨fatal, failed, one⟩ := Option.map_eq_some_iff.1 failed
  obtain ⟨found, read, rfl⟩ := of_fatalOf? failed
  have two := congrArg List.length lapses
  rw [List.length_map] at two
  refine ⟨text, d, head, children, found, decoded, wellFormed, root, plain, two, read, one, ?_⟩
  intro each
  rw [read] at each
  have many := each.length_le
  rw [two, one] at many
  exact absurd many (by decide)

end Document

end ApiDrift.Introspection
