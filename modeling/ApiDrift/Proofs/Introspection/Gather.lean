import ApiDrift.Proofs.Api.Tree
import ApiDrift.Proofs.Introspection.Grammar
import ApiDrift.Proofs.Text.Blank
/-! Children of an element taken in one by one: nothing is found just when all of them fit and none
defines what another one has defined. -/
namespace ApiDrift.Introspection

namespace Logged
variable {α β : Type}

/-- Nothing was found on the way. -/
def Clean (x : Logged α) : Prop := x.log = []

@[simp] theorem clean_pure (a : α) : (pure a : Logged α).Clean := rfl

@[simp] theorem clean_bind {x : Logged α} {f : α → Logged β} :
    (x >>= f).Clean ↔ x.Clean ∧ (f x.value).Clean := List.append_eq_nil_iff

@[simp] theorem not_clean_report (location : Location) (problem : Problem) :
    ¬(report location problem).Clean := List.cons_ne_nil _ _

@[simp] theorem clean_reportWhen {condition : Bool} {location : Location} {problem : Problem} :
    (reportWhen condition location problem).Clean ↔ condition = false := by
  cases condition with
  | true => exact iff_of_false (List.cons_ne_nil _ _) Bool.noConfusion
  | false => exact iff_of_true rfl rfl

theorem bind_assoc {γ : Type} (x : Logged α) (f : α → Logged β) (g : β → Logged γ) :
    x >>= f >>= g = x >>= fun a => f a >>= g := by
  show (⟨_, (x.log ++ (f x.value).log) ++ (g (f x.value).value).log⟩ : Logged γ) = ⟨_, _⟩
  rw [List.append_assoc]
  rfl

end Logged

section Children
variable {names : List String} {place : Place} {children : List Xml.Node}

theorem isDocElement_of_plain {head : Xml.Element} (plain : head.uri = none) :
    isDocElement head = false := by
  rw [isDocElement, plain]
  rfl

theorem childProblem?_eq_none_iff {head : Xml.Element} {below : List Xml.Node} :
    childProblem? names place (.element head below) = none ↔
      (head.uri = none → head.base ∈ names) ∧
        (isDocElement head = true → Text.trim (fullText below) ≠ "") := by
  rw [childProblem?, ne_eq, Text.trim_eq_empty_iff]
  cases doc : isDocElement head with
  | true =>
      have foreign : head.uri ≠ none := fun plain => by
        rw [isDocElement_of_plain plain] at doc
        cases doc
      simp [foreign]
  | false =>
      cases uri : head.uri with
      | none => simp
      | some u => simp

theorem clean_reportChildren_iff : (reportChildren names place children).Clean ↔
    (∀ head below, .element head below ∈ children → head.uri = none → head.base ∈ names) ∧
      ∀ head below, .element head below ∈ children → isDocElement head = true →
        Text.trim (fullText below) ≠ "" := by
  unfold Logged.Clean reportChildren
  dsimp only
  rw [List.filterMap_eq_nil_iff]
  constructor
  · intro nothing
    have each head below (h : .element head below ∈ children) :=
      childProblem?_eq_none_iff.1 (nothing _ h)
    exact ⟨fun head below h => (each head below h).1, fun head below h => (each head below h).2⟩
  · rintro ⟨known, documented⟩ n hn
    cases n with
    | element head below =>
        exact childProblem?_eq_none_iff.2 ⟨known head below hn, documented head below hn⟩
    | text s => rfl
    | comment s location => rfl
    | instruction => rfl

theorem isAccepted_iff {head : Xml.Element} :
    isAccepted names head = true ↔ head.uri = none ∧ head.base ∈ names := by
  rw [isAccepted, Bool.and_eq_true, Bool.and_eq_true, Bool.not_eq_true', Option.isNone_iff_eq_none,
    List.contains_iff_mem]
  exact ⟨fun h => ⟨h.1.2, h.2⟩, fun h => ⟨⟨isDocElement_of_plain h.1, h.1⟩, h.2⟩⟩

theorem of_mem_acceptedChildren {pending : Option Documentation} {c : Child}
    (h : c ∈ acceptedChildren names pending children) :
    .element c.head c.children ∈ children ∧ c.head.uri = none ∧ c.head.base ∈ names := by
  induction children generalizing pending with
  | nil => exact absurd h List.not_mem_nil
  | cons n rest ih =>
      cases n with
      | element head below =>
          simp only [acceptedChildren] at h
          split at h
          · next accepted =>
            obtain rfl | h := List.mem_cons.1 h
            · exact ⟨.head rest, isAccepted_iff.1 accepted⟩
            · exact (ih h).imp_left (.tail _)
          · exact (ih h).imp_left (.tail _)
      | text s => exact (ih h).imp_left (.tail _)
      | comment s location => exact (ih h).imp_left (.tail _)
      | instruction => exact (ih h).imp_left (.tail _)

theorem exists_mem_acceptedChildren (pending : Option Documentation) {head : Xml.Element}
    {below : List Xml.Node} (h : .element head below ∈ children) (plain : head.uri = none)
    (known : head.base ∈ names) :
    ∃ comment, ⟨head, below, comment⟩ ∈ acceptedChildren names pending children := by
  induction children generalizing pending with
  | nil => exact absurd h List.not_mem_nil
  | cons n rest ih =>
      simp only [acceptedChildren]
      obtain rfl | h := List.mem_cons.1 h
      · dsimp only
        rw [if_pos (isAccepted_iff.2 ⟨plain, known⟩)]
        exact ⟨pending, .head _⟩
      · obtain ⟨comment, later⟩ := ih (pendingAfter pending n) h
        refine ⟨comment, ?_⟩
        split
        · split
          · exact .tail _ later
          · exact later
        · exact later

/-- Every child element of one of these names and of no namespace is as said. -/
def EachOf (names : List String) (P : Xml.Element → List Xml.Node → Prop)
    (children : List Xml.Node) : Prop :=
  ∀ head below, .element head below ∈ children → head.uri = none → head.base ∈ names → P head below

theorem eachOf_and_iff {P Q : Xml.Element → List Xml.Node → Prop} :
    EachOf names (fun head below => P head below ∧ Q head below) children ↔
      EachOf names P children ∧ EachOf names Q children := by
  constructor
  · intro both
    exact ⟨fun head below h plain known => (both head below h plain known).1,
      fun head below h plain known => (both head below h plain known).2⟩
  · rintro ⟨first, second⟩ head below h plain known
    exact ⟨first head below h plain known, second head below h plain known⟩

theorem eachOf_named_iff {P : Xml.Element → List Xml.Node → Prop} {name : String}
    (own : name ∈ names) :
    EachOf names (fun head below => head.base = name → P head below) children ↔
      Each name P children := by
  constructor
  · intro all head below h plain base
    exact all head below h plain (base ▸ own) base
  · exact fun all head below h plain _ => all head below h plain

theorem forall_acceptedChildren_iff {P : Xml.Element → List Xml.Node → Prop}
    {pending : Option Documentation} :
    (∀ c ∈ acceptedChildren names pending children, P c.head c.children) ↔
      EachOf names P children := by
  constructor
  · intro all head below h plain known
    obtain ⟨comment, h⟩ := exists_mem_acceptedChildren pending h plain known
    exact all _ h
  · intro all c hc
    obtain ⟨h, plain, known⟩ := of_mem_acceptedChildren hc
    exact all c.head c.children h plain known

/-- What a child defines among its siblings. -/
def Child.definition? (c : Child) : Option (String × String) := defines? c.head

theorem filterMap_acceptedChildren {pending : Option Documentation}
    (known : ∀ head below, .element head below ∈ children → head.uri = none → head.base ∈ names) :
    (acceptedChildren names pending children).filterMap Child.definition? =
      children.filterMap definition? := by
  induction children generalizing pending with
  | nil => rfl
  | cons n rest ih =>
      replace ih {p} := @ih p fun head below h => known head below (.tail _ h)
      cases n with
      | element head below =>
          simp only [acceptedChildren]
          split
          · next accepted =>
            rw [List.filterMap_cons, List.filterMap_cons, definition?,
              if_pos (isAccepted_iff.1 accepted).1, ih, Child.definition?]
          · next refused =>
            have foreign : head.uri ≠ none := fun plain =>
              refused (isAccepted_iff.2 ⟨plain, known head below (.head _) plain⟩)
            rw [List.filterMap_cons, definition?, if_neg foreign, ih]
      | text s => exact ih
      | comment s location => exact ih
      | instruction => exact ih

end Children

theorem mem_defines?_iff {head : Xml.Element} (named : head.base ≠ "arg") {d : String × String} :
    d ∈ defines? head ↔ d.1 = head.base ∧ d.2 ∈ head.attribute? "name" := by
  rw [defines?, if_neg named, Option.mem_def, Option.map_eq_some_iff]
  constructor
  · rintro ⟨name, found, rfl⟩
    exact ⟨rfl, found⟩
  · rintro ⟨kind, found⟩
    exact ⟨d.2, found, Prod.ext kind.symm rfl⟩

section Collects
variable {σ : Type} {known : σ → List (String × String)}

/-- A step after `s` finds nothing just when its element fits and defines something new, which is
known from then on. -/
structure Takes (known : σ → List (String × String)) (s : σ) (head : Xml.Element) (Fits : Prop)
    (x : Logged σ) : Prop where
  clean_iff : x.Clean ↔ Fits ∧ ∀ d ∈ defines? head, d ∉ known s
  known_iff : x.Clean → ∀ d, d ∈ known x.value ↔ d ∈ known s ∨ d ∈ defines? head

theorem Takes.of_iff {s : σ} {head : Xml.Element} {Fits Other : Prop} {x : Logged σ}
    (h : Takes known s head Other x) (same : Fits ↔ Other) : Takes known s head Fits x := by
  rwa [← propext same] at h

theorem Takes.within {τ : Type} {s : σ} {head : Xml.Element} {Fits : Prop} {x : Logged σ}
    (h : Takes known s head Fits x) (whole : τ → List (String × String)) (put : σ → τ)
    (others : List (String × String)) (split : ∀ s, whole (put s) = others ++ known s)
    (foreign : ∀ d ∈ defines? head, d ∉ others) :
    Takes whole (put s) head Fits (x >>= fun s => pure (put s)) := by
  constructor
  · rw [Logged.clean_bind, and_iff_left (Logged.clean_pure _), h.clean_iff]
    refine and_congr_right fun _ => forall₂_congr fun d hd => ?_
    rw [split, List.mem_append, or_iff_right (foreign d hd)]
  · intro clean d
    have remembered := h.known_iff (Logged.clean_bind.1 clean).1 d
    rw [Logged.value_bind, Logged.value_pure, split, split, List.mem_append, List.mem_append,
      remembered, or_assoc]

theorem Takes.cons_iff {s : σ} {head : Xml.Element} {Fits : Prop} {x : Logged σ}
    (h : Takes known s head Fits x) (l : List (String × String)) :
    (x.Clean ∧ (∀ d ∈ l, d ∉ known x.value) ∧ l.Nodup) ↔
      Fits ∧ (∀ d ∈ (defines? head).toList ++ l, d ∉ known s) ∧
        ((defines? head).toList ++ l).Nodup := by
  have clean_iff := h.clean_iff
  have known_iff := h.known_iff
  cases defined : defines? head with
  | none =>
      simp only [defined, Option.not_mem_none, or_false, false_implies, implies_true,
        and_true] at clean_iff known_iff
      rw [Option.toList_none, List.nil_append, clean_iff]
      refine and_congr_right fun fits => ?_
      simp only [known_iff (clean_iff.2 fits)]
  | some d =>
      simp only [defined, Option.mem_some_iff, forall_eq'] at clean_iff known_iff
      rw [Option.toList_some, List.singleton_append, List.forall_mem_cons, List.nodup_cons, clean_iff,
        and_assoc, and_assoc]
      refine and_congr_right fun fits => and_congr_right fun fresh => ?_
      simp only [known_iff (clean_iff.2 ⟨fits, fresh⟩), not_or]
      constructor
      · rintro ⟨unknown, apart⟩
        exact ⟨fun e he => (unknown e he).1, fun hd => (unknown d hd).2 rfl, apart⟩
      · rintro ⟨unknown, absent, apart⟩
        refine ⟨fun e he => ⟨unknown e he, ?_⟩, apart⟩
        rintro rfl
        exact absent he

theorem value_foldlM_kept {κ : Type} {step : σ → Child → Logged σ} {key : σ → κ}
    (kept : ∀ s c, key (step s c).value = key s) (l : List Child) (s : σ) :
    key (l.foldlM step s).value = key s := by
  induction l generalizing s with
  | nil => rfl
  | cons c rest ih =>
      rw [List.foldlM_cons, Logged.value_bind, ih, kept]

/-- Every step over the accepted children takes its child. What fits does not change meanwhile. -/
structure Collects (names : List String) (children : List Xml.Node) (step : σ → Child → Logged σ)
    (known : σ → List (String × String)) (Fits : σ → Xml.Element → List Xml.Node → Prop) :
    Prop where
  takes : ∀ s c, .element c.head c.children ∈ children → c.head.uri = none →
    c.head.base ∈ names → Takes known s c.head (Fits s c.head c.children) (step s c)
  fits_step : ∀ s c, Fits (step s c).value = Fits s

namespace Collects
variable {names : List String} {children : List Xml.Node} {step : σ → Child → Logged σ}
  {Fits : σ → Xml.Element → List Xml.Node → Prop}

theorem clean_foldlM_iff (h : Collects names children step known Fits) {l : List Child} {s : σ}
    (inside : ∀ c ∈ l, .element c.head c.children ∈ children ∧ c.head.uri = none ∧
      c.head.base ∈ names) :
    (l.foldlM step s).Clean ↔ (∀ c ∈ l, Fits s c.head c.children) ∧
      (∀ d ∈ l.filterMap Child.definition?, d ∉ known s) ∧
      (l.filterMap Child.definition?).Nodup := by
  induction l generalizing s with
  | nil =>
      exact iff_of_true rfl ⟨List.forall_mem_nil _, List.forall_mem_nil _, List.nodup_nil⟩
  | cons c rest ih =>
      have ⟨own, others⟩ := List.forall_mem_cons.1 inside
      have taken := h.takes s c own.1 own.2.1 own.2.2
      have split : (c :: rest).filterMap Child.definition? =
          (defines? c.head).toList ++ rest.filterMap Child.definition? := by
        rw [List.filterMap_cons, Child.definition?]
        cases defines? c.head <;> rfl
      rw [List.foldlM_cons, Logged.clean_bind, ih others, h.fits_step, and_left_comm,
        taken.cons_iff, split, List.forall_mem_cons, and_left_comm, and_assoc]

theorem clean_children_iff (h : Collects names children step known Fits) (s : σ) (place : Place)
    (pending : Option Documentation) (new : known s = []) :
    (reportChildren names place children).Clean ∧
        ((acceptedChildren names pending children).foldlM step s).Clean ↔
      Tidy names children ∧ EachOf names (Fits s) children := by
  rw [h.clean_foldlM_iff fun _ => of_mem_acceptedChildren, clean_reportChildren_iff,
    forall_acceptedChildren_iff]
  constructor
  · rintro ⟨⟨known, documented⟩, fits, -, apart⟩
    rw [filterMap_acceptedChildren known] at apart
    exact ⟨⟨known, documented, apart⟩, fits⟩
  · rintro ⟨tidy, fits⟩
    rw [filterMap_acceptedChildren tidy.known, new]
    exact ⟨⟨tidy.known, tidy.documented⟩, fits, fun _ _ => List.not_mem_nil, tidy.apart⟩

end Collects
end Collects

/-- Definitions of one kind. -/
def definitions (kind : String) (names : List String) : List (String × String) :=
  names.map (Prod.mk kind)

theorem mem_definitions_iff {kind : String} {names : List String} {d : String × String} :
    d ∈ definitions kind names ↔ d.1 = kind ∧ d.2 ∈ names := by
  rw [definitions, List.mem_map]
  constructor
  · rintro ⟨name, hn, rfl⟩
    exact ⟨rfl, hn⟩
  · rintro ⟨rfl, hn⟩
    exact ⟨d.2, hn, rfl⟩

theorem mem_definitions_concat_iff {kind name : String} {names : List String}
    {d : String × String} :
    d ∈ definitions kind (names ++ [name]) ↔ d ∈ definitions kind names ∨ d = (kind, name) := by
  rw [definitions, List.map_append, List.mem_append]
  exact or_congr_right List.mem_singleton

theorem takes_described {σ α : Type} {known : σ → List (String × String)} {s : σ}
    {head : Xml.Element} {Fits : Prop} {describe : Logged α} {next : α → Logged σ}
    (fits : describe.Clean ↔ Fits)
    (described : describe.Clean → ∃ d t isKnown location problem, defines? head = some d ∧
      next describe.value = (do
        Logged.reportWhen isKnown location problem
        pure (if isKnown then s else t)) ∧
      (isKnown = true ↔ d ∈ known s) ∧ ∀ e, e ∈ known t ↔ e ∈ known s ∨ e = d) :
    Takes known s head Fits (describe >>= next) := by
  by_cases clean : describe.Clean
  · obtain ⟨d, t, isKnown, location, problem, defined, taken, isKnown_iff, added⟩ :=
      described clean
    constructor
    · rw [Logged.clean_bind, taken, ← fits, defined]
      simp only [clean, Logged.clean_bind, Logged.clean_reportWhen, Logged.clean_pure,
        Option.mem_some_iff, forall_eq', true_and, and_true, ← isKnown_iff, Bool.not_eq_true]
    · intro all e
      rw [Logged.clean_bind, taken] at all
      obtain rfl : isKnown = false := Logged.clean_reportWhen.1 (Logged.clean_bind.1 all.2).1
      rw [Logged.value_bind, taken, defined, Option.mem_some_iff, @eq_comm _ d e]
      exact added e
  · constructor
    · refine iff_of_false (fun all => clean (Logged.clean_bind.1 all).1) fun h => ?_
      exact clean (fits.2 h.1)
    · exact fun all => absurd (Logged.clean_bind.1 all).1 clean

theorem takes_named {σ α : Type} {known : σ → List (String × String)} {s : σ} {head : Xml.Element}
    {kind : String} {Fits : Prop} {describe : Logged (Option α)} {next : Option α → Logged σ}
    {f : α → String} {l : List α} {put : α → σ} {location : α → Location} {problem : α → Problem}
    (base : head.base = kind) (own : kind ≠ "arg") (fits : describe.Clean ↔ Fits)
    (some_name : Fits → ∃ name, head.attribute? "name" = some name)
    (described : describe.Clean → describe.value.map f = head.attribute? "name")
    (added : ∀ x, next (some x) = (do
      Logged.reportWhen (l.find? fun y => f y == f x).isSome (location x) (problem x)
      pure (if (l.find? fun y => f y == f x).isSome then s else put x)))
    (held : ∀ name, (kind, name) ∈ known s ↔ name ∈ l.map f)
    (put_known : ∀ x e, e ∈ known (put x) ↔ e ∈ known s ∨ e = (kind, f x)) :
    Takes known s head Fits (describe >>= next) := by
  refine takes_described fits fun clean => ?_
  obtain ⟨name, named⟩ := some_name (fits.1 clean)
  obtain ⟨x, value, rfl⟩ := Option.map_eq_some_iff.1 ((described clean).trans named)
  refine ⟨(kind, f x), put x, _, _, _, ?_, by rw [value, added], ?_, put_known x⟩
  · rw [defines?, base, if_neg own, named]
    rfl
  · rw [held, isSome_find?_key_iff]

end ApiDrift.Introspection
