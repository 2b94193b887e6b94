import ApiDrift.Proofs.Introspection.Account
import ApiDrift.Proofs.Introspection.Layout
/-! Diagnostics and the order of their document. They come in it but for two kinds of pairs: what
shows only when an element is done with is told after what is told inside it, and a child that does
not belong in an element is told before what is told of the children ahead of it. -/
namespace ApiDrift.Introspection

open Xml (beginsAmong)

section Notions

/-- Of two findings in a document the first is told first, though the second stands before it. -/
inductive Overtakes (elements : List Placed) (f g : Finding) : Prop where
  /-- The second one shows when an element is done with, and the first one stands inside. -/
  | inside {q : Placed} (element : q ∈ elements) (late : g.IsOf q .leaving)
      (within : f.location ∈ beginsAmong q.children)
  /-- The first one is of a child that does not belong there, and the second one is told of an
  earlier child, or inside it, unless it is of the same kind. -/
  | ahead {q r : Placed} (element : q ∈ elements) (earlier : r ∈ placedAfter [] q.before)
      (stray : f.IsOf q .sorting) (told : g.location ∈ r.places) (other : ¬g.IsOf r .sorting)

/-- One finding can be told after another: it stands there or later, or has been overtaken, and
does not overtake itself. -/
structure Follows (elements : List Placed) (f g : Finding) : Prop where
  ordered : f.location ≤ g.location ∨ Overtakes elements f g
  direct : ¬Overtakes elements g f

end Notions

section Findings
variable {l : List Xml.Node} {p q r s t : Placed} {f g : Finding}

/-- A finding of an element or of what is in it, and of what is in it if it is of a child that does
not belong there. -/
structure Finding.IsIn (f : Finding) (p : Placed) : Prop where
  located : f.location ∈ p.places
  stray : f.problem.moment = .sorting → f.location ∈ beginsAmong p.children

theorem Finding.IsOf.isIn {m : Moment} (h : f.IsOf p m) (other : m ≠ .sorting) : f.IsIn p :=
  ⟨List.mem_cons.2 (.inl h.location), fun stray => absurd (h.moment.symm.trans stray) other⟩

theorem Finding.IsIn.location_mem_begins (h : f.IsIn q) (hq : q ∈ placedAmong [] p.children) :
    f.location ∈ beginsAmong p.children := places_subset_begins hq h.located

theorem Finding.IsIn.outward (h : f.IsIn q) (hq : q ∈ placedAmong [] p.children) : f.IsIn p :=
  ⟨.tail _ (h.location_mem_begins hq), fun _ => h.location_mem_begins hq⟩

theorem Account.isIn {told : List Finding} (h : Account p told) : ∀ f ∈ told, f.IsIn p := by
  induction h with
  | @intro p opening strays closing inside opens sorts placed children each closes ih =>
      refine List.forall_mem_append.2 ⟨fun f hf => (opens f hf).isIn (by decide),
        List.forall_mem_append.2 ⟨fun f hf => ?_, List.forall_mem_append.2
          ⟨List.forall_mem_flatMap.2 fun e he f hf => ?_, fun f hf => ?_⟩⟩⟩
      · obtain ⟨s, hs, place⟩ := List.mem_map.1 (placed.mem (List.mem_map_of_mem hf))
        have here := location_mem_begins (placedAfter_subset hs)
        rw [place] at here
        exact ⟨.tail _ here, fun _ => here⟩
      · exact (ih e he f hf).outward
          (placedAfter_subset (children.mem (List.mem_map_of_mem he)))
      · exact (closes f hf).isIn (by decide)

variable (ascends : (beginsAmong l).Pairwise (· < ·))
include ascends

theorem location_not_mem_begins (hp : p ∈ placedAmong [] l) :
    p.head.location ∉ beginsAmong p.children := fun inside =>
  lt_irrefl _ ((ascending_of_mem ascends hp).lt inside)

theorem begins_subset_begins (hp : p ∈ placedAmong [] l) (hq : q ∈ placedAmong [] l)
    (within : q.head.location ∈ p.places) : beginsAmong q.children ⊆ beginsAmong p.children := by
  rcases List.mem_cons.1 within with same | inside
  · rw [eq_of_location_eq ascends hq hp same]
    exact List.Subset.refl _
  · have inner := mem_placedAmong_of_location ascends hp hq inside
    exact fun a ha => places_subset_begins inner (.tail _ ha)

/-- The siblings ahead of a child that does not belong in an element are in it as well. -/
theorem places_subset_of_stray (hp : p ∈ placedAmong [] l) (hq : q ∈ placedAmong [] l)
    (hg : g.IsIn p) (stray : g.IsOf q .sorting) (earlier : r ∈ placedAfter [] q.before) :
    r.places ⊆ beginsAmong p.children := by
  have within := hg.stray stray.moment
  rw [stray.location] at within
  have inner := (ascending_of_mem ascends hp).inside
  exact places_subset_begins (before_of_mem_placedAfter inner
    (mem_placedAmong_of_location ascends hp hq within) earlier).1

theorem Overtakes.lt (h : Overtakes (placedAmong [] l) f g) : g.location < f.location := by
  cases h with
  | inside element late within =>
      rw [late.location]
      exact (ascending_of_mem ascends element).lt within
  | ahead element earlier stray told other =>
      rw [stray.location]
      exact (before_of_mem_placedAfter ascends element earlier).2 _ told _ (.head _)

theorem follows_of_entering (hp : p ∈ placedAmong [] l) (hf : f.IsOf p .entering)
    (hg : g.IsIn p) : Follows (placedAmong [] l) f g where
  ordered := by
    rw [hf.location]
    exact .inl ((ascending_of_mem ascends hp).le hg.located)
  direct := by
    rintro (⟨_, late, _⟩ | ⟨element, earlier, stray, told, -⟩)
    · exact nomatch hf.moment.symm.trans late.moment
    · rw [hf.location] at told
      exact location_not_mem_begins ascends hp
        (places_subset_of_stray ascends hp element hg stray earlier told)

theorem follows_of_leaving (hp : p ∈ placedAmong [] l) (hf : f.IsIn p)
    (hg : g.IsOf p .leaving) : Follows (placedAmong [] l) f g where
  ordered := by
    rcases List.mem_cons.1 hf.located with here | inside
    · exact .inl (here.trans hg.location.symm).le
    · exact .inr (.inside hp hg inside)
  direct := by
    rintro (⟨element, late, within⟩ | ⟨_, _, stray, _, _⟩)
    · have located := hf.located
      rw [late.location] at located
      rw [hg.location] at within
      exact location_not_mem_begins ascends hp
        (begins_subset_begins ascends hp element located within)
    · exact nomatch hg.moment.symm.trans stray.moment

theorem follows_of_strays (hp : p ∈ placedAmong [] l) (hs : s ∈ placedAfter [] p.children)
    (ht : t ∈ placedAfter [] p.children) (hf : f.IsOf s .sorting) (hg : g.IsOf t .sorting)
    (less : s.head.location < t.head.location) : Follows (placedAmong [] l) f g where
  ordered := by
    rw [hf.location, hg.location]
    exact .inl less.le
  direct := by
    rintro (⟨_, late, _⟩ | ⟨element, earlier, stray, told, other⟩)
    · exact nomatch hf.moment.symm.trans late.moment
    · have inner := (ascending_of_mem ascends hp).inside
      have here := placedAmong_subset hp (placedAfter_subset ht)
      obtain rfl := eq_of_location_eq ascends element here
        (stray.location.symm.trans hg.location)
      have sibling := ((mem_placedAfter_before_iff inner ht).1 earlier).1
      rw [hf.location] at told
      exact other (eq_of_mem_places inner hs sibling (.head _) told ▸ hf)

/-- A child that does not belong in an element is told of before what is told of its siblings. -/
theorem follows_of_stray (hp : p ∈ placedAmong [] l) (hs : s ∈ placedAfter [] p.children)
    (hq : q ∈ placedAfter [] p.children) (hf : f.IsOf s .sorting) (hg : g.IsIn q) :
    Follows (placedAmong [] l) f g := by
  have inner := (ascending_of_mem ascends hp).inside
  have here := placedAmong_subset hp (placedAfter_subset hq)
  refine ⟨?_, ?_⟩
  · rcases le_or_gt f.location g.location with le | less
    · exact .inl le
    · rw [hf.location] at less
      have ahead : q.head.location < s.head.location :=
        lt_of_le_of_lt ((ascending_of_mem ascends here).le hg.located) less
      refine .inr (.ahead (placedAmong_subset hp (placedAfter_subset hs))
        ((mem_placedAfter_before_iff inner hs).2 ⟨hq, ahead⟩) hf hg.located fun own => ?_)
      have within := hg.stray own.moment
      rw [own.location] at within
      exact location_not_mem_begins ascends here within
  · rintro (⟨_, late, _⟩ | ⟨element, earlier, stray, told, -⟩)
    · exact nomatch hf.moment.symm.trans late.moment
    · have within := places_subset_of_stray ascends here element hg stray earlier told
      rw [hf.location] at within
      obtain rfl := eq_of_mem_places inner hs hq (.head _) (.tail _ within)
      exact location_not_mem_begins ascends here within

theorem follows_of_before (hq : q ∈ placedAmong [] l) (hr : r ∈ placedAmong [] l)
    (apart : Before q.places r.places) (hf : f.IsIn q) (hg : g.IsIn r) :
    Follows (placedAmong [] l) f g where
  ordered := .inl (apart _ hf.located _ hg.located).le
  direct := by
    rintro (⟨element, late, within⟩ | ⟨element, earlier, stray, told, -⟩)
    · have located := hf.located
      rw [late.location] at located
      have inside := begins_subset_begins ascends hq element located within
      exact lt_irrefl _ (apart _ (.tail _ inside) _ hg.located)
    · have inside := places_subset_of_stray ascends hr element hg stray earlier told
      exact lt_irrefl _ (apart _ hf.located _ (.tail _ inside))

theorem Account.follows {told : List Finding} (h : Account p told) (hp : p ∈ placedAmong [] l) :
    told.Pairwise (Follows (placedAmong [] l)) := by
  induction h with
  | @intro p opening strays closing inside opens sorts placed children each closes ih =>
      have inner := (ascending_of_mem ascends hp).inside
      have whole := (Account.intro opens sorts placed children each closes).isIn
      obtain ⟨ofOpening, ofRest⟩ := List.forall_mem_append.1 whole
      obtain ⟨ofStrays, ofLast⟩ := List.forall_mem_append.1 ofRest
      obtain ⟨ofInside, ofClosing⟩ := List.forall_mem_append.1 ofLast
      have child : ∀ e ∈ inside, e.1 ∈ placedAfter [] p.children := fun e he =>
        children.mem (List.mem_map_of_mem he)
      have stray : ∀ f ∈ strays, ∃ s ∈ placedAfter [] p.children, f.IsOf s .sorting := by
        intro f hf
        obtain ⟨s, hs, place⟩ := List.mem_map.1 (placed.mem (List.mem_map_of_mem hf))
        exact ⟨s, hs, sorts f hf, place.symm⟩
      have opened : ∀ f ∈ opening, ∀ g, g.IsIn p → Follows (placedAmong [] l) f g :=
        fun f hf g hg => follows_of_entering ascends hp (opens f hf) hg
      have closed : ∀ f, f.IsIn p → ∀ g ∈ closing, Follows (placedAmong [] l) f g :=
        fun f hf g hg => follows_of_leaving ascends hp hf (closes g hg)
      refine List.pairwise_append.2 ⟨?opening, List.pairwise_append.2 ⟨?strays,
        List.pairwise_append.2 ⟨List.pairwise_flatMap.2 ⟨?each, ?inside⟩, ?closing, ?leaving⟩,
        ?sorting⟩, ?entering⟩
      case opening =>
        exact List.pairwise_of_forall_mem_list fun f hf g hg => opened f hf g (ofOpening g hg)
      case entering => exact fun f hf g hg => opened f hf g (ofRest g hg)
      case strays =>
        have sorted : (strays.map Finding.location).Pairwise (· < ·) :=
          inner.sublist (placed.trans (heads_sublist [] p.children))
        refine (List.pairwise_map.1 sorted).imp_of_mem fun {f g} hf hg less => ?_
        obtain ⟨s, hs, own⟩ := stray f hf
        obtain ⟨t, ht, its⟩ := stray g hg
        rw [own.location, its.location] at less
        exact follows_of_strays ascends hp hs ht own its less
      case sorting =>
        intro f hf g hg
        rcases List.mem_append.1 hg with hg | hg
        · obtain ⟨s, hs, own⟩ := stray f hf
          obtain ⟨e, he, hg⟩ := List.mem_flatMap.1 hg
          exact follows_of_stray ascends hp hs (child e he) own ((each e he).isIn g hg)
        · exact closed f (ofStrays f hf) g hg
      case each =>
        exact fun e he => ih e he (placedAmong_subset hp (placedAfter_subset (child e he)))
      case inside =>
        have apart := List.pairwise_map.1 ((placedAfter_before inner).sublist children)
        refine apart.imp_of_mem fun {d e} hd he before f hf g hg => ?_
        exact follows_of_before ascends
          (placedAmong_subset hp (placedAfter_subset (child d hd)))
          (placedAmong_subset hp (placedAfter_subset (child e he))) before
          ((each d hd).isIn f hf) ((each e he).isIn g hg)
      case leaving => exact fun f hf g hg => closed f (ofInside f hf) g hg
      case closing =>
        exact List.pairwise_of_forall_mem_list fun f hf g hg => closed f (ofClosing f hf) g hg

theorem ordered_iff_none_overtakes {told : List Finding}
    (follows : told.Pairwise (Follows (placedAmong [] l))) :
    (told.map Finding.location).Pairwise (· ≤ ·) ↔
      ∀ f ∈ told, ∀ g ∈ told, ¬Overtakes (placedAmong [] l) f g := by
  rw [List.pairwise_map]
  constructor
  · intro ordered
    have symm : Std.Symm fun f g : Finding => ¬Overtakes (placedAmong [] l) f g ∧
        ¬Overtakes (placedAmong [] l) g f := ⟨fun _ _ h => h.symm⟩
    have neither : told.Pairwise fun f g => ¬Overtakes (placedAmong [] l) f g ∧
        ¬Overtakes (placedAmong [] l) g f :=
      (ordered.and follows).imp fun h =>
        ⟨fun passed => absurd h.1 (passed.lt ascends).not_ge, h.2.direct⟩
    have itself (f : Finding) : ¬Overtakes (placedAmong [] l) f f :=
      fun passed => lt_irrefl _ (passed.lt ascends)
    exact fun f hf g hg => (neither.forall_of_forall (fun f _ => ⟨itself f, itself f⟩) hf hg).1
  · intro none
    exact follows.imp_of_mem fun hf hg h => h.ordered.resolve_right (none _ hf _ hg)

end Findings

section Document
variable {d : Xml.Document}

/-- What is told of a document is told of its document element, and then of an element in it. -/
theorem account_describeDocument (d : Xml.Document) : (describeDocument d).log = [] ∨
    ∃ root ∈ placedAfter [] d.children, ∃ opening told p,
      (describeDocument d).log = opening ++ told ∧ (∀ f ∈ opening, f.IsOf root .entering) ∧
      p ∈ root :: placedAmong [] root.children ∧ Account p told := by
  have outer := rootElement?_eq_head? [] d.children
  rw [List.reverse_nil] at outer
  unfold describeDocument
  rw [outer]
  cases first : (placedAfter [] d.children).head? with
  | none => exact .inl rfl
  | some root =>
      have inner := findElement?_eq_find? "node" root.before (.element root.head root.children)
      rw [placedAt] at inner
      simp only [Option.map_some]
      rw [inner]
      refine .inr ⟨root, List.mem_of_mem_head? first, ?_⟩
      cases found : (root :: placedAmong [] root.children).find? fun p => p.head.isPlain "node" with
      | none =>
          refine ⟨_, [], root, (List.append_nil _).symm, ?_, .head _, .nil⟩
          simp only [Option.map_none]
          split
          · exact Logged.tellsOf_bind.2 ⟨Logged.tellsOf_report.2 ⟨rfl, rfl⟩,
              Logged.tellsOf_bind.2 ⟨Logged.tellsOf_report.2 ⟨rfl, rfl⟩, Logged.tellsOf_pure none⟩⟩
          · exact Logged.tellsOf_bind.2
              ⟨Logged.tellsOf_report.2 ⟨rfl, rfl⟩, Logged.tellsOf_pure none⟩
      | some p =>
          have within := List.mem_of_find?_eq_some found
          have own := account_describeRoot p
          rw [← List.append_nil (Logged.log _)] at own
          simp only [Option.map_some]
          split
          · exact ⟨[_], _, p, rfl, (Logged.tellsOf_report.2 ⟨rfl, rfl⟩ :), within, own⟩
          · exact ⟨[], _, p, rfl, List.forall_mem_nil _, within, own⟩

theorem follows_describeDocument (ascends : (beginsAmong d.children).Pairwise (· < ·)) :
    (describeDocument d).log.Pairwise (Follows (placedAmong [] d.children)) := by
  rcases account_describeDocument d with nothing | found
  · rw [nothing]
    exact .nil
  · obtain ⟨root, first, opening, told, p, log, opens, hp, own⟩ := found
    have here := placedAfter_subset first
    have within : p ∈ placedAmong [] d.children ∧ ∀ f ∈ told, f.IsIn root := by
      rcases List.mem_cons.1 hp with rfl | below
      · exact ⟨here, own.isIn⟩
      · exact ⟨placedAmong_subset here below, fun f hf => (own.isIn f hf).outward below⟩
    rw [log]
    refine List.pairwise_append.2 ⟨?_, own.follows ascends within.1, fun f hf g hg => ?_⟩
    · refine List.pairwise_of_forall_mem_list fun f hf g hg => ?_
      exact follows_of_entering ascends here (opens f hf) ((opens g hg).isIn (by decide))
    · exact follows_of_entering ascends here (opens f hf) (within.2 g hg)

/-- What was found, where a reading tells it. -/
def diagnostics? : Except ParseError Parsed → Option (List Diagnostic)
  | .ok p => some p.diagnostics
  | .error (.structural found) => some found
  | .error _ => none

/-- Diagnostics that all have a place and come in the order of these places. -/
def InDocumentOrder (found : List Diagnostic) : Prop :=
  ∃ places : List Location,
    found.map Diagnostic.location = places.map some ∧ places.Pairwise (· ≤ ·)

theorem diagnostics?_ofLogged (file : Option String) (found : Logged (Option Node)) :
    diagnostics? (Parsed.ofLogged file found) =
      some (found.log.map (Finding.toDiagnostic file)) := by
  unfold Parsed.ofLogged
  split
  · rfl
  · split <;> rfl

theorem inDocumentOrder_map_iff {file : Option String} {told : List Finding} :
    InDocumentOrder (told.map (Finding.toDiagnostic file)) ↔
      (told.map Finding.location).Pairwise (· ≤ ·) := by
  have located : (told.map (Finding.toDiagnostic file)).map Diagnostic.location =
      (told.map Finding.location).map some := by
    rw [List.map_map, List.map_map]
    rfl
  rw [InDocumentOrder, located]
  constructor
  · rintro ⟨places, same, ordered⟩
    rwa [(List.map_inj_right fun _ _ => Option.some.inj).1 same]
  · exact fun ordered => ⟨_, rfl, ordered⟩

theorem moment_of_fatal {problem : Problem} (fatal : problem.severity = .fatal) :
    problem.moment = .entering := by
  cases problem <;> first | rfl | exact nomatch fatal

theorem Follows.le {elements : List Placed} {f g : Finding} (h : Follows elements f g)
    (hf : f.problem.moment = .entering) (hg : g.problem.moment = .entering) :
    f.location ≤ g.location := by
  refine h.ordered.resolve_right ?_
  rintro (⟨_, late, _⟩ | ⟨_, _, stray, _, _⟩)
  · exact nomatch hg.symm.trans late.moment
  · exact nomatch hf.symm.trans stray.moment

/-- The diagnostics of a document without a document type are in its order just when none overtakes
another, and the fatal ones always are. -/
theorem parseBytes_diagnostics_ordered {options : Options} {bytes : List UInt8} {text : List Char}
    {d : Xml.Document} {found : List Diagnostic} (decoded : Text.Utf8.decode bytes = .ok text)
    (wellFormed : Xml.Document.parse text = .ok d) (plain : hasDoctype text = false)
    (read : diagnostics? (parseBytes options bytes) = some found) :
    found = (describeDocument d).log.map (Finding.toDiagnostic options.file) ∧
      (InDocumentOrder found ↔ ∀ f ∈ (describeDocument d).log, ∀ g ∈ (describeDocument d).log,
        ¬Overtakes (placedAmong [] d.children) f g) ∧
      InDocumentOrder (found.filter Diagnostic.isFatal) := by
  have shallow : ∀ location limit, parseBytes options bytes ≠ .error (.tooDeep location limit) := by
    intro location limit deep
    rw [deep] at read
    exact nomatch read
  rw [parseBytes_eq_ofLogged decoded wellFormed shallow, diagnostics?_ofLogged] at read
  obtain rfl := Option.some_inj.1 read
  have ascends := begins_ascending wellFormed plain
  have follows := follows_describeDocument ascends
  refine ⟨rfl, ?_, ?_⟩
  · rw [inDocumentOrder_map_iff, ordered_iff_none_overtakes ascends follows]
  · have same : Diagnostic.isFatal ∘ Finding.toDiagnostic options.file = Finding.isFatal := rfl
    rw [List.filter_map, same, inDocumentOrder_map_iff, List.pairwise_map]
    refine (follows.filter _).imp_of_mem fun hf hg h => ?_
    exact h.le (moment_of_fatal (eq_of_beq (List.mem_filter.1 hf).2))
      (moment_of_fatal (eq_of_beq (List.mem_filter.1 hg).2))

/-- The text that bytes hold without a document type, its document and what is found in it. -/
def readPlain? (bytes : List UInt8) : Option (List Char × Xml.Document × List Diagnostic) :=
  match Text.Utf8.decode bytes with
  | .error _ => none
  | .ok text =>
    match Xml.Document.parse text with
    | .error _ => none
    | .ok d =>
      if hasDoctype text then none
      else (diagnostics? (parseBytes {} bytes)).map fun found => (text, d, found)

theorem of_readPlain? {bytes : List UInt8} {places : List (Option Location)}
    (h : (readPlain? bytes).map (fun r => r.2.2.map Diagnostic.location) = some places) :
    ∃ text d found, Text.Utf8.decode bytes = .ok text ∧ Xml.Document.parse text = .ok d ∧
      hasDoctype text = false ∧ diagnostics? (parseBytes {} bytes) = some found ∧
      found.map Diagnostic.location = places := by
  obtain ⟨⟨text, d, found⟩, read, told⟩ := Option.map_eq_some_iff.1 h
  unfold readPlain? at read
  split at read
  · exact nomatch read
  · next text decoded =>
    split at read
    · exact nomatch read
    · next d wellFormed =>
      obtain ⟨plain, read⟩ := Option.ite_none_left_eq_some.1 read
      obtain ⟨found, outcome, same⟩ := Option.map_eq_some_iff.1 read
      obtain ⟨rfl, rfl, rfl⟩ : _ ∧ _ ∧ _ := by simpa only [Prod.mk.injEq] using same
      exact ⟨_, _, _, decoded, wellFormed, Bool.eq_false_iff.2 plain, outcome, told⟩

/-- A node in which a chime stands, which does not belong there, before a bell whose names are no
names. -/
def chimeAhead : List UInt8 :=
  Text.Utf8.encode
    "<node>\n<chime/>\n<interface name='Bell'>\n<method name='1'/></interface></node>".toList

theorem chimeAhead_ordered : ∃ text d found, Text.Utf8.decode chimeAhead = .ok text ∧
    Xml.Document.parse text = .ok d ∧ hasDoctype text = false ∧
    diagnostics? (parseBytes {} chimeAhead) = some found ∧
    found.map Diagnostic.location = [some ⟨2, 1⟩, some ⟨3, 1⟩, some ⟨4, 1⟩] ∧
    ∀ f ∈ (describeDocument d).log, ∀ g ∈ (describeDocument d).log,
      ¬Overtakes (placedAmong [] d.children) f g := by
  have told : (readPlain? chimeAhead).map (fun r => r.2.2.map Diagnostic.location) =
      some [some ⟨2, 1⟩, some ⟨3, 1⟩, some ⟨4, 1⟩] := by decide +kernel
  obtain ⟨text, d, found, decoded, wellFormed, plain, read, places⟩ := of_readPlain? told
  refine ⟨text, d, found, decoded, wellFormed, plain, read, places, ?_⟩
  refine (parseBytes_diagnostics_ordered decoded wellFormed plain read).2.1.1 ?_
  rw [InDocumentOrder, places]
  exact ⟨[⟨2, 1⟩, ⟨3, 1⟩, ⟨4, 1⟩], rfl, by decide⟩

/-- A node in which the chime comes last, after a bell with two methods of one name, and with a tone
in the second one. -/
def chimeBehind : List UInt8 :=
  Text.Utf8.encode ("<node>\n<interface name='o.Bell'><method name='Ring'/>\n"
    ++ "<method name='Ring'><tone/></method></interface>\n<chime/></node>").toList

/-- The chime overtakes the tone, and the tone the method that it stands in. -/
theorem chimeBehind_disordered : ∃ text d found, Text.Utf8.decode chimeBehind = .ok text ∧
    Xml.Document.parse text = .ok d ∧ hasDoctype text = false ∧
    diagnostics? (parseBytes {} chimeBehind) = some found ∧
    found.map Diagnostic.location = [some ⟨4, 1⟩, some ⟨3, 21⟩, some ⟨3, 1⟩] ∧
    ¬InDocumentOrder found := by
  have told : (readPlain? chimeBehind).map (fun r => r.2.2.map Diagnostic.location) =
      some [some ⟨4, 1⟩, some ⟨3, 21⟩, some ⟨3, 1⟩] := by decide +kernel
  obtain ⟨text, d, found, decoded, wellFormed, plain, read, places⟩ := of_readPlain? told
  refine ⟨text, d, found, decoded, wellFormed, plain, read, places, ?_⟩
  rw [InDocumentOrder, places]
  rintro ⟨locations, same, ordered⟩
  have located : [⟨4, 1⟩, ⟨3, 21⟩, ⟨3, 1⟩] = locations :=
    (List.map_inj_right fun _ _ => Option.some.inj).1 same
  subst located
  exact absurd ordered (by decide)

end Document

end ApiDrift.Introspection
