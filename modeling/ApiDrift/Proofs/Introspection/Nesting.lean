import ApiDrift.Proofs.Except
import ApiDrift.Proofs.Introspection.InStep
/-! A text is refused for its nesting exactly if one of its elements lies below the limit. -/
namespace ApiDrift.Introspection

open Xml (Span Scan)

/-- Whether a document type declaration stands where one can stand. -/
def hasDoctype (text : List Char) : Bool :=
  match Xml.scanDeclaration (Span.dropMark ⟨text, .start⟩) with
  | .error _ => false
  | .ok p =>
    match Xml.scanMisc p.read p.span with
    | .error _ => false
    | .ok p => "<!DOCTYPE".toList.isPrefixOf p.span.chars

theorem hasDoctype_eq_false {text : List Char} (plain : hasDoctype text = false) :
    ∀ p, beforeDoctype text = .ok p → ¬ "<!DOCTYPE".toList <+: p.span.chars := by
  intro q before
  unfold hasDoctype at plain
  unfold beforeDoctype at before
  cases first : Xml.scanDeclaration (Span.dropMark ⟨text, .start⟩) with
  | error scan =>
      rw [first] at before
      exact nomatch before
  | ok p =>
      rw [first] at before
      have second : Xml.scanMisc p.read p.span = .ok q := before
      simp only [first, second] at plain
      rw [← List.isPrefixOf_iff_prefix, plain]
      exact Bool.false_ne_true

theorem faultless_not_doomed {text : List Char} {d : Xml.Document}
    (wellFormed : Xml.Document.parse text = .ok d) : ¬ Doomed (Scan.ofDocument text) := by
  obtain ⟨faultless, intact⟩ := Xml.Document.parse_faultless wellFormed
  rintro (fault | ⟨t, mem, broken⟩)
  · rw [faultless] at fault
    cases fault
  · rw [intact t mem] at broken
    cases broken

mutual

theorem isSome_beyond?_iff (limit level : Nat) : (n : Xml.Node) →
    ((beyond? limit level n).isSome = true ↔
      ∃ k, limit < k ∧ (k, Xml.Mark.element) ∈ n.marksFrom level)
  | .element head children => by
      have among := isSome_beyondAmong?_iff limit (level + 1) children
      simp only [beyond?, Xml.Node.marksFrom, List.mem_cons, Prod.mk.injEq, and_true]
      by_cases below : limit < level
      · rw [if_pos below]
        exact iff_of_true rfl ⟨level, below, .inl rfl⟩
      · rw [if_neg below, among]
        refine exists_congr fun k => and_congr_right fun deeper => ?_
        rw [or_iff_right]
        rintro rfl
        exact below deeper
  | .text _ => ⟨nofun, fun ⟨_, _, mem⟩ => nomatch mem⟩
  | .comment _ _ => by simp [beyond?, Xml.Node.marksFrom, Xml.Node.mark?]
  | .instruction => ⟨nofun, fun ⟨_, _, mem⟩ => nomatch mem⟩

theorem isSome_beyondAmong?_iff (limit level : Nat) : (l : List Xml.Node) →
    ((beyondAmong? limit level l).isSome = true ↔
      ∃ k, limit < k ∧ (k, Xml.Mark.element) ∈ Xml.marksAmong level l)
  | [] => ⟨nofun, fun ⟨_, _, mem⟩ => nomatch mem⟩
  | n :: rest => by
      have first := isSome_beyond?_iff limit level n
      have others := isSome_beyondAmong?_iff limit level rest
      rw [beyondAmong?, Option.isSome_or, Bool.or_eq_true, first, others, ← exists_or]
      refine exists_congr fun k => ?_
      rw [← and_or_left, Xml.marksAmong, List.mem_append]

end

theorem shows_of_tooDeepAt? {text : List Char} {limit : Nat} {d : Xml.Document}
    (wellFormed : Xml.Document.parse text = .ok d) (plain : hasDoctype text = false)
    (clear : ∀ s k, Xml.Shows (.comment s) k d.children → seemsClosed s.toList = false)
    (found : (tooDeepAt? limit text).isSome = true) :
    ∃ level, limit < level ∧ Xml.Shows .element level d.children := by
  have steps := inPlainStep_document (hasDoctype_eq_false plain)
  obtain ⟨s', ended, undeclared, inStep⟩ := steps.resolve_left (faultless_not_doomed wellFormed)
  have bears := Xml.Document.parse_bears wellFormed undeclared
  obtain ⟨n, found⟩ := Option.isSome_iff_exists.1 found
  have clear' : Clear (Scan.ofDocument text).tokens := by
    intro s place mem
    obtain ⟨k, shown⟩ := bears.comment s place mem
    have unclosed := clear _ k shown
    rwa [String.toList_ofList] at unclosed
  obtain ⟨tag, -, opens, -⟩ := inStep.begins ended clear' found
  exact bears.opens limit opens.beyond

theorem ofLogged_ne_tooDeep (file : Option String) (found : Logged (Option Node))
    (place : Location) (limit : Nat) : Parsed.ofLogged file found ≠ .error (.tooDeep place limit) := by
  unfold Parsed.ofLogged
  split
  · exact nofun
  · split <;> exact nofun

/-- A text without a document type is refused for its nesting if and only if one of its elements
lies deeper than the limit, unless one of its comments begins as if it ended at once. -/
theorem parseText_tooDeep_iff {options : Options} {text : String} {d : Xml.Document}
    (wellFormed : Xml.Document.parse text.toList = .ok d)
    (plain : hasDoctype text.toList = false)
    (clear : ∀ s k, Xml.Shows (.comment s) k d.children → seemsClosed s.toList = false) :
    (∃ place limit, parseText options text = .error (.tooDeep place limit)) ↔
      ∃ level, options.maxNesting < level ∧ Xml.Shows .element level d.children := by
  have among : (beyondAmong? options.maxNesting 1 d.children).isSome = true ↔
      ∃ level, options.maxNesting < level ∧ Xml.Shows .element level d.children := by
    rw [isSome_beyondAmong?_iff]
    exact exists_congr fun k => and_congr_right fun _ => Xml.mem_marks_iff
  unfold parseText parseChars
  cases scanned : tooDeepLocation? options.maxNesting text.toList with
  | some place =>
      refine iff_of_true ⟨place, options.maxNesting, rfl⟩ ?_
      refine shows_of_tooDeepAt? wellFormed plain clear ?_
      rw [← Option.isSome_map, ← tooDeepLocation?, scanned]
      rfl
  | none =>
      simp only [wellFormed, parseDocument]
      rw [← among]
      cases below : beyondAmong? options.maxNesting 1 d.children with
      | some place => exact iff_of_true ⟨place, options.maxNesting, rfl⟩ rfl
      | none =>
          refine iff_of_false ?_ nofun
          rintro ⟨place, limit, refused⟩
          exact ofLogged_ne_tooDeep _ _ _ _ refused

theorem of_marks_eq {text : List Char} {marks : List (Nat × Xml.Mark)}
    (evaluated : (Xml.Document.parse text).toOption.map (fun d => Xml.marksAmong 1 d.children) =
      some marks) :
    ∃ d, Xml.Document.parse text = .ok d ∧ ∀ m k, Xml.Shows m k d.children ↔ (k, m) ∈ marks := by
  obtain ⟨d, read, rfl⟩ := exists_of_toOption_map evaluated
  exact ⟨d, read, fun _ _ => Xml.mem_marks_iff.symm⟩

/-- Signs of markup where they have no meaning, and an element at level three. -/
def quotedTags : String := "<a b='/>'><!-- <b> --><b><![CDATA[<c>]]><c/></b></a>"

theorem quotedTags_refused :
    (∃ d, Xml.Document.parse quotedTags.toList = .ok d ∧ hasDoctype quotedTags.toList = false ∧
      ∀ s k, Xml.Shows (.comment s) k d.children → seemsClosed s.toList = false) ∧
    (∃ place limit, parseText { maxNesting := 2 } quotedTags = .error (.tooDeep place limit)) ∧
      ¬ ∃ place limit, parseText { maxNesting := 3 } quotedTags = .error (.tooDeep place limit) := by
  have evaluated : (Xml.Document.parse quotedTags.toList).toOption.map
      (fun d => Xml.marksAmong 1 d.children) =
        some [(1, .element), (2, .comment " <b> "), (2, .element), (3, .element)] := by
    decide +kernel
  have plain : hasDoctype quotedTags.toList = false := by decide +kernel
  obtain ⟨d, wellFormed, shows⟩ := of_marks_eq evaluated
  have clear : ∀ s k, Xml.Shows (.comment s) k d.children → seemsClosed s.toList = false := by
    intro s k shown
    have mem := (shows _ _).1 shown
    simp only [List.mem_cons, List.not_mem_nil, Prod.mk.injEq, Xml.Mark.comment.injEq,
      reduceCtorEq, and_false, false_or, or_false] at mem
    rw [mem.2]
    decide
  refine ⟨⟨d, wellFormed, plain, clear⟩, ?_, ?_⟩
  · exact (parseText_tooDeep_iff wellFormed plain clear).2 ⟨3, by decide, (shows _ _).2 (by simp)⟩
  · intro refused
    obtain ⟨level, deeper, shown⟩ := (parseText_tooDeep_iff wellFormed plain clear).1 refused
    have mem := (shows _ _).1 shown
    simp only [List.mem_cons, List.not_mem_nil, Prod.mk.injEq, reduceCtorEq, and_true, and_false,
      false_or, or_false] at mem
    have deep : 3 < level := deeper
    omega

/-- A comment that begins as if it ended at once, and holds what looks like a tag. -/
def earlyEnd : String := "<node><!--><a> --></node>"

/-- Without its condition on comments the law fails: here no element lies below level one. -/
theorem earlyEnd_refused :
    ∃ d, Xml.Document.parse earlyEnd.toList = .ok d ∧ hasDoctype earlyEnd.toList = false ∧
      (∃ place, parseText { maxNesting := 1 } earlyEnd = .error (.tooDeep place 1)) ∧
      ¬ ∃ level, 1 < level ∧ Xml.Shows .element level d.children := by
  have evaluated : (Xml.Document.parse earlyEnd.toList).toOption.map
      (fun d => Xml.marksAmong 1 d.children) =
        some [(1, .element), (2, .comment "><a> ")] := by
    decide +kernel
  have scanned : tooDeepLocation? 1 earlyEnd.toList = some ⟨1, 12⟩ := by decide +kernel
  obtain ⟨d, wellFormed, shows⟩ := of_marks_eq evaluated
  refine ⟨d, wellFormed, by decide +kernel, ⟨⟨1, 12⟩, ?_⟩, ?_⟩
  · simp only [parseText, parseChars, scanned]
  · rintro ⟨level, deeper, shown⟩
    have mem := (shows _ _).1 shown
    simp only [List.mem_cons, List.not_mem_nil, Prod.mk.injEq, reduceCtorEq, and_true, and_false,
      or_false] at mem
    omega

end ApiDrift.Introspection
