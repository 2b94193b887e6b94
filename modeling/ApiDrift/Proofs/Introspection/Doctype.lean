import ApiDrift.Introspection.Parse
import ApiDrift.Proofs.Except
import ApiDrift.Proofs.Introspection.Markup
import ApiDrift.Proofs.Xml.Consumed
/-! Document type declarations, and which of them a look at the bare text passes as a whole. Names,
external identifiers and entities never mislead it, but what is free text in an internal subset
can. -/
namespace ApiDrift.Introspection

open Xml (Reader Left Span Progress Scan Token Unmet isSpace isNameChar)
open Xml.Reader (Consumes)

section Readers

variable {whole : List Char} {α β : Type} {s s' : Left whole}

theorem worded_someSpace : Consumes Worded (Reader.someSpace : Reader whole Unit) :=
  Reader.consumes_someSpace.mono fun _ => worded_spaces

theorem worded_passName : Consumes Worded (Reader.passName : Reader whole Unit) := by
  refine Reader.consumes_peek.afterLook fun head => ?_
  refine .ite ?_ (Reader.consumes_pure .nil _)
  exact Reader.consumes_name.bind (fun named more => (worded_name named).append more) fun _ =>
    Reader.consumes_pure .nil _

theorem worded_quoted : Consumes Worded (Reader.quoted : Reader whole Span) := by
  have took {s s' : Left whole} {v : Span} (h : Reader.quoted s = .ok (v, s')) :
      ∃ used, s.1.chars = used ++ s'.1.chars ∧ Worded used := by
    unfold Reader.quoted at h
    obtain ⟨q, m, opened, h⟩ := Reader.bind_eq_ok.1 h
    obtain ⟨start, n, at_, h⟩ := Reader.bind_eq_ok.1 h
    obtain ⟨-, rfl⟩ := Reader.here_eq_ok.1 at_
    obtain ⟨value, o, read, h⟩ := Reader.bind_eq_ok.1 h
    obtain ⟨_, p, closed, h⟩ := Reader.bind_eq_ok.1 h
    obtain ⟨-, rfl⟩ := Reader.pure_eq_ok.1 h
    obtain ⟨opening, quote⟩ := Reader.openQuote_took opened
    obtain ⟨split, within⟩ := Reader.takeWhile_took read
    refine ⟨q :: (value ++ [q]), ?_, .quoted quote (fun mem => ?_) .nil⟩
    · rw [opening, split, Reader.char_took closed]
      simp
    · have other := within q mem
      simp at other
  refine Consumes.of_took ?_ took
  refine Reader.consumes_openQuote.andThen fun quote => ?_
  refine Reader.consumes_here.andThen fun start => ?_
  refine Reader.consumes_takeWhile.andThen fun value => ?_
  exact (Reader.consumes_char quote).andThen fun _ => Reader.consumes_pure trivial _

theorem consumes_keyword {P : List Char → Prop} {t : String} {n : Nat}
    (length : t.toList.length = n) {f : Unit → Reader whole α} {g : Reader whole α}
    (yes : ∀ a, Consumes (fun more => P (t.toList ++ more)) (f a)) (no : Consumes P g) :
    Consumes P (Reader.startsWith t >>= fun here =>
      if here = true then Reader.skip n >>= f else g) := by
  intro s a s' h
  obtain ⟨here, m, looked, h⟩ := Reader.bind_eq_ok.1 h
  obtain ⟨begins, rfl⟩ := Reader.startsWith_eq_ok.1 looked
  cases here with
  | false => exact no _ _ _ h
  | true =>
      obtain ⟨_, n, skipped, h⟩ := Reader.bind_eq_ok.1 h
      obtain ⟨used, splits, shape⟩ := yes _ _ _ _ h
      have word := Reader.splits_skip (List.isPrefixOf_iff_prefix.1 begins) length skipped
      exact ⟨_, word.trans splits, shape⟩

theorem worded_externalId : Consumes Worded (Reader.externalId : Reader whole Bool) := by
  intro s b s' h
  unfold Reader.externalId at h
  obtain ⟨isPublic, m, looked, h⟩ := Reader.bind_eq_ok.1 h
  obtain ⟨first, rfl⟩ := Reader.startsWith_eq_ok.1 looked
  obtain ⟨isSystem, m, looked, h⟩ := Reader.bind_eq_ok.1 h
  obtain ⟨second, rfl⟩ := Reader.startsWith_eq_ok.1 looked
  split at h
  · next either =>
    obtain ⟨t, begins, length, worded⟩ :
        ∃ t, t <+: s.1.chars ∧ t.length = 6 ∧ Worded t := by
      rcases Bool.or_eq_true_iff.1 either with is | is
      · exact ⟨"PUBLIC".toList, List.isPrefixOf_iff_prefix.1 (first.trans is), rfl,
          worded_of_all (by decide)⟩
      · exact ⟨"SYSTEM".toList, List.isPrefixOf_iff_prefix.1 (second.trans is), rfl,
          worded_of_all (by decide)⟩
    obtain ⟨_, m, skipped, h⟩ := Reader.bind_eq_ok.1 h
    have rest : Consumes Worded (Reader.someSpace >>= fun _ => Reader.quoted >>= fun _ =>
        if isPublic = true then Reader.someSpace >>= fun _ => Reader.quoted >>= fun _ => pure true
        else pure true : Reader whole Bool) := by
      refine worded_someSpace.bind .append fun _ => ?_
      refine worded_quoted.bind .append fun _ => ?_
      refine .ite ?_ (Reader.consumes_pure .nil _)
      refine worded_someSpace.bind .append fun _ => ?_
      exact worded_quoted.bind .append fun _ => Reader.consumes_pure .nil _
    obtain ⟨used, splits, shape⟩ := rest _ _ _ h
    exact ⟨t ++ used, (Reader.splits_skip begins length skipped).trans splits, worded.append shape⟩
  · exact Reader.consumes_pure .nil _ _ _ _ h

theorem worded_entityValue (general : Bool) :
    Consumes Worded (Reader.entityValue general : Reader whole (Option Span)) := by
  refine Reader.consumes_peek.afterLook fun head => ?_
  cases head with
  | none => exact Reader.consumes_fail _
  | some c =>
      have pass : Consumes Worded (pure none : Reader whole (Option Span)) :=
        Reader.consumes_pure .nil _
      refine .ite ?_ (.ite ?_ (Reader.consumes_failHere _))
      · exact worded_quoted.bind .append fun _ => Reader.consumes_pure .nil _
      · refine worded_externalId.bind .append fun _ => ?_
        refine .ite ?_ (Reader.consumes_failHere _)
        refine .ite ?_ pass
        refine (Reader.consumes_spaces.mono fun _ => worded_spaces).bind .append fun _ => ?_
        refine consumes_keyword (n := 5) rfl (fun _ => ?_) pass
        have word : Worded "NDATA".toList := worded_of_all (by decide)
        refine (worded_someSpace.bind .append fun _ => ?_).mono fun _ => word.append
        exact worded_passName.bind .append fun _ => pass

/-- Text that ends with the first `>` outside of its quoted values. -/
def Closed (used : List Char) : Prop := ∃ body, used = body ++ ['>'] ∧ Worded body

theorem Closed.after {used more : List Char} (first : Worded used) (second : Closed more) :
    Closed (used ++ more) := by
  obtain ⟨body, rfl, worded⟩ := second
  exact ⟨used ++ body, (List.append_assoc _ _ _).symm, first.append worded⟩

theorem closed_entityDeclaration (begins : "!ENTITY".toList <+: s.1.chars) {t : Option Token}
    (h : Reader.entityDeclaration s = .ok (t, s')) :
    ∃ body, s.1.Splits ("!ENTITY".toList ++ body ++ ['>']) s'.1 ∧ Worded body := by
  unfold Reader.entityDeclaration at h
  obtain ⟨_, m, skipped, h⟩ := Reader.bind_eq_ok.1 h
  have ending (value : Option Span) (n : String) :
      Consumes Closed (Reader.spaces >>= fun _ => Reader.char '>' >>= fun _ =>
        pure (value.map (Token.entity n)) : Reader whole (Option Token)) := by
    refine (Reader.consumes_spaces.mono fun _ => worded_spaces).bind .after fun _ => ?_
    refine (Reader.consumes_char '>').bind (fun angle nothing => ?_) fun _ =>
      Reader.consumes_pure (P := fun more => more = []) rfl _
    rw [angle, nothing]
    exact ⟨[], rfl, .nil⟩
  have declared (general : Bool) : Consumes Closed (Reader.name >>= fun n =>
      Reader.someSpace >>= fun _ => Reader.entityValue general >>= fun value =>
        Reader.spaces >>= fun _ => Reader.char '>' >>= fun _ =>
          pure (value.map (Token.entity n)) : Reader whole (Option Token)) := by
    refine (Reader.consumes_name.mono fun _ => worded_name).bind .after fun n => ?_
    refine worded_someSpace.bind .after fun _ => ?_
    exact (worded_entityValue general).bind .after fun value => ending value n
  obtain ⟨_, n, spaced, h⟩ := Reader.bind_eq_ok.1 h
  obtain ⟨space, splits, blank⟩ := worded_someSpace _ _ _ spaced
  obtain ⟨head, o, looked, h⟩ := Reader.bind_eq_ok.1 h
  obtain ⟨first, rfl⟩ := Reader.peek_eq_ok.1 looked
  have start := (Reader.splits_skip begins rfl skipped).trans splits
  dsimp only at h
  split at h
  · next parameter =>
    rw [beq_iff_eq] at parameter
    obtain ⟨_, o, percent, h⟩ := Reader.bind_eq_ok.1 h
    obtain ⟨_, p, spaced, h⟩ := Reader.bind_eq_ok.1 h
    obtain ⟨rest, whole⟩ := List.head?_eq_some_iff.1 (first.trans parameter)
    have mark : n.1.Splits ['%'] o.1 := Reader.splits_skip ⟨rest, whole.symm⟩ rfl percent
    obtain ⟨gap, splits', blank'⟩ := worded_someSpace _ _ _ spaced
    obtain ⟨used, splits'', ⟨body, rfl, worded⟩⟩ := declared _ _ _ _ h
    refine ⟨space ++ ['%'] ++ gap ++ body, ?_, ?_⟩
    · simpa using ((start.trans mark).trans splits').trans splits''
    · exact ((blank.append (worded_of_all (by decide))).append blank').append worded
  · obtain ⟨used, splits', ⟨body, rfl, worded⟩⟩ := declared _ _ _ _ h
    refine ⟨space ++ body, ?_, blank.append worded⟩
    simpa using start.trans splits'

theorem entityDeclaration_effect {t : Option Token}
    (h : Reader.entityDeclaration s = .ok (t, s')) : ∀ token ∈ t.toList, token.effect = .none := by
  unfold Reader.entityDeclaration at h
  have declared {general : Bool} {s s' : Left whole} (h : (Reader.name >>= fun n =>
      Reader.someSpace >>= fun _ => Reader.entityValue general >>= fun value =>
        Reader.spaces >>= fun _ => Reader.char '>' >>= fun _ =>
          pure (value.map (Token.entity n)) : Reader whole (Option Token)) s = .ok (t, s')) :
      ∀ token ∈ t.toList, token.effect = .none := by
    obtain ⟨n, _, -, h⟩ := Reader.bind_eq_ok.1 h
    obtain ⟨_, _, -, h⟩ := Reader.bind_eq_ok.1 h
    obtain ⟨value, _, -, h⟩ := Reader.bind_eq_ok.1 h
    obtain ⟨_, _, -, h⟩ := Reader.bind_eq_ok.1 h
    obtain ⟨_, _, -, h⟩ := Reader.bind_eq_ok.1 h
    obtain ⟨rfl, -⟩ := Reader.pure_eq_ok.1 h
    simp [Token.effect]
  obtain ⟨_, _, -, h⟩ := Reader.bind_eq_ok.1 h
  obtain ⟨_, _, -, h⟩ := Reader.bind_eq_ok.1 h
  obtain ⟨_, _, -, h⟩ := Reader.bind_eq_ok.1 h
  dsimp only at h
  split at h
  · obtain ⟨_, _, -, h⟩ := Reader.bind_eq_ok.1 h
    obtain ⟨_, _, -, h⟩ := Reader.bind_eq_ok.1 h
    exact declared h
  · exact declared h

theorem splits_doctypeStart (begins : "!DOCTYPE".toList <+: s.1.chars) {subset : Bool}
    (h : Reader.doctypeStart s = .ok (subset, s')) :
    ∃ head, Worded head ∧
      s.1.Splits ("!DOCTYPE".toList ++ head ++ [if subset then '[' else '>']) s'.1 := by
  unfold Reader.doctypeStart at h
  obtain ⟨_, m, skipped, h⟩ := Reader.bind_eq_ok.1 h
  obtain ⟨_, n, spaced, h⟩ := Reader.bind_eq_ok.1 h
  obtain ⟨_, o, named, h⟩ := Reader.bind_eq_ok.1 h
  obtain ⟨_, p, gapped, h⟩ := Reader.bind_eq_ok.1 h
  obtain ⟨_, q, identified, h⟩ := Reader.bind_eq_ok.1 h
  obtain ⟨_, r, closed, h⟩ := Reader.bind_eq_ok.1 h
  obtain ⟨head, _, looked, h⟩ := Reader.bind_eq_ok.1 h
  obtain ⟨first, rfl⟩ := Reader.peek_eq_ok.1 looked
  have start := Reader.splits_skip begins rfl skipped
  obtain ⟨space, toName, blank⟩ := worded_someSpace _ _ _ spaced
  obtain ⟨name, pastName, ofName⟩ := worded_passName _ _ _ named
  obtain ⟨gap, toId, ofGap⟩ := Reader.consumes_spaces _ _ _ gapped
  obtain ⟨id, pastId, ofId⟩ := worded_externalId _ _ _ identified
  obtain ⟨tail, toMark, ofTail⟩ := Reader.consumes_spaces _ _ _ closed
  have worded : Worded (space ++ name ++ gap ++ id ++ tail) :=
    (((blank.append ofName).append (worded_spaces ofGap)).append ofId).append
      (worded_spaces ofTail)
  have before := start.trans ((((toName.trans pastName).trans toId).trans pastId).trans toMark)
  cases head with
  | none => cases h
  | some c =>
      dsimp only at h
      split at h
      · next mark =>
        obtain ⟨_, t, passed, h⟩ := Reader.bind_eq_ok.1 h
        obtain ⟨rfl, rfl⟩ := Reader.pure_eq_ok.1 h
        obtain ⟨rest, whole⟩ := List.head?_eq_some_iff.1 first
        have last : r.1.Splits [c] t.1 := Reader.splits_skip ⟨rest, whole.symm⟩ rfl passed
        have same : (if (c == '[') = true then '[' else '>') = c := by
          rcases mark with rfl | rfl <;> rfl
        rw [same]
        exact ⟨_, worded, before.trans last⟩
      · cases h

theorem splits_doctypeEnd {a : Unit} (h : Reader.doctypeEnd s = .ok (a, s')) :
    ∃ blank, (∀ c ∈ blank, isSpace c = true) ∧ s.1.Splits (blank ++ ['>']) s'.1 := by
  unfold Reader.doctypeEnd at h
  obtain ⟨_, m, spaced, h⟩ := Reader.bind_eq_ok.1 h
  obtain ⟨blank, splits, all⟩ := Reader.consumes_spaces _ _ _ spaced
  obtain ⟨used, last, rfl⟩ := Reader.consumes_char '>' _ _ _ h
  exact ⟨blank, all, splits.trans last⟩

theorem splits_otherDeclaration {doctype : Location} {t : Option Token}
    (h : Reader.otherDeclaration doctype s = .ok (t, s')) :
    t = none ∧ ∃ body, '>' ∉ body ∧ s.1.Splits (body ++ ['>']) s'.1 := by
  unfold Reader.otherDeclaration at h
  obtain ⟨body, m, taken, h⟩ := Reader.bind_eq_ok.1 h
  obtain ⟨head, _, looked, h⟩ := Reader.bind_eq_ok.1 h
  obtain ⟨first, rfl⟩ := Reader.peek_eq_ok.1 looked
  cases head with
  | none => cases h
  | some c =>
      obtain ⟨_, n, passed, h⟩ := Reader.bind_eq_ok.1 h
      obtain ⟨rfl, rfl⟩ := Reader.pure_eq_ok.1 h
      obtain ⟨used, splits, other⟩ := Reader.consumes_takeWhile _ _ _ taken
      obtain ⟨rest, whole⟩ := List.head?_eq_some_iff.1 first
      have last : m.1.Splits [c] n.1 := Reader.splits_skip ⟨rest, whole.symm⟩ rfl passed
      have angle : c = '>' := by
        have stopped := List.head?_dropWhile_not (· != '>') s.1.chars
        simp only [Reader.takeWhile, Except.ok.injEq, Prod.mk.injEq] at taken
        rw [← taken.2] at first
        dsimp only at first
        rw [first] at stopped
        simpa using stopped
      subst angle
      refine ⟨rfl, used, fun mem => ?_, splits.trans last⟩
      have differs := other _ mem
      simp at differs

end Readers

/-- A comment, an instruction or a declaration of anything but an entity, as it may stand in an
internal subset. -/
inductive Aside : List Char → Prop
  | comment {body : List Char} : ¬['-', '-'] <:+: body →
      Aside ("<!--".toList ++ body ++ "-->".toList)
  | instruction {body : List Char} : ¬['?', '>'] <:+: body →
      Aside ("<?".toList ++ body ++ "?>".toList)
  | declaration {keyword : String} {body : List Char} :
      keyword ∈ ["!ELEMENT", "!ATTLIST", "!NOTATION"] → keyword.toList <+: body → '>' ∉ body →
      Aside ('<' :: (body ++ ['>']))

/-- The text of an internal subset, and what stands in it beside the entities. -/
inductive Declares : List Char → List (List Char) → Prop
  | nil : Declares [] []
  | space {c : Char} {l : List Char} {asides : List (List Char)} : isSpace c = true →
      Declares l asides → Declares (c :: l) asides
  | entity {body l : List Char} {asides : List (List Char)} : Worded body → Declares l asides →
      Declares ("<!ENTITY".toList ++ body ++ '>' :: l) asides
  | aside {t l : List Char} {asides : List (List Char)} : Aside t → Declares l asides →
      Declares (t ++ l) (t :: asides)

/-- A document type declaration, and what stands in its internal subset beside the entities. -/
inductive Doctype : List Char → List (List Char) → Prop
  | plain {head : List Char} : Worded head → Doctype ("<!DOCTYPE".toList ++ head ++ ['>']) []
  | subset {head inner blank : List Char} {asides : List (List Char)} : Worded head →
      Declares inner asides → (∀ c ∈ blank, isSpace c = true) →
      Doctype ("<!DOCTYPE".toList ++ head ++ '[' :: (inner ++ ']' :: (blank ++ ['>']))) asides

/-- Markup that a look at the bare text passes as a whole. -/
def Level (markup : List Char) : Prop := ∃ body, markup = '<' :: (body ++ ['>']) ∧ Leads 0 body 0

theorem Declares.leads {inner : List Char} {asides : List (List Char)}
    (declares : Declares inner asides) (level : ∀ t ∈ asides, Leads 1 t 1) : Leads 1 inner 1 := by
  induction declares with
  | nil => exact .nil 1
  | space blank _ ih =>
      exact (worded_spaces (List.forall_mem_singleton.2 blank)).leads 1 |>.append (ih level)
  | entity worded _ ih =>
      have opening : Worded "<!ENTITY".toList := worded_of_all (by decide)
      exact ((opening.append worded).leads 1).append (.angle (ih level))
  | aside _ _ ih =>
      obtain ⟨here, others⟩ := List.forall_mem_cons.1 level
      exact here.append (ih others)

theorem Doctype.level {markup : List Char} {asides : List (List Char)}
    (doctype : Doctype markup asides) (level : ∀ t ∈ asides, Leads 1 t 1) : Level markup := by
  have opening : Worded "!DOCTYPE".toList := worded_of_all (by decide)
  cases doctype with
  | plain worded => exact ⟨_, rfl, (opening.append worded).leads 0⟩
  | @subset head inner blank _ worded declares spaces =>
      refine ⟨"!DOCTYPE".toList ++ head ++ '[' :: (inner ++ ']' :: blank), by simp, ?_⟩
      refine ((opening.append worded).leads 0).append (.opening ?_)
      exact (declares.leads level).append (.closing ((worded_spaces spaces).leads 0))

section Subset

variable {tail : List Char} {doctype start : Location} {t : Option Token} {rest : Left tail}

theorem prefix_of_prefix_append {t body l : List Char} {c : Char} (absent : c ∉ t)
    (begins : t <+: body ++ c :: l) : t <+: body := by
  rcases List.prefix_or_prefix_of_prefix begins (List.prefix_append body _) with
    within | ⟨more, rfl⟩
  · exact within
  · rw [List.prefix_append_right_inj] at begins
    cases more with
    | nil => simp
    | cons d more =>
        obtain ⟨rfl, -⟩ := List.cons_prefix_cons.1 begins
        simp at absent

/-- What one reader of an internal subset takes may stand before anything that can stand there. -/
theorem declares_of_reader {reader : Reader tail (Option Token)}
    (chosen : Reader.subsetReader? doctype start tail = some reader)
    (h : Reader.runAfter start '<' tail reader = .ok (t, rest)) :
    (∀ token ∈ t.toList, token.effect = .none) ∧
      ∃ piece more, Span.Splits ⟨'<' :: tail, start⟩ piece rest.1 ∧
        ∀ l asides, Declares l asides → Declares (piece ++ l) (more ++ asides) := by
  have aside {used : List Char} (splits : Span.Splits ⟨tail, start.next '<'⟩ used rest.1)
      (shape : Aside ('<' :: used)) : ∃ piece more,
        Span.Splits ⟨'<' :: tail, start⟩ piece rest.1 ∧
          ∀ l asides, Declares l asides → Declares (piece ++ l) (more ++ asides) :=
    ⟨'<' :: used, ['<' :: used], splits.cons rfl, fun _ _ declares => .aside shape declares⟩
  unfold Reader.subsetReader? at chosen
  dsimp only at chosen
  split at chosen
  · next begins =>
    obtain rfl := Option.some.inj chosen
    have effect := entityDeclaration_effect h
    obtain ⟨body, splits, worded⟩ :=
      closed_entityDeclaration (List.isPrefixOf_iff_prefix.1 begins) h
    refine ⟨effect, _, [], splits.cons rfl, fun l asides declares => ?_⟩
    have entity := Declares.entity worded declares
    simpa using entity
  split at chosen
  · next begins =>
    obtain rfl := Option.some.inj chosen
    obtain ⟨token, m, taken, h⟩ := Reader.bind_eq_ok.1 h
    obtain ⟨rfl, rfl⟩ := Reader.pure_eq_ok.1 h
    obtain ⟨used, splits, -⟩ := Reader.consumes_comment start _ _ _ taken
    obtain ⟨body, rfl, split, -, plain⟩ :=
      Reader.comment_took (List.isPrefixOf_iff_prefix.1 begins) taken
    obtain rfl : used = "!--".toList ++ body ++ "-->".toList :=
      splits.eq_of_chars (by rw [split]; simp)
    exact ⟨by simp [Token.effect], aside splits (.comment plain)⟩
  split at chosen
  · next begins =>
    obtain rfl := Option.some.inj chosen
    obtain ⟨token, m, taken, h⟩ := Reader.bind_eq_ok.1 h
    obtain ⟨rfl, rfl⟩ := Reader.pure_eq_ok.1 h
    obtain ⟨used, splits, -⟩ := Reader.consumes_instruction start _ _ _ taken
    obtain ⟨body, rfl, split, unmet⟩ :=
      Reader.instruction_took (List.isPrefixOf_iff_prefix.1 begins) taken
    obtain rfl : used = "?".toList ++ body ++ "?>".toList :=
      splits.eq_of_chars (by rw [split]; simp)
    exact ⟨by simp [Token.effect], aside splits (.instruction unmet.2.not_within)⟩
  split at chosen
  · next begins =>
    obtain rfl := Option.some.inj chosen
    obtain ⟨rfl, body, absent, splits⟩ := splits_otherDeclaration h
    refine ⟨by simp, aside splits ?_⟩
    have whole : tail = body ++ '>' :: rest.1.chars := by
      rw [List.append_cons]
      exact splits.chars
    rw [whole] at begins
    simp only [Bool.or_eq_true, List.isPrefixOf_iff_prefix] at begins
    rcases begins with (begins | begins) | begins
    all_goals
      refine .declaration (List.mem_of_elem_eq_true ?_) (prefix_of_prefix_append ?_ begins) absent
      all_goals decide
  · cases chosen

end Subset

theorem Declares.spaces {blank l : List Char} {asides : List (List Char)}
    (spaces : ∀ c ∈ blank, isSpace c = true) (declares : Declares l asides) :
    Declares (blank ++ l) asides := by
  induction blank with
  | nil => exact declares
  | cons c blank ih =>
      obtain ⟨first, others⟩ := List.forall_mem_cons.1 spaces
      exact .space first (ih others)

/-- An internal subset is read to its bracket and the end of the declaration after that, or to the
end of the text. -/
theorem scanSubset_declares {doctype : Location} {read : List Token} {s : Span} {p : Progress}
    (h : Xml.scanSubset doctype read s = .ok p) :
    (∃ tokens : List Token, p.read = tokens.reverse ++ read ∧ ∀ t ∈ tokens, t.effect = .none) ∧
      ∃ inner asides, Declares inner asides ∧
        ((p.span.chars = [] ∧ s.Splits inner p.span) ∨
          ∃ blank, (∀ c ∈ blank, isSpace c = true) ∧
            s.Splits (inner ++ ']' :: (blank ++ ['>'])) p.span) := by
  fun_induction Xml.scanSubset doctype read s with
  | case1 read s none =>
      obtain rfl := Except.ok.inj h
      rw [List.isEmpty_iff] at none
      exact ⟨⟨[], rfl, nofun⟩, [], [], .nil, .inl ⟨none, .refl s⟩⟩
  | case2 | case3 | case5 | case6 | case8 => exact nomatch h
  | case4 read s _ start tail _ rest here closed =>
      obtain rfl := Except.ok.inj h
      obtain ⟨blank, spaces, splits⟩ := splits_doctypeEnd closed
      have before : Declares (s.chars.takeWhile isSpace) [] := by
        rw [← List.append_nil (s.chars.takeWhile isSpace)]
        exact .spaces Xml.mem_takeWhile .nil
      refine ⟨⟨[], rfl, nofun⟩, _, [], before, .inr ⟨blank, spaces, ?_⟩⟩
      exact (Span.Splits.dropSpaces s).trans (splits.cons here)
  | case7 read s _ start tail reader chosen t rest here _ took _ ih =>
      obtain ⟨silent, piece, more, splits, before⟩ := declares_of_reader chosen took
      obtain ⟨⟨tokens, whole, others⟩, inner, asides, declares, later⟩ := ih h
      have blank := Span.Splits.dropSpaces s
      have first : s.Splits (s.chars.takeWhile isSpace ++ piece) rest.1 := by
        refine blank.trans ⟨?_, splits.location⟩
        rw [here]
        exact splits.chars
      have declares' : Declares (s.chars.takeWhile isSpace ++ (piece ++ inner)) (more ++ asides) :=
        .spaces Xml.mem_takeWhile (before inner asides declares)
      refine ⟨⟨t.toList ++ tokens, ?_, ?_⟩, _, _, declares', ?_⟩
      · rw [whole]
        cases t <;> simp
      · simp only [List.mem_append]
        rintro token (mem | mem)
        · exact silent token mem
        · exact others token mem
      · rw [← List.append_assoc]
        rcases later with ⟨ended, splits'⟩ | ⟨blank', spaces, splits'⟩
        · exact .inl ⟨ended, first.trans splits'⟩
        · refine .inr ⟨blank', spaces, ?_⟩
          rw [List.append_assoc]
          exact first.trans splits'

theorem scanDoctype_splits {p q : Progress} (begins : "<!DOCTYPE".toList <+: p.span.chars)
    (h : Xml.scanDoctype p = .ok q) :
    (∃ tokens : List Token, q.read = tokens.reverse ++ p.read ∧ ∀ t ∈ tokens, t.effect = .none) ∧
      ∃ markup, "<!DOCTYPE".toList <+: markup ∧ p.span.Splits markup q.span ∧
        (q.span.chars ≠ [] → ∃ asides, Doctype markup asides) := by
  unfold Xml.scanDoctype at h
  split at h
  · next c tail here =>
    rw [here] at begins
    rw [if_pos (List.isPrefixOf_iff_prefix.2 begins)] at h
    have whole : '<' :: "!DOCTYPE".toList <+: c :: tail := begins
    obtain ⟨angle, keyword⟩ := List.cons_prefix_cons.1 whole
    subst angle
    split at h
    · cases h
    · next subset rest took =>
      obtain ⟨head, worded, splits⟩ := splits_doctypeStart keyword took
      have start := splits.cons here
      have first (l : List Char) : "<!DOCTYPE".toList <+: "<!DOCTYPE".toList ++ head ++ l := by
        rw [List.append_assoc]
        exact List.prefix_append _ _
      cases subset with
      | false =>
          obtain rfl := Except.ok.inj h
          exact ⟨⟨[], rfl, nofun⟩, _, first _, start, fun _ => ⟨_, .plain worded⟩⟩
      | true =>
          obtain ⟨tokens, inner, asides, declares, ended⟩ := scanSubset_declares h
          refine ⟨tokens, ?_⟩
          rcases ended with ⟨none, splits'⟩ | ⟨blank, spaces, splits'⟩
          · refine ⟨"<!DOCTYPE".toList ++ head ++ '[' :: inner, first _, ?_,
              fun left => absurd none left⟩
            have whole := start.trans splits'
            simpa using whole
          · refine ⟨_, first _, ?_, fun _ => ⟨_, .subset worded declares spaces⟩⟩
            have whole := start.trans splits'
            simpa using whole
  · next here =>
    rw [here] at begins
    exact absurd begins (by decide)

/-- Text that the reader of documents takes for a document type declaration. -/
def IsDoctype (markup : List Char) : Prop :=
  ∃ read place rest p, markup ≠ [] ∧ rest ≠ [] ∧
    Xml.scanDoctype ⟨read, ⟨markup ++ rest, place⟩⟩ = .ok p ∧ p.span.chars = rest

theorem scanDoctype_skip {p : Progress} (other : ¬ "<!DOCTYPE".toList <+: p.span.chars) :
    Xml.scanDoctype p = .ok p := by
  unfold Xml.scanDoctype
  split
  · next here =>
    rw [← here, if_neg (mt List.isPrefixOf_iff_prefix.1 other)]
  · rfl

theorem IsDoctype.doctype {markup : List Char} (accepted : IsDoctype markup) :
    ∃ asides, Doctype markup asides := by
  obtain ⟨read, place, rest, p, some, left, took, whole⟩ := accepted
  by_cases begins : "<!DOCTYPE".toList <+: markup ++ rest
  · obtain ⟨-, taken, -, splits, closed⟩ := scanDoctype_splits begins took
    obtain rfl := splits.eq_of_chars (congrArg (markup ++ ·) whole.symm)
    exact closed (whole ▸ left)
  · rw [scanDoctype_skip begins] at took
    obtain rfl := Except.ok.inj took
    exact absurd (List.append_left_eq_self.1 whole) some

theorem markup?_doctype (l : List Char) : markup? ("!DOCTYPE".toList ++ l) =
    (markupLength none 0 0 ("!DOCTYPE".toList ++ l)).map fun n => (n, .none) := by
  simp [markup?, List.isPrefixOf]

theorem Doctype.closed {markup : List Char} {asides : List (List Char)}
    (doctype : Doctype markup asides) : ∃ body, markup = '<' :: (body ++ ['>']) := by
  cases doctype with
  | @plain head _ => exact ⟨"!DOCTYPE".toList ++ head, by simp⟩
  | @subset head inner blank _ _ _ _ =>
      exact ⟨"!DOCTYPE".toList ++ head ++ '[' :: (inner ++ ']' :: blank), by simp⟩

theorem Doctype.begins {markup : List Char} {asides : List (List Char)}
    (doctype : Doctype markup asides) : "<!DOCTYPE".toList <+: markup := by
  cases doctype with
  | plain _ | subset _ _ _ =>
      rw [List.append_assoc]
      exact List.prefix_append _ _

theorem Level.inert {markup : List Char} (level : Level markup)
    (begins : "<!DOCTYPE".toList <+: markup) (rest : List Char) : Inert markup rest := by
  obtain ⟨body, rfl, leads⟩ := level
  have whole : '<' :: "!DOCTYPE".toList <+: '<' :: (body ++ ['>']) := begins
  obtain ⟨l, inner⟩ := prefix_of_prefix_append (by decide) (List.cons_prefix_cons.1 whole).2
  refine inert_markup ?_
  rw [List.append_assoc, ← inner, List.append_assoc, markup?_doctype, ← List.append_assoc, inner,
    List.singleton_append, (markupLength_eq_iff _).2 leads]
  simp

/-- A look at the bare text passes a document type declaration as a whole just if outside of its
quoted values a `>` stands in brackets only. Its names, identifiers and entities never prevent that,
so it does if its comments, instructions and other declarations do not. -/
theorem doctype_passed_iff {markup : List Char} (accepted : IsDoctype markup) :
    (∀ rest, markupLength none 0 0 (markup.tail ++ rest) = some (markup.length - 1) ↔
      Level markup) ∧
    (∃ asides, Doctype markup asides ∧ ((∀ t ∈ asides, Leads 1 t 1) → Level markup)) ∧
    (Level markup → ∀ rest, Inert markup rest) := by
  obtain ⟨asides, doctype⟩ := accepted.doctype
  refine ⟨fun rest => ?_, ⟨asides, doctype, doctype.level⟩, fun level => level.inert doctype.begins⟩
  obtain ⟨body, rfl⟩ := doctype.closed
  have inside : Level ('<' :: (body ++ ['>'])) ↔ Leads 0 body 0 := by
    constructor
    · rintro ⟨body', same, leads⟩
      rwa [List.append_cancel_right (List.cons.inj same).2]
    · exact fun leads => ⟨_, rfl, leads⟩
  rw [inside, ← markupLength_eq_iff rest]
  simp

theorem isDoctype_of_taken {markup : List Char} (rest : List Char) (some : markup ≠ [])
    (left : rest ≠ [])
    (taken : (Xml.scanDoctype ⟨[], ⟨markup ++ rest, .start⟩⟩).toOption.map (·.span.chars) =
      Option.some rest) : IsDoctype markup := by
  obtain ⟨p, read, chars⟩ := exists_of_toOption_map taken
  exact ⟨_, _, rest, p, some, left, read, chars⟩

/-- A declaration with an entity and an attribute list whose values hold signs of markup. -/
def quotedSigns : List Char :=
  "<!DOCTYPE node [<!ENTITY c ']>\"<b>'> <!ATTLIST node a CDATA ']'>]>".toList

theorem quotedSigns_passed : IsDoctype quotedSigns ∧ ∀ rest, Inert quotedSigns rest := by
  have accepted : IsDoctype quotedSigns :=
    isDoctype_of_taken "<node/>".toList (by decide) (by decide) (by decide +kernel)
  obtain ⟨exactly, -, passed⟩ := doctype_passed_iff accepted
  exact ⟨accepted, passed ((exactly []).1 (by decide +kernel))⟩

/-- A declaration that seems to end in an instruction, before what looks like a tag. -/
def bracketInstruction : List Char := "<!DOCTYPE node [<?x ]><a>?>]>".toList

/-- The declaration is not passed as a whole: its end is found after 21 of 28 characters. So a
document with one element is refused for its nesting. -/
theorem bracketInstruction_refused : IsDoctype bracketInstruction ∧
    bracketInstruction.tail.length = 28 ∧
    markupLength none 0 0 (bracketInstruction.tail ++ "<node></node>".toList) = some 21 ∧
    (Xml.Document.parse (bracketInstruction ++ "<node></node>".toList)).toOption.map
      (fun d => Xml.marksAmong 1 d.children) = some [(1, .element)] ∧
    parseChars { maxNesting := 1 } (bracketInstruction ++ "<node></node>".toList) =
      .error (.tooDeep ⟨1, 30⟩ 1) := by
  have accepted : IsDoctype bracketInstruction :=
    isDoctype_of_taken "<node></node>".toList (by decide) (by decide) (by decide +kernel)
  have scanned : tooDeepLocation? 1 (bracketInstruction ++ "<node></node>".toList) =
      some ⟨1, 30⟩ := by
    decide +kernel
  refine ⟨accepted, by decide +kernel, by decide +kernel, by decide +kernel, ?_⟩
  simp only [parseChars, scanned]

end ApiDrift.Introspection
