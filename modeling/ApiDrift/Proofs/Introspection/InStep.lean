import ApiDrift.Proofs.Introspection.Doctype
import ApiDrift.Proofs.Xml.Ascend
/-! The look at the bare text and the reader of documents go through a text in step: where the look
finds a tag, the reader has a token for it. -/
namespace ApiDrift.Introspection

open Xml (Span Progress Scan Token Tag Reader Left OpensBeyond depthAfter Ascends)
open Xml.Reader (Consumes)

/-- How many elements are open after tokens before which `depth` are. -/
def depthThrough (depth : Nat) (ts : List Token) : Nat :=
  ts.foldl (fun depth t => depthAfter t.effect depth) depth

theorem depthThrough_append (depth : Nat) (ts more : List Token) :
    depthThrough depth (ts ++ more) = depthThrough (depthThrough depth ts) more :=
  List.foldl_append

theorem depthThrough_silent {ts : List Token} (silent : ∀ t ∈ ts, t.effect = .none)
    (depth : Nat) : depthThrough depth ts = depth := by
  induction ts with
  | nil => rfl
  | cons t ts ih =>
      obtain ⟨first, others⟩ := List.forall_mem_cons.1 silent
      rw [depthThrough, List.foldl_cons, first]
      exact ih others

/-- Among the tokens the tag opens an element below `limit`, where `depth` elements are open before
them. -/
def OpensAt (limit depth : Nat) (tag : Tag) (ts : List Token) : Prop :=
  ∃ before after, ts = before ++ .startTag tag :: after ∧
    (Token.startTag tag).effect = .opens ∧ limit < depthThrough depth before + 1

theorem OpensAt.beyond {limit depth : Nat} {tag : Tag} {ts : List Token}
    (opens : OpensAt limit depth tag ts) : OpensBeyond limit depth ts := by
  obtain ⟨before, after, rfl, effect, below⟩ := opens
  induction before generalizing depth with
  | nil => exact .inl ⟨effect, below⟩
  | cons t before ih => exact .inr (ih below)

/-- No comment among the tokens begins as if it ended at once. -/
def Clear (ts : List Token) : Prop := ∀ s place, .comment s place ∈ ts → seemsClosed s = false

theorem clear_append {ts more : List Token} : Clear (ts ++ more) ↔ Clear ts ∧ Clear more := by
  simp only [Clear, List.mem_append, or_imp, forall_and]

/-- `n` characters into the span a tag begins that opens an element below `limit`. -/
def Begins (limit depth n : Nat) (s : Span) (ts : List Token) : Prop :=
  ∃ tag front, OpensAt limit depth tag ts ∧ front <+: s.chars ∧ front.length = n ∧
    tag.location = s.location.after front

/-- Between two places of a text the reader of documents reads the tokens, and what the look at the
bare text finds is one of them or comes later. -/
def InStep (s : Span) (ts : List Token) (s' : Span) : Prop :=
  ∃ used, s.Splits used s' ∧ (Clear ts → ∀ limit depth passed n,
    tooDeepFrom limit depth passed s.chars = some n →
      (∃ k, n = passed + k ∧ Begins limit depth k s ts) ∨
        tooDeepFrom limit (depthThrough depth ts) (passed + used.length) s'.chars = some n)

theorem InStep.refl (s : Span) : InStep s [] s :=
  ⟨[], .refl s, fun _ _ _ _ _ found => .inr found⟩

theorem InStep.trans {s m s' : Span} {ts more : List Token} (first : InStep s ts m)
    (second : InStep m more s') : InStep s (ts ++ more) s' := by
  obtain ⟨used, splits, finds⟩ := first
  obtain ⟨used', splits', finds'⟩ := second
  refine ⟨used ++ used', splits.trans splits', fun clear limit depth passed n found => ?_⟩
  obtain ⟨clear, clear'⟩ := clear_append.1 clear
  rcases finds clear limit depth passed n found with ⟨k, at_, tag, front, opens, begins⟩ | later
  · obtain ⟨before, after, rfl, opens⟩ := opens
    refine .inl ⟨k, at_, tag, front, ⟨before, after ++ more, ?_, opens⟩, begins⟩
    rw [List.append_assoc, List.cons_append]
  · rcases finds' clear' limit _ _ n later with
      ⟨k, at_, tag, front, opens, within, len, place⟩ | later
    · obtain ⟨before, after, rfl, effect, below⟩ := opens
      refine .inl ⟨used.length + k, ?_, tag, used ++ front, ⟨ts ++ before, after, ?_, effect, ?_⟩,
        ?_, ?_, ?_⟩
      · rw [at_, Nat.add_assoc]
      · rw [List.append_assoc]
      · rwa [depthThrough_append]
      · rw [splits.chars]
        exact (List.prefix_append_right_inj used).2 within
      · rw [List.length_append, len]
      · rw [place, splits.location, Location.after_append]
    · rw [depthThrough_append, List.length_append, ← Nat.add_assoc]
      exact .inr later

/-- Where the reader comes to the end of the text, the look has found a tag among the tokens. -/
theorem InStep.begins {s s' : Span} {ts : List Token} (inStep : InStep s ts s')
    (ended : s'.chars = []) (clear : Clear ts) {limit depth n : Nat}
    (found : tooDeepFrom limit depth 0 s.chars = some n) : Begins limit depth n s ts := by
  obtain ⟨used, -, finds⟩ := inStep
  rcases finds clear limit depth 0 n found with ⟨k, rfl, begins⟩ | later
  · rwa [Nat.zero_add]
  · rw [ended, tooDeepFrom] at later
    cases later

theorem inStep_of_inert {s s' : Span} {used : List Char} {ts : List Token}
    (splits : s.Splits used s') (silent : ∀ t ∈ ts, t.effect = .none)
    (inert : Clear ts → Inert used s'.chars) : InStep s ts s' := by
  refine ⟨used, splits, fun clear limit depth passed n found => .inr ?_⟩
  rw [depthThrough_silent silent, ← inert clear, ← splits.chars]
  exact found

theorem inStep_markup {s s' : Span} {tail : List Char} {t : Token} (here : s.chars = '<' :: tail)
    (splits : ∃ used, s.Splits ('<' :: used) s')
    (passes : Clear [t] → Passes tail t.effect s'.chars ∨ markup? tail = none)
    (opening : t.effect = .opens → ∃ tag, t = .startTag tag ∧ tag.location = s.location) :
    InStep s [t] s' := by
  obtain ⟨used, splits⟩ := splits
  refine ⟨_, splits, fun clear limit depth passed n found => ?_⟩
  rw [here] at found
  rcases passes clear with ⟨used', split, markup⟩ | endless
  · have same : '<' :: used = '<' :: used' := splits.eq_of_chars (by rw [here, split]; rfl)
    obtain rfl := List.tail_eq_of_cons_eq same
    rw [split] at markup found
    rw [tooDeepFrom_markup markup] at found
    split at found
    · next deep =>
      obtain ⟨effect, below⟩ := deep
      obtain ⟨tag, rfl, place⟩ := opening effect
      refine .inl ⟨0, (Option.some.inj found).symm, tag, [], ?_, List.nil_prefix, rfl, place⟩
      exact ⟨[], [], rfl, effect, below⟩
    · refine .inr ?_
      rw [List.length_cons, Nat.add_comm used.length, ← Nat.add_assoc]
      exact found
  · rw [tooDeepFrom_endless endless] at found
    cases found

/-- As `InStep`, where no entity is declared. Then the tokens stand in the order of the text. -/
structure InPlainStep (s : Span) (ts : List Token) (s' : Span) : Prop where
  undeclared : ∀ t ∈ ts, t.declares = false
  inStep : InStep s ts s'
  ascends : Ascends s ts s'

theorem InPlainStep.refl (s : Span) : InPlainStep s [] s := ⟨nofun, .refl s, .refl s⟩

theorem InPlainStep.trans {s m s' : Span} {ts more : List Token} (first : InPlainStep s ts m)
    (second : InPlainStep m more s') : InPlainStep s (ts ++ more) s' :=
  ⟨List.forall_mem_append.2 ⟨first.undeclared, second.undeclared⟩,
    first.inStep.trans second.inStep, first.ascends.trans second.ascends⟩

theorem inPlainStep_of_inert {s s' : Span} {used : List Char} (splits : s.Splits used s')
    (inert : Inert used s'.chars) : InPlainStep s [] s' :=
  ⟨nofun, inStep_of_inert splits nofun fun _ => inert, .of_untagged splits nofun⟩

theorem inPlainStep_spaces (s : Span) : InPlainStep s [] s.dropSpaces := by
  refine inPlainStep_of_inert (.dropSpaces s) (inert_chars (fun mem => ?_) _)
  exact absurd (Xml.mem_takeWhile _ mem) (by decide)

section

variable {s : Span} {tail : List Char} {t : Token} {rest : Left tail} {start : Location}

theorem inPlainStep_token {r : Reader tail Token} (consumes : Consumes anything r)
    (here : s.chars = '<' :: tail) (h : Reader.runAfter s.location '<' tail r = .ok (t, rest))
    (undeclared : t.declares = false) (untagged : t.place? = none)
    (passes : Clear [t] → Passes tail t.effect rest.1.chars ∨ markup? tail = none) :
    InPlainStep s [t] rest.1 := by
  obtain ⟨used, splits, -⟩ := Reader.splits_runAfter consumes here h
  have opening : t.effect = .opens → ∃ tag, t = .startTag tag ∧ tag.location = s.location := by
    cases t with
    | startTag tag => exact nomatch untagged
    | _ => exact nofun
  exact ⟨List.forall_mem_singleton.2 undeclared, inStep_markup here ⟨used, splits⟩ passes opening,
    .of_untagged splits (List.forall_mem_singleton.2 untagged)⟩

theorem inPlainStep_comment (begins : "!--".toList <+: tail) (here : s.chars = '<' :: tail)
    (h : Reader.runAfter s.location '<' tail (Reader.comment start) = .ok (t, rest)) :
    InPlainStep s [t] rest.1 := by
  obtain ⟨body, rfl, passes⟩ := passes_of_comment begins h
  exact inPlainStep_token (Reader.consumes_comment start) here h rfl rfl
    fun clear => .inl (passes (clear body start (List.mem_singleton.2 rfl)))

theorem inPlainStep_instruction (begins : "?".toList <+: tail) (here : s.chars = '<' :: tail)
    (h : Reader.runAfter s.location '<' tail (Reader.instruction start) = .ok (t, rest)) :
    InPlainStep s [t] rest.1 := by
  obtain ⟨rfl, passes⟩ := passes_of_instruction begins h
  exact inPlainStep_token (Reader.consumes_instruction start) here h rfl rfl fun _ => .inl passes

theorem inPlainStep_startTag {tag : Tag} (intact : (Token.startTag tag).isBroken = false)
    (here : s.chars = '<' :: tail)
    (h : Reader.runAfter s.location '<' tail (Reader.startTag s.location) = .ok (tag, rest)) :
    InPlainStep s [.startTag tag] rest.1 := by
  obtain ⟨used, splits, -⟩ :=
    Reader.splits_runAfter (Reader.consumes_startTag s.location) here h
  have place : tag.location = s.location := by
    unfold Reader.runAfter Reader.startTag at h
    obtain ⟨q, m, -, h⟩ := Reader.bind_eq_ok.1 h
    obtain ⟨rfl, -⟩ := Prod.mk.inj (Except.ok.inj h)
    rfl
  exact ⟨List.forall_mem_singleton.2 rfl, inStep_markup here ⟨used, splits⟩
    (fun _ => passes_of_startTag intact h) fun _ => ⟨tag, rfl, place⟩,
    .startTag splits (List.cons_ne_nil _ _) place⟩

theorem inPlainStep_content {c : Char} {r : Reader tail Token} (intact : t.isBroken = false)
    (here : s.chars = c :: tail) (chosen : Xml.contentReader? s.location c tail = some r)
    (h : Reader.runAfter s.location c tail r = .ok (t, rest)) : InPlainStep s [t] rest.1 := by
  unfold Xml.contentReader? at chosen
  split at chosen
  · next angle =>
    subst angle
    split at chosen
    · cases chosen
    · split at chosen
      · next begins =>
        obtain rfl := Option.some.inj chosen
        exact inPlainStep_comment (List.isPrefixOf_iff_prefix.1 begins) here h
      · split at chosen
        · next begins =>
          obtain rfl := Option.some.inj chosen
          obtain ⟨⟨body, rfl⟩, passes⟩ := passes_of_cdata begins h
          exact inPlainStep_token Reader.consumes_cdata here h rfl rfl fun _ => .inl passes
        · cases chosen
    · next l =>
      obtain rfl := Option.some.inj chosen
      exact inPlainStep_instruction ⟨l, rfl⟩ here h
    · obtain rfl := Option.some.inj chosen
      obtain ⟨⟨name, rfl⟩, passes⟩ := passes_of_endTag rfl h
      exact inPlainStep_token (Reader.consumes_endTag _) here h rfl rfl fun _ => .inl passes
    · obtain rfl := Option.some.inj chosen
      obtain ⟨tag, m, read, h⟩ := Reader.bind_eq_ok.1 h
      obtain ⟨rfl, rfl⟩ := Reader.pure_eq_ok.1 h
      exact inPlainStep_startTag intact here read
  · next plain =>
    obtain rfl := Option.some.inj chosen
    obtain ⟨used, rfl, split, absent⟩ := Reader.textFrom_took h
    obtain ⟨used', splits, -⟩ :=
      Reader.splits_runAfter (Reader.consumes_textFrom s.location c) here h
    have whole : s.chars = c :: used ++ rest.1.chars := by
      rw [here]
      exact congrArg (c :: ·) split
    refine ⟨List.forall_mem_singleton.2 rfl,
      inStep_of_inert splits (List.forall_mem_singleton.2 rfl) fun _ => inert_chars ?_ _,
      .of_untagged splits (List.forall_mem_singleton.2 rfl)⟩
    rw [splits.eq_of_chars whole, List.mem_cons, not_or]
    exact ⟨fun angle => plain angle.symm, absent⟩

end

/-- A scan that no document comes of: it ends in a fault, or one of its tags does. -/
def Doomed (scan : Scan) : Prop := scan.fault.isSome = true ∨ ∃ t ∈ scan.tokens, t.isBroken = true

/-- What a stage of the reading is to do where `read` has been read before and `s` is left: the
tokens it reads are as `R` says, or no document comes of it. -/
def Stage (R : Span → List Token → Span → Prop) (read : List Token) (s : Span) :
    Except Scan Progress → Prop
  | .ok p => ∃ tokens, p.read = tokens.reverse ++ read ∧ R s tokens p.span
  | .error scan => Doomed scan

section

variable {R Q : Span → List Token → Span → Prop}

theorem stage_failed (read tokens : List Token) (s : Span) (fault : Xml.Fault) :
    Stage R read s (.error (.failed tokens fault)) := .inl rfl

theorem stage_skip (read : List Token) {s s' : Span} (skips : R s [] s') :
    Stage R read s (.ok ⟨read, s'⟩) := ⟨[], rfl, skips⟩

theorem Stage.mono {read : List Token} {s : Span} {result : Except Scan Progress}
    (stage : Stage R read s result) (imp : ∀ {s ts s'}, R s ts s' → Q s ts s') :
    Stage Q read s result := by
  cases result with
  | error scan => exact stage
  | ok p =>
      obtain ⟨tokens, read, related⟩ := stage
      exact ⟨tokens, read, imp related⟩

theorem Stage.after (trans : ∀ {s m s' ts more}, R s ts m → Q m more s' → Q s (ts ++ more) s')
    {read more tokens : List Token} {s m : Span} {result : Except Scan Progress}
    (split : more = tokens.reverse ++ read) (first : R s tokens m) (later : Stage Q more m result) :
    Stage Q read s result := by
  cases result with
  | error scan => exact later
  | ok p =>
      obtain ⟨further, whole, rest⟩ := later
      refine ⟨tokens ++ further, ?_, trans first rest⟩
      rw [whole, split, List.reverse_append, List.append_assoc]

theorem Stage.bind (trans : ∀ {s m s' ts more}, R s ts m → Q m more s' → Q s (ts ++ more) s')
    {read : List Token} {s : Span} {first : Except Scan Progress}
    {next : Progress → Except Scan Progress} (stage : Stage R read s first)
    (later : ∀ p, first = .ok p → Stage Q p.read p.span (next p)) :
    Stage Q read s (first >>= next) := by
  cases first with
  | error scan => exact stage
  | ok p =>
      obtain ⟨tokens, split, related⟩ := stage
      exact Stage.after trans split related (later p rfl)

end

theorem Stage.cons {read : List Token} {s m : Span} {result : Except Scan Progress} {t : Token}
    (first : InPlainStep s [t] m) (later : Stage InPlainStep (t :: read) m result) :
    Stage InPlainStep read s result :=
  Stage.after .trans (show t :: read = [t].reverse ++ read from rfl) first later

theorem stage_misc (read : List Token) (s : Span) :
    Stage InPlainStep read s (Xml.scanMisc read s) := by
  fun_induction Xml.scanMisc read s with
  | case1 read s _ => exact stage_skip read (inPlainStep_spaces s)
  | case2 read s => exact stage_skip read (inPlainStep_spaces s)
  | case3 read => exact stage_failed read _ _ _
  | case4 read s start c tail here reader? reader chosen t rest took _ ih =>
      refine Stage.cons ((inPlainStep_spaces s).trans ?_) ih
      simp only [reader?] at chosen
      split at chosen
      · cases chosen
      · next angle =>
        obtain rfl := Decidable.not_not.1 angle
        split at chosen
        · next begins =>
          obtain rfl := Option.some.inj chosen
          exact inPlainStep_comment (List.isPrefixOf_iff_prefix.1 begins) here took
        · split at chosen
          · next begins =>
            obtain rfl := Option.some.inj chosen
            exact inPlainStep_instruction (List.isPrefixOf_iff_prefix.1 begins) here took
          · cases chosen

theorem stage_content (depth : Nat) (read : List Token) (s : Span) :
    Stage InPlainStep read s (Xml.scanContent depth read s) := by
  fun_induction Xml.scanContent depth read s with
  | case1 _ read s => exact stage_skip read (.refl s)
  | case2 _ read | case3 _ read => exact stage_failed read _ _ _
  | case4 read s c tail here reader chosen rest _ name place took =>
      exact ⟨[_], rfl, inPlainStep_content rfl here chosen took⟩
  | case5 read s c tail here reader chosen rest _ name place depth took ih =>
      exact Stage.cons (inPlainStep_content rfl here chosen took) ih
  | case6 depth read s c tail here reader chosen rest _ tag opened took ih =>
      refine Stage.cons (inPlainStep_content ?_ here chosen took) ih
      simp [← Bool.not_eq_true, Xml.isBroken_startTag_iff, opened]
  | case7 depth read s c tail here reader chosen rest _ tag fault broken took =>
      exact .inr ⟨_, by simp, Xml.isBroken_startTag_iff.2 ⟨fault, broken⟩⟩
  | case8 depth read s c tail here reader chosen rest _ tag _ intact took ih =>
      refine Stage.cons (inPlainStep_content ?_ here chosen took) ih
      rw [← Bool.not_eq_true, Xml.isBroken_startTag_iff]
      rintro ⟨fault, broken⟩
      exact intact fault broken
  | case9 depth read s c tail here reader chosen t rest took _ _ open_ ih =>
      refine Stage.cons (inPlainStep_content ?_ here chosen took) ih
      cases t with
      | startTag tag => exact absurd rfl (open_ tag)
      | _ => rfl

theorem stage_element (p : Progress) : Stage InPlainStep p.read p.span (Xml.scanElement p) := by
  unfold Xml.scanElement
  split
  · next c tail here =>
    split
    · next angle =>
      subst angle
      split
      · exact stage_failed _ _ _ _
      · next tag rest took =>
        have first (intact : (Token.startTag tag).isBroken = false) :
            InPlainStep p.span [.startTag tag] rest.1 := inPlainStep_startTag intact here took
        split
        · next opened =>
          refine Stage.cons (first ?_) (stage_content _ _ _)
          simp [← Bool.not_eq_true, Xml.isBroken_startTag_iff, opened]
        · next fault broken =>
          exact .inr ⟨_, by simp, Xml.isBroken_startTag_iff.2 ⟨fault, broken⟩⟩
        · next _ intact =>
          refine ⟨[_], rfl, first ?_⟩
          rw [← Bool.not_eq_true, Xml.isBroken_startTag_iff]
          rintro ⟨fault, broken⟩
          exact intact fault broken
    · exact stage_skip _ (.refl _)
  · exact stage_skip _ (.refl _)

theorem stage_declaration (s : Span) : Stage InPlainStep [] s (Xml.scanDeclaration s) := by
  unfold Xml.scanDeclaration
  split
  · next c tail here =>
    split
    · next begins =>
      split
      · exact stage_failed _ _ _ _
      · next rest took =>
        have whole : '<' :: "?xml ".toList <+: c :: tail := List.isPrefixOf_iff_prefix.1 begins
        obtain ⟨angle, mark⟩ := List.cons_prefix_cons.1 whole
        subst angle
        have target : "?xml".toList <+: tail := List.IsPrefix.trans (by decide) mark
        obtain ⟨inside, splits, absent⟩ := Reader.splits_declaration target took
        exact stage_skip _ (inPlainStep_of_inert (splits.cons here) (inert_declaration absent _))
    · exact stage_skip _ (.refl _)
  · exact stage_skip _ (.refl _)

theorem inPlainStep_dropMark (s : Span) : InPlainStep s [] s.dropMark := by
  unfold Span.dropMark
  split
  · next mark =>
    obtain ⟨rest, whole⟩ := List.head?_eq_some_iff.1 mark
    have splits : s.Splits [Xml.byteOrderMark] (s.drop 1) := by
      refine ⟨?_, ?_⟩ <;> simp [Span.drop, whole]
    exact inPlainStep_of_inert splits (inert_chars (by decide) _)
  · exact .refl s

/-- What has been read when a document type declaration can come. -/
def beforeDoctype (text : List Char) : Except Scan Progress := do
  let p ← Xml.scanDeclaration (Span.dropMark ⟨text, .start⟩)
  Xml.scanMisc p.read p.span

/-- The tokens of a whole document, if its document type declaration is read as `R` says. -/
theorem stage_document {R : Span → List Token → Span → Prop}
    (trans : ∀ {s m s' ts more}, R s ts m → R m more s' → R s (ts ++ more) s')
    (plain : ∀ {s ts s'}, InPlainStep s ts s' → R s ts s') {text : List Char}
    (doctype : ∀ p, beforeDoctype text = .ok p → Stage R p.read p.span (Xml.scanDoctype p)) :
    Doomed (Scan.ofDocument text) ∨
      ∃ s', s'.chars = [] ∧ R ⟨text, .start⟩ (Scan.ofDocument text).tokens s' := by
  let Ends (s : Span) (ts : List Token) (s' : Span) : Prop := s'.chars = [] ∧ R s ts s'
  have onward {s m s' : Span} {ts more : List Token} (first : R s ts m) (rest : Ends m more s') :
      Ends s (ts ++ more) s' := ⟨rest.1, trans first rest.2⟩
  have whole : Stage Ends [] (Span.dropMark ⟨text, .start⟩) (do
      let p ← Xml.scanDeclaration (Span.dropMark ⟨text, .start⟩)
      let p ← Xml.scanMisc p.read p.span
      let p ← Xml.scanDoctype p
      let p ← Xml.scanMisc p.read p.span
      let p ← Xml.scanElement p
      let p ← Xml.scanMisc p.read p.span
      if p.span.chars.isEmpty then pure p
      else throw (.failed p.read (.at p.span.location .unknownToken))) := by
    refine ((stage_declaration _).mono plain).bind onward fun p first => ?_
    refine ((stage_misc _ _).mono plain).bind onward fun q second => ?_
    have before : beforeDoctype text = .ok q := by
      unfold beforeDoctype
      rw [first]
      exact second
    refine (doctype q before).bind onward fun _ _ => ?_
    refine ((stage_misc _ _).mono plain).bind onward fun _ _ => ?_
    refine ((stage_element _).mono plain).bind onward fun _ _ => ?_
    refine ((stage_misc _ _).mono plain).bind onward fun r _ => ?_
    split
    · next ended => exact stage_skip _ ⟨List.isEmpty_iff.1 ended, plain (.refl _)⟩
    · exact .inl rfl
  unfold Scan.ofDocument
  dsimp only
  split
  · next scan failed =>
    rw [failed] at whole
    exact .inl whole
  · next p came =>
    rw [came] at whole
    obtain ⟨tokens, read, ended, related⟩ := whole
    rw [List.append_nil] at read
    rw [read, List.reverse_reverse]
    exact .inr ⟨p.span, ended, trans (plain (inPlainStep_dropMark ⟨text, .start⟩)) related⟩

theorem inPlainStep_document {text : List Char}
    (none : ∀ p, beforeDoctype text = .ok p → ¬ "<!DOCTYPE".toList <+: p.span.chars) :
    Doomed (Scan.ofDocument text) ∨
      ∃ s', s'.chars = [] ∧ InPlainStep ⟨text, .start⟩ (Scan.ofDocument text).tokens s' := by
  refine stage_document .trans id fun p before => ?_
  rw [scanDoctype_skip (none p before)]
  exact stage_skip _ (.refl _)

theorem doomed_of_scanSubset {doctype : Location} {read : List Token} {s : Span} {scan : Scan}
    (h : Xml.scanSubset doctype read s = .error scan) : Doomed scan := by
  fun_induction Xml.scanSubset doctype read s with
  | case1 | case4 => cases h
  | case2 | case3 | case5 | case6 | case8 =>
      obtain rfl := Except.error.inj h
      exact .inl rfl
  | case7 => next ih => exact ih h

theorem doomed_of_scanDoctype {p : Progress} {scan : Scan}
    (h : Xml.scanDoctype p = .error scan) : Doomed scan := by
  unfold Xml.scanDoctype at h
  split at h
  · split at h
    · split at h
      · obtain rfl := Except.error.inj h
        exact .inl rfl
      · split at h
        · exact doomed_of_scanSubset h
        · cases h
    · cases h
  · cases h

/-- The text that is read as a document type declaration. -/
def doctype? (text : List Char) : Option (List Char) :=
  match beforeDoctype text with
  | .error _ => none
  | .ok p =>
    if "<!DOCTYPE".toList.isPrefixOf p.span.chars then
      match Xml.scanDoctype p with
      | .error _ => none
      | .ok q => some (p.span.chars.take (p.span.chars.length - q.span.chars.length))
    else none

/-- The look at the bare text keeps in step with the reader of documents, if it passes the document
type declaration as a whole. -/
theorem inStep_document {text : List Char}
    (level : ∀ markup, doctype? text = some markup → Level markup) :
    Doomed (Scan.ofDocument text) ∨
      ∃ s', s'.chars = [] ∧ InStep ⟨text, .start⟩ (Scan.ofDocument text).tokens s' := by
  refine stage_document .trans (·.inStep) fun p before => ?_
  by_cases begins : "<!DOCTYPE".toList <+: p.span.chars
  · cases took : Xml.scanDoctype p with
    | error scan => exact doomed_of_scanDoctype took
    | ok q =>
        obtain ⟨⟨tokens, read, silent⟩, markup, keyword, splits, -⟩ :=
          scanDoctype_splits begins took
        have same : doctype? text = some markup := by
          unfold doctype?
          simp only [before, if_pos (List.isPrefixOf_iff_prefix.2 begins), took]
          rw [splits.chars]
          simp
        refine ⟨tokens, read, inStep_of_inert splits silent fun _ => ?_⟩
        exact (level markup same).inert keyword _
  · rw [scanDoctype_skip begins]
    exact stage_skip _ (.refl _)

end ApiDrift.Introspection
