import ApiDrift.Proofs.Xml.Reader
/-! What a reader consumes, and that it then stands where that ends. -/
namespace ApiDrift

theorem Location.after_append (l : Location) (first second : List Char) :
    l.after (first ++ second) = (l.after first).after second := List.foldl_append

namespace Xml

/-- `rest` is what is left of a span after `used`, at the place where it begins. -/
structure Span.Splits (s : Span) (used : List Char) (rest : Span) : Prop where
  chars : s.chars = used ++ rest.chars
  location : rest.location = s.location.after used

namespace Span.Splits

variable {s m rest : Span} {used more : List Char}

theorem refl (s : Span) : s.Splits [] s := ⟨rfl, rfl⟩

theorem trans (first : s.Splits used m) (second : m.Splits more rest) :
    s.Splits (used ++ more) rest where
  chars := by rw [first.chars, second.chars, List.append_assoc]
  location := by rw [second.location, first.location, Location.after_append]

theorem eq_of_chars (splits : s.Splits used rest) (same : s.chars = more ++ rest.chars) :
    used = more := by
  rw [splits.chars] at same
  exact List.append_cancel_right same

theorem cons {c : Char} {tail : List Char} (here : s.chars = c :: tail)
    (splits : Span.Splits ⟨tail, s.location.next c⟩ used rest) : s.Splits (c :: used) rest where
  chars := by
    have whole : tail = used ++ rest.chars := splits.chars
    rw [here, whole, List.cons_append]
  location := splits.location

theorem dropSpaces (s : Span) : s.Splits (s.chars.takeWhile isSpace) s.dropSpaces where
  chars := List.takeWhile_append_dropWhile.symm
  location := rfl

end Span.Splits

/-- Nothing is said of a text. -/
def anything (_ : List Char) : Prop := True

namespace Reader

variable {whole : List Char} {α β : Type} {P Q : List Char → Prop}

/-- What the reader takes off the front when it succeeds is as `P` says, and it then stands
where that ends. -/
def Consumes (P : List Char → Prop) (r : Reader whole α) : Prop :=
  ∀ s a s', r s = .ok (a, s') → ∃ used, s.1.Splits used s'.1 ∧ P used

theorem Consumes.mono {r : Reader whole α} (consumes : Consumes P r)
    (imp : ∀ used, P used → Q used) : Consumes Q r := by
  intro s a s' h
  obtain ⟨used, splits, shape⟩ := consumes s a s' h
  exact ⟨used, splits, imp used shape⟩

theorem Consumes.of_took {r : Reader whole α} (consumes : Consumes anything r)
    (took : ∀ {s a s'}, r s = .ok (a, s') → ∃ used, s.1.chars = used ++ s'.1.chars ∧ P used) :
    Consumes P r := by
  intro s a s' h
  obtain ⟨used, splits, -⟩ := consumes s a s' h
  obtain ⟨same, chars, shape⟩ := took h
  obtain rfl := splits.eq_of_chars chars
  exact ⟨used, splits, shape⟩

theorem Consumes.bind {R : List Char → Prop} {x : Reader whole α} {f : α → Reader whole β}
    (join : ∀ {used more}, P used → Q more → R (used ++ more)) (first : Consumes P x)
    (later : ∀ a, Consumes Q (f a)) : Consumes R (x >>= f) := by
  intro s b s' h
  obtain ⟨a, m, taken, h⟩ := bind_eq_ok.1 h
  obtain ⟨used, splits, shape⟩ := first s a m taken
  obtain ⟨more, splits', shape'⟩ := later a m b s' h
  exact ⟨used ++ more, splits.trans splits', join shape shape'⟩

theorem Consumes.andThen {x : Reader whole α} {f : α → Reader whole β} (first : Consumes P x)
    (later : ∀ a, Consumes anything (f a)) : Consumes anything (x >>= f) :=
  first.bind (fun _ _ => trivial) later

theorem Consumes.afterLook {x : Reader whole α} {f : α → Reader whole β}
    (look : Consumes (fun used => used = []) x) (later : ∀ a, Consumes P (f a)) :
    Consumes P (x >>= f) := by
  refine look.bind (fun none shape => ?_) later
  rwa [none]

theorem Consumes.ite {p : Prop} [Decidable p] {r r' : Reader whole α} (yes : Consumes P r)
    (no : Consumes P r') : Consumes P (if p then r else r') := by
  by_cases h : p
  · rwa [if_pos h]
  · rwa [if_neg h]

theorem consumes_of_look {r : Reader whole α} (same : ∀ {s a s'}, r s = .ok (a, s') → s = s') :
    Consumes (fun used => used = []) r := by
  intro s a s' h
  obtain rfl := same h
  exact ⟨[], .refl _, rfl⟩

theorem consumes_here : Consumes (fun used => used = []) (here : Reader whole Location) :=
  consumes_of_look fun h => (here_eq_ok.1 h).2

theorem consumes_peek : Consumes (fun used => used = []) (peek? : Reader whole (Option Char)) :=
  consumes_of_look fun h => (peek_eq_ok.1 h).2

theorem consumes_startsWith (t : String) :
    Consumes (fun used => used = []) (startsWith t : Reader whole Bool) :=
  consumes_of_look fun h => (startsWith_eq_ok.1 h).2

theorem consumes_checkChars (start : Location) (t : List Char) :
    Consumes (fun used => used = []) (checkChars start t : Reader whole Unit) :=
  consumes_of_look checkChars_took

theorem consumes_pure (nil : P []) (a : α) : Consumes P (pure a : Reader whole α) :=
  (consumes_of_look fun h => (pure_eq_ok.1 h).2).mono fun _ same => same ▸ nil

theorem consumes_fail (fault : Fault) : Consumes P (fail fault : Reader whole α) :=
  fun _ _ _ => nofun

theorem consumes_failHere (cause : Cause) : Consumes P (failHere cause : Reader whole α) :=
  fun _ _ _ => nofun

theorem consumes_skip (n : Nat) : Consumes anything (skip n : Reader whole Unit) := by
  intro s a s' h
  simp only [skip, Except.ok.injEq, Prod.mk.injEq] at h
  refine ⟨s.1.chars.take n, ?_, trivial⟩
  rw [← h.2]
  exact ⟨(List.take_append_drop n _).symm, rfl⟩

theorem consumes_takeWhile {p : Char → Bool} :
    Consumes (fun used => ∀ c ∈ used, p c = true) (takeWhile p : Reader whole (List Char)) := by
  intro s a s' h
  simp only [takeWhile, Except.ok.injEq, Prod.mk.injEq] at h
  refine ⟨s.1.chars.takeWhile p, ?_, mem_takeWhile⟩
  rw [← h.2]
  exact ⟨List.takeWhile_append_dropWhile.symm, rfl⟩

theorem consumes_takeBefore (stop : String) :
    Consumes anything (takeBefore stop : Reader whole (List Char)) := by
  intro s read s' h
  obtain ⟨whole, -⟩ := takeBefore_took h
  simp only [takeBefore, Except.ok.injEq, Prod.mk.injEq] at h
  refine ⟨read, ⟨whole, ?_⟩, trivial⟩
  rw [← h.2, ← h.1]

theorem consumes_takeChars {p : Char → Bool} :
    Consumes anything (takeChars p : Reader whole (List Char)) := by
  refine consumes_here.andThen fun start => ?_
  refine consumes_takeWhile.andThen fun t => ?_
  refine (consumes_checkChars start t).andThen fun _ => ?_
  exact consumes_pure trivial t

theorem consumes_takeCharsBefore (stop : String) :
    Consumes anything (takeCharsBefore stop : Reader whole (List Char)) := by
  refine consumes_here.andThen fun start => ?_
  refine (consumes_takeBefore stop).andThen fun t => ?_
  refine (consumes_checkChars start t).andThen fun _ => ?_
  exact consumes_pure trivial t

theorem consumes_char (c : Char) :
    Consumes (fun used => used = [c]) (char c : Reader whole Unit) := by
  refine Consumes.of_took ?_ fun h => ⟨[c], char_took h, rfl⟩
  refine consumes_peek.andThen fun head => ?_
  cases head with
  | none => exact consumes_fail _
  | some d => exact .ite (consumes_skip 1) (consumes_failHere _)

theorem consumes_text (t : String) :
    Consumes (fun used => used = t.toList) (text t : Reader whole Unit) := by
  refine Consumes.of_took ?_ fun h => ⟨t.toList, text_took h, rfl⟩
  refine (consumes_startsWith t).andThen fun here => ?_
  exact .ite (consumes_skip _) (consumes_failHere _)

theorem consumes_spaces :
    Consumes (fun used => ∀ c ∈ used, isSpace c = true) (spaces : Reader whole Unit) := by
  refine Consumes.of_took ?_ spaces_took
  refine consumes_takeWhile.andThen fun _ => ?_
  exact consumes_pure trivial _

theorem consumes_someSpace :
    Consumes (fun used => ∀ c ∈ used, isSpace c = true) (someSpace : Reader whole Unit) := by
  intro s a s' h
  unfold someSpace at h
  obtain ⟨head, m, looked, h⟩ := bind_eq_ok.1 h
  obtain ⟨-, rfl⟩ := peek_eq_ok.1 looked
  cases head with
  | none => cases h
  | some c =>
      dsimp only at h
      split at h
      · exact consumes_spaces _ _ _ h
      · cases h

theorem consumes_openQuote :
    Consumes (fun used => used = ['\''] ∨ used = ['"']) (openQuote : Reader whole Char) := by
  have took {s s' : Left whole} {q : Char} (h : openQuote s = .ok (q, s')) :
      ∃ used, s.1.chars = used ++ s'.1.chars ∧ (used = ['\''] ∨ used = ['"']) := by
    obtain ⟨split, quote⟩ := openQuote_took h
    refine ⟨[q], split, ?_⟩
    rcases quote with rfl | rfl
    · exact .inl rfl
    · exact .inr rfl
  refine Consumes.of_took ?_ took
  refine consumes_peek.andThen fun head => ?_
  cases head with
  | none => exact consumes_fail _
  | some c =>
      refine .ite ?_ (consumes_failHere _)
      exact (consumes_skip 1).andThen fun _ => consumes_pure trivial c

theorem consumes_name :
    Consumes (fun used => ∀ c ∈ used, isNameChar c = true) (name : Reader whole String) := by
  have took {s s' : Left whole} {n : String} (h : name s = .ok (n, s')) :
      ∃ used, s.1.chars = used ++ s'.1.chars ∧ ∀ c ∈ used, isNameChar c = true := by
    obtain ⟨c, l, split, named⟩ := name_took h
    exact ⟨c :: l, split, named⟩
  refine Consumes.of_took ?_ took
  refine consumes_peek.andThen fun head => ?_
  cases head with
  | none => exact consumes_failHere _
  | some c =>
      refine .ite ?_ (consumes_failHere _)
      refine consumes_takeWhile.andThen fun read => ?_
      exact consumes_pure trivial _

theorem consumes_qnameFrom (start : Location) (c : Char) :
    Consumes anything (qnameFrom start c : Reader whole QName) := by
  refine .ite ?_ (consumes_fail _)
  refine consumes_takeWhile.andThen fun rest => ?_
  cases QName.ofChars? (c :: rest) with
  | none => exact consumes_fail _
  | some q => exact consumes_pure trivial q

theorem consumes_qname :
    Consumes (fun used => ∀ c ∈ used, isNameChar c = true) (qname : Reader whole QName) := by
  have took {s s' : Left whole} {q : QName} (h : qname s = .ok (q, s')) :
      ∃ used, s.1.chars = used ++ s'.1.chars ∧ ∀ c ∈ used, isNameChar c = true := by
    obtain ⟨c, l, split, named⟩ := qname_took h
    exact ⟨c :: l, split, named⟩
  refine Consumes.of_took ?_ took
  refine consumes_here.andThen fun start => ?_
  refine consumes_peek.andThen fun head => ?_
  cases head with
  | none => exact consumes_fail _
  | some c => exact (consumes_skip 1).andThen fun _ => consumes_qnameFrom start c

theorem consumes_attributeValue : Consumes anything (attributeValue : Reader whole Span) := by
  refine consumes_openQuote.andThen fun quote => ?_
  refine consumes_here.andThen fun start => ?_
  refine consumes_takeChars.andThen fun value => ?_
  refine (consumes_char quote).andThen fun _ => ?_
  exact consumes_pure trivial _

theorem consumes_equalsValue : Consumes anything (equalsValue : Reader whole Span) := by
  refine consumes_spaces.andThen fun _ => ?_
  refine (consumes_char '=').andThen fun _ => ?_
  exact consumes_spaces.andThen fun _ => consumes_attributeValue

theorem consumes_attributeFrom (start : Location) (c : Char) :
    Consumes anything (attributeFrom start c : Reader whole RawAttribute) := by
  refine (consumes_qnameFrom start c).andThen fun q => ?_
  refine consumes_equalsValue.andThen fun value => ?_
  exact consumes_pure trivial _

theorem consumes_comment (start : Location) :
    Consumes anything (comment start : Reader whole Token) := by
  refine (consumes_skip 3).andThen fun _ => ?_
  refine (consumes_takeCharsBefore "-->").andThen fun body => ?_
  refine (consumes_text "-->").andThen fun _ => ?_
  exact .ite (consumes_fail _) (consumes_pure trivial _)

theorem consumes_instruction (start : Location) :
    Consumes anything (instruction start : Reader whole Token) := by
  refine (consumes_startsWith _).andThen fun _ => ?_
  refine .ite (consumes_fail _) ?_
  refine (consumes_skip 1).andThen fun _ => ?_
  refine consumes_name.andThen fun _ => ?_
  refine consumes_spaces.andThen fun _ => ?_
  refine (consumes_takeCharsBefore "?>").andThen fun _ => ?_
  refine (consumes_text "?>").andThen fun _ => ?_
  exact consumes_pure trivial _

theorem consumes_cdata : Consumes anything (cdata : Reader whole Token) := by
  refine (consumes_skip 8).andThen fun _ => ?_
  refine (consumes_takeCharsBefore "]]>").andThen fun body => ?_
  refine (consumes_text "]]>").andThen fun _ => ?_
  exact consumes_pure trivial _

theorem consumes_endTag (start : Location) :
    Consumes anything (endTag start : Reader whole Token) := by
  refine (consumes_skip 1).andThen fun _ => ?_
  refine consumes_qname.andThen fun _ => ?_
  refine consumes_spaces.andThen fun _ => ?_
  refine (consumes_char '>').andThen fun _ => ?_
  exact consumes_pure trivial _

theorem consumes_textFrom (start : Location) (c : Char) :
    Consumes anything (textFrom start c : Reader whole Token) := by
  refine consumes_takeWhile.andThen fun rest => ?_
  refine (consumes_checkChars start _).andThen fun _ => ?_
  exact .ite (consumes_failHere _) (consumes_pure trivial _)

theorem consumes_tagRest {read attributes : List RawAttribute} {finish : TagEnd}
    {s s' : Left whole} (h : tagRest whole read s = (attributes, finish, s')) :
    ∃ used, s.1.Splits used s'.1 := by
  induction n : s.1.chars.length using Nat.strongRecOn generalizing s read with
  | ind n ih =>
  have blank := Span.Splits.dropSpaces s.1
  have shorter := length_dropSpaces_le s.1
  rw [tagRest.eq_def] at h
  dsimp only at h
  split at h
  · obtain ⟨-, -, rfl⟩ := Prod.mk.inj h |>.imp_right Prod.mk.inj
    exact ⟨_, blank⟩
  · next c tail here =>
    rw [here] at shorter
    split at h
    · split at h
      · obtain ⟨-, -, rfl⟩ := Prod.mk.inj h |>.imp_right Prod.mk.inj
        exact ⟨_, blank⟩
      · next _ rest closed =>
        obtain ⟨-, -, rfl⟩ := Prod.mk.inj h |>.imp_right Prod.mk.inj
        obtain ⟨used, splits, -⟩ := consumes_char '>' _ _ _ closed
        exact ⟨_, blank.trans (splits.cons here)⟩
    · split at h
      · obtain ⟨-, -, rfl⟩ := Prod.mk.inj h |>.imp_right Prod.mk.inj
        exact ⟨_, blank.trans (Span.Splits.cons here (.refl _))⟩
      · split at h
        · obtain ⟨-, -, rfl⟩ := Prod.mk.inj h |>.imp_right Prod.mk.inj
          exact ⟨_, blank⟩
        · split at h
          · obtain ⟨-, -, rfl⟩ := Prod.mk.inj h |>.imp_right Prod.mk.inj
            exact ⟨_, blank⟩
          · next a rest taken =>
            obtain ⟨used, splits, -⟩ := consumes_attributeFrom _ c _ _ _ taken
            have fewer : rest.1.chars.length < s.1.chars.length :=
              Nat.lt_of_le_of_lt rest.2 shorter
            obtain ⟨more, splits'⟩ := ih _ (n ▸ fewer) h rfl
            exact ⟨_, blank.trans ((splits.cons here).trans splits')⟩

theorem consumes_startTag (start : Location) :
    Consumes anything (startTag start : Reader whole Tag) := by
  refine consumes_qname.andThen fun q => ?_
  intro s tag s' h
  obtain ⟨-, rfl⟩ := Prod.mk.inj (Except.ok.inj h)
  obtain ⟨used, splits⟩ := consumes_tagRest (rfl : tagRest whole [] s = (_, _, _))
  exact ⟨used, splits, trivial⟩

theorem splits_skip {s s' : Left whole} {t : List Char} {n : Nat} {a : Unit}
    (begins : t <+: s.1.chars) (length : t.length = n) (h : skip n s = .ok (a, s')) :
    s.1.Splits t s'.1 := by
  obtain ⟨used, splits, -⟩ := consumes_skip n _ _ _ h
  have took := skip_took_prefix begins length h
  rwa [splits.eq_of_chars took] at splits

/-- No markup begins in the text. -/
def Unmarked (used : List Char) : Prop := '<' ∉ used

theorem Unmarked.append {used more : List Char} (first : Unmarked used) (second : Unmarked more) :
    Unmarked (used ++ more) := by
  rw [Unmarked, List.mem_append, not_or]
  exact ⟨first, second⟩

theorem unmarked_nil : Unmarked [] := List.not_mem_nil

theorem unmarked_of_class {p : Char → Bool} (out : p '<' = false) {used : List Char}
    (all : ∀ c ∈ used, p c = true) : Unmarked used := by
  intro mem
  rw [all _ mem] at out
  cases out

theorem unmarked_spaces : Consumes Unmarked (spaces : Reader whole Unit) :=
  consumes_spaces.mono fun _ => unmarked_of_class (by decide)

theorem unmarked_declarationSpace : Consumes Unmarked (declarationSpace : Reader whole Unit) := by
  refine consumes_peek.afterLook fun head => ?_
  cases head with
  | none => exact consumes_pure unmarked_nil _
  | some c =>
      refine .ite unmarked_spaces ?_
      refine (consumes_startsWith _).afterLook fun _ => ?_
      exact .ite (consumes_pure unmarked_nil _) (consumes_failHere _)

theorem unmarked_equalsValue : Consumes Unmarked (equalsValue : Reader whole Span) := by
  have took {s s' : Left whole} {v : Span} (h : equalsValue s = .ok (v, s')) :
      ∃ used, s.1.chars = used ++ s'.1.chars ∧ Unmarked used := by
    obtain ⟨before, after, q, value, split, blank, blank', quote, within⟩ := equalsValue_took h
    have quoted : Unmarked [q] := by rcases quote with rfl | rfl <;> simp [Unmarked]
    have inside : Unmarked value := by
      intro mem
      have other := within _ mem
      simp at other
    have spaces : Unmarked before := unmarked_of_class (by decide) blank
    have spaces' : Unmarked after := unmarked_of_class (by decide) blank'
    have equals : Unmarked ['='] := by simp [Unmarked]
    refine ⟨before ++ ['='] ++ after ++ [q] ++ value ++ [q], by simp [split], ?_⟩
    exact ((((spaces.append equals).append spaces').append quoted).append inside).append quoted
  exact consumes_equalsValue.of_took took

theorem unmarked_pseudoAttribute : Consumes Unmarked (pseudoAttribute : Reader whole Unit) := by
  have named : Consumes Unmarked (qname : Reader whole QName) :=
    consumes_qname.mono fun _ => unmarked_of_class (by decide)
  refine named.bind .append fun _ => ?_
  exact unmarked_equalsValue.bind .append fun _ => consumes_pure unmarked_nil _

/-- Text that ends with the end of a declaration, before which no markup begins. -/
def Finishes (used : List Char) : Prop := ∃ inside, used = inside ++ "?>".toList ∧ Unmarked inside

theorem Finishes.after {used more : List Char} (first : Unmarked used) (second : Finishes more) :
    Finishes (used ++ more) := by
  obtain ⟨inside, rfl, unmarked⟩ := second
  exact ⟨used ++ inside, (List.append_assoc _ _ _).symm, first.append unmarked⟩

/-- The declaration is closed where it ends, and until then no other markup begins. -/
theorem splits_declaration {s s' : Left whole} {a : Unit} (begins : "?xml".toList <+: s.1.chars)
    (h : declaration s = .ok (a, s')) :
    ∃ inside, s.1.Splits ('?' :: (inside ++ "?>".toList)) s'.1 ∧ Unmarked inside := by
  unfold declaration at h
  obtain ⟨_, m, opened, h⟩ := bind_eq_ok.1 h
  have closing : Consumes Finishes (spaces >>= fun _ => text "?>" : Reader whole Unit) :=
    unmarked_spaces.bind .after fun _ =>
      (consumes_text "?>").mono fun _ same => ⟨[], same, unmarked_nil⟩
  have standalone : Consumes Finishes (startsWith "standalone" >>= fun here =>
      if here = true then pseudoAttribute >>= fun _ => spaces >>= fun _ => text "?>"
      else spaces >>= fun _ => text "?>" : Reader whole Unit) :=
    (consumes_startsWith _).afterLook fun _ =>
      .ite (unmarked_pseudoAttribute.bind .after fun _ => closing) closing
  have encoding : Consumes Finishes (startsWith "encoding" >>= fun here =>
      if here = true then pseudoAttribute >>= fun _ => declarationSpace >>= fun _ => _
      else _ : Reader whole Unit) :=
    (consumes_startsWith _).afterLook fun _ =>
      .ite (unmarked_pseudoAttribute.bind .after fun _ =>
        unmarked_declarationSpace.bind .after fun _ => standalone) standalone
  have finishes := unmarked_declarationSpace.bind Finishes.after fun _ =>
    (consumes_startsWith "version").afterLook fun version =>
      .ite (p := (!version) = true) (consumes_failHere (.expectedText "version"))
        (unmarked_pseudoAttribute.bind Finishes.after fun _ =>
          unmarked_declarationSpace.bind Finishes.after fun _ => encoding)
  obtain ⟨used, splits, inside, rfl, unmarked⟩ := finishes _ _ _ h
  refine ⟨"xml".toList ++ inside, ?_, ?_⟩
  · simpa using (splits_skip begins rfl opened).trans splits
  · exact Unmarked.append (by simp [Unmarked]) unmarked

theorem splits_runAfter {s : Span} {c : Char} {tail : List Char} {r : Reader tail α} {a : α}
    {rest : Left tail} (consumes : Consumes P r) (here : s.chars = c :: tail)
    (h : runAfter s.location c tail r = .ok (a, rest)) :
    ∃ used, s.Splits (c :: used) rest.1 ∧ P used := by
  obtain ⟨used, splits, shape⟩ := consumes _ _ _ h
  exact ⟨used, splits.cons here, shape⟩

end Reader

end Xml

end ApiDrift
