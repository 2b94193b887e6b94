import ApiDrift.Xml.Prolog
/-! What a reader takes off the front of the text when it succeeds. -/
namespace ApiDrift.Xml

/-- `stop` begins nowhere inside `front`, after which `rest` follows. -/
def Unmet (stop : List Char) : List Char → List Char → Prop
  | [], _ => True
  | c :: front, rest => ¬ stop <+: c :: (front ++ rest) ∧ Unmet stop front rest

theorem unmet_append {stop front more rest : List Char} :
    Unmet stop (front ++ more) rest ↔ Unmet stop front (more ++ rest) ∧ Unmet stop more rest := by
  induction front with
  | nil => simp [Unmet]
  | cons c front ih =>
      simp only [List.cons_append, Unmet, List.append_assoc, ih, and_assoc]

theorem unmet_of_not_mem {c : Char} {stop front : List Char} (rest : List Char)
    (absent : c ∉ front) : Unmet (c :: stop) front rest := by
  induction front with
  | nil => trivial
  | cons d front ih =>
      simp only [List.mem_cons, not_or] at absent
      refine ⟨fun met => ?_, ih absent.2⟩
      exact absent.1 (List.cons_prefix_cons.1 met).1

theorem Unmet.not_within {c : Char} {stop front rest : List Char}
    (unmet : Unmet (c :: stop) front rest) : ¬ c :: stop <:+: front := by
  rintro ⟨before, after, rfl⟩
  rw [List.append_assoc, unmet_append] at unmet
  obtain ⟨-, here, -⟩ := unmet
  refine here ⟨after ++ rest, ?_⟩
  exact (List.append_assoc (c :: stop) after rest).symm

theorem breakOn_split (stop read l : List Char) :
    ∃ front, (breakOn stop read l).1 = read.reverse ++ front ∧
      l = front ++ (breakOn stop read l).2 ∧ Unmet stop front (breakOn stop read l).2 := by
  induction l generalizing read with
  | nil => exact ⟨[], by simp [breakOn, Unmet]⟩
  | cons c l ih =>
      unfold breakOn
      split
      · exact ⟨[], by simp [Unmet]⟩
      · next unmet =>
        obtain ⟨front, before, whole, passed⟩ := ih (c :: read)
        refine ⟨c :: front, ?_, ?_, ?_, passed⟩
        · rw [before]
          simp
        · rw [List.cons_append, ← whole]
        · rw [← whole, ← List.isPrefixOf_iff_prefix]
          exact unmet

theorem mem_takeWhile {p : Char → Bool} {l : List Char} : ∀ c ∈ l.takeWhile p, p c = true := by
  intro c hc
  exact List.all_eq_true.1 (List.all_takeWhile ..) c hc

namespace Reader

variable {whole : List Char} {α β : Type} {s s' : Left whole}

theorem bind_eq_ok {x : Reader whole α} {f : α → Reader whole β} {b : β} :
    (x >>= f) s = .ok (b, s') ↔ ∃ a m, x s = .ok (a, m) ∧ f a m = .ok (b, s') := by
  simp only [bind]
  cases h : x s with
  | error e => simp
  | ok r =>
      constructor
      · intro second
        exact ⟨r.1, r.2, rfl, second⟩
      · rintro ⟨a, m, first, second⟩
        obtain rfl := Except.ok.inj first
        exact second

theorem pure_eq_ok {a b : α} : (pure a : Reader whole α) s = .ok (b, s') ↔ a = b ∧ s = s' := by
  show (.ok (a, s) : Except Fault (α × Left whole)) = .ok (b, s') ↔ _
  simp

theorem here_eq_ok {l : Location} : here s = .ok (l, s') ↔ s.1.location = l ∧ s = s' := by
  simp [here]

theorem peek_eq_ok {c : Option Char} : peek? s = .ok (c, s') ↔ s.1.chars.head? = c ∧ s = s' := by
  simp [peek?]

theorem startsWith_eq_ok {t : String} {b : Bool} :
    startsWith t s = .ok (b, s') ↔ t.toList.isPrefixOf s.1.chars = b ∧ s = s' := by
  simp [startsWith]

theorem skip_took {n : Nat} {a : Unit} (h : skip n s = .ok (a, s')) :
    s.1.chars = s.1.chars.take n ++ s'.1.chars := by
  simp only [skip, Except.ok.injEq, Prod.mk.injEq] at h
  rw [← h.2]
  exact (List.take_append_drop n _).symm

theorem skip_took_prefix {t : List Char} {n : Nat} {a : Unit} (begins : t <+: s.1.chars)
    (length : t.length = n) (h : skip n s = .ok (a, s')) : s.1.chars = t ++ s'.1.chars := by
  have took := skip_took h
  obtain ⟨rest, whole⟩ := begins
  rwa [← whole, List.take_append_of_le_length (Nat.le_of_eq length.symm), ← length,
    List.take_length, whole] at took

theorem takeWhile_took {p : Char → Bool} {read : List Char} (h : takeWhile p s = .ok (read, s')) :
    s.1.chars = read ++ s'.1.chars ∧ ∀ c ∈ read, p c = true := by
  simp only [takeWhile, Except.ok.injEq, Prod.mk.injEq] at h
  obtain ⟨rfl, rfl⟩ := h
  exact ⟨List.takeWhile_append_dropWhile.symm, mem_takeWhile⟩

theorem takeWhile_read {p : Char → Bool} {read : List Char}
    (h : takeWhile p s = .ok (read, s')) : s.1.chars.takeWhile p = read := by
  simp only [takeWhile, Except.ok.injEq, Prod.mk.injEq] at h
  exact h.1

theorem takeBefore_took {stop : String} {read : List Char}
    (h : takeBefore stop s = .ok (read, s')) :
    s.1.chars = read ++ s'.1.chars ∧ Unmet stop.toList read s'.1.chars := by
  simp only [takeBefore, Except.ok.injEq, Prod.mk.injEq] at h
  obtain ⟨rfl, rfl⟩ := h
  obtain ⟨front, before, whole, passed⟩ := breakOn_split stop.toList [] s.1.chars
  rw [List.reverse_nil, List.nil_append] at before
  rw [before]
  exact ⟨whole, passed⟩

theorem checkChars_took {start : Location} {t : List Char} {a : Unit}
    (h : checkChars start t s = .ok (a, s')) : s = s' := by
  cases refused : t.dropWhile isXmlChar with
  | nil =>
      simp only [checkChars, refused] at h
      exact (pure_eq_ok.1 h).2
  | cons c more =>
      simp only [checkChars, refused] at h
      cases h

theorem takeChars_took {p : Char → Bool} {read : List Char} (h : takeChars p s = .ok (read, s')) :
    s.1.chars = read ++ s'.1.chars ∧ ∀ c ∈ read, p c = true := by
  unfold takeChars at h
  obtain ⟨start, m, at_, h⟩ := bind_eq_ok.1 h
  obtain ⟨taken, n, took, h⟩ := bind_eq_ok.1 h
  obtain ⟨_, o, checked, h⟩ := bind_eq_ok.1 h
  obtain ⟨rfl, rfl⟩ := pure_eq_ok.1 h
  rw [(here_eq_ok.1 at_).2, ← checkChars_took checked]
  exact takeWhile_took took

theorem takeCharsBefore_took {stop : String} {read : List Char}
    (h : takeCharsBefore stop s = .ok (read, s')) :
    s.1.chars = read ++ s'.1.chars ∧ Unmet stop.toList read s'.1.chars := by
  unfold takeCharsBefore at h
  obtain ⟨start, m, at_, h⟩ := bind_eq_ok.1 h
  obtain ⟨taken, n, took, h⟩ := bind_eq_ok.1 h
  obtain ⟨_, o, checked, h⟩ := bind_eq_ok.1 h
  obtain ⟨rfl, rfl⟩ := pure_eq_ok.1 h
  rw [(here_eq_ok.1 at_).2, ← checkChars_took checked]
  exact takeBefore_took took

theorem skip_took_head {c : Char} {a : Unit} (head : s.1.chars.head? = some c)
    (h : skip 1 s = .ok (a, s')) : s.1.chars = c :: s'.1.chars := by
  obtain ⟨rest, whole⟩ := List.head?_eq_some_iff.1 head
  exact skip_took_prefix (t := [c]) ⟨rest, whole.symm⟩ rfl h

theorem char_took {c : Char} {a : Unit} (h : char c s = .ok (a, s')) :
    s.1.chars = c :: s'.1.chars := by
  unfold char at h
  obtain ⟨head, m, looked, h⟩ := bind_eq_ok.1 h
  obtain ⟨begins, rfl⟩ := peek_eq_ok.1 looked
  cases head with
  | none => cases h
  | some d =>
      by_cases same : d = c
      · simp only [if_pos same] at h
        exact skip_took_head (same ▸ begins) h
      · simp only [if_neg same] at h
        cases h

theorem text_took {t : String} {a : Unit} (h : text t s = .ok (a, s')) :
    s.1.chars = t.toList ++ s'.1.chars := by
  unfold text at h
  obtain ⟨here, m, looked, h⟩ := bind_eq_ok.1 h
  obtain ⟨begins, rfl⟩ := startsWith_eq_ok.1 looked
  cases here with
  | false => cases h
  | true => exact skip_took_prefix (List.isPrefixOf_iff_prefix.1 begins) String.length_toList h

theorem spaces_took {a : Unit} (h : spaces s = .ok (a, s')) :
    ∃ blank, s.1.chars = blank ++ s'.1.chars ∧ ∀ c ∈ blank, isSpace c = true := by
  unfold spaces at h
  obtain ⟨blank, m, took, h⟩ := bind_eq_ok.1 h
  obtain ⟨-, rfl⟩ := pure_eq_ok.1 h
  exact ⟨blank, takeWhile_took took⟩

theorem openQuote_took {q : Char} (h : openQuote s = .ok (q, s')) :
    s.1.chars = q :: s'.1.chars ∧ (q = '\'' ∨ q = '"') := by
  unfold openQuote at h
  obtain ⟨head, m, looked, h⟩ := bind_eq_ok.1 h
  obtain ⟨begins, rfl⟩ := peek_eq_ok.1 looked
  cases head with
  | none => cases h
  | some c =>
      by_cases quote : c = '\'' ∨ c = '"'
      · simp only [if_pos quote] at h
        obtain ⟨_, n, skipped, h⟩ := bind_eq_ok.1 h
        obtain ⟨rfl, rfl⟩ := pure_eq_ok.1 h
        exact ⟨skip_took_head begins skipped, quote⟩
      · simp only [if_neg quote] at h
        cases h

theorem isNameChar_of_isNameStart {c : Char} (h : isNameStart c = true) : isNameChar c = true := by
  simp [isNameChar, h]

theorem name_took {n : String} (h : name s = .ok (n, s')) :
    ∃ c l, s.1.chars = c :: l ++ s'.1.chars ∧ ∀ d ∈ c :: l, isNameChar d = true := by
  unfold name at h
  obtain ⟨head, m, looked, h⟩ := bind_eq_ok.1 h
  obtain ⟨begins, rfl⟩ := peek_eq_ok.1 looked
  cases head with
  | none => cases h
  | some c =>
      by_cases start : isNameStart c = true
      · simp only [if_pos start] at h
        obtain ⟨read, n, took, h⟩ := bind_eq_ok.1 h
        obtain ⟨-, rfl⟩ := pure_eq_ok.1 h
        obtain ⟨rest, whole⟩ := List.head?_eq_some_iff.1 begins
        have run := takeWhile_read took
        rw [whole, List.takeWhile_cons_of_pos (isNameChar_of_isNameStart start)] at run
        obtain ⟨split, named⟩ := takeWhile_took took
        rw [← run] at split named
        exact ⟨c, rest.takeWhile isNameChar, split, named⟩
      · simp only [if_neg start] at h
        cases h

theorem qnameFrom_took {start : Location} {c : Char} {q : QName}
    (h : qnameFrom start c s = .ok (q, s')) :
    ∃ l, s.1.chars = l ++ s'.1.chars ∧ ∀ d ∈ c :: l, isNameChar d = true := by
  unfold qnameFrom at h
  by_cases first : isNameChar c = true
  · simp only [if_pos first] at h
    obtain ⟨l, m, took, h⟩ := bind_eq_ok.1 h
    obtain ⟨whole, named⟩ := takeWhile_took took
    have same : m = s' := by
      cases spelled : QName.ofChars? (c :: l) with
      | none =>
          simp only [spelled] at h
          cases h
      | some spelled_ =>
          simp only [spelled] at h
          exact (pure_eq_ok.1 h).2
    subst same
    exact ⟨l, whole, List.forall_mem_cons.2 ⟨first, named⟩⟩
  · simp only [if_neg first] at h
    cases h

theorem qname_took {q : QName} (h : qname s = .ok (q, s')) :
    ∃ c l, s.1.chars = c :: l ++ s'.1.chars ∧ ∀ d ∈ c :: l, isNameChar d = true := by
  unfold qname at h
  obtain ⟨start, m, at_, h⟩ := bind_eq_ok.1 h
  obtain ⟨-, rfl⟩ := here_eq_ok.1 at_
  obtain ⟨head, m, looked, h⟩ := bind_eq_ok.1 h
  obtain ⟨begins, rfl⟩ := peek_eq_ok.1 looked
  cases head with
  | none => cases h
  | some c =>
      obtain ⟨_, n, skipped, h⟩ := bind_eq_ok.1 h
      obtain ⟨l, whole, named⟩ := qnameFrom_took h
      refine ⟨c, l, ?_, named⟩
      rw [skip_took_head begins skipped, whole, List.cons_append]

theorem attributeValue_took {v : Span} (h : attributeValue s = .ok (v, s')) :
    ∃ q value, s.1.chars = q :: (value ++ q :: s'.1.chars) ∧ (q = '\'' ∨ q = '"') ∧
      ∀ c ∈ value, (c != q && c != '<') = true := by
  unfold attributeValue at h
  obtain ⟨q, m, opened, h⟩ := bind_eq_ok.1 h
  obtain ⟨start, n, at_, h⟩ := bind_eq_ok.1 h
  obtain ⟨-, rfl⟩ := here_eq_ok.1 at_
  obtain ⟨value, o, read, h⟩ := bind_eq_ok.1 h
  obtain ⟨_, p, closed, h⟩ := bind_eq_ok.1 h
  obtain ⟨-, rfl⟩ := pure_eq_ok.1 h
  obtain ⟨whole, quote⟩ := openQuote_took opened
  obtain ⟨taken, within⟩ := takeChars_took read
  exact ⟨q, value, by rw [whole, taken, char_took closed], quote, within⟩

theorem equalsValue_took {v : Span} (h : equalsValue s = .ok (v, s')) :
    ∃ before after q value,
      s.1.chars = before ++ '=' :: (after ++ q :: (value ++ q :: s'.1.chars)) ∧
      (∀ c ∈ before, isSpace c = true) ∧ (∀ c ∈ after, isSpace c = true) ∧
      (q = '\'' ∨ q = '"') ∧ ∀ c ∈ value, (c != q && c != '<') = true := by
  unfold equalsValue at h
  obtain ⟨_, m, first, h⟩ := bind_eq_ok.1 h
  obtain ⟨_, n, equals, h⟩ := bind_eq_ok.1 h
  obtain ⟨_, o, second, h⟩ := bind_eq_ok.1 h
  obtain ⟨before, leading, blank⟩ := spaces_took first
  obtain ⟨after, trailing, blank'⟩ := spaces_took second
  obtain ⟨q, value, quoted, quote, within⟩ := attributeValue_took h
  refine ⟨before, after, q, value, ?_, blank, blank', quote, within⟩
  rw [leading, char_took equals, trailing, quoted]

theorem comment_took {start : Location} {t : Token} (begins : "!--".toList <+: s.1.chars)
    (h : comment start s = .ok (t, s')) :
    ∃ body, t = .comment body start ∧
      s.1.chars = "!--".toList ++ (body ++ ("-->".toList ++ s'.1.chars)) ∧
      Unmet "-->".toList body ("-->".toList ++ s'.1.chars) ∧ ¬ ['-', '-'] <:+: body := by
  unfold comment at h
  obtain ⟨_, m, opened, h⟩ := bind_eq_ok.1 h
  obtain ⟨body, n, taken, h⟩ := bind_eq_ok.1 h
  obtain ⟨_, o, closed, h⟩ := bind_eq_ok.1 h
  have opening := skip_took_prefix begins rfl opened
  obtain ⟨split, unmet⟩ := takeCharsBefore_took taken
  have closing := text_took closed
  split at h
  · cases h
  · next plain =>
    obtain ⟨rfl, rfl⟩ := pure_eq_ok.1 h
    rw [closing] at unmet
    refine ⟨body, rfl, ?_, unmet, ?_⟩
    · rw [opening, split, closing]
    · obtain ⟨front, -, whole, apart⟩ := breakOn_split ['-', '-'] [] body
      have none : (breakOn ['-', '-'] [] body).2 = [] := by
        simp only [Bool.or_eq_true, bne_iff_ne, not_or, Decidable.not_not] at plain
        exact plain.1
      rw [none, List.append_nil] at whole
      rw [whole]
      exact apart.not_within

theorem instruction_took {start : Location} {t : Token} (begins : "?".toList <+: s.1.chars)
    (h : instruction start s = .ok (t, s')) :
    ∃ body, t = .instruction ∧ s.1.chars = '?' :: (body ++ ("?>".toList ++ s'.1.chars)) ∧
      Unmet "?>".toList ('?' :: body) ("?>".toList ++ s'.1.chars) := by
  unfold instruction at h
  obtain ⟨declaration, m, looked, h⟩ := bind_eq_ok.1 h
  obtain ⟨-, rfl⟩ := startsWith_eq_ok.1 looked
  split at h
  · cases h
  obtain ⟨_, m, opened, h⟩ := bind_eq_ok.1 h
  obtain ⟨_, n, named, h⟩ := bind_eq_ok.1 h
  obtain ⟨_, o, spaced, h⟩ := bind_eq_ok.1 h
  obtain ⟨body, p, taken, h⟩ := bind_eq_ok.1 h
  obtain ⟨_, q, closed, h⟩ := bind_eq_ok.1 h
  obtain ⟨rfl, rfl⟩ := pure_eq_ok.1 h
  have opening := skip_took_prefix begins rfl opened
  obtain ⟨c, l, target, chars⟩ := name_took named
  obtain ⟨blank, gap, spaces⟩ := spaces_took spaced
  obtain ⟨split, unmet⟩ := takeCharsBefore_took taken
  have closing := text_took closed
  rw [closing] at unmet
  have whole : s.1.chars = '?' :: (c :: l ++ blank ++ body ++ ("?>".toList ++ q.1.chars)) := by
    rw [opening, target, gap, split, closing]
    simp
  refine ⟨c :: l ++ blank ++ body, rfl, whole, ?_⟩
  have first : ¬ "?>".toList <+:
      '?' :: (c :: l ++ blank ++ body ++ ("?>".toList ++ q.1.chars)) := by
    intro met
    obtain ⟨rfl, -⟩ := List.cons_prefix_cons.1 (List.cons_prefix_cons.1 met).2
    exact absurd (chars _ (List.mem_cons_self ..)) (by decide)
  have absent : '?' ∉ c :: l ++ blank := by
    rw [List.mem_append]
    rintro (mem | mem)
    · exact absurd (chars _ mem) (by decide)
    · exact absurd (spaces _ mem) (by decide)
  exact ⟨first, unmet_append.2 ⟨unmet_of_not_mem _ absent, unmet⟩⟩

theorem textFrom_took {start : Location} {c : Char} {t : Token}
    (h : textFrom start c s = .ok (t, s')) :
    ∃ used, t = .text ⟨c :: used, start⟩ ∧ s.1.chars = used ++ s'.1.chars ∧ '<' ∉ used := by
  unfold textFrom at h
  obtain ⟨used, m, taken, h⟩ := bind_eq_ok.1 h
  obtain ⟨_, n, checked, h⟩ := bind_eq_ok.1 h
  obtain ⟨split, within⟩ := takeWhile_took taken
  obtain rfl := checkChars_took checked
  split at h
  · cases h
  · obtain ⟨rfl, rfl⟩ := pure_eq_ok.1 h
    exact ⟨used, rfl, split, fun mem => nomatch within _ mem⟩

end Reader

end ApiDrift.Xml
