import ApiDrift.Proofs.Introspection.Level
import ApiDrift.Proofs.Xml.Outline
import ApiDrift.Proofs.Xml.Reader
/-! Pieces of markup that a reader of documents accepts have the length and the effect that the
look at the bare text gives them. -/
namespace ApiDrift.Introspection

open Xml (Reader Left Unmet TagEnd Tag RawAttribute isSpace isNameChar)

theorem lengthThrough_of_unmet {c : Char} {stop front rest : List Char}
    (unmet : Unmet (c :: stop) front (c :: stop ++ rest)) (passed : Nat) :
    lengthThrough (c :: stop) passed (front ++ (c :: stop ++ rest)) =
      some (passed + front.length + (c :: stop).length) := by
  induction front generalizing passed with
  | nil =>
      have met : (c :: stop).isPrefixOf (c :: (stop ++ rest)) = true :=
        List.isPrefixOf_iff_prefix.2 (List.prefix_append (c :: stop) rest)
      simp only [List.nil_append, List.cons_append, lengthThrough, met, if_true,
        List.length_nil, Nat.add_zero]
  | cons d front ih =>
      obtain ⟨here, later⟩ := unmet
      rw [← List.isPrefixOf_iff_prefix] at here
      rw [List.cons_append, lengthThrough, if_neg here, ih later, @List.length_cons _ d front]
      congr 1
      omega

theorem lengthThrough_le (c : Char) (stop front rest : List Char) (passed : Nat) :
    ∃ n, lengthThrough (c :: stop) passed (front ++ (c :: stop ++ rest)) = some (passed + n) ∧
      n ≤ front.length + (c :: stop).length := by
  induction front generalizing passed with
  | nil =>
      have met : lengthThrough (c :: stop) passed (c :: stop ++ rest) =
          some (passed + (c :: stop).length) :=
        @lengthThrough_of_unmet c stop [] rest trivial passed
      exact ⟨(c :: stop).length, met, Nat.le_add_left _ _⟩
  | cons d front ih =>
      rw [List.cons_append, lengthThrough]
      split
      · exact ⟨(c :: stop).length, rfl, Nat.le_add_left _ _⟩
      · obtain ⟨n, length, within⟩ := ih (passed + 1)
        refine ⟨n + 1, ?_, ?_⟩
        · rw [length, Nat.add_assoc, Nat.add_comm 1]
        · rw [@List.length_cons _ d front]
          omega

/-- What a tag holds before its end: its end is not found early, and it does not look like the tag
of an element without content. -/
structure Inside (used : List Char) : Prop where
  worded : Worded used
  unslashed : used.getLast? ≠ some '/'

theorem Inside.append {used more : List Char} (first : Inside used) (second : Inside more) :
    Inside (used ++ more) := by
  refine ⟨first.worded.append second.worded, ?_⟩
  rw [List.getLast?_append]
  cases last : more.getLast? with
  | none => exact first.unslashed
  | some c =>
      have unslashed := second.unslashed
      rw [last] at unslashed
      exact unslashed

theorem inside_nil : Inside [] := ⟨.nil, nofun⟩

theorem inside_of_class {p : Char → Bool} (apart : ('/' :: meaningful).any p = false)
    {used : List Char} (all : ∀ c ∈ used, p c = true) : Inside used := by
  rw [List.any_cons, Bool.or_eq_false_iff] at apart
  obtain ⟨slash, apart⟩ := apart
  refine ⟨worded_of_class apart all, fun last => ?_⟩
  rw [all '/' (List.mem_of_getLast? last)] at slash
  cases slash

theorem worded_slash : Worded ['/'] := .plain (by decide) .nil

theorem inside_name {used : List Char} (named : ∀ c ∈ used, isNameChar c = true) : Inside used :=
  inside_of_class (by decide) named

theorem inside_spaces {used : List Char} (blank : ∀ c ∈ used, isSpace c = true) : Inside used :=
  inside_of_class (by decide) blank

section

variable {whole : List Char} {s s' : Left whole}

theorem inside_equalsValue {v : Xml.Span} (h : Reader.equalsValue s = .ok (v, s')) :
    ∃ used, s.1.chars = used ++ s'.1.chars ∧ Inside used := by
  obtain ⟨before, after, q, value, split, blank, blank', quote, within⟩ :=
    Reader.equalsValue_took h
  have closed : Inside (q :: (value ++ [q])) := by
    refine ⟨.quoted quote (fun mem => ?_) .nil, ?_⟩
    · have other := within q mem
      simp at other
    · rw [← List.cons_append, List.getLast?_concat]
      rcases quote with rfl | rfl <;> decide
  have equals : Inside ['='] := inside_of_class (p := fun c => c == '=') (by decide) (by simp)
  refine ⟨before ++ (['='] ++ (after ++ (q :: (value ++ [q])))), ?_, ?_⟩
  · rw [split]
    simp
  · exact (inside_spaces blank).append (equals.append ((inside_spaces blank').append closed))

theorem inside_attributeFrom {start : Location} {c : Char} {a : RawAttribute}
    (h : Reader.attributeFrom start c s = .ok (a, s')) :
    ∃ used, s.1.chars = used ++ s'.1.chars ∧ Inside (c :: used) := by
  unfold Reader.attributeFrom at h
  obtain ⟨q, m, named, h⟩ := Reader.bind_eq_ok.1 h
  obtain ⟨value, n, valued, h⟩ := Reader.bind_eq_ok.1 h
  obtain ⟨-, rfl⟩ := Reader.pure_eq_ok.1 h
  obtain ⟨l, split, chars⟩ := Reader.qnameFrom_took named
  obtain ⟨used, split', inside⟩ := inside_equalsValue valued
  refine ⟨l ++ used, ?_, (inside_name chars).append inside⟩
  rw [split, split', List.append_assoc]

/-- What a start tag holds after its name, by how it ends and by what follows it. -/
inductive Ends (rest : List Char) : TagEnd → List Char → Prop
  | opened {used : List Char} : Inside used → Ends rest .opened (used ++ '>' :: rest)
  | empty {used : List Char} : Inside used → Ends rest .empty (used ++ '/' :: '>' :: rest)
  | unfinished {used : List Char} : Inside used → Ends rest .unfinished used
  | broken {used : List Char} (fault : Xml.Fault) : Ends rest (.broken fault) used

theorem Ends.after {rest used text : List Char} {finish : TagEnd} (inside : Inside used)
    (ends : Ends rest finish text) : Ends rest finish (used ++ text) := by
  cases ends with
  | opened more =>
      rw [← List.append_assoc]
      exact .opened (inside.append more)
  | empty more =>
      rw [← List.append_assoc]
      exact .empty (inside.append more)
  | unfinished more => exact .unfinished (inside.append more)
  | broken fault => exact .broken fault

theorem tagRest_ends {read attributes : List RawAttribute} {finish : TagEnd}
    (h : Xml.tagRest whole read s = (attributes, finish, s')) :
    Ends s'.1.chars finish s.1.chars := by
  induction n : s.1.chars.length using Nat.strongRecOn generalizing s read with
  | ind n ih =>
  have split : s.1.chars = s.1.chars.takeWhile isSpace ++ s.1.dropSpaces.chars :=
    List.takeWhile_append_dropWhile.symm
  have shorter := Xml.length_dropSpaces_le s.1
  rw [split]
  refine Ends.after (inside_spaces Xml.mem_takeWhile) ?_
  rw [Xml.tagRest.eq_def] at h
  dsimp only at h
  split at h
  · next none =>
    obtain ⟨-, rfl, -⟩ := Prod.mk.inj h |>.imp_right Prod.mk.inj
    rw [none]
    split
    · exact .broken _
    · exact .unfinished inside_nil
  · next c tail here =>
    rw [here] at shorter ⊢
    split at h
    · next slash =>
      subst slash
      split at h
      · obtain ⟨-, rfl, -⟩ := Prod.mk.inj h |>.imp_right Prod.mk.inj
        exact .broken _
      · next _ rest closed =>
        obtain ⟨-, rfl, rfl⟩ := Prod.mk.inj h |>.imp_right Prod.mk.inj
        have angle : tail = '>' :: rest.1.chars := Reader.char_took closed
        have ends : Ends rest.1.chars .empty ('/' :: '>' :: rest.1.chars) := .empty inside_nil
        rwa [← angle] at ends
    · split at h
      · next angle =>
        subst angle
        obtain ⟨-, rfl, rfl⟩ := Prod.mk.inj h |>.imp_right Prod.mk.inj
        exact .opened inside_nil
      · split at h
        · obtain ⟨-, rfl, -⟩ := Prod.mk.inj h |>.imp_right Prod.mk.inj
          exact .broken _
        · split at h
          · obtain ⟨-, rfl, -⟩ := Prod.mk.inj h |>.imp_right Prod.mk.inj
            exact .broken _
          · next a rest read =>
            obtain ⟨used, taken, inside⟩ := inside_attributeFrom read
            dsimp only at taken
            rw [taken, ← List.cons_append]
            refine Ends.after inside (ih _ ?_ h rfl)
            rw [← n]
            exact Nat.lt_of_le_of_lt rest.2 shorter

theorem startTag_ends {start : Location} {tag : Tag} (h : Reader.startTag start s = .ok (tag, s')) :
    ∃ c l, s.1.chars = c :: l ∧ isNameChar c = true ∧ Ends s'.1.chars tag.finish (c :: l) := by
  unfold Reader.startTag at h
  obtain ⟨q, m, named, h⟩ := Reader.bind_eq_ok.1 h
  obtain ⟨c, l, split, chars⟩ := Reader.qname_took named
  obtain ⟨rfl, rfl⟩ := Prod.mk.inj (Except.ok.inj h)
  refine ⟨c, l ++ m.1.chars, split, chars c (List.mem_cons_self ..), ?_⟩
  rw [← List.cons_append]
  exact Ends.after (inside_name chars) (tagRest_ends rfl)

end

/-- The look at the bare text passes a piece of markup with this effect, from after its `<`, and
goes on at `rest`. -/
def Passes (tail : List Char) (effect : Effect) (rest : List Char) : Prop :=
  ∃ used, tail = used ++ rest ∧ markup? tail = some (used.length, effect)

theorem tooDeepFrom_char {c : Char} (plain : c ≠ '<') (limit depth passed : Nat)
    (text : List Char) :
    tooDeepFrom limit depth passed (c :: text) = tooDeepFrom limit depth (passed + 1) text := by
  rw [tooDeepFrom, if_neg plain]

theorem tooDeepFrom_endless {tail : List Char} (endless : markup? tail = none)
    (limit depth passed : Nat) : tooDeepFrom limit depth passed ('<' :: tail) = none := by
  rw [tooDeepFrom, if_pos rfl, endless]

theorem tooDeepFrom_past {tail : List Char} {n : Nat} {effect : Effect}
    (markup : markup? tail = some (n, effect)) (limit depth passed : Nat) :
    tooDeepFrom limit depth passed ('<' :: tail) =
      if effect = .opens ∧ limit < depth + 1 then some passed
      else tooDeepFrom limit (Xml.depthAfter effect depth) (passed + 1 + n) (tail.drop n) := by
  rw [tooDeepFrom, if_pos rfl, markup]
  cases effect with
  | opens => simp [Xml.depthAfter]
  | closes | none => simp [Xml.depthAfter]

theorem tooDeepFrom_markup {used rest : List Char} {effect : Effect}
    (markup : markup? (used ++ rest) = some (used.length, effect)) (limit depth passed : Nat) :
    tooDeepFrom limit depth passed ('<' :: (used ++ rest)) =
      if effect = .opens ∧ limit < depth + 1 then some passed
      else tooDeepFrom limit (Xml.depthAfter effect depth) (passed + 1 + used.length) rest := by
  rw [tooDeepFrom_past markup, List.drop_left]

/-- A look at the bare text passes `used` without effect where `rest` follows. -/
def Inert (used rest : List Char) : Prop :=
  ∀ limit depth passed, tooDeepFrom limit depth passed (used ++ rest) =
    tooDeepFrom limit depth (passed + used.length) rest

theorem inert_nil (rest : List Char) : Inert [] rest := fun _ _ _ => rfl

theorem Inert.append {used more rest : List Char} (first : Inert used (more ++ rest))
    (second : Inert more rest) : Inert (used ++ more) rest := by
  intro limit depth passed
  rw [List.append_assoc, first, second, List.length_append, Nat.add_assoc]

theorem inert_chars {used : List Char} (plain : '<' ∉ used) (rest : List Char) :
    Inert used rest := by
  induction used with
  | nil => exact inert_nil rest
  | cons c used ih =>
      rw [List.mem_cons, not_or] at plain
      have first : Inert [c] (used ++ rest) := (tooDeepFrom_char (Ne.symm plain.1) · · · _)
      exact first.append (ih plain.2)

theorem inert_markup {used rest : List Char}
    (markup : markup? (used ++ rest) = some (used.length, .none)) : Inert ('<' :: used) rest := by
  intro limit depth passed
  rw [List.cons_append, tooDeepFrom_markup markup, if_neg nofun, List.length_cons]
  exact congrArg (tooDeepFrom limit depth · rest) (by omega)

theorem markup?_tag {c : Char} (bang : c ≠ '!') (question : c ≠ '?') (l : List Char) :
    markup? (c :: l) = (markupLength none 0 0 (c :: l)).map fun n =>
      if c = '/' then (n, .closes)
      else if ['/', '>'].isSuffixOf ((c :: l).take n) then (n, .none)
      else (n, .opens) := by
  have comment : "!--".toList.isPrefixOf (c :: l) = false := by
    simp [List.isPrefixOf, bang.symm]
  have cdata : "![CDATA[".toList.isPrefixOf (c :: l) = false := by
    simp [List.isPrefixOf, bang.symm]
  simp only [markup?, comment, cdata, List.head?_cons, Option.some.injEq, bang, question,
    Bool.false_eq_true, if_false, false_or]

theorem passes_endTag {used rest : List Char} (worded : Worded ('/' :: used)) :
    Passes ('/' :: (used ++ '>' :: rest)) .closes rest := by
  refine ⟨'/' :: (used ++ ['>']), by simp, ?_⟩
  rw [markup?_tag (by decide) (by decide), ← List.cons_append,
    (markupLength_eq_iff _).2 (worded.leads 0)]
  simp

theorem ne_of_isNameChar {c d : Char} (named : isNameChar c = true)
    (out : isNameChar d = false) : c ≠ d := by
  rintro rfl
  rw [named] at out
  exact nomatch out

/-- The end of a start tag whose first character is a name character decides its effect. -/
theorem markup?_startTag {c : Char} {l used rest : List Char} (named : isNameChar c = true)
    (split : c :: l = used ++ '>' :: rest) (worded : Worded used) :
    markup? (c :: l) = some (used.length + 1,
      if ['/', '>'].isSuffixOf (used ++ ['>']) then .none else .opens) := by
  have taken : (used ++ '>' :: rest).take (used.length + 1) = used ++ ['>'] := by
    rw [List.append_cons, List.take_append_of_le_length (by simp)]
    exact List.take_of_length_le (by simp)
  rw [markup?_tag (ne_of_isNameChar named (by decide)) (ne_of_isNameChar named (by decide)), split,
    (markupLength_eq_iff _).2 (worded.leads 0)]
  have unslashed : c ≠ '/' := ne_of_isNameChar named (by decide)
  simp only [Option.map_some, if_neg unslashed, taken]
  split <;> rfl

theorem passes_opened {c : Char} {l used rest : List Char} (named : isNameChar c = true)
    (split : c :: l = used ++ '>' :: rest) (inside : Inside used) :
    Passes (c :: l) .opens rest := by
  refine ⟨used ++ ['>'], by simp [split], ?_⟩
  have content : ['/', '>'].isSuffixOf (used ++ ['>']) = false := by
    rw [← Bool.not_eq_true, List.isSuffixOf_iff_suffix]
    rintro ⟨front, same⟩
    have last : used = front ++ ['/'] := by
      have shape : (front ++ ['/']) ++ ['>'] = used ++ ['>'] := by simpa using same
      exact (List.append_cancel_right shape).symm
    exact inside.unslashed (by rw [last, List.getLast?_concat])
  rw [markup?_startTag named split inside.worded, content]
  simp

theorem passes_empty {c : Char} {l used rest : List Char} (named : isNameChar c = true)
    (split : c :: l = used ++ '/' :: '>' :: rest) (inside : Inside used) :
    Passes (c :: l) .none rest := by
  refine ⟨used ++ ['/', '>'], by simp [split], ?_⟩
  have empty : ['/', '>'].isSuffixOf ((used ++ ['/']) ++ ['>']) = true := by
    rw [List.isSuffixOf_iff_suffix]
    exact ⟨used, by simp⟩
  rw [List.append_cons] at split
  rw [markup?_startTag named split (inside.worded.append worded_slash), empty]
  simp

theorem markup?_unfinished {c : Char} {l : List Char} (named : isNameChar c = true)
    (worded : Worded (c :: l)) : markup? (c :: l) = none := by
  have length := (worded.leads 0).markupLength_eq 0 []
  rw [List.append_nil] at length
  rw [markup?_tag (ne_of_isNameChar named (by decide)) (ne_of_isNameChar named (by decide)),
    length]
  simp [markupLength]

/-- Whether the text of a comment begins so that the comment seems to end with what opened it. -/
def seemsClosed (comment : List Char) : Bool :=
  ['>'].isPrefixOf comment || ['-', '>'].isPrefixOf comment

theorem passes_through {c : Char} {stop opening body rest : List Char}
    (unmet : Unmet (c :: stop) (opening ++ body) (c :: stop ++ rest))
    (through : markup? (opening ++ (body ++ (c :: stop ++ rest))) =
      (lengthThrough (c :: stop) 0 (opening ++ (body ++ (c :: stop ++ rest)))).map fun n =>
        (n, .none)) :
    Passes (opening ++ (body ++ (c :: stop ++ rest))) .none rest := by
  refine ⟨opening ++ body ++ c :: stop, by simp, ?_⟩
  have length := lengthThrough_of_unmet unmet 0
  rw [List.append_assoc] at length
  rw [through, length, Option.map_some, Nat.zero_add, ← List.length_append]

theorem passes_comment {body rest : List Char} (clear : seemsClosed body = false)
    (unmet : Unmet ['-', '-', '>'] body (['-', '-', '>'] ++ rest)) :
    Passes (['!', '-', '-'] ++ (body ++ (['-', '-', '>'] ++ rest))) .none rest := by
  have opening : Unmet ['-', '-', '>'] ['!', '-', '-'] (body ++ (['-', '-', '>'] ++ rest)) := by
    cases body with
    | nil => simp [Unmet]
    | cons c body =>
        cases body with
        | nil => simpa [Unmet, seemsClosed, List.isPrefixOf] using clear
        | cons d body => simpa [Unmet, seemsClosed, List.isPrefixOf] using clear
  refine passes_through (Xml.unmet_append.2 ⟨opening, unmet⟩) ?_
  have begins : "!--".toList.isPrefixOf
      (['!', '-', '-'] ++ (body ++ (['-', '-', '>'] ++ rest))) = true := by
    simp [List.isPrefixOf]
  rw [markup?, if_pos begins]

theorem passes_cdata {body rest : List Char}
    (unmet : Unmet [']', ']', '>'] body ([']', ']', '>'] ++ rest)) :
    Passes ("![CDATA[".toList ++ (body ++ ([']', ']', '>'] ++ rest))) .none rest := by
  have opening : Unmet [']', ']', '>'] "![CDATA[".toList (body ++ ([']', ']', '>'] ++ rest)) :=
    Xml.unmet_of_not_mem _ (by decide)
  refine passes_through (Xml.unmet_append.2 ⟨opening, unmet⟩) ?_
  have comment : ¬ "!--".toList.isPrefixOf
      ("![CDATA[".toList ++ (body ++ ([']', ']', '>'] ++ rest))) = true := by
    simp [List.isPrefixOf]
  have begins : "![CDATA[".toList.isPrefixOf
      ("![CDATA[".toList ++ (body ++ ([']', ']', '>'] ++ rest))) = true := by
    simp [List.isPrefixOf]
  rw [markup?, if_neg comment, if_pos begins]

theorem markup?_instruction (l : List Char) :
    markup? ('?' :: l) = (lengthThrough ['?', '>'] 0 ('?' :: l)).map fun n => (n, .none) := by
  simp [markup?, List.isPrefixOf]

/-- The end of a declaration may be found early, in one of its values, but no markup begins before
its true end. -/
theorem inert_declaration {inside : List Char} (absent : '<' ∉ inside) (rest : List Char) :
    Inert ('<' :: '?' :: (inside ++ "?>".toList)) rest := by
  obtain ⟨n, length, within⟩ := lengthThrough_le '?' ['>'] ('?' :: inside) rest 0
  have unmarked : '<' ∉ ('?' :: inside ++ ['?', '>']).drop n := by
    intro mem
    have mem := List.mem_of_mem_drop mem
    simp [absent] at mem
  have found : Inert ('<' :: ('?' :: inside ++ ['?', '>']).take n)
      (('?' :: inside ++ ['?', '>']).drop n ++ rest) := by
    refine inert_markup ?_
    rw [← List.append_assoc, List.take_append_drop, List.length_take,
      Nat.min_eq_left (by simpa using within)]
    rw [Nat.zero_add, ← List.append_assoc] at length
    exact (markup?_instruction _).trans (congrArg (Option.map fun n => (n, Effect.none)) length)
  have whole := found.append (inert_chars unmarked rest)
  rwa [List.cons_append, List.take_append_drop] at whole

section

variable {whole : List Char} {s s' : Left whole} {t : Xml.Token}

theorem passes_of_comment {start : Location} (begins : "!--".toList <+: s.1.chars)
    (h : Reader.comment start s = .ok (t, s')) :
    ∃ body, t = .comment body start ∧
      (seemsClosed body = false → Passes s.1.chars .none s'.1.chars) := by
  obtain ⟨body, rfl, split, unmet, -⟩ := Reader.comment_took begins h
  refine ⟨body, rfl, fun clear => ?_⟩
  rw [split]
  exact passes_comment clear unmet

theorem passes_of_cdata (begins : "![CDATA[".toList.isPrefixOf s.1.chars = true)
    (h : Reader.cdata s = .ok (t, s')) :
    (∃ body, t = .cdata body) ∧ Passes s.1.chars .none s'.1.chars := by
  unfold Reader.cdata at h
  obtain ⟨_, m, opened, h⟩ := Reader.bind_eq_ok.1 h
  obtain ⟨body, n, taken, h⟩ := Reader.bind_eq_ok.1 h
  obtain ⟨_, o, closed, h⟩ := Reader.bind_eq_ok.1 h
  obtain ⟨rfl, rfl⟩ := Reader.pure_eq_ok.1 h
  have opening := Reader.skip_took_prefix (List.isPrefixOf_iff_prefix.1 begins) rfl opened
  obtain ⟨split, unmet⟩ := Reader.takeCharsBefore_took taken
  have closing := Reader.text_took closed
  refine ⟨⟨body, rfl⟩, ?_⟩
  rw [closing] at unmet
  rw [opening, split, closing]
  exact passes_cdata unmet

theorem passes_of_instruction {start : Location} (begins : "?".toList <+: s.1.chars)
    (h : Reader.instruction start s = .ok (t, s')) :
    t = .instruction ∧ Passes s.1.chars .none s'.1.chars := by
  obtain ⟨body, rfl, split, unmet⟩ := Reader.instruction_took begins h
  refine ⟨rfl, ?_⟩
  have passes : Passes (['?'] ++ (body ++ ("?>".toList ++ s'.1.chars))) .none s'.1.chars :=
    passes_through unmet (markup?_instruction _)
  rw [split]
  exact passes

theorem passes_of_endTag {start : Location} (begins : s.1.chars.head? = some '/')
    (h : Reader.endTag start s = .ok (t, s')) :
    (∃ name, t = .endTag name start) ∧ Passes s.1.chars .closes s'.1.chars := by
  unfold Reader.endTag at h
  obtain ⟨_, m, opened, h⟩ := Reader.bind_eq_ok.1 h
  obtain ⟨name, n, named, h⟩ := Reader.bind_eq_ok.1 h
  obtain ⟨_, o, spaced, h⟩ := Reader.bind_eq_ok.1 h
  obtain ⟨_, p, closed, h⟩ := Reader.bind_eq_ok.1 h
  obtain ⟨rfl, rfl⟩ := Reader.pure_eq_ok.1 h
  have opening := Reader.skip_took_head begins opened
  obtain ⟨c, l, target, chars⟩ := Reader.qname_took named
  obtain ⟨blank, gap, spaces⟩ := Reader.spaces_took spaced
  have closing := Reader.char_took closed
  have worded : Worded ('/' :: (c :: l ++ blank)) :=
    worded_slash.append ((worded_name chars).append (worded_spaces spaces))
  refine ⟨⟨name, rfl⟩, ?_⟩
  rw [opening, target, gap, closing, ← List.append_assoc]
  exact passes_endTag worded

/-- A start tag that the text ends inside is no markup for the look at the bare text. -/
theorem passes_of_startTag {start : Location} {tag : Tag}
    (intact : (Xml.Token.startTag tag).isBroken = false)
    (h : Reader.startTag start s = .ok (tag, s')) :
    Passes s.1.chars (Xml.Token.startTag tag).effect s'.1.chars ∨ markup? s.1.chars = none := by
  obtain ⟨c, l, split, named, ends⟩ := startTag_ends h
  obtain ⟨name, attributes, finish, place⟩ := tag
  rw [split]
  generalize shape : c :: l = text at ends
  cases ends with
  | opened inside =>
      rw [← shape]
      exact .inl (passes_opened named shape inside)
  | empty inside =>
      rw [← shape]
      exact .inl (passes_empty named shape inside)
  | unfinished inside =>
      subst shape
      exact .inr (markup?_unfinished named inside.worded)
  | broken fault => exact nomatch intact

end

end ApiDrift.Introspection
