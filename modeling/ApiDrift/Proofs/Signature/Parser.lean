import ApiDrift.Signature.Parser
import Mathlib.Logic.Function.Basic
/-! Reading a signature undoes writing it, and the other way round: a text is read within a limit
just if it is what some types are written as, none of them nested deeper than the limit. -/
namespace ApiDrift

namespace ValueType

theorem spell_eq_cons (t : ValueType) : t.spell = t.code :: t.spell.tail := by
  cases t <;> rfl

theorem code_ne_close (t : ValueType) : t.code ≠ ')' ∧ t.code ≠ '\x7d' := by
  cases t with
  | basic b => cases b <;> decide
  | array t => exact ⟨nofun, nofun⟩
  | struct ts => exact ⟨nofun, nofun⟩
  | dictEntry k v => exact ⟨nofun, nofun⟩

theorem nestingAll_le_iff {ts : List ValueType} {n : Nat} :
    nestingAll ts ≤ n ↔ ∀ t ∈ ts, t.nesting ≤ n := by
  induction ts with
  | nil => simp [nestingAll]
  | cons t ts ih => rw [nestingAll, Nat.max_le, ih, List.forall_mem_cons]

end ValueType

namespace Signature
open ValueType

variable {limit depth : Nat}

theorem entryOf?_eq_some {ts : List ValueType} {t : ValueType} (h : entryOf? ts = some t) :
    ∃ k v, ts = [k, v] ∧ t = .dictEntry k v := by
  unfold entryOf? at h
  split at h
  · next k v => exact ⟨k, v, rfl, (Option.some_inj.1 h).symm⟩
  · cases h

theorem readType_ok_cases {c : Char} {s : List Char} {t : ValueType} {r : Rest s}
    (h : readType limit depth c s = .ok (t, r)) :
    (∃ b, BasicType.ofCode? c = some b ∧ t = .basic b ∧ r.1 = s) ∨
    (c = 'a' ∧ depth < limit ∧ ∃ e s' u r', s = e :: s' ∧
      readType limit (depth + 1) e s' = .ok (u, r') ∧ t = .array u ∧ r.1 = r'.1) ∨
    (c = '(' ∧ depth < limit ∧ ∃ ts,
      readMembers limit (depth + 1) ')' .incompleteStruct [] s s (Nat.le_refl _) = .ok (ts, r) ∧
      t = .struct ts) ∨
    (c = '\x7b' ∧ depth < limit ∧ ∃ k v,
      readMembers limit (depth + 1) '\x7d' .incompleteDict [] s s (Nat.le_refl _) =
        .ok ([k, v], r) ∧
      t = .dictEntry k v) := by
  rw [readType.eq_def] at h
  split at h
  · next b known =>
    cases h
    exact .inl ⟨b, known, rfl, rfl⟩
  · next unknown =>
    refine .inr ?_
    split at h
    · next container =>
      split at h
      · cases h
      · next room =>
        have room : depth < limit := Nat.lt_of_not_le room
        split at h
        · next array =>
          subst array
          split at h
          · cases h
          · next e s' =>
            split at h
            · cases h
            · next u r' read =>
              cases h
              exact .inl ⟨rfl, room, e, s', u, r', rfl, read, rfl, rfl⟩
        · next notArray =>
          split at h
          · next struct =>
            subst struct
            split at h
            · cases h
            · next ts r' read =>
              cases h
              exact .inr (.inl ⟨rfl, room, ts, read, rfl⟩)
          · next notStruct =>
            have entry : c = '\x7b' := (container.resolve_left notArray).resolve_left notStruct
            split at h
            · cases h
            · next ts r' read =>
              split at h
              · next u two =>
                cases h
                obtain ⟨k, v, rfl, rfl⟩ := entryOf?_eq_some two
                exact .inr (.inr ⟨entry, room, k, v, read, rfl⟩)
              · cases h
    · split at h
      · cases h
      · split at h <;> cases h

theorem readMembers_ok_cases {close : Char} {unclosed : SignatureError} {read ts : List ValueType}
    {s whole : List Char} {hw : s.length ≤ whole.length} {r : Rest whole}
    (h : readMembers limit depth close unclosed read s whole hw = .ok (ts, r)) :
    (s = close :: r.1 ∧ ts = read.reverse) ∨
    ∃ c s' t r' hw', s = c :: s' ∧ readType limit depth c s' = .ok (t, r') ∧
      readMembers limit depth close unclosed (t :: read) r'.1 whole hw' = .ok (ts, r) := by
  cases s with
  | nil =>
      rw [readMembers] at h
      cases h
  | cons c s' =>
      rw [readMembers] at h
      dsimp only at h
      split at h
      · next closed =>
        cases h
        exact .inl ⟨by rw [closed], rfl⟩
      · split at h
        · cases h
        · next t r' first => exact .inr ⟨c, s', t, r', _, rfl, first, h⟩

/-- What is read off a text as members begins the text, and the closing character follows, if
types that are read off shorter texts begin those. -/
theorem readMembers_sound {n m : Nat}
    (shorter : ∀ {depth c s t} {r : Rest s}, s.length < n →
      readType limit depth c s = .ok (t, r) → c :: s = t.spell ++ r.1 ∧ t.nesting ≤ limit - depth)
    {close : Char} {unclosed : SignatureError} {read ts : List ValueType} {s whole : List Char}
    {hw : s.length ≤ whole.length} {r : Rest whole} (hs : s.length ≤ m) (hm : m ≤ n)
    (h : readMembers limit depth close unclosed read s whole hw = .ok (ts, r)) :
    ∃ members, ts = read.reverse ++ members ∧ s = spellAll members ++ close :: r.1 ∧
      nestingAll members ≤ limit - depth := by
  induction m generalizing s read with
  | zero =>
      rcases readMembers_ok_cases h with ⟨rfl, _⟩ | ⟨c, s', t, r', hw', rfl, _, _⟩
      · exact absurd hs (Nat.not_succ_le_zero _)
      · exact absurd hs (Nat.not_succ_le_zero _)
  | succ m ih =>
      rcases readMembers_ok_cases h with ⟨closed, none⟩ | ⟨c, s', t, r', hw', rfl, first, later⟩
      · exact ⟨[], by simp [none], closed, Nat.zero_le _⟩
      · have hs' : s'.length ≤ m := Nat.le_of_succ_le_succ hs
        obtain ⟨spelled, nested⟩ := shorter (Nat.lt_of_le_of_lt hs' hm) first
        obtain ⟨members, all, rest, others⟩ :=
          ih (Nat.le_trans r'.2 hs') (Nat.le_of_succ_le hm) later
        refine ⟨t :: members, ?_, ?_, ?_⟩
        · simp [all]
        · rw [spelled, rest, spellAll, List.append_assoc]
        · rw [nestingAll]
          omega

/-- What is read as a type begins the text as the type is written, and is not nested too deep. -/
theorem readType_sound {n : Nat} {c : Char} {s : List Char} {t : ValueType} {r : Rest s}
    (hs : s.length < n) (h : readType limit depth c s = .ok (t, r)) :
    c :: s = t.spell ++ r.1 ∧ t.nesting ≤ limit - depth := by
  induction n generalizing depth c s t with
  | zero => exact absurd hs (Nat.not_lt_zero _)
  | succ n ih =>
      have members {close : Char} {unclosed : SignatureError} {ts : List ValueType}
          (read : readMembers limit (depth + 1) close unclosed [] s s (Nat.le_refl _) =
            .ok (ts, r)) :
          s = spellAll ts ++ close :: r.1 ∧ nestingAll ts ≤ limit - (depth + 1) := by
        obtain ⟨ts', rfl, spelled, nested⟩ :=
          readMembers_sound ih (Nat.le_of_lt_succ hs) (Nat.le_refl _) read
        exact ⟨spelled, nested⟩
      rcases readType_ok_cases h with ⟨b, known, rfl, rest⟩ |
        ⟨rfl, room, e, s', u, r', rfl, read, rfl, rest⟩ | ⟨rfl, room, ts, read, rfl⟩ |
        ⟨rfl, room, k, v, read, rfl⟩
      · rw [rest, ← BasicType.code_of_ofCode? known]
        exact ⟨rfl, Nat.zero_le _⟩
      · obtain ⟨spelled, nested⟩ := ih (Nat.lt_of_succ_lt_succ hs) read
        rw [nesting, rest, spelled]
        exact ⟨rfl, by omega⟩
      · obtain ⟨spelled, nested⟩ := members read
        rw [nesting]
        refine ⟨?_, by omega⟩
        rw [spell, List.cons_append, List.append_assoc]
        exact congrArg _ spelled
      · obtain ⟨spelled, nested⟩ := members read
        simp only [spellAll, List.append_nil, nestingAll] at spelled nested
        rw [nesting]
        refine ⟨?_, by omega⟩
        rw [spell, List.cons_append, List.append_assoc]
        exact congrArg _ spelled

theorem readType_basic (b : BasicType) (s : List Char) :
    readType limit depth b.code s = .ok (.basic b, ⟨s, Nat.le_refl _⟩) := by
  rw [readType.eq_def]
  simp

theorem readType_array {e : Char} {s : List Char} {t : ValueType} {r : Rest s}
    (room : depth < limit) (h : readType limit (depth + 1) e s = .ok (t, r)) :
    readType limit depth 'a' (e :: s) = .ok (.array t, ⟨r.1, Nat.le_succ_of_le r.2⟩) := by
  rw [readType.eq_def]
  simp [BasicType.ofCode?, Nat.not_le_of_lt room, h]

theorem readType_struct {s : List Char} {ts : List ValueType} {r : Rest s} (room : depth < limit)
    (h : readMembers limit (depth + 1) ')' .incompleteStruct [] s s (Nat.le_refl _) =
      .ok (ts, r)) :
    readType limit depth '(' s = .ok (.struct ts, r) := by
  rw [readType.eq_def]
  simp [BasicType.ofCode?, Nat.not_le_of_lt room, h]

theorem readType_dictEntry {s : List Char} {k v : ValueType} {r : Rest s} (room : depth < limit)
    (h : readMembers limit (depth + 1) '\x7d' .incompleteDict [] s s (Nat.le_refl _) =
      .ok ([k, v], r)) :
    readType limit depth '\x7b' s = .ok (.dictEntry k v, r) := by
  rw [readType.eq_def]
  simp [BasicType.ofCode?, Nat.not_le_of_lt room, h, entryOf?]

theorem readMembers_close {close : Char} {unclosed : SignatureError} {read : List ValueType}
    {s whole : List Char} (hw : (close :: s).length ≤ whole.length) :
    readMembers limit depth close unclosed read (close :: s) whole hw =
      .ok (read.reverse, ⟨s, Nat.le_of_succ_le hw⟩) := by
  rw [readMembers]
  simp

theorem readMembers_member {close c : Char} {unclosed : SignatureError} {read : List ValueType}
    {t : ValueType} {s whole : List Char} {r : Rest s} (hw : (c :: s).length ≤ whole.length)
    (another : c ≠ close) (h : readType limit depth c s = .ok (t, r)) :
    readMembers limit depth close unclosed read (c :: s) whole hw =
      readMembers limit depth close unclosed (t :: read) r.1 whole
        (Nat.le_trans r.2 (Nat.le_of_succ_le hw)) := by
  rw [readMembers]
  simp [another, h]

/-- The type is read back from what it is written as, whatever follows. -/
def ReadBack (limit depth : Nat) (t : ValueType) : Prop :=
  ∀ r, ∃ h, readType limit depth t.code (t.spell.tail ++ r) = .ok (t, ⟨r, h⟩)

/-- The same of members in a container, up to the character that closes it. -/
def MembersReadBack (limit depth : Nat) (ts : List ValueType) : Prop :=
  ∀ close unclosed read r whole hw, close = ')' ∨ close = '\x7d' →
    ∃ h, readMembers limit depth close unclosed read (spellAll ts ++ close :: r) whole hw =
      .ok (read.reverse ++ ts, ⟨r, h⟩)

theorem membersReadBack_nil : MembersReadBack limit depth [] := by
  intro close unclosed read r whole hw _
  refine ⟨Nat.le_of_succ_le hw, ?_⟩
  rw [List.append_nil]
  exact readMembers_close hw

theorem membersReadBack_cons {t : ValueType} {ts : List ValueType} (first : ReadBack limit depth t)
    (later : MembersReadBack limit depth ts) : MembersReadBack limit depth (t :: ts) := by
  intro close unclosed read r whole hw closing
  have spelled : spellAll (t :: ts) ++ close :: r =
      t.code :: (t.spell.tail ++ (spellAll ts ++ close :: r)) := by
    rw [spellAll, List.append_assoc, ← List.cons_append, ← spell_eq_cons]
  have another : t.code ≠ close := by
    rcases closing with rfl | rfl
    · exact t.code_ne_close.1
    · exact t.code_ne_close.2
  obtain ⟨_, own⟩ := first (spellAll ts ++ close :: r)
  simp only [spelled] at hw ⊢
  rw [readMembers_member hw another own]
  obtain ⟨h, others⟩ := later close unclosed (t :: read) r whole _ closing
  exact ⟨h, by simpa using others⟩

theorem readBack_array {t : ValueType} (room : depth < limit)
    (element : ReadBack limit (depth + 1) t) : ReadBack limit depth (.array t) := by
  intro r
  have spelled : (array t).spell.tail ++ r = t.code :: (t.spell.tail ++ r) := by
    rw [← List.cons_append, ← spell_eq_cons]
    rfl
  obtain ⟨h, read⟩ := element r
  rw [spelled]
  exact ⟨_, readType_array room read⟩

theorem readBack_struct {ts : List ValueType} (room : depth < limit)
    (members : MembersReadBack limit (depth + 1) ts) : ReadBack limit depth (.struct ts) := by
  intro r
  have spelled : (struct ts).spell.tail ++ r = spellAll ts ++ ')' :: r := by simp [spell]
  rw [spelled]
  obtain ⟨h, read⟩ := members ')' .incompleteStruct [] r _ (Nat.le_refl _) (.inl rfl)
  exact ⟨h, readType_struct room read⟩

theorem readBack_dictEntry {k v : ValueType} (room : depth < limit)
    (members : MembersReadBack limit (depth + 1) [k, v]) :
    ReadBack limit depth (.dictEntry k v) := by
  intro r
  have spelled : (dictEntry k v).spell.tail ++ r = spellAll [k, v] ++ '\x7d' :: r := by
    simp [spell, spellAll]
  rw [spelled]
  obtain ⟨h, read⟩ := members '\x7d' .incompleteDict [] r _ (Nat.le_refl _) (.inr rfl)
  exact ⟨h, readType_dictEntry room read⟩

/-- By induction on the type, together with lists of types, since a structure holds one. -/
theorem readBack_of_nesting {t : ValueType} (room : t.nesting ≤ limit - depth) :
    ReadBack limit depth t := by
  revert depth
  refine (ValueType.spell.mutual_induct
    (motive_1 := fun t => ∀ {depth}, t.nesting ≤ limit - depth → ReadBack limit depth t)
    (motive_2 := fun ts => ∀ {depth}, nestingAll ts ≤ limit - depth →
      MembersReadBack limit depth ts) ?_ ?_ ?_ ?_ ?_ ?_).1 t
  · intro b depth _ r
    exact ⟨Nat.le_refl _, readType_basic b r⟩
  · intro t ih depth room
    rw [nesting] at room
    exact readBack_array (by omega) (ih (by omega))
  · intro ts ih depth room
    rw [nesting] at room
    exact readBack_struct (by omega) (ih (by omega))
  · intro k v key value depth room
    rw [nesting] at room
    have both : MembersReadBack limit (depth + 1) [k, v] :=
      membersReadBack_cons (key (by omega))
        (membersReadBack_cons (value (by omega)) membersReadBack_nil)
    exact readBack_dictEntry (by omega) both
  · intro depth _
    exact membersReadBack_nil
  · intro t ts own others depth room
    rw [nestingAll] at room
    exact membersReadBack_cons (own (by omega)) (others (by omega))

theorem readAll_sound {read ts : List ValueType} {s : List Char}
    (h : readAll limit read s = .ok ts) :
    ∃ later, ts = read.reverse ++ later ∧ spellAll later = s ∧ ∀ t ∈ later, t.nesting ≤ limit := by
  induction read, s using readAll.induct limit with
  | case1 read =>
      rw [readAll] at h
      cases h
      exact ⟨[], by simp [spellAll]⟩
  | case2 read c s err failed =>
      rw [readAll, failed] at h
      cases h
  | case3 read c s t r first ih =>
      rw [readAll, first] at h
      obtain ⟨later, all, rest, nested⟩ := ih h
      obtain ⟨spelled, own⟩ := readType_sound (Nat.lt_succ_self _) first
      refine ⟨t :: later, by simp [all], ?_, List.forall_mem_cons.2 ⟨own, nested⟩⟩
      rw [spelled, ← rest, spellAll]

theorem readAll_spell {read ts : List ValueType} (shallow : ∀ t ∈ ts, t.nesting ≤ limit) :
    readAll limit read (spellAll ts) = .ok (read.reverse ++ ts) := by
  induction ts generalizing read with
  | nil =>
      rw [spellAll, readAll, List.append_nil]
  | cons t ts ih =>
      obtain ⟨own, others⟩ := List.forall_mem_cons.1 shallow
      have back : ReadBack limit 0 t := readBack_of_nesting own
      obtain ⟨_, first⟩ := back (spellAll ts)
      rw [spellAll, spell_eq_cons, List.cons_append, readAll, first]
      have rest : readAll limit (t :: read) (spellAll ts) = .ok ((t :: read).reverse ++ ts) :=
        ih others
      simpa using rest

/-- Reading gives types back just if the text is how they are written and they fit the limit. -/
theorem parseWithin_eq_ok_iff {s : String} {ts : List ValueType} :
    parseWithin limit s = .ok ⟨ts⟩ ↔
      (Signature.mk ts).text = s ∧ ∀ t ∈ ts, t.nesting ≤ limit := by
  constructor
  · intro h
    cases read : readAll limit [] s.toList with
    | error err =>
        rw [parseWithin, read] at h
        cases h
    | ok us =>
        rw [parseWithin, read] at h
        cases h
        obtain ⟨_, rfl, spelled, nested⟩ := readAll_sound read
        refine ⟨?_, nested⟩
        show String.ofList (spellAll ts) = s
        rw [spelled, String.ofList_toList]
  · rintro ⟨rfl, shallow⟩
    rw [parseWithin, text, String.toList_ofList, readAll_spell shallow]
    rfl

theorem parseWithin_text (signature : Signature)
    (shallow : ∀ t ∈ signature.types, t.nesting ≤ limit) :
    parseWithin limit signature.text = .ok signature := parseWithin_eq_ok_iff.2 ⟨rfl, shallow⟩

theorem text_of_parseWithin {s : String} {signature : Signature}
    (h : parseWithin limit s = .ok signature) :
    signature.text = s ∧ ∀ t ∈ signature.types, t.nesting ≤ limit := parseWithin_eq_ok_iff.1 h

/-- Any two signatures can be read within one limit, so that one text gives both back. -/
theorem text_injective : Function.Injective text := by
  intro a b same
  let limit := max (nestingAll a.types) (nestingAll b.types)
  have first := parseWithin_text a (nestingAll_le_iff.1 (Nat.le_max_left _ _ : _ ≤ limit))
  have second := parseWithin_text b (nestingAll_le_iff.1 (Nat.le_max_right _ _ : _ ≤ limit))
  rw [same, second] at first
  exact (Except.ok.inj first).symm

/-- Reading and writing signatures undo each other within every limit. So a text is read, within
some limit or within the usual one, just if some types are written that way, and no two lists of
types are written alike. -/
theorem parse_text_inverse :
    (∀ (s : String) (limit : Nat) (ts : List ValueType), parseWithin limit s = .ok ⟨ts⟩ ↔
      (Signature.mk ts).text = s ∧ ∀ t ∈ ts, t.nesting ≤ limit) ∧
    (∀ s, (∃ limit signature, parseWithin limit s = .ok signature) ↔
      ∃ signature : Signature, signature.text = s) ∧
    (∀ s, (∃ signature, parse s = .ok signature) ↔
      ∃ signature : Signature, signature.text = s ∧
        ∀ t ∈ signature.types, t.nesting ≤ defaultMaxDepth) ∧
    Function.Injective text := by
  refine ⟨fun s limit ts => parseWithin_eq_ok_iff, fun s => ⟨?_, ?_⟩, fun s => ⟨?_, ?_⟩,
    text_injective⟩
  · rintro ⟨limit, signature, read⟩
    exact ⟨signature, (text_of_parseWithin read).1⟩
  · rintro ⟨signature, rfl⟩
    have shallow := nestingAll_le_iff.1 (Nat.le_refl (nestingAll signature.types))
    exact ⟨_, signature, parseWithin_text signature shallow⟩
  · rintro ⟨signature, read⟩
    exact ⟨signature, text_of_parseWithin read⟩
  · rintro ⟨signature, rfl, shallow⟩
    exact ⟨signature, parseWithin_text signature shallow⟩

end Signature

end ApiDrift
