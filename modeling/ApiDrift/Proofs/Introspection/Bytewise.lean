import ApiDrift.Proofs.Except
import ApiDrift.Proofs.Introspection.Markup
import ApiDrift.Proofs.Text.Utf8
/-! The look at the bare text, told byte by byte. Every turn of its loop starts at a position of the
text, cuts the text there and where markup begins and ends, and goes on behind the markup. A text
can be cut between two characters only. Every turn goes on by at least a byte, and a turn from
between two characters does what the look at the characters does there. -/
namespace ApiDrift.Introspection.Bytewise

open Text.Utf8

/-- How far the look has come, in bytes, and how many elements are open there. -/
structure Stop where
  pos : Nat
  depth : Nat
deriving DecidableEq, Repr

/-- How a turn of the loop ends: with the answer, or at the next stop. -/
inductive Turn where
  | ends (found : Option Nat)
  | goesOn (next : Stop)
deriving DecidableEq, Repr

/-- What follows a position. Beyond the end of the text, or inside of a character, it cannot be cut,
and the position is given back. -/
def sliceFrom (text : String) (pos : Nat) : Except Nat (List UInt8) :=
  if (String.Pos.Raw.mk pos).IsValid text then .ok ((encode text.toList).drop pos) else .error pos

/-- The bytes between two positions, the second of which is where the text is cut. -/
def sliceTo (text : String) (start stop : Nat) : Except Nat (List UInt8) :=
  if (String.Pos.Raw.mk stop).IsValid text then
    .ok (((encode text.toList).drop start).take (stop - start))
  else .error stop

def begins (mark : List Char) (bytes : List UInt8) : Bool := (encode mark).isPrefixOf bytes

/-- Number of bytes up to and including the first occurrence of `stop`. -/
def through (stop : List Char) (bytes : List UInt8) : Option Nat :=
  (find (encode stop) bytes).map (· + (encode stop).length)

/-- Number of bytes up to and including the `>` that closes a piece of markup. -/
def markupBytes (quote : Option UInt8) (subset passed : Nat) : List UInt8 → Option Nat
  | [] => none
  | b :: rest =>
    match quote with
    | some q => markupBytes (if b = q then none else some q) subset (passed + 1) rest
    | none =>
      if b = '"'.toUInt8 ∨ b = '\''.toUInt8 then markupBytes (some b) subset (passed + 1) rest
      else if b = '['.toUInt8 then markupBytes none (subset + 1) (passed + 1) rest
      else if b = ']'.toUInt8 then markupBytes none (subset - 1) (passed + 1) rest
      else if b = '>'.toUInt8 ∧ subset = 0 then some (passed + 1)
      else markupBytes none subset (passed + 1) rest

/-- Past markup of this length, if it has an end. -/
def Turn.past (start depth : Nat) : Option Nat → Turn
  | none => .ends none
  | some length => .goesOn ⟨start + length, depth⟩

/-- The part of a turn that is about the markup at `start`. -/
def turnAt (text : String) (limit start depth : Nat) : Except Nat Turn := do
  let rest ← sliceFrom text start
  if begins "<!--".toList rest then pure (.past start depth (through ['-', '-', '>'] rest))
  else if begins "<![CDATA[".toList rest then
    pure (.past start depth (through [']', ']', '>'] rest))
  else if begins ['<', '?'] rest then pure (.past start depth (through ['?', '>'] rest))
  else match markupBytes none 0 0 rest with
    | none => pure (.ends none)
    | some length =>
      if begins ['<', '/'] rest then pure (.goesOn ⟨start + length, depth - 1⟩)
      else if begins ['<', '!'] rest then pure (.goesOn ⟨start + length, depth⟩)
      else do
        let tag ← sliceTo text start (start + length)
        if (encode ['/', '>']).isSuffixOf tag then pure (.goesOn ⟨start + length, depth⟩)
        else if limit < depth + 1 then pure (.ends (some start))
        else pure (.goesOn ⟨start + length, depth + 1⟩)

/-- One turn of the loop, which looks for the next `<`. -/
def turn (text : String) (limit : Nat) (s : Stop) : Except Nat Turn := do
  let rest ← sliceFrom text s.pos
  match find (encode ['<']) rest with
  | none => pure (.ends none)
  | some offset => turnAt text limit (s.pos + offset) s.depth

section Advance
variable {text : String} {limit start depth : Nat} {s next : Stop}

theorem markupBytes_lt {quote : Option UInt8} {d passed n : Nat} {bytes : List UInt8}
    (found : markupBytes quote d passed bytes = some n) : passed < n := by
  induction bytes generalizing quote d passed with
  | nil => cases found
  | cons b bytes ih =>
      have later {quote : Option UInt8} {d : Nat}
          (found : markupBytes quote d (passed + 1) bytes = some n) : passed < n :=
        Nat.lt_of_succ_lt (ih found)
      cases quote with
      | some q => exact later found
      | none =>
          rw [markupBytes] at found
          split at found
          · exact later found
          split at found
          · exact later found
          split at found
          · exact later found
          split at found
          · obtain rfl := Option.some.inj found
            exact Nat.lt_succ_self passed
          · exact later found

theorem through_pos {c : Char} {stop : List Char} {bytes : List UInt8} {n : Nat}
    (found : through (c :: stop) bytes = some n) : 0 < n := by
  obtain ⟨offset, -, rfl⟩ := Option.map_eq_some_iff.1 found
  have some := List.length_pos_of_ne_nil (encodeChar_ne_nil c)
  rw [encode_cons, List.length_append]
  omega

theorem past_advances {length : Option Nat} (some : ∀ n, length = some n → 0 < n)
    (onward : Turn.past start depth length = .goesOn next) : start < next.pos := by
  cases length with
  | none => cases onward
  | some n =>
      obtain rfl := Turn.goesOn.inj onward
      exact Nat.lt_add_of_pos_right (some n rfl)

theorem turnAt_advances (onward : turnAt text limit start depth = .ok (.goesOn next)) :
    start < next.pos := by
  obtain ⟨rest, -, onward⟩ := except_bind_eq_ok.1 onward
  split at onward
  · exact past_advances (fun _ => through_pos) (Except.ok.inj onward)
  split at onward
  · exact past_advances (fun _ => through_pos) (Except.ok.inj onward)
  split at onward
  · exact past_advances (fun _ => through_pos) (Except.ok.inj onward)
  split at onward
  · cases onward
  · next length found =>
    have ahead : start < start + length :=
      Nat.lt_add_of_pos_right (markupBytes_lt found)
    split at onward
    · cases onward
      exact ahead
    split at onward
    · cases onward
      exact ahead
    obtain ⟨tag, -, onward⟩ := except_bind_eq_ok.1 onward
    split at onward
    · cases onward
      exact ahead
    split at onward
    · cases onward
    · cases onward
      exact ahead

theorem turn_advances (onward : turn text limit s = .ok (.goesOn next)) :
    s.pos ≤ text.utf8ByteSize ∧ s.pos < next.pos := by
  obtain ⟨rest, here, onward⟩ := except_bind_eq_ok.1 onward
  constructor
  · unfold sliceFrom at here
    split at here
    · next valid => exact valid.le_utf8ByteSize
    · cases here
  · split at onward
    · cases onward
    · next offset found =>
      exact Nat.lt_of_le_of_lt (Nat.le_add_right _ _) (turnAt_advances onward)

end Advance

/-- The loop from a stop on. -/
def scanFrom (text : String) (limit : Nat) (s : Stop) : Except Nat (Option Nat) :=
  match onward : turn text limit s with
  | .error pos => .error pos
  | .ok (.ends found) => .ok found
  | .ok (.goesOn next) =>
    have := turn_advances onward
    scanFrom text limit next
termination_by text.utf8ByteSize + 1 - s.pos

/-- Number of bytes before the first start tag nested deeper than `limit`. -/
def scan (text : String) (limit : Nat) : Except Nat (Option Nat) := scanFrom text limit ⟨0, 0⟩

/-- The stops that the loop comes to. -/
inductive Reached (text : String) (limit : Nat) : Stop → Prop
  | start : Reached text limit ⟨0, 0⟩
  | step {s next : Stop} : Reached text limit s → turn text limit s = .ok (.goesOn next) →
      Reached text limit next

section Slices
variable {text : String} {before within rest tail : List Char}

theorem sliceFrom_eq (split : text.toList = before ++ rest) :
    sliceFrom text (encode before).length = .ok (encode rest) := by
  rw [sliceFrom, if_pos (isValid_length_encode split), split, encode_append,
    List.drop_left]

theorem sliceTo_eq (split : text.toList = before ++ within ++ rest) :
    sliceTo text (encode before).length (encode (before ++ within)).length =
      .ok (encode within) := by
  have cut : encode text.toList = encode before ++ (encode within ++ encode rest) := by
    rw [split, encode_append, encode_append, List.append_assoc]
  rw [sliceTo, if_pos (isValid_length_encode split), cut, List.drop_left,
    encode_append, List.length_append, Nat.add_sub_cancel_left, List.take_left]

theorem begins_markup {mark : List Char} (ascii : AllAscii mark) (tail : List Char) :
    begins ('<' :: mark) (encode ('<' :: tail)) = mark.isPrefixOf tail := by
  have all : AllAscii ('<' :: mark) := List.forall_mem_cons.2 ⟨by decide, ascii⟩
  rw [Bool.eq_iff_iff, begins, List.isPrefixOf_iff_prefix, encode_prefix_iff all,
    List.prefix_cons_inj, List.isPrefixOf_iff_prefix]

theorem begins_char {c : Char} (narrow : IsAscii c) (tail : List Char) :
    begins ['<', c] (encode ('<' :: tail)) = true ↔ tail.head? = some c := by
  rw [begins_markup (List.forall_mem_singleton.2 narrow)]
  cases tail with
  | nil => exact ⟨nofun, nofun⟩
  | cons d tail =>
      rw [List.isPrefixOf_cons_cons, List.isPrefixOf_nil_left, Bool.and_true, beq_iff_eq,
        List.head?_cons, Option.some_inj, eq_comm]

theorem closed_markup (l : List Char) :
    (encode ['/', '>']).isSuffixOf (encode ('<' :: l)) = ['/', '>'].isSuffixOf l := by
  rw [Bool.eq_iff_iff, List.isSuffixOf_iff_suffix, List.isSuffixOf_iff_suffix,
    encode_suffix_iff (by decide), List.suffix_cons_iff]
  exact or_iff_right fun same => by cases same

end Slices

section Lengths
variable {a : Char} {p : List Char}

theorem through_encode (ascii : AllAscii (a :: p)) (base : Nat) (front l : List Char) :
    (through (a :: p) (encode l)).map (base + (encode front).length + ·) =
      (lengthThrough (a :: p) front.length l).map fun n =>
        base + (encode ((front ++ l).take n)).length := by
  have own : IsAscii a := ascii a List.mem_cons_self
  induction l generalizing front with
  | nil =>
      rw [through, encode_cons_ascii own]
      rfl
  | cons c l ih =>
      rw [lengthThrough]
      split
      · next met =>
        obtain ⟨rest, shape⟩ := List.isPrefixOf_iff_prefix.1 met
        have here : encode (a :: p) <+: encode (c :: l) :=
          (encode_prefix_iff ascii).2 ⟨rest, shape⟩
        have taken : (front ++ c :: l).take (front.length + (a :: p).length) = front ++ a :: p := by
          rw [← shape, ← List.append_assoc, ← List.length_append, List.take_left]
        simp only [through, find_of_prefix here, Option.map_some, taken,
          encode_append, List.length_append, Nat.zero_add, Nat.add_assoc]
      · next unmet =>
        rw [List.isPrefixOf_iff_prefix] at unmet
        have later := ih (front ++ [c])
        rw [List.length_append, List.append_assoc, encode_concat,
          List.length_append] at later
        refine Eq.trans ?_ later
        simp only [through, find_encode_of_unmet ascii unmet, Option.map_map]
        congr 1
        funext n
        simp only [Function.comp_apply]
        omega

theorem through_markup (ascii : AllAscii (a :: p)) (apart : '<' ≠ a) (tail : List Char) :
    through (a :: p) (encode ('<' :: tail)) =
      (lengthThrough (a :: p) 0 tail).map fun n => 1 + (encode (tail.take n)).length := by
  have unmet : ¬ a :: p <+: '<' :: tail :=
    fun met => apart (List.cons_prefix_cons.1 met).1.symm
  refine Eq.trans ?_ (through_encode ascii 1 [] tail)
  simp only [through, find_encode_of_unmet ascii unmet, Option.map_map]
  congr 1
  funext n
  simp only [Function.comp_apply]
  have narrow : (String.utf8EncodeChar '<').length = 1 := by decide
  have nothing : (encode []).length = 0 := rfl
  omega

end Lengths

section Markup

/-- The quote that a value began with, if in one, is an ASCII character. -/
def Quote (quote : Option Char) : Prop := ∀ q ∈ quote, IsAscii q

theorem quote_none : Quote none := nofun

theorem quote_some {c : Char} (narrow : IsAscii c) : Quote (some c) := by
  rintro q ⟨⟩
  exact narrow

theorem markupBytes_skip {quote : Option Char} (ascii : Quote quote) {c : Char}
    (wide : ¬ IsAscii c) (d passed : Nat) (bytes : List UInt8) :
    markupBytes (quote.map Char.toUInt8) d passed (String.utf8EncodeChar c ++ bytes) =
      markupBytes (quote.map Char.toUInt8) d (passed + (String.utf8EncodeChar c).length) bytes := by
  have other (a : Char) (narrow : IsAscii a) : a.toUInt8 ∉ String.utf8EncodeChar c :=
    fun mem => wide (eq_of_byte_mem narrow mem ▸ narrow)
  generalize String.utf8EncodeChar c = skipped at other
  induction skipped generalizing passed with
  | nil => rfl
  | cons b skipped ih =>
      have here (a : Char) (narrow : IsAscii a) : b ≠ a.toUInt8 :=
        fun same => other a narrow (same ▸ List.mem_cons_self)
      have later := ih (passed + 1) fun a narrow mem => other a narrow (List.mem_cons_of_mem b mem)
      rw [List.length_cons, Nat.add_comm skipped.length, ← Nat.add_assoc, ← later, List.cons_append]
      cases quote with
      | some q => simp only [Option.map_some, markupBytes, if_neg (here q (ascii q rfl))]
      | none =>
          simp only [Option.map_none, markupBytes, here '"' (by decide), here '\'' (by decide),
            here '[' (by decide), here ']' (by decide), here '>' (by decide), or_self, false_and,
            if_false]

theorem markupLength_skip {quote : Option Char} (ascii : Quote quote) {c : Char}
    (wide : ¬ IsAscii c) (d passed : Nat) (l : List Char) :
    markupLength quote d passed (c :: l) = markupLength quote d (passed + 1) l := by
  cases quote with
  | some q =>
      have other : c ≠ q := fun same => wide (same ▸ ascii q rfl)
      simp only [markupLength, if_neg other]
  | none =>
      have narrow : AllAscii meaningful := by decide
      exact markupLength_plain (fun mem => wide (narrow c mem)) d passed l

theorem markupBytes_encode {quote : Option Char} (ascii : Quote quote) (d base : Nat)
    (front l : List Char) :
    markupBytes (quote.map Char.toUInt8) d (base + (encode front).length) (encode l) =
      (markupLength quote d front.length l).map fun n =>
        base + (encode ((front ++ l).take n)).length := by
  induction l generalizing quote d front with
  | nil => rfl
  | cons c l ih =>
      have later {quote : Option Char} (ascii : Quote quote) (d : Nat) :
          markupBytes (quote.map Char.toUInt8) d
              (base + (encode front).length + (String.utf8EncodeChar c).length) (encode l) =
            (markupLength quote d (front.length + 1) l).map fun n =>
              base + (encode ((front ++ c :: l).take n)).length := by
        have shifted := ih ascii d (front ++ [c])
        rwa [encode_concat, List.length_append, ← Nat.add_assoc, List.length_append,
          List.append_assoc] at shifted
      by_cases narrow : IsAscii c
      · have byte (a : Char) (ascii : IsAscii a) : c.toUInt8 = a.toUInt8 ↔ c = a :=
          toUInt8_inj ascii narrow
        rw [encodeChar_ascii narrow, List.length_singleton] at later
        rw [encode_cons_ascii narrow]
        cases quote with
        | some q =>
            simp only [Option.map_some, markupBytes, markupLength, byte q (ascii q rfl)]
            split
            · exact later quote_none d
            · exact later ascii d
        | none =>
            simp only [Option.map_none, markupBytes, markupLength, byte '"' (by decide),
              byte '\'' (by decide), byte '[' (by decide), byte ']' (by decide),
              byte '>' (by decide)]
            split
            · exact later (quote_some narrow) d
            split
            · exact later quote_none (d + 1)
            split
            · exact later quote_none (d - 1)
            split
            · have taken : (front ++ c :: l).take (front.length + 1) = front ++ [c] := by
                rw [List.take_length_add_append, List.take_succ_cons, List.take_zero]
              rw [Option.map_some, taken, encode_concat,
                encodeChar_ascii narrow, List.length_append, ← Nat.add_assoc,
                List.length_singleton]
            · exact later quote_none d
      · rw [encode_cons, markupBytes_skip ascii narrow, later ascii,
          markupLength_skip ascii narrow]

theorem markupBytes_markup (tail : List Char) :
    markupBytes none 0 0 (encode ('<' :: tail)) =
      (markupLength none 0 0 tail).map fun n => 1 + (encode (tail.take n)).length :=
  markupBytes_encode quote_none 0 1 [] tail

end Markup

/-- What a turn comes to, told by the characters before a `<` and behind it. -/
def seen (limit depth : Nat) (before tail : List Char) : Turn :=
  match markup? tail with
  | none => .ends none
  | some (n, effect) =>
    if effect = .opens ∧ limit < depth + 1 then .ends (some (encode before).length)
    else .goesOn ⟨(encode (before ++ '<' :: tail.take n)).length, Xml.depthAfter effect depth⟩

section Turns
variable {text : String} {limit depth : Nat} {before rest plain tail : List Char}

theorem length_encode_past (before tail : List Char) (n : Nat) :
    (encode (before ++ '<' :: tail.take n)).length =
      (encode before).length + (1 + (encode (tail.take n)).length) := by
  rw [encode_append, List.length_append, encode_cons_ascii (by decide),
    List.length_cons, Nat.add_comm 1]

theorem seen_quiet {n : Nat} {effect : Effect} (markup : markup? tail = some (n, effect))
    (quiet : effect ≠ .opens) :
    seen limit depth before tail =
      .goesOn ⟨(encode before).length + (1 + (encode (tail.take n)).length),
        Xml.depthAfter effect depth⟩ := by
  rw [seen, markup, ← length_encode_past]
  exact if_neg fun deep => quiet deep.1

theorem seen_opens {n : Nat} (markup : markup? tail = some (n, .opens)) :
    seen limit depth before tail =
      if limit < depth + 1 then .ends (some (encode before).length)
      else .goesOn ⟨(encode before).length + (1 + (encode (tail.take n)).length), depth + 1⟩ := by
  rw [seen, markup, ← length_encode_past]
  simp only [true_and, Xml.depthAfter]

theorem past_eq_seen {length : Option Nat}
    (markup : markup? tail = length.map fun n => (n, .none)) :
    Turn.past (encode before).length depth
      (length.map fun n => 1 + (encode (tail.take n)).length) = seen limit depth before tail := by
  cases length with
  | none =>
      rw [seen, markup]
      rfl
  | some n => exact (seen_quiet markup (by decide)).symm

theorem turnAt_eq (split : text.toList = before ++ '<' :: tail) :
    turnAt text limit (encode before).length depth = .ok (seen limit depth before tail) := by
  have begins_comment :
      begins "<!--".toList (encode ('<' :: tail)) = "!--".toList.isPrefixOf tail :=
    begins_markup (by decide) tail
  have begins_cdata :
      begins "<![CDATA[".toList (encode ('<' :: tail)) = "![CDATA[".toList.isPrefixOf tail :=
    begins_markup (by decide) tail
  simp only [turnAt, sliceFrom_eq split, bind, Except.bind, pure, Except.pure, begins_comment,
    begins_cdata, begins_char (by decide : IsAscii '?'), begins_char (by decide : IsAscii '/'),
    begins_char (by decide : IsAscii '!'), markupBytes_markup]
  split
  · next comment =>
    rw [through_markup (by decide) (by decide), past_eq_seen]
    rw [markup?, if_pos comment]
  next comment =>
  split
  · next cdata =>
    rw [through_markup (by decide) (by decide), past_eq_seen]
    rw [markup?, if_neg comment, if_pos cdata]
  next cdata =>
  split
  · next question =>
    rw [through_markup (by decide) (by decide), past_eq_seen]
    rw [markup?, if_neg comment, if_neg cdata, if_pos question]
  next question =>
  have markup := markup?.eq_def tail
  rw [if_neg comment, if_neg cdata, if_neg question] at markup
  cases length : markupLength none 0 0 tail with
  | none =>
      rw [length] at markup
      rw [seen, markup]
      rfl
  | some n =>
      have whole : text.toList = before ++ '<' :: tail.take n ++ tail.drop n := by
        rw [split, List.append_assoc, List.cons_append, List.take_append_drop]
      have tag := sliceTo_eq whole
      rw [length_encode_past] at tag
      rw [length, Option.map_some] at markup
      simp only [Option.map_some, tag, closed_markup]
      split
      · next slash =>
        rw [if_pos slash] at markup
        rw [seen_quiet markup (by decide), Xml.depthAfter]
      next slash =>
      rw [if_neg slash] at markup
      split
      · next bang =>
        rw [if_pos (.inl bang)] at markup
        rw [seen_quiet markup (by decide), Xml.depthAfter]
      next bang =>
      split
      · next empty =>
        rw [if_pos (.inr empty)] at markup
        rw [seen_quiet markup (by decide), Xml.depthAfter]
      next full =>
      rw [if_neg (not_or.2 ⟨bang, full⟩)] at markup
      rw [seen_opens markup]
      split <;> rfl

end Turns

end ApiDrift.Introspection.Bytewise
