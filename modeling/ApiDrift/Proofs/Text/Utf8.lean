import ApiDrift.Text.Utf8
import Mathlib.Data.List.Infix
import Mathlib.Data.List.Induction
/-! Text as bytes. The byte of a character below 128 stands nowhere but for that character, so what
is looked for among the bytes of a text is found where it is found among the characters. -/
namespace ApiDrift.Text.Utf8

/-- Characters that are a single byte. -/
def IsAscii (c : Char) : Prop := c.toNat < 128

instance (c : Char) : Decidable (IsAscii c) := inferInstanceAs (Decidable (c.toNat < 128))

def AllAscii (text : List Char) : Prop := ∀ c ∈ text, IsAscii c

instance (text : List Char) : Decidable (AllAscii text) := List.decidableBAll IsAscii text

theorem encode_cons (c : Char) (l : List Char) :
    encode (c :: l) = String.utf8EncodeChar c ++ encode l := rfl

theorem encode_append (l m : List Char) : encode (l ++ m) = encode l ++ encode m :=
  List.flatMap_append

theorem encode_concat (l : List Char) (c : Char) :
    encode (l ++ [c]) = encode l ++ String.utf8EncodeChar c := by
  rw [encode_append, encode_cons]
  exact congrArg _ (List.append_nil _)

theorem length_encode (l : List Char) : (encode l).length = (String.ofList l).utf8ByteSize := by
  induction l with
  | nil => rfl
  | cons c l ih =>
      rw [encode_cons, List.length_append, ih, String.length_utf8EncodeChar, String.ofList_cons,
        String.utf8ByteSize_append, String.utf8ByteSize_singleton]

theorem encodeChar_ne_nil (c : Char) : String.utf8EncodeChar c ≠ [] := by
  apply List.ne_nil_of_length_pos
  rw [String.length_utf8EncodeChar]
  exact c.utf8Size_pos

theorem isValid_length_encode {text : String} {before after : List Char}
    (split : text.toList = before ++ after) :
    (String.Pos.Raw.mk (encode before).length).IsValid text := by
  rw [String.Pos.Raw.isValid_iff_exists_take_toList]
  refine ⟨before.length, ?_⟩
  rw [split, List.take_left, length_encode]

section Byte
variable {a c : Char} {b : UInt8}

theorem high_of_mem (wide : ¬ IsAscii c) (mem : b ∈ String.utf8EncodeChar c) : 128 ≤ b.toNat := by
  have large : ¬ c.val.toNat ≤ 0x7f := fun h => wide (Nat.lt_succ_of_le h)
  have high (n : Nat) (low : 128 ≤ n) (small : n < 256) : 128 ≤ (UInt8.ofNat n).toNat := by
    rw [UInt8.toNat_ofNat', Nat.mod_eq_of_lt small]
    exact low
  rw [String.utf8EncodeChar] at mem
  simp only [large, if_false] at mem
  split at mem
  · simp only [List.mem_cons, List.not_mem_nil, or_false] at mem
    rcases mem with rfl | rfl
    all_goals exact high _ (by omega) (by omega)
  split at mem
  · simp only [List.mem_cons, List.not_mem_nil, or_false] at mem
    rcases mem with rfl | rfl | rfl
    all_goals exact high _ (by omega) (by omega)
  · simp only [List.mem_cons, List.not_mem_nil, or_false] at mem
    rcases mem with rfl | rfl | rfl | rfl
    all_goals exact high _ (by omega) (by omega)

theorem encodeChar_ascii (ascii : IsAscii a) : String.utf8EncodeChar a = [a.toUInt8] := by
  have small : a.val.toNat ≤ 0x7f := Nat.le_of_lt_succ ascii
  rw [String.utf8EncodeChar]
  simp only [small, if_true]
  rfl

theorem toNat_toUInt8 (ascii : IsAscii a) : a.toUInt8.toNat = a.toNat := by
  have small : a.toNat < 256 := Nat.lt_trans ascii (by decide)
  have shape : a.toUInt8 = UInt8.ofNat a.toNat := rfl
  rw [shape, UInt8.toNat_ofNat', Nat.mod_eq_of_lt small]

theorem eq_of_byte_mem (ascii : IsAscii a) (mem : a.toUInt8 ∈ String.utf8EncodeChar c) : c = a := by
  by_cases narrow : IsAscii c
  · rw [encodeChar_ascii narrow, List.mem_singleton] at mem
    have code := congrArg UInt8.toNat mem
    rw [toNat_toUInt8 ascii, toNat_toUInt8 narrow] at code
    exact (Char.toNat_inj.1 code).symm
  · have high := high_of_mem narrow mem
    rw [toNat_toUInt8 ascii] at high
    exact absurd ascii (Nat.not_lt.2 high)

theorem toUInt8_inj (ascii : IsAscii a) (narrow : IsAscii c) : c.toUInt8 = a.toUInt8 ↔ c = a := by
  constructor
  · intro same
    refine eq_of_byte_mem ascii ?_
    rw [encodeChar_ascii narrow, same]
    exact List.mem_singleton_self _
  · rintro rfl
    rfl

end Byte

section Pattern
variable {a c : Char} {l p : List Char} {bytes : List UInt8}

theorem encode_cons_ascii (ascii : IsAscii a) (l : List Char) :
    encode (a :: l) = a.toUInt8 :: encode l := by
  rw [encode_cons, encodeChar_ascii ascii, List.singleton_append]

theorem byte_mem_encode (ascii : IsAscii a) : a.toUInt8 ∈ encode l ↔ a ∈ l := by
  rw [encode, List.mem_flatMap]
  constructor
  · rintro ⟨c, mem, byte⟩
    exact eq_of_byte_mem ascii byte ▸ mem
  · intro mem
    refine ⟨a, mem, ?_⟩
    rw [encodeChar_ascii ascii]
    exact List.mem_singleton_self _

theorem encode_eq_cons (ascii : IsAscii a) (same : encode l = a.toUInt8 :: bytes) :
    ∃ rest, l = a :: rest ∧ bytes = encode rest := by
  cases l with
  | nil => cases same
  | cons c rest =>
      obtain rfl : c = a := by
        obtain ⟨b, more, shape⟩ := List.exists_cons_of_ne_nil (encodeChar_ne_nil c)
        rw [encode_cons, shape, List.cons_append, List.cons.injEq] at same
        refine eq_of_byte_mem ascii ?_
        rw [shape, same.1]
        exact List.mem_cons_self
      rw [encode_cons_ascii ascii] at same
      exact ⟨rest, rfl, (List.cons.inj same).2.symm⟩

theorem encode_eq_concat (ascii : IsAscii a) (same : encode l = bytes ++ [a.toUInt8]) :
    ∃ front, l = front ++ [a] ∧ bytes = encode front := by
  induction l using List.reverseRecOn with
  | nil => exact absurd same.symm (List.concat_ne_nil _ _)
  | append_singleton front c _ =>
      obtain rfl : c = a := by
        obtain ⟨more, b, shape⟩ :=
          (List.eq_nil_or_concat' (String.utf8EncodeChar c)).resolve_left (encodeChar_ne_nil c)
        rw [encode_concat, shape, ← List.append_assoc] at same
        refine eq_of_byte_mem ascii ?_
        rw [shape, (List.append_inj' same rfl).2]
        exact List.mem_concat_self
      rw [encode_concat, encodeChar_ascii ascii] at same
      exact ⟨front, rfl, (List.append_inj' same rfl).1.symm⟩

theorem encode_prefix_iff (ascii : AllAscii p) : encode p <+: encode l ↔ p <+: l := by
  constructor
  · induction p generalizing l with
    | nil => exact fun _ => List.nil_prefix
    | cons a p ih =>
        obtain ⟨own, others⟩ := List.forall_mem_cons.1 ascii
        rintro ⟨more, same⟩
        rw [encode_cons_ascii own, List.cons_append] at same
        obtain ⟨rest, rfl, later⟩ := encode_eq_cons own same.symm
        exact List.cons_prefix_cons.2 ⟨rfl, ih others ⟨more, later⟩⟩
  · rintro ⟨rest, rfl⟩
    rw [encode_append]
    exact List.prefix_append _ _

theorem encode_suffix_iff (ascii : AllAscii p) : encode p <:+ encode l ↔ p <:+ l := by
  constructor
  · induction p using List.reverseRecOn generalizing l with
    | nil => exact fun _ => List.nil_suffix
    | append_singleton p a ih =>
        have own : IsAscii a := ascii a List.mem_concat_self
        have others : AllAscii p := fun c hc => ascii c (List.mem_append_left _ hc)
        rintro ⟨more, same⟩
        rw [encode_concat, encodeChar_ascii own, ← List.append_assoc] at same
        obtain ⟨front, rfl, earlier⟩ := encode_eq_concat own same.symm
        exact List.suffix_append_self_iff.2 (ih others ⟨more, earlier⟩)
  · rintro ⟨rest, rfl⟩
    rw [encode_append]
    exact List.suffix_append _ _

end Pattern

/-- The first place at which bytes begin with a pattern. -/
def find (pattern bytes : List UInt8) : Option Nat := bytes.tails.findIdx? pattern.isPrefixOf

section Find
variable {a c : Char} {l p : List Char}

theorem find_cons (pattern : List UInt8) (b : UInt8) (bytes : List UInt8) :
    find pattern (b :: bytes) =
      if pattern.isPrefixOf (b :: bytes) then some 0 else (find pattern bytes).map (· + 1) := by
  rw [find, List.tails_cons, List.findIdx?_cons]
  rfl

theorem find_of_prefix {pattern bytes : List UInt8} (met : pattern <+: bytes) :
    find pattern bytes = some 0 := by
  have here : pattern.isPrefixOf bytes = true := List.isPrefixOf_iff_prefix.2 met
  cases bytes with
  | nil =>
      show List.findIdx? pattern.isPrefixOf [[]] = some 0
      rw [List.findIdx?_cons, if_pos here]
  | cons b bytes => rw [find_cons, if_pos here]

theorem find_skip {b : UInt8} {skipped : List UInt8} (absent : b ∉ skipped)
    (pattern bytes : List UInt8) :
    find (b :: pattern) (skipped ++ bytes) =
      (find (b :: pattern) bytes).map (· + skipped.length) := by
  induction skipped with
  | nil => exact Option.map_id'.symm
  | cons d skipped ih =>
      rw [List.mem_cons, not_or] at absent
      have unmet : (b :: pattern).isPrefixOf (d :: (skipped ++ bytes)) = false := by
        rw [List.isPrefixOf_cons_cons, beq_false_of_ne absent.1, Bool.false_and]
      rw [List.cons_append, find_cons, unmet, ih absent.2, Option.map_map]
      rfl

theorem find_encode_of_unmet (ascii : AllAscii (a :: p)) (unmet : ¬ a :: p <+: c :: l) :
    find (encode (a :: p)) (encode (c :: l)) =
      (find (encode (a :: p)) (encode l)).map (· + (String.utf8EncodeChar c).length) := by
  have own : IsAscii a := ascii a List.mem_cons_self
  by_cases first : c = a
  · subst first
    rw [← encode_prefix_iff ascii, ← List.isPrefixOf_iff_prefix] at unmet
    rw [encode_cons_ascii own l] at unmet ⊢
    rw [find_cons, if_neg unmet, encodeChar_ascii own]
    rfl
  · rw [encode_cons_ascii own, encode_cons c]
    exact find_skip (fun mem => first (eq_of_byte_mem own mem)) _ _

theorem find_byte {plain : List Char} (ascii : IsAscii a) (absent : a ∉ plain) (tail : List Char) :
    find [a.toUInt8] (encode (plain ++ a :: tail)) = some (encode plain).length := by
  rw [encode_append, find_skip (mt (byte_mem_encode ascii).1 absent), encode_cons_ascii ascii,
    find_cons, if_pos (by simp), Option.map_some, Nat.zero_add]

theorem find_byte_eq_none (ascii : IsAscii a) (absent : a ∉ l) :
    find [a.toUInt8] (encode l) = none := by
  have passed := find_skip (mt (byte_mem_encode ascii).1 absent) [] []
  rwa [List.append_nil] at passed

end Find

end ApiDrift.Text.Utf8
