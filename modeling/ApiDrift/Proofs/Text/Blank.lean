import ApiDrift.Text.Blank
import ApiDrift.Text.Split
import Mathlib.Data.List.TakeWhile
/-! Texts of which cutting leaves nothing or everything. Blank ones are those that vanish with their
white space; words have none, and no separator. -/
namespace ApiDrift.Text

theorem trimChars_eq_nil_iff {l : List Char} : trimChars l = [] ↔ ∀ c ∈ l, isBlank c = true := by
  rw [trimChars, List.reverse_eq_nil_iff, List.dropWhile_eq_nil_iff]
  simp only [List.mem_reverse]
  constructor
  · intro rest
    have left : l.dropWhile isBlank = [] := by
      by_contra some
      have first := List.head_dropWhile_not isBlank some
      exact absurd (rest _ (List.head_mem some)) (by simpa using first)
    exact List.dropWhile_eq_nil_iff.1 left
  · intro blank c hc
    exact blank c (List.dropWhile_sublist isBlank |>.subset hc)

theorem trim_eq_empty_iff {s : String} : trim s = "" ↔ allBlank s = true := by
  rw [trim, allBlank, List.all_eq_true, ← trimChars_eq_nil_iff]
  exact ⟨fun h => by simpa using congrArg String.toList h, fun h => by rw [h]⟩

theorem dropWhile_isBlank_eq_self {l : List Char} (h : ∀ c ∈ l, isBlank c = false) :
    l.dropWhile isBlank = l := by
  cases l with
  | nil => rfl
  | cons c rest =>
      have first := h c List.mem_cons_self
      rw [List.dropWhile_cons_of_neg (Bool.not_eq_true _ ▸ first)]

theorem trimChars_padded {before word after : List Char} (blankBefore : ∀ c ∈ before, isBlank c = true)
    (solid : ∀ c ∈ word, isBlank c = false) (blankAfter : ∀ c ∈ after, isBlank c = true) :
    trimChars (before ++ (word ++ after)) = word := by
  rw [trimChars, List.dropWhile_append_of_pos blankBefore]
  cases word with
  | nil =>
      rw [List.nil_append, List.dropWhile_eq_nil_iff.2 blankAfter]
      rfl
  | cons c rest =>
      have first := solid c List.mem_cons_self
      have back : ∀ c ∈ after.reverse, isBlank c = true := fun c hc =>
        blankAfter c (List.mem_reverse.1 hc)
      rw [List.cons_append, List.dropWhile_cons_of_neg (Bool.not_eq_true _ ▸ first),
        ← List.cons_append, List.reverse_append, List.dropWhile_append_of_pos back,
        dropWhile_isBlank_eq_self fun c hc => solid c (List.mem_reverse.1 hc), List.reverse_reverse]

theorem trim_padded {before word after : String} (blankBefore : allBlank before = true)
    (solid : ∀ c ∈ word.toList, isBlank c = false) (blankAfter : allBlank after = true) :
    trim (before ++ word ++ after) = word := by
  rw [trim, String.toList_append, String.toList_append, List.append_assoc,
    trimChars_padded (List.all_eq_true.1 blankBefore) solid (List.all_eq_true.1 blankAfter),
    String.ofList_toList]

theorem trim_eq_self {s : String} (h : ∀ c ∈ s.toList, isBlank c = false) : trim s = s := by
  simpa using @trim_padded "" s "" rfl h rfl

theorem splitChars_append (sep : Char) (l m : List Char) :
    splitChars sep (l ++ sep :: m) = splitChars sep l ++ splitChars sep m := by
  induction l with
  | nil =>
      show splitChars sep (sep :: m) = [] :: splitChars sep m
      rw [splitChars, if_pos rfl]
  | cons c rest ih =>
      rw [List.cons_append, splitChars, splitChars, ih]
      split
      · rfl
      · cases parts : splitChars sep rest with
        | nil => exact absurd parts (splitChars_ne_nil sep rest)
        | cons part others => rfl

theorem split_append (sep : Char) (a b : String) :
    split sep (a ++ sep.toString ++ b) = split sep a ++ split sep b := by
  have text : (a ++ sep.toString ++ b).toList = a.toList ++ sep :: b.toList := by simp
  rw [split, text, splitChars_append, List.map_append, split, split]

theorem splitChars_eq_singleton {sep : Char} {l : List Char} (h : sep ∉ l) :
    splitChars sep l = [l] := by
  induction l with
  | nil => rfl
  | cons c rest ih =>
      rw [List.mem_cons, not_or] at h
      rw [splitChars, if_neg (Ne.symm h.1), ih h.2]

theorem split_eq_singleton {sep : Char} {s : String} (h : sep ∉ s.toList) : split sep s = [s] := by
  rw [split, splitChars_eq_singleton h, List.map_singleton, String.ofList_toList]

/-- Small letters and hyphens. -/
def isWordChar (c : Char) : Bool := c.isLower || c == '-'

theorem not_isBlank_of_isWordChar {c : Char} (h : isWordChar c = true) : isBlank c = false := by
  rcases Bool.or_eq_true_iff.1 h with lower | hyphen
  · obtain ⟨low, high⟩ := Bool.and_eq_true_iff.1 lower
    have range : 97 ≤ c.toNat ∧ c.toNat ≤ 122 := ⟨of_decide_eq_true low, of_decide_eq_true high⟩
    simp [isBlank, blankRanges]
    omega
  · rw [eq_of_beq hyphen]
    decide

end ApiDrift.Text
