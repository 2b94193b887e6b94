import ApiDrift.Proofs.Text.Affix
import ApiDrift.Proofs.Text.Blank
/-! Texts cut into parts and joined again. What a cut gives makes up the text, parts without the
separator come back from the text that they make up, and the last part of a path is its last
component. -/
namespace ApiDrift.Text

theorem splitChars_eq_splitOn (sep : Char) (l : List Char) : splitChars sep l = l.splitOn sep := by
  induction l with
  | nil => rfl
  | cons c rest ih =>
      rw [splitChars, List.splitOn_cons_eq_if_modifyHead, ih]
      by_cases here : c = sep
      · rw [if_pos here, if_pos (beq_iff_eq.2 here)]
      · rw [if_neg here, if_neg (mt beq_iff_eq.1 here)]
        cases parts : rest.splitOn sep with
        | nil => exact absurd parts (List.splitOn_ne_nil sep rest)
        | cons part others => rfl

theorem toList_separator (sep : Char) : sep.toString.toList = [sep] := by simp

theorem intercalate_split (sep : Char) (s : String) :
    sep.toString.intercalate (split sep s) = s := by
  apply String.ext
  have parts : (split sep s).map String.toList = s.toList.splitOn sep := by
    simp [split, splitChars_eq_splitOn, Function.comp_def]
  rw [String.toList_intercalate, parts, toList_separator]
  exact List.intercalate_splitOn sep

theorem split_intercalate {sep : Char} {parts : List String} (some : parts ≠ [])
    (single : ∀ part ∈ parts, sep ∉ part.toList) :
    split sep (sep.toString.intercalate parts) = parts := by
  have apart : ∀ l ∈ parts.map String.toList, sep ∉ l := by
    intro l hl
    obtain ⟨part, mem, rfl⟩ := List.mem_map.1 hl
    exact single part mem
  have cut := List.splitOn_intercalate sep apart (by simpa using some)
  rw [split, splitChars_eq_splitOn, String.toList_intercalate, toList_separator, cut]
  simp [Function.comp_def]

theorem slash_not_mem_lastComponent (path : String) : '/' ∉ (lastComponent path).toList := by
  intro slash
  rw [lastComponent, String.toList_ofList] at slash
  simpa using List.mem_rtakeWhile_imp slash

theorem getLast?_split (path : String) : (split '/' path).getLast? = some (lastComponent path) := by
  have plain := slash_not_mem_lastComponent path
  rcases (lastComponent_eq_iff plain).1 rfl with whole | ⟨front, cut⟩
  · rw [← whole] at plain
    rw [split_eq_singleton plain, List.getLast?_singleton, ← whole]
  · rw [split, ← cut, splitChars_append, splitChars_eq_singleton plain, List.map_append,
      List.map_singleton, List.getLast?_concat, String.ofList_toList]

end ApiDrift.Text
