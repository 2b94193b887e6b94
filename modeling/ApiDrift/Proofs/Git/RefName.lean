import ApiDrift.Git.Revision
import ApiDrift.Proofs.Text.Blank
import ApiDrift.Snapshot.Config
/-! Names of refs: those of note refs, which differ in their last components only, and the names of
releases, which are names of refs in short. -/
namespace ApiDrift.Git.RefName

open Snapshot (heading)

/-! ### Note refs -/

/-- The directory of the note refs of an area, without empty components. -/
def folder (area : String) : String :=
  String.intercalate "/"
    (((Text.splitChars '/' ("refs/" ++ area).toList).filter fun p => !p.isEmpty).map String.ofList)

theorem components?_eq_some {name : String} {l : List String} (h : components? name = some l) :
    l = ((Text.splitChars '/' name.toList).filter fun p => !p.isEmpty).map String.ofList ∧
      ((Text.splitChars '/' name.toList).getLast?.getD []) ≠ [] ∧
      ∀ p ∈ Text.splitChars '/' name.toList, isComponent p = true := by
  unfold components? at h
  dsimp only at h
  split at h
  · next well =>
    simp only [Bool.and_eq_true, Bool.not_eq_true', List.all_eq_true] at well
    exact ⟨(Option.some_inj.1 h).symm, List.isEmpty_eq_false_iff.1 well.1.1.1.2, well.1.2⟩
  · exact nomatch h

theorem normalize_eq_ok {name full : String} (h : normalize name = .ok full) :
    ∃ l, components? name = some l ∧ full = String.intercalate "/" l := by
  unfold normalize at h
  split at h
  · exact nomatch h
  · next l found =>
    dsimp only at h
    split at h
    · exact nomatch h
    · exact ⟨l, found, (Except.ok.inj h).symm⟩

theorem normalize_heading {area base name : String} (plain : '/' ∉ base.toList)
    (named : normalize (heading area ++ base) = .ok name) :
    name = folder area ++ "/" ++ base := by
  obtain ⟨l, found, rfl⟩ := normalize_eq_ok named
  obtain ⟨rfl, ends, -⟩ := components?_eq_some found
  have parts : Text.splitChars '/' (heading area ++ base).toList =
      Text.splitChars '/' ("refs/" ++ area).toList ++ [base.toList] := by
    have text : (heading area ++ base).toList = ("refs/" ++ area).toList ++ '/' :: base.toList := by
      simp [heading]
    rw [text, Text.splitChars_append, Text.splitChars_eq_singleton plain]
  rw [parts, List.getLast?_concat, Option.getD_some] at ends
  have full : (([base.toList] : List (List Char)).filter fun p => !p.isEmpty).map String.ofList =
      [base] := by
    rw [List.filter_cons_of_pos (by simpa using ends), List.filter_nil, List.map_singleton,
      String.ofList_toList]
  have some : (Text.splitChars '/' ("refs/" ++ area).toList).filter (fun p => !p.isEmpty) ≠ [] := by
    have text : ("refs/" ++ area).toList = "refs".toList ++ '/' :: area.toList := by simp
    have first : "refs".toList ∈ Text.splitChars '/' ("refs/" ++ area).toList := by
      rw [text, Text.splitChars_append]
      exact List.mem_append_left _ List.mem_cons_self
    exact List.ne_nil_of_mem (List.mem_filter.2 ⟨first, rfl⟩)
  rw [parts, List.filter_append, List.map_append, full,
    String.intercalate_append_of_ne_nil (mt List.map_eq_nil_iff.1 some) (List.cons_ne_nil base []),
    String.intercalate_singleton]
  rfl

/-- Of two names in one directory neither is that of a directory with the other one in it. -/
theorem not_isAbove_sibling {folder base other : String} (plain : '/' ∉ other.toList) :
    isAbove (folder ++ "/" ++ base) (folder ++ "/" ++ other) = false := by
  refine Bool.eq_false_iff.2 fun above => plain ?_
  have same : (folder ++ "/" ++ base ++ "/").toList =
      (folder ++ "/").toList ++ (base.toList ++ ['/']) := by simp
  have same' : (folder ++ "/" ++ other).toList = (folder ++ "/").toList ++ other.toList := by simp
  rw [isAbove, List.isPrefixOf_iff_prefix, same, same', List.prefix_append_right_inj] at above
  exact above.subset (List.mem_append_right _ List.mem_cons_self)

/-! ### Releases -/

theorem hasForbiddenPair_of_cons {c : Char} {l : List Char} (h : hasForbiddenPair (c :: l) = false) :
    hasForbiddenPair l = false := by
  unfold hasForbiddenPair at h
  split at h
  · exact nomatch h
  · exact nomatch h
  · next same =>
    obtain ⟨-, rfl⟩ := List.cons.inj same
    exact h
  · next same => exact nomatch same

/-- A text is a whole name if none of its components has characters that ask for more. -/
theorem splitName_eq {l : List Char} (plain : ∀ part ∈ Text.splitChars '/' l,
      (∀ c ∈ part, isForbidden c = false) ∧ hasForbiddenPair part = false) :
    Revision.splitName l = (l, []) := by
  induction l with
  | nil => rfl
  | cons c rest ih =>
      obtain ⟨alone, pair, others⟩ : (c == '^' || c == '~' || c == ':') = false ∧
          (∀ later, c = '@' → rest = '\x7b' :: later → False) ∧
          ∀ part ∈ Text.splitChars '/' rest,
            (∀ c ∈ part, isForbidden c = false) ∧ hasForbiddenPair part = false := by
        rw [Text.splitChars] at plain
        split at plain
        · next slash =>
          obtain ⟨-, others⟩ := List.forall_mem_cons.1 plain
          refine ⟨by rw [slash]; rfl, fun later same => ?_, others⟩
          exact absurd (slash.symm.trans same) (by decide)
        · next other =>
          cases parts : Text.splitChars '/' rest with
          | nil => exact absurd parts (Text.splitChars_ne_nil '/' rest)
          | cons part more =>
              rw [parts] at plain
              obtain ⟨⟨own, pairs⟩, others⟩ := List.forall_mem_cons.1 plain
              obtain ⟨first, own⟩ := List.forall_mem_cons.1 own
              refine ⟨?_, ?_, List.forall_mem_cons.2
                ⟨⟨own, hasForbiddenPair_of_cons pairs⟩, others⟩⟩
              · refine Bool.eq_false_iff.2 fun asks => ?_
                simp only [Bool.or_eq_true, beq_iff_eq] at asks
                rcases asks with (rfl | rfl) | rfl <;> exact absurd first (by decide)
              · rintro later rfl rfl
                have begins : ∃ tail, part = '\x7b' :: tail := by
                  rw [Text.splitChars, if_neg (by decide)] at parts
                  cases below : Text.splitChars '/' later with
                  | nil => exact absurd below (Text.splitChars_ne_nil '/' later)
                  | cons p ps =>
                      rw [below] at parts
                      exact ⟨p, (List.cons.inj parts).1.symm⟩
                obtain ⟨tail, rfl⟩ := begins
                exact Bool.noConfusion pairs
      rw [Revision.splitName, ih others]
      · simp only [alone]
        rfl
      · exact pair

theorem splitName_of_isValid {heading name : String} (valid : isValid (heading ++ "/" ++ name)) :
    Revision.splitName name.toList = (name.toList, []) ∧ name ≠ "" := by
  obtain ⟨l, found, -⟩ := Option.any_eq_true _ _ |>.1 valid
  obtain ⟨-, ends, plain⟩ := components?_eq_some found
  have parts : Text.splitChars '/' (heading ++ "/" ++ name).toList =
      Text.splitChars '/' heading.toList ++ Text.splitChars '/' name.toList := by
    have text : (heading ++ "/" ++ name).toList = heading.toList ++ '/' :: name.toList := by simp
    rw [text, Text.splitChars_append]
  rw [parts] at ends plain
  refine ⟨splitName_eq fun part h => ?_, ?_⟩
  · have component := plain part (List.mem_append_right _ h)
    simp only [isComponent, Bool.and_eq_true, Bool.not_eq_true', List.any_eq_false,
      Bool.not_eq_true] at component
    exact ⟨component.1.1.2, component.1.2⟩
  · rintro rfl
    exact ends (by simp [Text.splitChars])

end ApiDrift.Git.RefName
