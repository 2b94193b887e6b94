import ApiDrift.Proofs.Api.Tree
import ApiDrift.Proofs.Text.Split
import ApiDrift.Snapshot.Tracked
/-! The tracked path that a name refers to. Where last components tell paths apart, the base name
alone decides. -/
namespace ApiDrift.Snapshot

theorem selectTracked_eq (name base : String) (paths : List String) :
    ∀ found : Option String, selectTracked name base found paths =
      if name ∈ paths then some name else found.or (paths.find? (endsIn base)) := by
  induction paths with
  | nil => exact fun found => (Option.or_none).symm
  | cons path rest ih =>
      intro found
      rw [selectTracked]
      by_cases same : path = name
      · rw [if_pos same, if_pos (same ▸ List.mem_cons_self), same]
      · have later : name ∈ path :: rest ↔ name ∈ rest := by
          rw [List.mem_cons, or_iff_right (Ne.symm same)]
        rw [if_neg same, ih, Option.or_assoc, List.find?_cons]
        simp only [later]
        cases endsIn base path <;> rfl

theorem matchTracked_eq (paths : List String) (name : String) :
    matchTracked paths name = if name ∈ paths then some name
      else paths.find? fun path => Text.lastComponent path == Text.basename name := by
  have ends : endsIn (Text.basename name) =
      fun path => Text.lastComponent path == Text.basename name := by
    funext path
    have plain : '/' ∉ (Text.basename name).toList := fun slash =>
      (Text.not_slash_of_mem_basename slash).1 rfl
    rw [Bool.eq_iff_iff, beq_iff_eq, Text.lastComponent_eq_iff plain, endsIn, Bool.or_eq_true,
      beq_iff_eq, List.isSuffixOf_iff_suffix]
  rw [matchTracked, selectTracked_eq, Option.none_or, ends]

/-- A name refers to itself among the tracked paths, or else to the first path whose last part
between slashes is its base name, and to nothing only if there is no such path either. -/
theorem matchTracked_first (paths : List String) (name : String) :
    (name ∈ paths → matchTracked paths name = some name) ∧
    (name ∉ paths →
      (∀ path, matchTracked paths name = some path ↔
        ∃ before after, paths = before ++ path :: after ∧
          (Text.split '/' path).getLast? = some (Text.basename name) ∧
          ∀ other ∈ before, (Text.split '/' other).getLast? ≠ some (Text.basename name)) ∧
      (matchTracked paths name = none ↔
        ∀ path ∈ paths, (Text.split '/' path).getLast? ≠ some (Text.basename name))) := by
  simp only [matchTracked_eq, Text.getLast?_split, Option.some_inj, ne_eq]
  refine ⟨fun tracked => if_pos tracked, fun untracked => ?_⟩
  rw [if_neg untracked]
  constructor
  · intro path
    rw [List.find?_eq_some_iff_append]
    simp only [beq_iff_eq, Bool.not_eq_true', beq_eq_false_iff_ne, ne_eq]
    constructor
    · rintro ⟨last, before, after, split, earlier⟩
      exact ⟨before, after, split, last, earlier⟩
    · rintro ⟨before, after, split, last, earlier⟩
      exact ⟨last, before, after, split, earlier⟩
  · rw [List.find?_eq_none]
    simp only [beq_iff_eq]

/-- A longer last part does not match, and backslashes end directories in the name only. -/
example : (["api.xml", "x\\api.xml"].map fun name =>
    matchTracked ["README", "dbus-api.xml", "a/x\\api.xml", "src/api.xml", "api.xml"] name) =
      [some "api.xml", some "src/api.xml"] := by
  decide

section Apart
variable {paths : List String} (plain : ∀ path ∈ paths, '\\' ∉ path.toList)
  (apart : (paths.map Text.lastComponent).Nodup)
include plain apart

theorem matchTracked_eq_find? (name : String) : matchTracked paths name =
    paths.find? fun path => Text.lastComponent path == Text.basename name := by
  rw [matchTracked_eq]
  split
  · next tracked =>
    rw [Text.basename_eq_lastComponent (plain name tracked)]
    exact ((find?_key_eq_some_iff apart).2 ⟨tracked, rfl⟩).symm
  · rfl

theorem matchTracked_basename (name : String) :
    matchTracked paths (Text.basename name) = matchTracked paths name := by
  rw [matchTracked_eq_find? plain apart, matchTracked_eq_find? plain apart, Text.basename_basename]

end Apart

end ApiDrift.Snapshot
