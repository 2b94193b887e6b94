import ApiDrift.Proofs.Change.Code
import ApiDrift.Proofs.Introspection.Members
/-! The spelling of codes. A text is read as a code just if it is the text of a listed one, so what
a list of warnings may name is spelled as changes spell it. -/
namespace ApiDrift

theorem Category.text_of_ofText? {s : String} {k : Category} (h : ofText? s = some k) :
    k.text = s := by
  simpa using List.find?_some h

namespace ChangeCode

theorem isTransition_of_mem_simple {c : ChangeCode} (h : c ∈ simple) : c.IsTransition := by
  cases c with
  | argumentDirection old new => simp [simple] at h
  | propertyAccess old new => simp [simple] at h
  | emitsChanged old new => simp [simple] at h
  | _ => trivial

theorem isTransition_of_ofText? {s : String} {c : ChangeCode} (h : ofText? s = some c) :
    c.IsTransition := by
  obtain ⟨listed, -⟩ | ⟨rest, -, h⟩ | ⟨rest, -, h⟩ | ⟨rest, -, h⟩ := ofText?_cases h
  · exact isTransition_of_mem_simple listed
  · obtain ⟨_, _, old, new, -, -, -, differ, rfl⟩ := exists_of_transition? h
    exact differ
  · obtain ⟨_, _, old, new, -, -, -, differ, rfl⟩ := exists_of_transition? h
    exact differ
  · obtain ⟨_, _, old, new, -, -, -, differ, rfl⟩ := exists_of_transition? h
    exact differ

theorem mem_all_of_ofText? {s : String} {c : ChangeCode} (h : ofText? s = some c) : c ∈ all :=
  mem_all_of_known (isTransition_of_ofText? h) (known_of_ofText? h)

/-- A transition between values that are read from their own texts is spelled as it was written. -/
theorem text_of_transition? {α : Type} [DecidableEq α] {read : String → Option α}
    {make : α → α → ChangeCode} {word : α → String} {heading s : String} {rest : List Char}
    {c : ChangeCode} (own : ∀ x v, read x = some v → word v = x)
    (spelled : ∀ old new, (make old new).text = heading ++ word old ++ "-" ++ word new)
    (headed : s.toList = heading.toList ++ rest) (h : transition? read make rest = some c) :
    c.text = s := by
  obtain ⟨x, y, old, new, cut, readOld, readNew, -, rfl⟩ := exists_of_transition? h
  apply String.ext
  rw [spelled, own x old readOld, own y new readNew, headed, cut]
  simp only [String.toList_append, List.append_assoc]
  rfl

theorem text_of_ofText? {s : String} {c : ChangeCode} (h : ofText? s = some c) : c.text = s := by
  obtain ⟨-, same⟩ | ⟨rest, headed, h⟩ | ⟨rest, headed, h⟩ | ⟨rest, headed, h⟩ := ofText?_cases h
  · exact same
  · exact text_of_transition? (fun _ _ read =>
      (Introspection.direction_ofText?_eq_some_iff.1 read).symm) (fun _ _ => rfl) headed h
  · exact text_of_transition? (fun _ _ read =>
      (Introspection.access_ofText?_eq_some_iff.1 read).symm) (fun _ _ => rfl) headed h
  · refine text_of_transition? (fun x v read => (?_ : id v = x)) (fun _ _ => rfl) headed h
    obtain ⟨-, same⟩ := Option.ite_none_right_eq_some.1 read
    exact (Option.some_inj.1 same).symm

theorem ofText?_eq_some_iff {s : String} {c : ChangeCode} :
    ofText? s = some c ↔ c ∈ all ∧ c.text = s := by
  constructor
  · intro read
    exact ⟨mem_all_of_ofText? read, text_of_ofText? read⟩
  · rintro ⟨listed, rfl⟩
    exact ofText?_text_of_mem_all c listed

theorem all_nodup : all.Nodup := by decide +kernel

theorem map_text_nodup : (all.map text).Nodup := by
  refine all_nodup.map_on fun c hc d hd same => ?_
  have read := ofText?_text_of_mem_all c hc
  rw [same, ofText?_text_of_mem_all d hd] at read
  exact (Option.some_inj.1 read).symm

end ChangeCode

end ApiDrift
