import ApiDrift.Proofs.Api.Tree
/-! Annotations whose names do not repeat: what stands under a name, and what an insertion does
to the names. -/
namespace ApiDrift.Annotations

/-- No annotation name stands twice. -/
def Distinct (s : Annotations) : Prop := (s.toList.map Annotation.name).Nodup

instance (s : Annotations) : Decidable s.Distinct :=
  inferInstanceAs (Decidable (s.toList.map Annotation.name).Nodup)

theorem exists_of_value? {s : Annotations} {name v : String} (h : s.value? name = some v) :
    ∃ a ∈ s.toList, a.name = name ∧ a.value = v := by
  obtain ⟨a, found, value⟩ := Option.map_eq_some_iff.1 h
  exact ⟨a, List.mem_of_find?_eq_some found, by simpa using List.find?_some found, value⟩

theorem value?_of_mem {s : Annotations} {a : Annotation} (distinct : s.Distinct)
    (h : a ∈ s.toList) : s.value? a.name = some a.value := by
  have found : s.get? a.name = some a := (find?_key_eq_some_iff distinct).2 ⟨h, rfl⟩
  rw [value?, found, Option.map_some]

theorem isSome_value?_of_mem {s : Annotations} {a : Annotation} (h : a ∈ s.toList) :
    (s.value? a.name).isSome := by
  rw [value?, Option.isSome_map, get?, List.find?_isSome]
  exact ⟨a, h, beq_self_eq_true _⟩

theorem map_name_insertInto (a : Annotation) (l : List Annotation) :
    (insertInto a l).1.map Annotation.name =
      if a.name ∈ l.map Annotation.name then l.map Annotation.name
      else l.map Annotation.name ++ [a.name] := by
  induction l with
  | nil => simp [insertInto]
  | cons b rest ih =>
      unfold insertInto
      by_cases same : b.name = a.name
      · simp [same]
      · rw [if_neg same, List.map_cons, ih]
        by_cases known : a.name ∈ rest.map Annotation.name
        · have later : a.name ∈ (b :: rest).map Annotation.name := List.mem_cons_of_mem _ known
          rw [if_pos known, if_pos later, List.map_cons]
        · have fresh : a.name ∉ (b :: rest).map Annotation.name := by
            simpa only [List.map_cons, List.mem_cons, not_or] using ⟨Ne.symm same, known⟩
          rw [if_neg known, if_neg fresh, List.map_cons, List.cons_append]

/-- An inserted annotation is what its name stands for; other names keep what they stood for. -/
theorem get?_insert (s : Annotations) (a : Annotation) (name : String) :
    (s.insert a).1.get? name = if a.name = name then some a else s.get? name := by
  obtain ⟨l⟩ := s
  show ((insertInto a l).1.find? fun b => b.name == name) = _
  rw [get?]
  induction l with
  | nil =>
      by_cases own : a.name = name
      · simp [insertInto, own]
      · simp [insertInto, own]
  | cons b rest ih =>
      unfold insertInto
      by_cases same : b.name = a.name
      · by_cases own : a.name = name
        · simp [same, own]
        · simp [same, own]
      · rw [if_neg same, List.find?_cons, ih, List.find?_cons]
        by_cases own : a.name = name
        · rw [if_pos own, if_pos own, ← own, beq_false_of_ne same]
        · rw [if_neg own, if_neg own]

theorem distinct_empty : ({} : Annotations).Distinct := List.nodup_nil

theorem Distinct.insert {s : Annotations} (distinct : s.Distinct) (a : Annotation) :
    (s.insert a).1.Distinct := by
  show ((insertInto a s.toList).1.map Annotation.name).Nodup
  rw [map_name_insertInto]
  split
  · exact distinct
  · next fresh =>
    exact distinct.append (List.nodup_singleton _) (List.disjoint_singleton.2 fresh)

end ApiDrift.Annotations
