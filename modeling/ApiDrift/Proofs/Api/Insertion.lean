import ApiDrift.Proofs.Api.Annotation
import Mathlib.Data.List.Dedup
import Mathlib.Data.List.Induction
/-! Annotations inserted one after the other. Their names come in the order of first insertion, the
last insertion under a name is the one that counts, and what an insertion gives back is what it
takes the place of. -/
namespace ApiDrift.Annotations

/-- What the insertions replace, one after the other. -/
def replacedEach (s : Annotations) : List Annotation → List (Option Annotation)
  | [] => []
  | a :: rest => (s.insert a).2 :: replacedEach (s.insert a).1 rest

/-- How an insertion changes a list, with what it gives back: it puts a new name at the end, and
takes the place of the annotation that it gives back. -/
inductive Inserted (a : Annotation) : List Annotation → List Annotation → Option Annotation → Prop
  | added {l : List Annotation} : (∀ b ∈ l, b.name ≠ a.name) → Inserted a l (l ++ [a]) none
  | replaced {b : Annotation} {front back : List Annotation} : b.name = a.name →
      (∀ c ∈ front, c.name ≠ a.name) → Inserted a (front ++ b :: back) (front ++ a :: back) (some b)

theorem inserted_insertInto (a : Annotation) (l : List Annotation) :
    Inserted a l (insertInto a l).1 (insertInto a l).2 := by
  induction l with
  | nil => exact .added (List.forall_mem_nil _)
  | cons b rest ih =>
      unfold insertInto
      by_cases same : b.name = a.name
      · rw [if_pos same]
        exact @Inserted.replaced a b [] rest same (List.forall_mem_nil _)
      · rw [if_neg same]
        generalize (insertInto a rest).1 = later, (insertInto a rest).2 = old at ih
        cases ih with
        | added fresh => exact .added (List.forall_mem_cons.2 ⟨same, fresh⟩)
        | @replaced c front back here before =>
            exact @Inserted.replaced a c (b :: front) back here
              (List.forall_mem_cons.2 ⟨same, before⟩)

section Sequence
variable {l : List Annotation} {a : Annotation} {name : String}

theorem ofList_concat (l : List Annotation) (a : Annotation) :
    ofList (l ++ [a]) = ((ofList l).insert a).1 := by
  rw [ofList, List.foldl_append, List.foldl_cons, List.foldl_nil, ofList]

theorem replacedEach_append (s : Annotations) (l more : List Annotation) :
    replacedEach s (l ++ more) =
      replacedEach s l ++ replacedEach (l.foldl (fun s a => (s.insert a).1) s) more := by
  induction l generalizing s with
  | nil => rfl
  | cons a rest ih => rw [List.cons_append, replacedEach, ih, replacedEach, List.foldl_cons,
      List.cons_append]

theorem replacedEach_concat (l : List Annotation) (a : Annotation) :
    replacedEach {} (l ++ [a]) = replacedEach {} l ++ [((ofList l).insert a).2] :=
  replacedEach_append {} l [a]

theorem length_replacedEach (s : Annotations) (l : List Annotation) :
    (replacedEach s l).length = l.length := by
  induction l generalizing s with
  | nil => rfl
  | cons a rest ih => rw [replacedEach, List.length_cons, ih, List.length_cons]

theorem names_concat (l : List Annotation) (a : Annotation) :
    (ofList (l ++ [a])).toList.map Annotation.name =
      if a.name ∈ (ofList l).toList.map Annotation.name then (ofList l).toList.map Annotation.name
      else (ofList l).toList.map Annotation.name ++ [a.name] := by
  rw [ofList_concat]
  exact map_name_insertInto a (ofList l).toList

theorem distinct_ofList (l : List Annotation) : (ofList l).Distinct := by
  induction l using List.reverseRecOn with
  | nil => exact distinct_empty
  | append_singleton l a ih =>
      rw [ofList_concat]
      exact ih.insert a

theorem mem_names_ofList :
    name ∈ (ofList l).toList.map Annotation.name ↔ name ∈ l.map Annotation.name := by
  induction l using List.reverseRecOn with
  | nil => rfl
  | append_singleton l a ih =>
      rw [names_concat, List.map_append, List.map_singleton, List.mem_append, List.mem_singleton]
      split
      · next known =>
        rw [ih, iff_self_or]
        rintro rfl
        exact ih.1 known
      · rw [List.mem_append, ih, List.mem_singleton]

theorem names_ofList_ordered (l : List Annotation) :
    ((ofList l).toList.map Annotation.name).Pairwise fun m n =>
      (l.map Annotation.name).idxOf m < (l.map Annotation.name).idxOf n := by
  induction l using List.reverseRecOn with
  | nil => exact .nil
  | append_singleton l a ih =>
      have before : ((ofList l).toList.map Annotation.name).Pairwise fun m n =>
          (l.map Annotation.name ++ [a.name]).idxOf m <
            (l.map Annotation.name ++ [a.name]).idxOf n := by
        refine ih.imp_of_mem fun {m n} hm hn earlier => ?_
        rwa [List.idxOf_append_of_mem (mem_names_ofList.1 hm),
          List.idxOf_append_of_mem (mem_names_ofList.1 hn)]
      rw [names_concat, List.map_append, List.map_singleton]
      split
      · exact before
      · next fresh =>
        refine List.pairwise_append.2 ⟨before, List.pairwise_singleton _ _, ?_⟩
        intro m hm n hn
        obtain rfl := List.mem_singleton.1 hn
        rw [mem_names_ofList] at hm fresh
        rw [List.idxOf_append_of_mem hm, List.idxOf_append_of_notMem fresh]
        exact Nat.lt_add_right _ (List.idxOf_lt_length_of_mem hm)

theorem get?_ofList (l : List Annotation) (name : String) :
    (ofList l).get? name = l.reverse.find? fun a => a.name == name := by
  induction l using List.reverseRecOn with
  | nil => rfl
  | append_singleton l a ih =>
      rw [ofList_concat, get?_insert, ih, List.reverse_append, List.reverse_singleton,
        List.singleton_append, List.find?_cons]
      by_cases own : a.name = name
      · rw [if_pos own, beq_iff_eq.2 own]
      · rw [if_neg own, beq_false_of_ne own]

theorem get?_ofList_eq_some_iff : (ofList l).get? name = some a ↔
    ∃ before after, l = before ++ a :: after ∧ a.name = name ∧ ∀ b ∈ after, b.name ≠ name := by
  rw [get?_ofList, List.find?_eq_some_iff_append]
  simp only [beq_iff_eq, Bool.not_eq_true', beq_eq_false_iff_ne, ne_eq]
  constructor
  · rintro ⟨own, later, earlier, split, others⟩
    refine ⟨earlier.reverse, later.reverse, ?_, own, fun b hb => others b (List.mem_reverse.1 hb)⟩
    rw [← List.reverse_reverse l, split]
    simp
  · rintro ⟨before, after, rfl, own, others⟩
    refine ⟨own, after.reverse, before.reverse, by simp, ?_⟩
    exact fun b hb => others b (List.mem_reverse.1 hb)

theorem get?_ofList_eq_none_iff :
    (ofList l).get? name = none ↔ ∀ a ∈ l, a.name ≠ name := by
  rw [get?_ofList, List.find?_eq_none]
  simp

theorem countP_replacedEach (l : List Annotation) :
    (replacedEach {} l).countP Option.isSome + (ofList l).toList.length = l.length := by
  induction l using List.reverseRecOn with
  | nil => rfl
  | append_singleton l a ih =>
      have change : Inserted a (ofList l).toList ((ofList l).insert a).1.toList
        ((ofList l).insert a).2 := inserted_insertInto a (ofList l).toList
      rw [replacedEach_concat, ofList_concat, List.countP_append, List.length_append,
        List.length_singleton]
      generalize (ofList l).toList = before, ((ofList l).insert a).1.toList = after,
        ((ofList l).insert a).2 = old at ih change
      cases change with
      | added _ =>
          simp only [List.countP_singleton, Option.isSome_none, Bool.false_eq_true, if_false,
            List.length_append, List.length_singleton]
          omega
      | replaced _ _ =>
          simp only [List.countP_singleton, Option.isSome_some, if_true, List.length_append,
            List.length_cons] at ih ⊢
          omega

theorem length_ofList (l : List Annotation) :
    (ofList l).toList.length = (l.map Annotation.name).dedup.length := by
  have same : ((ofList l).toList.map Annotation.name).Perm (l.map Annotation.name).dedup := by
    rw [List.perm_ext_iff_of_nodup (distinct_ofList l) (List.nodup_dedup _)]
    intro name
    rw [mem_names_ofList, List.mem_dedup]
  rw [← same.length_eq, List.length_map]

/-- What the insertion at one place of a sequence does, and that it is recorded at that place. -/
theorem inserted_at (before : List Annotation) (a : Annotation) (after : List Annotation) :
    ∃ old, (replacedEach {} (before ++ a :: after))[before.length]? = some old ∧
      Inserted a (ofList before).toList (ofList (before ++ [a])).toList old := by
  refine ⟨((ofList before).insert a).2, ?_, ?_⟩
  · rw [replacedEach_append, List.getElem?_append_right (Nat.le_of_eq (length_replacedEach _ _)),
      length_replacedEach, Nat.sub_self]
    rfl
  · rw [ofList_concat]
    exact inserted_insertInto a (ofList before).toList

/-- Annotations inserted one after the other keep their names apart and in the order of first
insertion. A name stands for the annotation inserted last under it. Every insertion puts a new name
at the end, or puts its annotation in the place of the one that it gives back; so as many give
something back as there are insertions beyond the first under a name. -/
theorem insertions_ordered_last_wins (l : List Annotation) :
    (ofList l).Distinct ∧
    (∀ name, name ∈ (ofList l).toList.map Annotation.name ↔ name ∈ l.map Annotation.name) ∧
    ((ofList l).toList.map Annotation.name).Pairwise (fun m n =>
      (l.map Annotation.name).idxOf m < (l.map Annotation.name).idxOf n) ∧
    (∀ name a, (ofList l).get? name = some a ↔ ∃ before after, l = before ++ a :: after ∧
      a.name = name ∧ ∀ b ∈ after, b.name ≠ name) ∧
    (∀ name, (ofList l).get? name = none ↔ ∀ a ∈ l, a.name ≠ name) ∧
    (∀ before a after, l = before ++ a :: after → ∃ old,
      (replacedEach {} l)[before.length]? = some old ∧
        Inserted a (ofList before).toList (ofList (before ++ [a])).toList old) ∧
    (replacedEach {} l).countP Option.isSome + (l.map Annotation.name).dedup.length = l.length := by
  refine ⟨distinct_ofList l, fun _ => mem_names_ofList, names_ofList_ordered l,
    fun _ _ => get?_ofList_eq_some_iff, fun _ => get?_ofList_eq_none_iff, ?_, ?_⟩
  · rintro before a after rfl
    exact inserted_at before a after
  · rw [← length_ofList]
    exact countP_replacedEach l

/-- A value given again takes the place of the first one, ahead of what came between. -/
example : ofList [⟨"A", "1", ⟨1, 1⟩⟩, ⟨"B", "2", ⟨2, 1⟩⟩, ⟨"A", "3", ⟨3, 1⟩⟩] =
    ⟨[⟨"A", "3", ⟨3, 1⟩⟩, ⟨"B", "2", ⟨2, 1⟩⟩]⟩ := by decide

end Sequence

end ApiDrift.Annotations
