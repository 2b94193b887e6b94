import ApiDrift.Table
import Mathlib.Data.List.Nodup
/-! Tables by what is found under a name: their entries and names say no more and no less. -/
namespace ApiDrift.Table
variable {α : Type} {t : Table α} {name : String}

theorem names_nodup (t : Table α) : t.names.Nodup := by
  refine List.Pairwise.map _ (fun a b before => ?_) t.sorted
  exact fun same => String.lt_irrefl _ (same ▸ before)

theorem mem_entries_iff {value : α} : (name, value) ∈ t.entries ↔ t.get? name = some value := by
  have distinct : (t.entries.map Prod.fst).Nodup := t.names_nodup
  unfold get?
  revert distinct
  induction t.entries with
  | nil => exact fun _ => ⟨fun h => absurd h List.not_mem_nil, fun h => nomatch h⟩
  | cons e rest ih =>
      intro distinct
      rw [List.map_cons, List.nodup_cons] at distinct
      have later : (name, value) ∈ rest ↔ rest.lookup name = some value := ih distinct.2
      rw [lookup_entry, List.mem_cons, later]
      by_cases same : name = e.1
      · have absent : rest.lookup name ≠ some value := fun found =>
          distinct.1 (same ▸ List.mem_map_of_mem (later.2 found))
        rw [if_pos same, or_iff_left absent, Option.some_inj]
        exact ⟨fun h => congrArg Prod.snd h.symm, fun h => Prod.ext same h.symm⟩
      · rw [if_neg same, or_iff_right fun h => same (congrArg Prod.fst h)]

theorem mem_names_iff : name ∈ t.names ↔ (t.get? name).isSome := by
  rw [names, List.mem_map, Option.isSome_iff_exists]
  constructor
  · rintro ⟨⟨n, value⟩, found, rfl⟩
    exact ⟨value, mem_entries_iff.1 found⟩
  · rintro ⟨value, found⟩
    exact ⟨(name, value), mem_entries_iff.2 found, rfl⟩

theorem eq_of_get?_eq {t u : Table α} (same : ∀ name, t.get? name = u.get? name) : t = u := by
  have entries : t.entries = u.entries := by
    refine List.Perm.eq_of_pairwise (fun a b _ _ before after => ?_) t.sorted u.sorted ?_
    · exact absurd (String.lt_trans before after) (String.lt_irrefl a.1)
    · refine (List.perm_ext_iff_of_nodup t.names_nodup.of_map u.names_nodup.of_map).2 fun e => ?_
      rw [mem_entries_iff, mem_entries_iff, same]
  cases t
  cases u
  cases entries
  rfl

end ApiDrift.Table

namespace ApiDrift.NameSet
variable {s t : NameSet} {name : String}

theorem eq_of_mem_names_iff (same : ∀ name, name ∈ s.names ↔ name ∈ t.names) : s = t := by
  refine Table.eq_of_get?_eq fun name => ?_
  have known := same name
  rw [Table.mem_names_iff, Table.mem_names_iff] at known
  cases found : s.get? name with
  | none =>
      rw [found] at known
      exact (Option.not_isSome_iff_eq_none.1 (mt known.2 Bool.false_ne_true)).symm
  | some value =>
      rw [found] at known
      obtain ⟨value', found'⟩ := Option.isSome_iff_exists.1 (known.1 rfl)
      exact found'.symm

theorem mem_names_add {other : String} :
    other ∈ (s.add name).names ↔ other ∈ s.names ∨ other = name := by
  rw [Table.mem_names_iff, Table.mem_names_iff, add, Table.get?_insert]
  split
  · next same => exact iff_of_true rfl (.inr same)
  · next differ => exact (or_iff_left differ).symm

theorem mem_names_foldl_add {l : List String} :
    name ∈ (l.foldl add s).names ↔ name ∈ s.names ∨ name ∈ l := by
  induction l generalizing s with
  | nil => exact (or_iff_left List.not_mem_nil).symm
  | cons first rest ih => rw [List.foldl_cons, ih, mem_names_add, List.mem_cons, or_assoc]

theorem mem_names_union : name ∈ (s.union t).names ↔ name ∈ s.names ∨ name ∈ t.names :=
  mem_names_foldl_add

theorem mem_names_ofNames {l : List String} : name ∈ (ofNames l).names ↔ name ∈ l :=
  mem_names_foldl_add.trans (or_iff_right List.not_mem_nil)

theorem union_assoc (s t u : NameSet) : (s.union t).union u = s.union (t.union u) := by
  refine eq_of_mem_names_iff fun name => ?_
  rw [mem_names_union, mem_names_union, mem_names_union, mem_names_union, or_assoc]

theorem empty_union (t : NameSet) : union .empty t = t :=
  eq_of_mem_names_iff fun _ => mem_names_union.trans (or_iff_right List.not_mem_nil)

end ApiDrift.NameSet
