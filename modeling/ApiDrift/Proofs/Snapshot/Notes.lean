import ApiDrift.Proofs.Table
import ApiDrift.Proofs.Text.Affix
import ApiDrift.Snapshot.Memory
/-! Notes in memory by what is found under a ref about an object: what adding, merging and listing
do to it. -/
namespace ApiDrift.Snapshot.Notes

theorem get?_under (n : Notes) (r target : String) :
    (n.under r).get? target = n.find? r target := by
  unfold under find?
  cases n.get? r with
  | none => rfl
  | some t => rfl

theorem find?_add (n : Notes) (r target content r' target' : String) :
    (n.add r target content).find? r' target' =
      if r' = r ∧ target' = target then some content else n.find? r' target' := by
  unfold find? add
  rw [Table.get?_insert]
  by_cases ref : r' = r
  · rw [if_pos ref, Option.bind_some, Table.get?_insert, get?_under, ref]
    by_cases object : target' = target
    · rw [if_pos object, if_pos ⟨rfl, object⟩]
    · rw [if_neg object, if_neg fun h => object h.2]
      rfl
  · rw [if_neg ref, if_neg fun h => ref h.1]

theorem find?_add_eq_some_iff {n : Notes} {r target : String} (fresh : n.find? r target = none)
    {content r' target' s : String} : (n.add r target content).find? r' target' = some s ↔
      n.find? r' target' = some s ∨ r = r' ∧ target = target' ∧ content = s := by
  rw [find?_add]
  split
  · next here =>
    rw [here.1, here.2, fresh, or_iff_right (Option.some_ne_none s).symm]
    simp only [Option.some_inj, true_and]
  · next elsewhere =>
    rw [or_iff_left fun h => elsewhere ⟨h.1.symm, h.2.1.symm⟩]

theorem find?_addMissing (n : Notes) (r target content r' target' : String) :
    (n.addMissing r target content).find? r' target' =
      (n.find? r' target').or (if r' = r ∧ target' = target then some content else none) := by
  unfold addMissing Table.contains
  rw [get?_under]
  by_cases here : r' = r ∧ target' = target
  · rw [if_pos here, here.1, here.2]
    cases known : n.find? r target with
    | some s => exact known
    | none => exact (find?_add ..).trans (if_pos ⟨rfl, rfl⟩)
  · rw [if_neg here, Option.or_none]
    split
    · rfl
    · rw [find?_add, if_neg here]

theorem find?_mergeRef (theirs : Table String) (n : Notes) (r r' target : String) :
    (mergeRef theirs n r).find? r' target =
      (n.find? r' target).or (if r' = r then theirs.get? target else none) := by
  unfold mergeRef Table.get?
  induction theirs.entries generalizing n with
  | nil => rw [List.foldl_nil, List.lookup_nil, ite_self, Option.or_none]
  | cons e rest ih =>
      rw [List.foldl_cons, ih, find?_addMissing, Option.or_assoc, Table.lookup_entry]
      by_cases ref : r' = r
      · by_cases object : target = e.1
        · rw [if_pos ⟨ref, object⟩, if_pos ref, if_pos ref, if_pos object, Option.some_or]
        · rw [if_neg fun h => object h.2, if_pos ref, if_pos ref, if_neg object, Option.none_or]
      · rw [if_neg fun h => ref h.1, if_neg ref, if_neg ref, Option.or_none]

theorem find?_mergeRefs (source n : Notes) (refs : List String) (r target : String) :
    (Memory.mergeRefs source n refs).find? r target =
      (n.find? r target).or (if r ∈ refs then source.find? r target else none) := by
  unfold Memory.mergeRefs
  induction refs generalizing n with
  | nil => rw [List.foldl_nil, if_neg List.not_mem_nil, Option.or_none]
  | cons ref rest ih =>
      rw [List.foldl_cons, ih, find?_mergeRef, Option.or_assoc, get?_under]
      by_cases first : r = ref
      · subst first
        rw [if_pos rfl, if_pos List.mem_cons_self]
        split
        · rw [Option.or_self]
        · rw [Option.or_none]
      · have later : r ∈ ref :: rest ↔ r ∈ rest := by rw [List.mem_cons, or_iff_right first]
        simp only [if_neg first, Option.none_or, later]

theorem find?_of_find?_mergeRefs {source n : Notes} {refs : List String} {r target s : String}
    (h : (Memory.mergeRefs source n refs).find? r target = some s) :
    n.find? r target = some s ∨ source.find? r target = some s := by
  rw [find?_mergeRefs, Option.or_eq_some_iff] at h
  refine h.imp_right fun ⟨_, merged⟩ => ?_
  split at merged
  · exact merged
  · exact nomatch merged

theorem mem_refs_iff {n : Notes} {area r : String} :
    r ∈ n.refs area ↔ (Text.after? (heading area) r).isSome ∧
      ∃ target s, n.find? r target = some s := by
  simp only [refs, List.mem_map, List.mem_filter, Bool.and_eq_true, Bool.not_eq_true']
  constructor
  · rintro ⟨⟨ref, table⟩, ⟨known, inside, filled⟩, rfl⟩
    obtain ⟨⟨target, s⟩, first⟩ := List.exists_mem_of_ne_nil _ (List.isEmpty_eq_false_iff.1 filled)
    refine ⟨inside, target, s, ?_⟩
    rw [find?, Table.mem_entries_iff.1 known]
    exact Table.mem_entries_iff.1 first
  · rintro ⟨inside, target, s, found⟩
    obtain ⟨table, known, first⟩ := Option.bind_eq_some_iff.1 found
    refine ⟨(r, table), ⟨Table.mem_entries_iff.2 known, inside, ?_⟩, rfl⟩
    exact List.isEmpty_eq_false_iff.2 (List.ne_nil_of_mem (Table.mem_entries_iff.2 first))

theorem refs_nodup (n : Notes) (area : String) : (n.refs area).Nodup :=
  n.names_nodup.sublist (List.filter_sublist.map _)

/-- The files of which an area holds notes, in ascending order of the refs. -/
def files (n : Notes) (area : String) : List String :=
  (n.refs area).filterMap (Text.after? (heading area))

theorem mem_files_iff {n : Notes} {area file : String} :
    file ∈ n.files area ↔ ∃ target s, n.find? (heading area ++ file) target = some s := by
  simp only [files, List.mem_filterMap, mem_refs_iff, Text.after?_eq_some_iff]
  constructor
  · rintro ⟨r, ⟨-, found⟩, rfl⟩
    exact found
  · intro found
    refine ⟨_, ⟨?_, found⟩, rfl⟩
    rw [Text.after?_append]
    rfl

theorem files_nodup (n : Notes) (area : String) : (n.files area).Nodup := by
  refine (n.refs_nodup area).filterMap fun r r' file h h' => ?_
  rw [Text.after?_eq_some_iff.1 h, Text.after?_eq_some_iff.1 h']

theorem refs_sorted (n : Notes) (area : String) : (n.refs area).Pairwise (· < ·) :=
  List.pairwise_map.2 (n.sorted.filter _)

theorem map_heading_files (n : Notes) (area : String) :
    (n.files area).map (heading area ++ ·) = n.refs area := by
  rw [files, List.map_filterMap]
  refine (List.filterMap_congr fun r hr => ?_).trans List.filterMap_some
  obtain ⟨file, stripped⟩ := Option.isSome_iff_exists.1 (mem_refs_iff.1 hr).1
  rw [stripped, Text.after?_eq_some_iff.1 stripped]
  rfl

end ApiDrift.Snapshot.Notes
