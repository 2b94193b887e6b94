import ApiDrift.Proofs.Snapshot.Checked
import ApiDrift.Snapshot.List
import Mathlib.Data.Int.ConditionallyCompleteOrder
import Mathlib.Data.Prod.Lex
import Mathlib.Data.String.Basic
import Mathlib.Order.ConditionallyCompleteLattice.Basic
import Mathlib.Order.WithBot
/-! Releases from the newest one on. They are in the order of pairs of a time, which may be unknown,
and a name, so that there is one way to list them, and whatever is listed begins with the greatest
of them. -/
namespace ApiDrift.Snapshot

theorem foldl_greatest {α β : Type} [LinearOrder β] {later : α → α → α} {key : α → β}
    (later_eq : ∀ a b, later a b = if key a < key b then b else a) (first : α) (l : List α) :
    l.foldl later first ∈ first :: l ∧ ∀ x ∈ first :: l, key x ≤ key (l.foldl later first) := by
  induction l generalizing first with
  | nil => exact ⟨List.mem_singleton_self first, List.forall_mem_singleton.2 le_rfl⟩
  | cons next rest ih =>
      obtain ⟨left, one, other⟩ : later first next ∈ [first, next] ∧
          key first ≤ key (later first next) ∧ key next ≤ key (later first next) := by
        rw [later_eq]
        split
        · next ahead => exact ⟨by simp, ahead.le, le_rfl⟩
        · next behind => exact ⟨by simp, le_rfl, not_lt.1 behind⟩
      obtain ⟨found, greatest⟩ := ih (later first next)
      obtain ⟨top, others⟩ := List.forall_mem_cons.1 greatest
      refine ⟨?_, List.forall_mem_cons.2 ⟨one.trans top,
        List.forall_mem_cons.2 ⟨other.trans top, others⟩⟩⟩
      rw [List.foldl_cons]
      rcases List.mem_cons.1 found with same | among
      · rw [same]
        exact List.mem_append_left rest left
      · exact List.mem_append_right [first, next] among

section Order
variable {s t : Option Int} {a b : DatedTag}

/-- Times in their order, where an unknown one comes before all others. -/
def moment : Option Int → WithBot Int
  | none => ⊥
  | some t => t

theorem moment_inj : moment s = moment t ↔ s = t := by
  cases s <;> cases t <;> simp [moment]

theorem earlier_iff : earlier s t = true ↔ moment s < moment t := by
  cases s <;> cases t <;> simp [earlier, moment]

namespace DatedTag

/-- A release by its time and then by its name. -/
def key (t : DatedTag) : WithBot Int ×ₗ String := toLex (moment t.date, t.tag)

theorem key_lt_iff : a.key < b.key ↔
    moment a.date < moment b.date ∨ a.date = b.date ∧ a.tag < b.tag := by
  rw [key, key, Prod.Lex.toLex_lt_toLex, moment_inj]

theorem key_lt_iff_of_dated {s t : Int} (date : a.date = some s) (date' : b.date = some t) :
    a.key < b.key ↔ s < t ∨ s = t ∧ a.tag < b.tag := by
  rw [key_lt_iff, date, date', moment, moment, WithBot.coe_lt_coe, Option.some_inj]

theorem precedes_iff : a.precedes b = true ↔ a.key < b.key := by
  simp [precedes, key_lt_iff, earlier_iff]

theorem key_injective : Function.Injective key := by
  intro a b same
  cases a
  cases b
  simpa [key, moment_inj] using same

end DatedTag

end Order

theorem insertNewest_perm (t : DatedTag) (l : List DatedTag) :
    (insertNewest t l).Perm (t :: l) := by
  induction l with
  | nil => exact .refl _
  | cons u rest ih =>
      rw [insertNewest]
      split
      · exact .refl _
      · exact (ih.cons u).trans (.swap t u rest)

theorem newestFirst_perm (l : List DatedTag) : (newestFirst l).Perm l := by
  induction l with
  | nil => exact .refl _
  | cons t rest ih => exact (insertNewest_perm t _).trans (ih.cons t)

theorem insertNewest_ordered {t : DatedTag} {l : List DatedTag}
    (ordered : l.Pairwise fun a b => b.key ≤ a.key) :
    (insertNewest t l).Pairwise fun a b => b.key ≤ a.key := by
  induction l with
  | nil => exact List.pairwise_singleton _ t
  | cons u rest ih =>
      obtain ⟨below, others⟩ := List.pairwise_cons.1 ordered
      rw [insertNewest]
      split
      · next newer =>
        have under := (DatedTag.precedes_iff.1 newer).le
        refine List.pairwise_cons.2 ⟨List.forall_mem_cons.2 ⟨under, fun v hv => ?_⟩, ordered⟩
        exact (below v hv).trans under
      · next older =>
        refine List.pairwise_cons.2 ⟨fun v hv => ?_, ih others⟩
        rcases List.mem_cons.1 ((insertNewest_perm t rest).mem_iff.1 hv) with rfl | hv
        · exact not_lt.1 (mt DatedTag.precedes_iff.2 older)
        · exact below v hv

theorem newestFirst_ordered (l : List DatedTag) :
    (newestFirst l).Pairwise fun a b => b.key ≤ a.key := by
  induction l with
  | nil => exact .nil
  | cons t rest ih => exact insertNewest_ordered ih

theorem newestFirst_eq_cons {l : List DatedTag} {first : DatedTag} {rest : List DatedTag}
    (h : newestFirst l = first :: rest) : first ∈ l ∧ ∀ t ∈ l, t.key ≤ first.key := by
  have perm : (first :: rest).Perm l := h ▸ newestFirst_perm l
  have ordered := newestFirst_ordered l
  rw [h] at ordered
  refine ⟨perm.mem_iff.1 List.mem_cons_self, fun t ht => ?_⟩
  rcases List.mem_cons.1 (perm.mem_iff.2 ht) with rfl | later
  · exact le_rfl
  · exact (List.pairwise_cons.1 ordered).1 t later

section Listed
variable {σ : Type} [Backend σ] {config : Config} {files : List String} {s : σ}

/-- What an entry is about. -/
def ListEntry.subject (e : ListEntry) : DatedTag × String := (⟨e.date, e.tag⟩, e.file)

theorem subject_listTag {names : List String} {t : DatedTag} {entries : List ListEntry}
    (run : listTag config names s t = .ok entries) :
    entries.map ListEntry.subject = names.map fun file => (t, file) := by
  rw [listTag] at run
  split at run
  · cases run
  · refine map_of_mapM_ok (fun file e made => ?_) run
    obtain ⟨note, -, made⟩ := except_bind_eq_ok.1 made
    obtain rfl := Except.ok.inj made
    rfl

/-- A list has an entry for each release and each file, release by release, the newest first. -/
theorem subject_list {entries : List ListEntry} (run : list config files s = .ok entries) :
    ∃ tags, (Backend.tags s).mapM (dateTag s) = .ok tags ∧
      entries.map ListEntry.subject =
        (newestFirst tags).flatMap fun t =>
          (checkedFiles config files s).map fun file => (t, file) := by
  obtain ⟨tags, dated, run⟩ := except_bind_eq_ok.1 run
  obtain ⟨parts, listed, run⟩ := except_bind_eq_ok.1 run
  obtain rfl := Except.ok.inj run
  refine ⟨tags, dated, ?_⟩
  rw [List.map_flatten, List.flatMap_def]
  exact congrArg _ (map_of_mapM_ok (fun t entries => subject_listTag) listed)

theorem newestFirst_of_list {e : ListEntry} {rest : List ListEntry}
    (run : list config files s = .ok (e :: rest)) :
    ∃ tags later, (Backend.tags s).mapM (dateTag s) = .ok tags ∧
      newestFirst tags = ⟨e.date, e.tag⟩ :: later := by
  obtain ⟨tags, dated, subjects⟩ := subject_list run
  generalize checkedFiles config files s = names at subjects
  cases newest : newestFirst tags with
  | nil =>
      rw [newest] at subjects
      exact nomatch subjects
  | cons t later =>
      cases names with
      | nil =>
          have nothing : (newestFirst tags).flatMap (fun t => ([] : List String).map fun file =>
              (t, file)) = [] := List.flatMap_eq_nil_iff.2 fun _ _ => rfl
          exact nomatch subjects.trans nothing
      | cons file names =>
          rw [newest, List.flatMap_cons] at subjects
          have first : e.subject = (t, file) := (List.cons.inj subjects).1
          obtain rfl := congrArg Prod.fst first
          exact ⟨tags, later, dated, newest⟩

end Listed

end ApiDrift.Snapshot
