import ApiDrift.Proofs.Api.Layout
import ApiDrift.Proofs.Introspection.Placed
import ApiDrift.Proofs.Xml.Order
/-! Where the elements of a document stand. Each begins after the one around it, and siblings lie
wholly before or after each other, so an element is known by where it begins. -/
namespace ApiDrift.Introspection

open Xml (beginsAmong)

section Elements
variable {before l : List Xml.Node} {p q r : Placed}

/-- Where an element and the elements in it begin. -/
def Placed.places (p : Placed) : List Location := p.head.location :: beginsAmong p.children

theorem beginsAmong_eq_placedAfter (before l : List Xml.Node) :
    beginsAmong l = (placedAfter before l).flatMap Placed.places := by
  induction l generalizing before with
  | nil => rfl
  | cons n rest ih =>
      rw [beginsAmong, ih (before ++ [n])]
      cases n with
      | element head children => rfl
      | text s => rfl
      | comment s location => rfl
      | instruction => rfl

theorem heads_sublist (before l : List Xml.Node) :
    ((placedAfter before l).map fun q => q.head.location).Sublist (beginsAmong l) := by
  rw [beginsAmong_eq_placedAfter before]
  induction placedAfter before l with
  | nil => exact .slnil
  | cons q rest ih =>
      refine .cons_cons _ (ih.trans ?_)
      exact List.sublist_append_right (beginsAmong q.children) _

mutual

theorem sublist_of_mem_placedAt {before : List Xml.Node} {n : Xml.Node}
    (h : p ∈ placedAt before n) : p.places.Sublist n.begins := by
  cases n with
  | element head children =>
      rcases List.mem_cons.1 h with rfl | below
      · exact .refl _
      · exact (sublist_of_mem_placedAmong below).trans (List.sublist_cons_self ..)
  | text s => exact absurd h List.not_mem_nil
  | comment s location => exact absurd h List.not_mem_nil
  | instruction => exact absurd h List.not_mem_nil

theorem sublist_of_mem_placedAmong {before l : List Xml.Node} (h : p ∈ placedAmong before l) :
    p.places.Sublist (beginsAmong l) := by
  cases l with
  | nil => exact absurd h List.not_mem_nil
  | cons n rest =>
      rcases List.mem_append.1 h with own | later
      · exact (sublist_of_mem_placedAt own).trans (List.sublist_append_left ..)
      · exact (sublist_of_mem_placedAmong later).trans (List.sublist_append_right ..)

end

namespace Placed

theorem mem_places_iff {p : Placed} {l : Location} :
    l ∈ p.places ↔ l = p.head.location ∨ ∃ q ∈ placedAfter [] p.children, l ∈ q.places := by
  rw [places, beginsAmong_eq_placedAfter [], List.mem_cons, List.mem_flatMap]

/-- The elements of a stretch of text begin one after the other. -/
def Ascending (p : Placed) : Prop := p.places.Pairwise (· < ·)

theorem ascending_iff {p : Placed} :
    p.Ascending ↔ (∀ q ∈ placedAfter [] p.children, ∀ l ∈ q.places, p.head.location < l) ∧
      (∀ q ∈ placedAfter [] p.children, q.Ascending) ∧
      (placedAfter [] p.children).Pairwise fun q r => Before q.places r.places := by
  rw [Ascending, places, beginsAmong_eq_placedAfter [], List.pairwise_cons, List.pairwise_flatMap,
    List.forall_mem_flatMap]
  rfl

theorem Ascending.inside (h : p.Ascending) : (beginsAmong p.children).Pairwise (· < ·) :=
  (List.pairwise_cons.1 h).2

theorem Ascending.lt (h : p.Ascending) {a : Location} (ha : a ∈ beginsAmong p.children) :
    p.head.location < a := (List.pairwise_cons.1 h).1 a ha

theorem Ascending.le (h : p.Ascending) {a : Location} (ha : a ∈ p.places) :
    p.head.location ≤ a := by
  rcases List.mem_cons.1 ha with rfl | inside
  · exact le_rfl
  · exact (h.lt inside).le

end Placed

theorem mem_placedAmong_iff : q ∈ placedAmong before l ↔
    ∃ p ∈ placedAfter before l, q = p ∨ q ∈ placedAmong [] p.children := by
  induction l generalizing before with
  | nil => exact iff_of_false List.not_mem_nil fun ⟨_, h, _⟩ => absurd h List.not_mem_nil
  | cons n rest ih =>
      rw [placedAmong, List.mem_append, ih]
      cases n with
      | element head children =>
          simp only [placedAt, placedAfter, List.mem_cons, exists_eq_or_imp]
      | text s => simp only [placedAt, placedAfter, List.not_mem_nil, false_or]
      | comment s location => simp only [placedAt, placedAfter, List.not_mem_nil, false_or]
      | instruction => simp only [placedAt, placedAfter, List.not_mem_nil, false_or]

theorem placedAfter_subset : placedAfter before l ⊆ placedAmong before l :=
  fun q h => mem_placedAmong_iff.2 ⟨q, h, .inl rfl⟩

theorem placedAmong_subset (h : p ∈ placedAmong [] l) :
    placedAmong [] p.children ⊆ placedAmong [] l := by
  induction l using below_induction with
  | step l ih =>
      intro q hq
      obtain ⟨e, he, rfl | below⟩ := mem_placedAmong_iff.1 h
      · exact mem_placedAmong_iff.2 ⟨p, he, .inr hq⟩
      · have inner := ih e.head e.children (mem_of_mem_placedAfter he) below hq
        exact mem_placedAmong_iff.2 ⟨e, he, .inr inner⟩

mutual

theorem map_location_placedAt (before : List Xml.Node) (n : Xml.Node) :
    (placedAt before n).map (fun q => q.head.location) = n.begins := by
  cases n with
  | element head children =>
      exact congrArg (head.location :: ·) (map_location_placedAmong [] children)
  | text s => rfl
  | comment s location => rfl
  | instruction => rfl

theorem map_location_placedAmong (before l : List Xml.Node) :
    (placedAmong before l).map (fun q => q.head.location) = beginsAmong l := by
  cases l with
  | nil => rfl
  | cons n rest =>
      rw [placedAmong, List.map_append, map_location_placedAt before n,
        map_location_placedAmong (before ++ [n]) rest, beginsAmong]

end

theorem location_mem_begins (h : q ∈ placedAmong before l) : q.head.location ∈ beginsAmong l := by
  rw [← map_location_placedAmong before]
  exact List.mem_map_of_mem h

theorem places_subset_begins (h : q ∈ placedAmong before l) : q.places ⊆ beginsAmong l :=
  (sublist_of_mem_placedAmong h).subset

section Ascending
variable (ascends : (beginsAmong l).Pairwise (· < ·))
include ascends

theorem ascending_of_mem (h : p ∈ placedAmong [] l) : p.Ascending :=
  ascends.sublist (sublist_of_mem_placedAmong h)

theorem eq_of_location_eq (hq : q ∈ placedAmong [] l) (hr : r ∈ placedAmong [] l)
    (same : q.head.location = r.head.location) : q = r := by
  rw [← map_location_placedAmong []] at ascends
  exact List.inj_on_of_nodup_map (ascends.imp ne_of_lt) hq hr same

theorem mem_placedAmong_of_location (hp : p ∈ placedAmong [] l) (hq : q ∈ placedAmong [] l)
    (inside : q.head.location ∈ beginsAmong p.children) : q ∈ placedAmong [] p.children := by
  rw [← map_location_placedAmong []] at inside
  obtain ⟨r, hr, same⟩ := List.mem_map.1 inside
  rwa [← eq_of_location_eq ascends (placedAmong_subset hp hr) hq same]

theorem placedAfter_before :
    (placedAfter [] l).Pairwise fun q r => Before q.places r.places := by
  rw [beginsAmong_eq_placedAfter [], List.pairwise_flatMap] at ascends
  exact ascends.2

theorem placedAfter_apart (hq : q ∈ placedAfter [] l) (hr : r ∈ placedAfter [] l) (other : q ≠ r) :
    Apart q.places r.places := by
  have symm : Std.Symm fun q r : Placed => Apart q.places r.places := ⟨fun _ _ h => h.symm⟩
  have split : (placedAfter [] l).Pairwise fun q r => Apart q.places r.places :=
    (placedAfter_before ascends).imp .inl
  exact split.forall hq hr other

theorem eq_of_mem_places {a : Location} (hq : q ∈ placedAfter [] l) (hr : r ∈ placedAfter [] l)
    (own : a ∈ q.places) (its : a ∈ r.places) : q = r := by
  by_contra other
  rcases placedAfter_apart ascends hq hr other with before | after
  · exact absurd (before a own a its) (lt_irrefl a)
  · exact absurd (after a its a own) (lt_irrefl a)

theorem mem_placedAfter_before_iff (hq : q ∈ placedAfter [] l) :
    r ∈ placedAfter [] q.before ↔
      r ∈ placedAfter [] l ∧ r.head.location < q.head.location := by
  obtain ⟨between, after, rfl, place⟩ := shape_of_mem_placedAfter hq
  rw [List.nil_append] at place
  have apart := placedAfter_before ascends
  rw [placedAfter_append, List.nil_append, placedAfter, List.pairwise_append,
    List.pairwise_cons] at apart
  obtain ⟨-, ⟨later, -⟩, earlier⟩ := apart
  rw [place, placedAfter_append, List.nil_append, placedAfter, List.mem_append, List.mem_cons]
  constructor
  · intro h
    exact ⟨.inl h, earlier r h _ (.head _) _ (.head _) _ (.head _)⟩
  · rintro ⟨h | rfl | h, less⟩
    · exact h
    · exact absurd less (lt_irrefl _)
    · exact absurd less (later r h _ (.head _) _ (.head _)).not_gt

theorem before_of_mem_placedAfter (hq : q ∈ placedAmong [] l)
    (earlier : r ∈ placedAfter [] q.before) :
    r ∈ placedAmong [] l ∧ Before r.places q.places := by
  induction l using below_induction with
  | step l ih =>
      obtain ⟨e, he, rfl | below⟩ := mem_placedAmong_iff.1 hq
      · obtain ⟨here, less⟩ := (mem_placedAfter_before_iff ascends he).1 earlier
        refine ⟨placedAfter_subset here, ?_⟩
        have apart := placedAfter_apart ascends here he fun same => less.ne (by rw [same])
        exact apart.before (.head _) (.head _) less.le
      · have inner := ascends.sublist ((List.sublist_cons_self ..).trans
          (sublist_of_mem_placedAmong (placedAfter_subset he)))
        obtain ⟨here, apart⟩ := ih e.head e.children (mem_of_mem_placedAfter he) inner below
        exact ⟨mem_placedAmong_iff.2 ⟨e, he, .inr here⟩, apart⟩

end Ascending

end Elements

end ApiDrift.Introspection
