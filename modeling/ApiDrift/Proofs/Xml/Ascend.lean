import ApiDrift.Proofs.Location
import ApiDrift.Proofs.Xml.Consumed
import Mathlib.Data.List.Pairwise
/-! The start tags that are read in a stretch of text stand in it, one after the other. -/
namespace ApiDrift

theorem Location.lt_after {used : List Char} (some : used ≠ []) (l : Location) :
    l < l.after used := by
  cases used with
  | nil => exact absurd rfl some
  | cons c rest => exact lt_of_lt_of_le (l.lt_next c) (le_after (l.next c) rest)

namespace Xml

theorem Span.Splits.le {s s' : Span} {used : List Char} (splits : s.Splits used s') :
    s.location ≤ s'.location := by
  rw [splits.location]
  exact Location.le_after s.location used

/-- The place of a start tag. -/
def Token.place? : Token → Option Location
  | .startTag tag => some tag.location
  | _ => none

/-- Where elements begin, by the tokens. -/
def places (ts : List Token) : List Location := ts.filterMap Token.place?

/-- From one place of a text to another, start tags stand in order and between the two. -/
structure Ascends (s : Span) (ts : List Token) (s' : Span) : Prop where
  forward : s.location ≤ s'.location
  sorted : (places ts).Pairwise (· < ·)
  within : ∀ l ∈ places ts, s.location ≤ l ∧ l < s'.location

namespace Ascends
variable {s m s' : Span} {ts more : List Token}

theorem trans (first : Ascends s ts m) (second : Ascends m more s') :
    Ascends s (ts ++ more) s' := by
  have split : places (ts ++ more) = places ts ++ places more := List.filterMap_append ..
  refine ⟨le_trans first.forward second.forward, ?_, ?_⟩
  · rw [split, List.pairwise_append]
    refine ⟨first.sorted, second.sorted, fun l hl k hk => ?_⟩
    exact lt_of_lt_of_le (first.within l hl).2 (second.within k hk).1
  · rw [split]
    refine List.forall_mem_append.2 ⟨fun l hl => ?_, fun l hl => ?_⟩
    · exact ⟨(first.within l hl).1, lt_of_lt_of_le (first.within l hl).2 second.forward⟩
    · exact ⟨le_trans first.forward (second.within l hl).1, (second.within l hl).2⟩

theorem of_untagged {used : List Char} (splits : s.Splits used s')
    (untagged : ∀ t ∈ ts, t.place? = none) : Ascends s ts s' := by
  have nothing : places ts = [] := List.filterMap_eq_nil_iff.2 untagged
  refine ⟨splits.le, ?_, ?_⟩
  · rw [nothing]
    exact .nil
  · rw [nothing]
    exact List.forall_mem_nil _

theorem refl (s : Span) : Ascends s [] s := of_untagged (.refl s) (List.forall_mem_nil _)

theorem startTag {tag : Tag} {used : List Char} (splits : s.Splits used s') (some : used ≠ [])
    (place : tag.location = s.location) : Ascends s [.startTag tag] s' := by
  have single : places [.startTag tag] = [s.location] := by
    rw [← place]
    rfl
  refine ⟨splits.le, ?_, ?_⟩
  · rw [single]
    exact List.pairwise_singleton ..
  · rw [single, splits.location]
    exact List.forall_mem_singleton.2 ⟨le_refl _, Location.lt_after some s.location⟩

end Ascends

end Xml

end ApiDrift
