import ApiDrift.Location
import Mathlib.Order.Defs.LinearOrder
/-! Reading order is a linear order of places, and going on in a text goes on in it. -/
namespace ApiDrift.Location

theorem le_antisymm {a b : Location} (hab : a ≤ b) (hba : b ≤ a) : a = b := by
  obtain ⟨line, column⟩ := a
  obtain ⟨line', column'⟩ := b
  rw [le_iff] at hab hba
  dsimp only at hab hba
  obtain ⟨rfl, rfl⟩ : line = line' ∧ column = column' := by omega
  rfl

instance : LT Location where
  lt a b := a.line < b.line ∨ a.line = b.line ∧ a.column < b.column

theorem lt_iff {a b : Location} :
    a < b ↔ a.line < b.line ∨ a.line = b.line ∧ a.column < b.column := Iff.rfl

instance : LinearOrder Location where
  le_refl _ := .inr ⟨rfl, Nat.le_refl _⟩
  le_trans _ _ _ := le_trans
  lt_iff_le_not_ge a b := by
    rw [lt_iff, le_iff, le_iff]
    omega
  le_antisymm _ _ := le_antisymm
  le_total := le_total
  toDecidableLE := inferInstance

theorem lt_next (l : Location) (c : Char) : l < l.next c := by
  unfold next
  split <;> rw [lt_iff] <;> simp

end ApiDrift.Location
