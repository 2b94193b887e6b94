import ApiDrift.Json
/-! Places in a text: a line and a column, both counted from one. Columns count
characters; `afterBytes` is the measure for texts that are still bytes. -/
namespace ApiDrift

/-- A line and a column. Elements built by hand stand at `0:0`. -/
structure Location where
  line : Nat := 0
  column : Nat := 0
deriving DecidableEq, Repr, Inhabited

namespace Location

def start : Location := ⟨1, 1⟩

/-- The place after one character: a line feed opens a line, all else takes a column. -/
def next (l : Location) (c : Char) : Location :=
  if c = '\n' then ⟨l.line + 1, 1⟩ else ⟨l.line, l.column + 1⟩

def after (l : Location) (text : List Char) : Location := text.foldl next l

/-- The place after one character of a text whose columns are UTF-8 bytes. -/
def nextBytes (l : Location) (c : Char) : Location :=
  if c = '\n' then ⟨l.line + 1, 1⟩ else ⟨l.line, l.column + c.utf8Size⟩

def afterBytes (l : Location) (bytes : List UInt8) : Location :=
  bytes.foldl (fun l b => if b = 10 then ⟨l.line + 1, 1⟩ else ⟨l.line, l.column + 1⟩) l

instance : LE Location where
  le a b := a.line < b.line ∨ a.line = b.line ∧ a.column ≤ b.column

instance (a b : Location) : Decidable (a ≤ b) :=
  inferInstanceAs (Decidable (a.line < b.line ∨ a.line = b.line ∧ a.column ≤ b.column))

theorem le_iff {a b : Location} :
    a ≤ b ↔ a.line < b.line ∨ a.line = b.line ∧ a.column ≤ b.column := Iff.rfl

theorem le_trans {a b c : Location} (hab : a ≤ b) (hbc : b ≤ c) : a ≤ c := by
  rw [le_iff] at *
  omega

theorem le_total (a b : Location) : a ≤ b ∨ b ≤ a := by
  rw [le_iff, le_iff]
  omega

theorem le_next (l : Location) (c : Char) : l ≤ l.next c := by
  unfold next
  split <;> rw [le_iff] <;> simp

theorem le_after (l : Location) (text : List Char) : l ≤ l.after text := by
  induction text generalizing l with
  | nil => exact Or.inr ⟨rfl, Nat.le_refl _⟩
  | cons c text ih => exact le_trans (le_next l c) (ih _)

def render (l : Location) : String := toString l.line ++ ":" ++ toString l.column

def toJson (l : Location) : Json := .obj [("line", .num l.line), ("column", .num l.column)]

end Location

end ApiDrift
