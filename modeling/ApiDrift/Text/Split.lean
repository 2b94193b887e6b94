/-! Texts cut at every occurrence of one separating character. A text without the
separator is one part, and the empty text is one empty part. -/
namespace ApiDrift.Text

def splitChars (sep : Char) : List Char → List (List Char)
  | [] => [[]]
  | c :: r =>
    if c = sep then [] :: splitChars sep r
    else match splitChars sep r with
      | [] => [[c]]
      | part :: parts => (c :: part) :: parts

def split (sep : Char) (s : String) : List String :=
  (splitChars sep s.toList).map String.ofList

theorem splitChars_ne_nil (sep : Char) (l : List Char) : splitChars sep l ≠ [] := by
  cases l with
  | nil => simp [splitChars]
  | cons c r =>
    unfold splitChars
    split
    · simp
    · split <;> simp

end ApiDrift.Text
