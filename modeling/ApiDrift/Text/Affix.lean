/-! Headings of texts, and the last component of a path. -/
namespace ApiDrift.Text

def afterChars? : List Char → List Char → Option (List Char)
  | [], l => some l
  | _ :: _, [] => none
  | h :: heading, c :: l => if h = c then afterChars? heading l else none

def after? (heading s : String) : Option String :=
  (afterChars? heading.toList s.toList).map String.ofList

theorem afterChars?_eq_some {heading l rest : List Char} :
    afterChars? heading l = some rest ↔ l = heading ++ rest := by
  induction heading generalizing l with
  | nil => simp [afterChars?, eq_comm]
  | cons h heading ih =>
    cases l with
    | nil => simp [afterChars?]
    | cons c l =>
      simp only [afterChars?, List.cons_append, List.cons.injEq]
      split
      · next heq => simp [ih, heq]
      · next hne => simp [Ne.symm hne]

/-- What stands after the last slash of either kind, or the whole path if there is none. -/
def basename (path : String) : String :=
  String.ofList (path.toList.reverse.takeWhile fun c => c != '/' && c != '\\').reverse

end ApiDrift.Text
