/-! Numbers written in digits. -/
namespace ApiDrift.Text

/-- A number in a base, by at least so many digits. -/
def padded (base width n : Nat) : String :=
  let digits := Nat.toDigits base n
  String.ofList (List.replicate (width - digits.length) '0' ++ digits)

theorem length_padded {base width n : Nat} (fits : (Nat.toDigits base n).length ≤ width) :
    (padded base width n).length = width := by
  rw [padded, String.length_ofList, List.length_append, List.length_replicate]
  omega

end ApiDrift.Text
