/-! # Decimal digits of fixed width -/

namespace PingDelivery.Text

/-- Digits of `n`, with zeros on the left up to the width. -/
def padded (width n : Nat) : List Char :=
  let ds := Nat.toDigits 10 n
  List.replicate (width - ds.length) '0' ++ ds

theorem length_padded (width n : Nat) : width ≤ (padded width n).length := by
  simp only [padded, List.length_append, List.length_replicate]
  omega

end PingDelivery.Text
