/-!
Addition of 32-bit integers that notices an overflow.
-/

namespace MemberAccess

/-- The sum, unless it leaves the range of 32 bits. -/
def checkedAdd? (a b : Int32) : Option Int32 :=
  let sum := a.toInt + b.toInt
  if Int32.minValue.toInt ≤ sum ∧ sum ≤ Int32.maxValue.toInt then some (a + b) else none

end MemberAccess
