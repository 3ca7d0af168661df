/-!
The shortest decimal of a floating-point number: the fewest digits that read back as the number,
and of the decimals with that many digits the nearest one.
-/

namespace MemberAccess.Text

/-- The positive number `mantissa · 2 ^ exponent` on the grid of double precision. -/
structure Binary where
  mantissa : Nat
  exponent : Int
  /-- Whether the next smaller number lies on a grid twice as fine. -/
  finerBelow : Bool

/-- The magnitude of a finite number. -/
def Binary.ofFloat (x : Float) : Binary :=
  let bits := x.toBits.toNat
  let fraction : Nat := bits % Nat.pow 2 52
  let biased : Nat := bits / Nat.pow 2 52 % Nat.pow 2 11
  if biased = 0 then ⟨fraction, -1074, false⟩
  else ⟨fraction + Nat.pow 2 52, biased - 1075, fraction = 0 ∧ 1 < biased⟩

/-- The number `0.digits · 10 ^ point`, the digits read as decimal places. -/
structure Decimal where
  digits : List Char
  point : Int

/-- The decimal `n · 10 ^ k`, without zeros at the end. -/
def Decimal.ofNat (n : Nat) (k : Int) : Decimal :=
  let digits := Nat.toDigits 10 n
  ⟨(digits.reverse.dropWhile (· = '0')).reverse, digits.length + k⟩

/-- The numbers between `low` and `high` (in units of `unit / scale`) that read back as `value`;
the ends belong to them if `closed` holds. -/
structure Interval where
  value : Nat
  low : Nat
  high : Nat
  closed : Bool
  unit : Nat
  scale : Nat

namespace Interval

/-- Half way to the neighbours, in quarters of the grid; a tie reads back as the even mantissa. -/
def ofBinary (b : Binary) : Interval :=
  let quarter := b.exponent - 2
  { value := 4 * b.mantissa
    low := 4 * b.mantissa - (if b.finerBelow then 1 else 2)
    high := 4 * b.mantissa + 2
    closed := b.mantissa % 2 = 0
    unit := Nat.pow 2 quarter.toNat
    scale := Nat.pow 2 (-quarter).toNat }

/-- The power of ten next above the value. -/
def decimalExponent (i : Interval) : Int :=
  let n := i.value * i.unit
  if i.scale ≤ n then (Nat.toDigits 10 (n / i.scale)).length
  else 1 - ((Nat.toDigits 10 ((i.scale - 1) / n)).length : Int)

/-- Which of the two multiples of `10 ^ k` around the value read back; the nearer one if both do,
the greater one of two that are equally near. -/
def multipleOf (i : Interval) (k : Int) : Option Nat :=
  let up := i.unit * Nat.pow 10 (-k).toNat
  let grid := i.scale * Nat.pow 10 k.toNat
  let inside (n : Nat) : Bool :=
    if i.closed then i.low * up ≤ n * grid ∧ n * grid ≤ i.high * up
    else i.low * up < n * grid ∧ n * grid < i.high * up
  let n := i.value * up / grid
  let below := i.value * up - n * grid
  let above := (n + 1) * grid - i.value * up
  match inside n, inside (n + 1) with
  | true, true => some (if below < above then n else n + 1)
  | true, false => some n
  | false, true => some (n + 1)
  | false, false => none

/-- Tries more and more digits. -/
def firstHit (i : Interval) (exponent : Int) : Nat → Nat → Decimal
  | 0, digits => .ofNat (i.value * i.unit / i.scale) (exponent - digits)
  | tries + 1, digits =>
    match i.multipleOf (exponent - digits) with
    | some n => .ofNat n (exponent - digits)
    | none => firstHit i exponent tries (digits + 1)

end Interval

/-- The shortest decimal of a number that is neither zero nor infinite nor NaN; seventeen digits
always suffice. -/
def shortest (x : Float) : Decimal :=
  let i := Interval.ofBinary (.ofFloat x)
  i.firstHit i.decimalExponent 17 1

end MemberAccess.Text
