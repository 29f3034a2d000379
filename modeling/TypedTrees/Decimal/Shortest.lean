/-!
The shortest decimal that reads back to a given floating point number. A number stands for the
interval of reals that round to it; among the decimals in the interval those with the fewest
digits are wanted, and of these the nearest, the larger one where two are equally near. All
arithmetic is exact, on natural numbers.
-/
namespace TypedTrees

/-- A positive binary fraction, `significand * 2 ^ exponent`. -/
structure Dyadic where
  significand : Nat
  exponent : Int
  /-- The next smaller number is only half as far away as the next larger one, as it is below a
  power of two. -/
  narrowBelow : Bool

/-- A decimal, `digits * 10 ^ exponent`. -/
structure Decimal where
  digits : Nat
  exponent : Int
  deriving DecidableEq

namespace Dyadic

/-- The magnitude that the bits of a finite number stand for. -/
def ofBits (bits : UInt64) : Dyadic :=
  let exponent := ((bits >>> 52) &&& 0x7FF).toNat
  let fraction := (bits &&& 0xFFFFFFFFFFFFF).toNat
  if exponent = 0 then ⟨fraction, -1074, false⟩
  else ⟨0x10000000000000 + fraction, (exponent : Int) - 1075, fraction == 0 && exponent > 1⟩

/-- Numerator and denominator of `a * 2 ^ i / 10 ^ j`. -/
def ratio (a : Nat) (i j : Int) : Nat × Nat :=
  (a * Nat.pow 2 i.toNat * Nat.pow 10 (-j).toNat, Nat.pow 2 (-i).toNat * Nat.pow 10 j.toNat)

/-- Whether `d * 10 ^ j` lies in the interval of reals that round to `x`. The interval reaches
halfway to either neighbour, and its ends belong to it when the significand is even. -/
def readsBack (x : Dyadic) (d : Nat) (j : Int) : Bool :=
  let low := ratio (4 * x.significand - if x.narrowBelow then 1 else 2) (x.exponent - 2) j
  let high := ratio (4 * x.significand + 2) (x.exponent - 2) j
  if x.significand % 2 = 0 then low.1 ≤ d * low.2 && d * high.2 ≤ high.1
  else low.1 < d * low.2 && d * high.2 < high.1

/-- The nearer to `x` of the multiples of `10 ^ j` on either side of it that read back. -/
def onGrid? (x : Dyadic) (j : Int) : Option Decimal :=
  let (num, den) := ratio x.significand x.exponent j
  let below := num / den
  match x.readsBack below j, x.readsBack (below + 1) j with
  | true, true => some ⟨if 2 * (num % den) < den then below else below + 1, j⟩
  | true, false => some ⟨below, j⟩
  | false, true => some ⟨below + 1, j⟩
  | false, false => none

def below (x : Dyadic) (k : Int) : Bool :=
  let (num, den) := ratio x.significand x.exponent k
  num < den

/-- The least `k` with `x < 10 ^ k`. The binary logarithm gives it up to a step or two. -/
def scale (x : Dyadic) : Int :=
  let guess := Int.fdiv ((Nat.log2 x.significand + x.exponent) * 1233) 4096 - 1
  (((List.range 5).map fun i : Nat => guess + (i : Int)).find? x.below).getD (guess + 5)

def exact (x : Dyadic) : Decimal :=
  if x.exponent ≥ 0 then ⟨x.significand * Nat.pow 2 x.exponent.toNat, 0⟩
  else ⟨x.significand * Nat.pow 5 (-x.exponent).toNat, x.exponent⟩

/-- The shortest decimal that reads back to `x`, by trying grids of one digit, two digits and so
on. Seventeen digits are always enough, so the exact value is never needed. -/
def shortest (x : Dyadic) : Decimal :=
  let k := x.scale
  ((List.range 17).findSome? fun n : Nat => x.onGrid? (k - 1 - (n : Int))).getD x.exact

end Dyadic

namespace Decimal

/-- The same decimal without zeros at the end of its digits. -/
def trim (d : Decimal) : Decimal :=
  go d.digits d.exponent
where
  go (digits : Nat) (exponent : Int) : Decimal :=
    if h : digits ≠ 0 ∧ digits % 10 = 0 then go (digits / 10) (exponent + 1)
    else ⟨digits, exponent⟩
  termination_by digits
  decreasing_by omega

end Decimal

end TypedTrees
