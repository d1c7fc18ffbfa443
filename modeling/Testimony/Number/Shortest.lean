import Testimony.Number.Basic

/-!
# The shortest decimal of a number

Of all decimals that round to a number, the ones with the fewest digits, and of those the nearest.
They lie on the coarsest grid `10 ^ k` that has a point among the numbers' rounding interval, so
the search goes from coarse grids to fine ones and looks at the two points around the number.
-/

namespace Testimony.Number

/-- The magnitudes that round to one number, in multiples of `2 ^ -1076`. The ends belong to the
interval exactly if the number wins the ties there, that is, if its significand is even. -/
structure Basin where
  low : Nat
  middle : Nat
  high : Nat
  closed : Bool

/-- Half a unit to each side, but only a quarter below a power of two, where the numbers begin to
lie twice as dense. -/
def basin (x : Number) : Basin :=
  let quarter := 1 <<< x.unit
  let below := if x.significand = leadingBit && x.unit != 0 then quarter else 2 * quarter
  { low := 4 * x.magnitude - below
    middle := 4 * x.magnitude
    high := 4 * x.magnitude + 2 * quarter
    closed := x.significand % 2 == 0 }

/-- Whether `num / den` lies in the basin. -/
def Basin.contains (b : Basin) (num den : Nat) : Bool :=
  if b.closed then b.low * den ≤ num && num ≤ b.high * den
  else b.low * den < num && num < b.high * den

/-- The decimal `digits * 10 ^ exponent`. -/
structure Decimal where
  digits : Nat
  exponent : Int
deriving DecidableEq

/-- Which of two equally near decimals is taken. -/
inductive Tie where
  /-- The greater. -/
  | up
  /-- The one with the even last digit. -/
  | even
deriving DecidableEq

/-- The point of the grid `10 ^ k` nearest to the middle of the basin among the two around it, if
one of them is in the basin. -/
def Basin.onGrid? (b : Basin) (tie : Tie) (k : Int) : Option Decimal :=
  let den := Nat.pow 10 (-k).toNat
  let step := Nat.pow 10 k.toNat * (4 * scale)
  let down := b.middle * den / step
  let rest := b.middle * den % step
  let upper : Bool :=
    if 2 * rest = step then tie = .up || down % 2 = 1 else step < 2 * rest
  match b.contains (down * step) den, b.contains ((down + 1) * step) den with
  | true, true => some ⟨if upper then down + 1 else down, k⟩
  | true, false => some ⟨down, k⟩
  | false, true => some ⟨down + 1, k⟩
  | false, false => none

/-- A power of ten above the magnitude; the factor is a little above the logarithm of two. -/
def topGrid (x : Number) : Int :=
  ((x.magnitude.log2 + 1 : Int) - 1074) * 30103 / 100000 + 2

/-- The shortest decimal of a finite number other than zero. Seventeen digits always suffice, so
the grids looked at have a hit; the exact value stands for the case that does not occur. -/
def shortest (tie : Tie) (x : Number) : Decimal :=
  ((List.range 22).findSome? fun i : Nat => x.basin.onGrid? tie (x.topGrid - i)).getD
    ⟨x.magnitude * Nat.pow 5 1074, -1074⟩

end Testimony.Number
