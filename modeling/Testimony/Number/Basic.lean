/-!
# Binary numbers of 64 bits

A `Number` is a word of 64 bits read as IEEE 754 reads it: a sign, eleven bits of exponent and 52
of fraction. Every finite number is a whole number of `2 ^ -1074`, its `scaled` value, so order,
sums and roundings are exact integer arithmetic. `ofQuotient` is the only place that rounds: to
the nearest number, and from the middle to the one whose last bit is zero.
-/

namespace Testimony

/-- A number, known by its bit pattern. -/
structure Number where
  bits : UInt64
deriving DecidableEq

namespace Number

def word (x : Number) : Nat := x.bits.toNat

def ofWord (n : Nat) : Number := ⟨UInt64.ofNat n⟩

/-- The word of positive infinity: all exponent bits set, no fraction. -/
def infinityWord : Nat := 2047 <<< 52

/-- The word that sets the sign bit alone. -/
def signWord : Nat := 1 <<< 63

def isNegative (x : Number) : Bool := signWord ≤ x.word

/-- The leading bit of a normal significand, which the word leaves out. -/
def leadingBit : Nat := 1 <<< 52

def exponent (x : Number) : Nat := (x.word >>> 52) % 2048

def fraction (x : Number) : Nat := x.word % leadingBit

def isNaN (x : Number) : Bool := x.exponent == 2047 && x.fraction != 0

def isInfinite (x : Number) : Bool := x.exponent == 2047 && x.fraction == 0

def isFinite (x : Number) : Bool := x.exponent != 2047

def significand (x : Number) : Nat :=
  if x.exponent = 0 then x.fraction else leadingBit + x.fraction

/-- The weight of the significand's last bit is `2 ^ (unit - 1074)`. -/
def unit (x : Number) : Nat := x.exponent - 1

/-- The magnitude in multiples of `2 ^ -1074`; infinity exceeds every finite number. -/
def magnitude (x : Number) : Nat := x.significand <<< x.unit

/-- The value in multiples of `2 ^ -1074`. -/
def scaled (x : Number) : Int :=
  if x.isNegative then -(x.magnitude : Int) else x.magnitude

def isZero (x : Number) : Bool := x.magnitude == 0

def nan : Number := ofWord (infinityWord + 1 <<< 51)

def one : Number := ofWord (1023 <<< 52)

/-- The number of a sign and the word of a magnitude. -/
def signed (negative : Bool) (magnitudeWord : Nat) : Number :=
  ofWord (if negative then signWord + magnitudeWord else magnitudeWord)

def infinity (negative : Bool) : Number := signed negative infinityWord

/-! ### Rounding -/

/-- The whole number nearest to `num / den`, the even one of two equally near. -/
def divNearest (num den : Nat) : Nat :=
  let q := num / den
  let r := num % den
  if 2 * r < den then q
  else if den < 2 * r then q + 1
  else if q % 2 = 0 then q else q + 1

/-- The number nearest to `num / den` multiples of `2 ^ -1074`. The significand keeps 53 bits of
the quotient; a carry out of them moves into the exponent bits of the word by itself, and past the
greatest finite number the word is that of infinity. -/
def ofQuotient (negative : Bool) (num den : Nat) : Number :=
  let dropped := (num / den).log2 - 52
  let word := dropped <<< 52 + divNearest num (den <<< dropped)
  signed negative (min word infinityWord)

/-- The number nearest to an integer of multiples of `2 ^ -1074`; zero is positive. -/
def ofScaled (s : Int) : Number :=
  ofQuotient (s < 0) s.natAbs 1

/-- How many multiples of `2 ^ -1074` make one. -/
def scale : Nat := 1 <<< 1074

def ofInt (n : Int) : Number :=
  ofScaled (n * scale)

/-- The number nearest to `± mantissa * 10 ^ exponent`. From `10 ^ 310` on that is infinity and
below `10 ^ -330` it is zero, whatever the digits, so no larger power is ever computed. -/
def ofDecimal (negative : Bool) (mantissa : Nat) (exponent : Int) : Number :=
  let places : Int := mantissa.repr.length + exponent
  if mantissa = 0 || places < -330 then signed negative 0
  else if 310 < places then infinity negative
  else if 0 ≤ exponent then ofQuotient negative (mantissa * Nat.pow 10 exponent.toNat * scale) 1
  else ofQuotient negative (mantissa * scale) (Nat.pow 10 (-exponent).toNat)

/-! ### Arithmetic -/

def negate (x : Number) : Number :=
  signed (!x.isNegative) (x.word % signWord)

/-- The sum, rounded once. Opposite numbers add to positive zero, two negative zeros to a
negative one. -/
def add (x y : Number) : Number :=
  if x.isNaN || y.isNaN then nan
  else if x.isInfinite && y.isInfinite then
    if x.isNegative == y.isNegative then x else nan
  else if x.isInfinite then x
  else if y.isInfinite then y
  else if x.scaled + y.scaled = 0 then signed (x.isNegative && y.isNegative) 0
  else ofScaled (x.scaled + y.scaled)

def sub (x y : Number) : Number :=
  if y.isNaN then nan else add x y.negate

instance : Add Number := ⟨add⟩

instance : Sub Number := ⟨sub⟩

/-! ### Comparison -/

/-- Equality of values: the two zeros are equal, and a NaN equals nothing. -/
def equals (x y : Number) : Bool :=
  !x.isNaN && !y.isNaN && x.scaled == y.scaled

def less (x y : Number) : Bool :=
  !x.isNaN && !y.isNaN && decide (x.scaled < y.scaled)

def lessOrEqual (x y : Number) : Bool :=
  !x.isNaN && !y.isNaN && decide (x.scaled ≤ y.scaled)

/-- The bit pattern with negative zero folded into zero. -/
def key (x : Number) : UInt64 :=
  if x.isZero then 0 else x.bits

end Number

end Testimony
