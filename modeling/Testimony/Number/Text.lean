import Testimony.Number.Shortest
import Testimony.Text

/-!
# Numbers as text

A number is written with its shortest digits. What remains open is a `Layout`: where positional
notation ends, what is written for a whole number, how a tie between two shortest decimals goes,
and what stands for the values that are no decimal.

Read is an optional sign, digits with at most one point among or beside them, and an optional power
of ten. There are no blanks in it and no words for infinity or NaN.
-/

namespace Testimony.Number

/-! ### Writing a number -/

structure Layout where
  /-- Whether a number whose first digit has this power of ten is written without an exponent. -/
  positional : Int → Bool
  /-- Whether a whole number in positional notation ends in a point and a zero. -/
  pointZero : Bool
  tie : Tie

/-- The digits at their places, with zeros where no digit stands. -/
def positionalText (pointZero : Bool) (digits : List Char) (exponent : Int) : List Char :=
  let tail := if pointZero then ['.', '0'] else []
  match exponent with
  | .ofNat zeros => digits ++ List.replicate zeros '0' ++ tail
  | .negSucc n =>
    let whole := digits.length - (n + 1)
    if 0 < whole then digits.take whole ++ '.' :: digits.drop whole
    else '0' :: '.' :: (List.replicate (n + 1 - digits.length) '0' ++ digits)

/-- One digit before the point and a signed power of ten. -/
def scientificText (digits : List Char) (power : Int) : List Char :=
  let fractionDigits := digits.drop 1
  let point := if fractionDigits.isEmpty then [] else ['.']
  let sign := if power < 0 then '-' else '+'
  digits.take 1 ++ point ++ fractionDigits ++ 'e' :: sign :: power.natAbs.repr.toList

/-- The text of a finite magnitude. -/
def Layout.magnitudeText (l : Layout) (x : Number) : List Char :=
  if x.isZero then positionalText l.pointZero ['0'] 0
  else
    let d := x.shortest l.tie
    let digits := d.digits.repr.toList
    let power := d.exponent + digits.length - 1
    if l.positional power then positionalText l.pointZero digits d.exponent
    else scientificText digits power

/-- The text of a finite number. -/
def Layout.text (l : Layout) (x : Number) : String :=
  String.ofList ((if x.isNegative then ['-'] else []) ++ l.magnitudeText x)

/-- For readers: always positional, a whole number without a point, a tie goes up. -/
def plain : Layout where
  positional _ := true
  pointZero := false
  tie := .up

/-- For JSON: positional from `10 ^ -5` to below `10 ^ 16`, where a whole number keeps a point, and
a tie goes to the even digit. -/
def literal : Layout where
  positional power := -5 ≤ power && power < 16
  pointZero := true
  tie := .even

/-- The text for readers, with words for what is no decimal. -/
def text (x : Number) : String :=
  if x.isNaN then "NaN"
  else if x.isInfinite then if x.isNegative then "-inf" else "inf"
  else plain.text x

/-- Sixteen lower-case hexadecimal digits of the bit pattern. -/
def hex (x : Number) : String :=
  let digits := Nat.toDigits 16 x.word
  String.ofList (List.replicate (16 - digits.length) '0' ++ digits)

/-! ### Reading a number -/

/-- Whether the text starts with a minus sign, and the text without its sign. -/
def splitSign : List Char → Bool × List Char
  | '-' :: r => (true, r)
  | '+' :: r => (false, r)
  | s => (false, s)

/-- The digits after a leading point, and the rest. -/
def splitFraction : List Char → List Char × List Char
  | '.' :: r => (r.takeWhile Char.isDigit, r.dropWhile Char.isDigit)
  | s => ([], s)

/-- The power of ten that the text writes: none at all, or a mark and a whole number. -/
def powerOfText? : List Char → Option Int
  | [] => some 0
  | c :: r =>
    let (negative, ds) := splitSign r
    if (c = 'e' || c = 'E') && !ds.isEmpty && ds.all Char.isDigit then
      some (if negative then -(Text.ofDigits ds : Int) else Text.ofDigits ds)
    else none

/-- The number nearest to the decimal that the text writes. -/
def ofText? (s : List Char) : Option Number := do
  let (negative, unsigned) := splitSign s
  let whole := unsigned.takeWhile Char.isDigit
  let (fractional, rest) := splitFraction (unsigned.dropWhile Char.isDigit)
  let power ← powerOfText? rest
  if whole.isEmpty && fractional.isEmpty then none
  else some (ofDecimal negative (Text.ofDigits (whole ++ fractional)) (power - fractional.length))

end Testimony.Number
