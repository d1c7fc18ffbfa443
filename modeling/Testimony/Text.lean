/-!
# Blanks and digits

The characters with the Unicode property White_Space, and cutting them off a text. Whole numbers
written with the digits from 0 to 9: `index?` reads the numbers that an index or a limit can be,
those of one word of 64 bits, and `index?_repr` says that it reads their decimal form.
-/

namespace Testimony.Text

/-! ### Blank characters -/

/-- The runs of consecutive code points with the property White_Space, first and last of each. -/
def blankRanges : List (Nat × Nat) :=
  [(0x09, 0x0D), (0x20, 0x20), (0x85, 0x85), (0xA0, 0xA0), (0x1680, 0x1680), (0x2000, 0x200A),
    (0x2028, 0x2029), (0x202F, 0x202F), (0x205F, 0x205F), (0x3000, 0x3000)]

def isBlank (c : Char) : Bool :=
  blankRanges.any fun (lo, hi) => lo ≤ c.toNat && c.toNat ≤ hi

/-- The text from its first character that is not blank. -/
def skipBlank (s : List Char) : List Char :=
  s.dropWhile isBlank

/-- The text without the blanks at either end. -/
def trim (s : List Char) : List Char :=
  (skipBlank (skipBlank s).reverse).reverse

theorem length_skipBlank_le (s : List Char) : (skipBlank s).length ≤ s.length :=
  (List.dropWhile_suffix isBlank).length_le

/-! ### Decimal digits -/

def ofDigits (ds : List Char) : Nat := Nat.ofDigitChars 10 ds 0

/-- One more than the greatest number of 64 bits. -/
def wordSize : Nat := 1 <<< 64

/-- The number of 64 bits that a text of digits alone writes; leading zeros do no harm. -/
def index? (s : List Char) : Option Nat :=
  if !s.isEmpty && s.all Char.isDigit && ofDigits s < wordSize then some (ofDigits s) else none

theorem ofDigits_toDigits (n : Nat) : ofDigits (Nat.toDigits 10 n) = n :=
  Nat.ofDigitChars_toDigits (by decide) (by decide)

theorem repr_injective {m n : Nat} (h : m.repr = n.repr) : m = n := by
  have hdigits : ofDigits m.repr.toList = ofDigits n.repr.toList := by rw [h]
  simpa [Nat.repr, ofDigits_toDigits] using hdigits

theorem index?_repr {n : Nat} (h : n < wordSize) : index? n.repr.toList = some n := by
  have hd : ∀ c ∈ Nat.toDigits 10 n, c.isDigit := fun c hc =>
    Nat.isDigit_of_mem_toDigits (by decide) (by decide) hc
  have hne : Nat.toDigits 10 n ≠ [] := Nat.toDigits_ne_nil
  simpa [index?, Nat.repr, ofDigits_toDigits, h, hne] using hd

end Testimony.Text
