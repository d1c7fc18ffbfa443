import Mathlib.Data.List.Induction
import Mathlib.Data.Nat.Digits.Defs
import Testimony.Reference

/-!
# Tokens of references

Which tokens write which references is said without a reader (`Reference.Writes`): a position in
decimal digits behind the at sign, with or without a plus sign, or a name without blanks behind the
dollar sign. Reading gives the reference that a token writes, and a token that writes none is
refused (`parse_eq_ok`, `parse_eq_error`).

A position can be written in many ways, with leading zeros or a plus sign, and one of them is its
text. So a token can be replaced by the text of what it is read as (`Writes.text`). `parse_tokens`
puts the three together.
-/

namespace Testimony

namespace Text

/-- The number that decimal digits write, the last of them for the ones. -/
def decimalValue (ds : List Char) : Nat :=
  Nat.ofDigits 10 (ds.reverse.map fun d => d.toNat - '0'.toNat)

variable {s ds : List Char} {n : Nat}

theorem ofDigits_eq_decimalValue (ds : List Char) : ofDigits ds = decimalValue ds := by
  induction ds using List.reverseRecOn with
  | nil => rfl
  | append_singleton ds d ih =>
    have hlast : ofDigits (ds ++ [d]) = 10 * ofDigits ds + (d.toNat - '0'.toNat) := by
      simp [ofDigits, Nat.ofDigitChars_append, Nat.ofDigitChars_cons]
    rw [hlast, ih, decimalValue, decimalValue, List.reverse_append, List.map_append]
    simp [Nat.ofDigits_cons, Nat.add_comm]

theorem isDigit_iff {d : Char} : d.isDigit = true ↔ '0' ≤ d ∧ d ≤ '9' :=
  Bool.and_eq_true_iff.trans (and_congr decide_eq_true_iff decide_eq_true_iff)

theorem index?_eq_some : index? s = some n ↔
    s ≠ [] ∧ (∀ d ∈ s, '0' ≤ d ∧ d ≤ '9') ∧ decimalValue s < 2 ^ 64 ∧ decimalValue s = n := by
  have hsize : wordSize = 2 ^ 64 := by decide
  simp [index?, ofDigits_eq_decimalValue, hsize, isDigit_iff, and_assoc]

end Text

namespace Reference

open Text

/-- The token writes the reference. -/
inductive Writes : List Char → Reference → Prop
  | positional {sign digits : List Char} : sign = [] ∨ sign = ['+'] → digits ≠ [] →
      (∀ d ∈ digits, '0' ≤ d ∧ d ≤ '9') → decimalValue digits < 2 ^ 64 →
      Writes ('@' :: (sign ++ digits)) (.positional (decimalValue digits))
  | named {name : List Char} : name ≠ [] → (∀ c ∈ name, isBlank c = false) →
      Writes ('$' :: name) (.named (String.ofList ('$' :: name)))

variable {s digits : List Char} {r : Reference} {token : String}

theorem unsigned_digits (h : ∀ d ∈ digits, '0' ≤ d ∧ d ≤ '9') : unsigned digits = digits := by
  unfold unsigned
  split
  · exact absurd (h '+' List.mem_cons_self) (by decide)
  · rfl

theorem exists_sign (s : List Char) :
    ∃ sign, (sign = [] ∨ sign = ['+']) ∧ s = sign ++ unsigned s := by
  unfold unsigned
  split
  · exact ⟨['+'], .inr rfl, rfl⟩
  · exact ⟨[], .inl rfl, rfl⟩

theorem ofChars?_eq_some : ofChars? s = some r ↔ Writes s r := by
  constructor
  · intro h
    unfold ofChars? at h
    split at h
    · rename_i s
      obtain ⟨n, hn, rfl⟩ := Option.map_eq_some_iff.1 h
      obtain ⟨hne, hdigits, hlt, rfl⟩ := index?_eq_some.1 hn
      obtain ⟨sign, hsign, hs⟩ := exists_sign s
      have hwrites := Writes.positional hsign hne hdigits hlt
      rwa [← hs] at hwrites
    · rename_i name
      split at h
      · cases h
      · rename_i hname
        cases h
        simp only [Bool.or_eq_true, List.isEmpty_iff, List.any_eq_true, not_or, not_exists, not_and,
          Bool.not_eq_true] at hname
        exact .named hname.1 hname.2
    · cases h
  · rintro (⟨hsign, hne, hdigits, hlt⟩ | ⟨hne, hname⟩)
    · rename_i sign digits
      have hread : unsigned (sign ++ digits) = digits := by
        rcases hsign with rfl | rfl
        · exact unsigned_digits hdigits
        · rfl
      rw [ofChars?, hread, index?_eq_some.2 ⟨hne, hdigits, hlt, rfl⟩]
      rfl
    · rename_i name
      have hany : name.any isBlank = false := by simpa using hname
      simp [ofChars?, hne, hany]

theorem parse_eq_ok : parse token = .ok r ↔ Writes token.toList r := by
  rw [← ofChars?_eq_some, parse]
  rcases ofChars? token.toList with _ | r' <;> simp

theorem parse_eq_error :
    parse token = .error (.invalidReference token) ↔ ∀ r, ¬ Writes token.toList r := by
  simp only [← ofChars?_eq_some, parse]
  rcases ofChars? token.toList with _ | r' <;> simp

/-- The text of a reference that some token writes is a token of it too. -/
theorem Writes.text (h : Writes s r) : Writes r.text.toList r := by
  rcases h with ⟨-, -, -, hlt⟩ | ⟨hne, hname⟩
  · obtain ⟨hne, hdigits, hlt, hvalue⟩ := index?_eq_some.1 (index?_repr hlt)
    have hwrites := Writes.positional (.inl rfl) hne hdigits hlt
    rw [hvalue] at hwrites
    simpa [Reference.text] using hwrites
  · simpa [Reference.text] using Writes.named hne hname

/-- A token is read as the reference that it writes, and refused by itself if it writes none. The
text of a reference that was read is read as this reference. -/
theorem parse_tokens (token : String) :
    (∀ r, parse token = .ok r ↔ Writes token.toList r)
      ∧ (parse token = .error (.invalidReference token) ↔ ∀ r, ¬ Writes token.toList r)
      ∧ ∀ r, parse token = .ok r → parse r.text = .ok r :=
  ⟨fun _ => parse_eq_ok, parse_eq_error, fun _ h => parse_eq_ok.2 (parse_eq_ok.1 h).text⟩

/-- The greatest position, with a sign and leading zeros, and the first number beyond it. -/
example : parse "@+0018446744073709551615" = .ok (.positional 18446744073709551615)
    ∧ parse "@18446744073709551616" = .error (.invalidReference "@18446744073709551616") :=
  ⟨rfl, rfl⟩

end Reference

end Testimony
