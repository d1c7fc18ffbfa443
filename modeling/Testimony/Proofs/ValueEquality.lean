import Mathlib.Algebra.Group.Nat.Defs
import Mathlib.Tactic.SplitIfs
import Testimony.Leaf
import Testimony.Operator.Apply
import Testimony.Proofs.Path

/-!
# Equality of values

Two bit patterns stand for one number if they are the same or both of zero (`Number.equals_iff`),
since apart from the zeros a number has one pattern: exponent and fraction can be told from the
magnitude (`Number.fields_of_magnitude_eq`). The key of a number folds the zeros and nothing else
(`Number.key_eq_iff`).

So values are equal if their digests are (`Value.beq_iff_digest_eq`), which is to say, if they have
one kind and one content (`Value.beq_iff_same`). That is an equivalence, hashing respects it, and
the operator that asks for equality differs from it for NaN alone (`Operator.same_eq`).
`equality_lawful` puts these together.
-/

namespace Testimony

/-! ## Numbers -/

namespace Number

variable {x y : Number}

theorem leadingBit_eq : leadingBit = 4503599627370496 := by decide

theorem signWord_eq : signWord = 9223372036854775808 := by decide

theorem exponent_lt (x : Number) : x.exponent < 2048 := Nat.mod_lt _ (by decide)

theorem fraction_lt (x : Number) : x.fraction < leadingBit := Nat.mod_lt _ (by decide)

theorem word_eq (x : Number) :
    x.word = (if x.isNegative then signWord else 0) + x.exponent * leadingBit + x.fraction := by
  have hlt : x.word < 18446744073709551616 := x.bits.toNat_lt
  simp only [isNegative, exponent, fraction, leadingBit_eq, signWord_eq, decide_eq_true_eq,
    Nat.shiftRight_eq_div_pow]
  split_ifs <;> omega

theorem eq_of_bits_eq (h : x.bits = y.bits) : x = y := by
  cases x
  cases y
  cases h
  rfl

/-- A number is known by its sign, its exponent and its fraction. -/
theorem eq_of_fields_eq (hsign : x.isNegative = y.isNegative) (hexponent : x.exponent = y.exponent)
    (hfraction : x.fraction = y.fraction) : x = y := by
  have hword : x.word = y.word := by rw [word_eq x, word_eq y, hsign, hexponent, hfraction]
  exact eq_of_bits_eq (UInt64.toNat_inj.1 hword)

theorem magnitude_eq (x : Number) : x.magnitude = x.significand * 2 ^ x.unit :=
  Nat.shiftLeft_eq _ _

theorem significand_lt (x : Number) : x.significand < 2 * leadingBit := by
  have hlt := x.fraction_lt
  unfold significand
  split_ifs <;> omega

theorem significand_lt_of_eq_zero (h : x.exponent = 0) : x.significand < leadingBit := by
  rw [significand, if_pos h]
  exact x.fraction_lt

theorem le_significand (h : x.exponent ≠ 0) : leadingBit ≤ x.significand := by
  rw [significand, if_neg h]
  exact Nat.le_add_right _ _

/-- The greater exponent belongs to the greater magnitude, whatever the fractions. -/
theorem magnitude_lt (h : x.exponent < y.exponent) : x.magnitude < y.magnitude := by
  have hy : leadingBit ≤ y.significand := le_significand (by omega)
  rw [magnitude_eq, magnitude_eq]
  by_cases hx : x.exponent = 0
  · have hunit : x.unit = 0 := by simp [unit, hx]
    have hsig := significand_lt_of_eq_zero hx
    calc x.significand * 2 ^ x.unit = x.significand := by rw [hunit, Nat.pow_zero, Nat.mul_one]
      _ < y.significand := by omega
      _ ≤ y.significand * 2 ^ y.unit := Nat.le_mul_of_pos_right _ (Nat.two_pow_pos _)
  · have hunit : x.unit + 1 ≤ y.unit := by
      simp only [unit]
      omega
    calc x.significand * 2 ^ x.unit
        < 2 * leadingBit * 2 ^ x.unit :=
          Nat.mul_lt_mul_of_pos_right x.significand_lt (Nat.two_pow_pos _)
      _ = leadingBit * 2 ^ (x.unit + 1) := by
          rw [Nat.pow_succ, Nat.mul_comm 2, Nat.mul_assoc, Nat.mul_comm 2]
      _ ≤ y.significand * 2 ^ y.unit :=
          Nat.mul_le_mul hy (Nat.pow_le_pow_right (by decide) hunit)

theorem fields_of_magnitude_eq (h : x.magnitude = y.magnitude) :
    x.exponent = y.exponent ∧ x.fraction = y.fraction := by
  have hexponent : x.exponent = y.exponent := by
    rcases Nat.lt_trichotomy x.exponent y.exponent with hlt | heq | hlt
    · exact absurd h (Nat.ne_of_lt (magnitude_lt hlt))
    · exact heq
    · exact absurd h (Nat.ne_of_gt (magnitude_lt hlt))
  have hunit : x.unit = y.unit := by rw [unit, unit, hexponent]
  have hsig : x.significand = y.significand := by
    rw [magnitude_eq, magnitude_eq, hunit] at h
    exact Nat.eq_of_mul_eq_mul_right (Nat.two_pow_pos _) h
  refine ⟨hexponent, ?_⟩
  simp only [significand, hexponent] at hsig
  split_ifs at hsig <;> omega

/-! ### The two zeros -/

/-- The patterns of zero, with and without the sign. -/
def zeros : List UInt64 := [0, 0x8000000000000000]

theorem isZero_iff_fields : x.isZero = true ↔ x.exponent = 0 ∧ x.fraction = 0 := by
  have hpos : 0 < leadingBit := by decide
  simp only [isZero, beq_iff_eq, magnitude_eq, Nat.mul_eq_zero, Nat.ne_of_gt (Nat.two_pow_pos _),
    or_false, significand]
  split_ifs <;> omega

theorem isZero_iff_mem_zeros : x.isZero = true ↔ x.bits ∈ zeros := by
  have hword : x.bits ∈ zeros ↔ x.word = 0 ∨ x.word = signWord := by
    simp only [zeros, List.mem_cons, List.not_mem_nil, or_false, word, ← UInt64.toNat_inj,
      signWord_eq]
    rfl
  have hfields := x.word_eq
  have hexponent := x.exponent_lt
  have hfraction := x.fraction_lt
  rw [isZero_iff_fields, hword]
  simp only [leadingBit_eq, signWord_eq] at hfields hfraction ⊢
  split_ifs at hfields <;> omega

theorem isNaN_of_isZero (h : x.isZero = true) : x.isNaN = false := by
  simp [isNaN, (isZero_iff_fields.1 h).1]

/-! ### Equality -/

/-- One pattern, or two of zero. -/
def Same (x y : Number) : Prop := x = y ∨ x.bits ∈ zeros ∧ y.bits ∈ zeros

theorem same_iff : x.Same y ↔ x = y ∨ x.isZero = true ∧ y.isZero = true := by
  rw [Same, isZero_iff_mem_zeros, isZero_iff_mem_zeros]

theorem scaled_eq_iff : x.scaled = y.scaled ↔ x.Same y := by
  rw [same_iff]
  constructor
  · intro h
    by_cases hsign : x.isNegative = y.isNegative
    · have hmagnitude : x.magnitude = y.magnitude := by
        simp only [scaled, hsign] at h
        split_ifs at h <;> omega
      obtain ⟨hexponent, hfraction⟩ := fields_of_magnitude_eq hmagnitude
      exact .inl (eq_of_fields_eq hsign hexponent hfraction)
    · right
      simp only [isZero, beq_iff_eq]
      simp only [scaled] at h
      split_ifs at h with hx hy hy
      · exact absurd (hx.trans hy.symm) hsign
      · omega
      · omega
      · exact absurd (by simp [hx, hy]) hsign
  · rintro (rfl | ⟨hx, hy⟩)
    · rfl
    · simp only [isZero, beq_iff_eq] at hx hy
      simp [scaled, hx, hy]

theorem equals_iff : x.equals y = true ↔ x.isNaN = false ∧ y.isNaN = false ∧ x.Same y := by
  simp only [equals, Bool.and_eq_true, Bool.not_eq_true', beq_iff_eq, scaled_eq_iff, and_assoc]

theorem key_of_isZero (h : x.isZero = true) : x.key = 0 := if_pos h

theorem key_of_not_isZero (h : ¬ x.isZero = true) : x.key = x.bits := if_neg h

theorem key_eq_zero : x.key = 0 ↔ x.isZero = true := by
  by_cases h : x.isZero = true
  · simp [key_of_isZero h, h]
  · have hbits : x.bits ≠ 0 := fun hbits => h (isZero_iff_mem_zeros.2 (by simp [zeros, hbits]))
    simp [key_of_not_isZero h, h, hbits]

theorem key_eq_iff : x.key = y.key ↔ x.Same y := by
  rw [same_iff]
  constructor
  · intro h
    by_cases hx : x.isZero = true
    · rw [key_of_isZero hx, eq_comm, key_eq_zero] at h
      exact .inr ⟨hx, h⟩
    · have hy : ¬ y.isZero = true := by rwa [← key_eq_zero, ← h, key_eq_zero]
      rw [key_of_not_isZero hx, key_of_not_isZero hy] at h
      exact .inl (eq_of_bits_eq h)
  · rintro (rfl | ⟨hx, hy⟩)
    · rfl
    · rw [key_of_isZero hx, key_of_isZero hy]

/-- Numbers are equal if their keys are, and the one, so also the other, is no NaN. -/
theorem equals_eq (x y : Number) : x.equals y = (x.key == y.key && !x.isNaN) := by
  rw [Bool.eq_iff_iff, equals_iff, Bool.and_eq_true, beq_iff_eq, key_eq_iff, Bool.not_eq_true',
    same_iff]
  constructor
  · rintro ⟨hx, -, h⟩
    exact ⟨h, hx⟩
  · rintro ⟨rfl | ⟨hx, hy⟩, hnan⟩
    · exact ⟨hnan, hnan, .inl rfl⟩
    · exact ⟨hnan, isNaN_of_isZero hy, .inr ⟨hx, hy⟩⟩

end Number

/-! ## Values -/

section Digests

variable {α β : Type} [BEq α] {f : α → β}

/-- Equality that looks at one thing is an equivalence. -/
theorem equivBEq_of_iff (h : ∀ a b : α, a == b ↔ f a = f b) : EquivBEq α where
  rfl := (h _ _).2 rfl
  symm hab := (h _ _).2 ((h _ _).1 hab).symm
  trans hab hbc := (h _ _).2 (((h _ _).1 hab).trans ((h _ _).1 hbc))

theorem lawfulHashable_of_iff [Hashable α] [Hashable β] (h : ∀ a b : α, a == b ↔ f a = f b)
    (hf : ∀ a, hash a = hash (f a)) : LawfulHashable α where
  hash_eq a b hab := by rw [hf, hf, (h a b).1 hab]

end Digests

variable {ν : Type} [Node ν]

namespace Value

/-- The value is a number that is none. -/
def isNaN : Value ν → Bool
  | number x => x.isNaN
  | _ => false

/-- Equality looks at the digests. -/
theorem beq_iff_digest_eq {a b : Value ν} : a == b ↔ a.digest = b.digest := by
  cases a <;> cases b <;> simp [BEq.beq, equals, digest]

instance : EquivBEq (Value ν) := equivBEq_of_iff fun _ _ => beq_iff_digest_eq

instance : LawfulHashable (Value ν) :=
  lawfulHashable_of_iff (fun _ _ => beq_iff_digest_eq) fun _ => rfl

/-- What equality says: one kind and one content, where the two zeros are one number and an element
is known by its identity. -/
inductive Same : Value ν → Value ν → Prop
  | null : Same null null
  | boolean (b : Bool) : Same (boolean b) (boolean b)
  | number {x y : Number} : x.Same y → Same (number x) (number y)
  | text (s : String) : Same (text s) (text s)
  | element {m n : ν} : Node.identity m = Node.identity n → Same (element m) (element n)

theorem beq_iff_same {a b : Value ν} : a == b ↔ Same a b := by
  rw [beq_iff_digest_eq]
  constructor
  · intro h
    cases a <;> cases b <;>
      simp only [digest, reduceCtorEq, Digest.boolean.injEq, Digest.number.injEq,
        Digest.text.injEq, Digest.element.injEq] at h
    case null.null => exact .null
    case boolean.boolean => exact h ▸ .boolean _
    case number.number => exact .number (Number.key_eq_iff.1 h)
    case text.text => exact h ▸ .text _
    case element.element => exact .element h
  · rintro (_ | _ | h | _ | h)
    · rfl
    · rfl
    · rw [digest, digest, Number.key_eq_iff.2 h]
    · rfl
    · rw [digest, digest, h]

end Value

/-! ## Leaves -/

namespace Leaf

variable {l m : Leaf ν}

theorem digest_eq_iff : l.digest = m.digest ↔ l.object == m.object ∧ l.path = m.path := by
  rw [digest, digest, Prod.mk.injEq, Value.beq_iff_digest_eq]
  exact and_congr_right fun _ => ⟨Path.eq_of_steps_eq, congrArg Path.steps⟩

theorem beq_iff_digest_eq : l == m ↔ l.digest = m.digest := by
  rw [digest_eq_iff]
  simp [BEq.beq, equals]

instance : EquivBEq (Leaf ν) := equivBEq_of_iff fun _ _ => beq_iff_digest_eq

instance : LawfulHashable (Leaf ν) :=
  lawfulHashable_of_iff (fun _ _ => beq_iff_digest_eq) fun _ => rfl

end Leaf

/-! ## The operator -/

namespace Operator

/-- The operator for equality finds equal what is equal, but for NaN. -/
theorem same_eq (a b : Value ν) : same a b = (a == b && !a.isNaN) := by
  cases a with
  | number x =>
    cases b with
    | number y => exact Number.equals_eq x y
    | _ => rfl
  | _ => cases b <;> simp [same, Value.isNaN]

theorem apply_isEqualTo (a b : Value ν) :
    isEqualTo.apply [a, b] = .ok (.scalar (.boolean (a == b && !a.isNaN))) := by
  rw [← same_eq]
  rfl

theorem apply_isEqualTo_number {x y : Number} :
    isEqualTo.apply [(.number x : Value ν), .number y] = .ok (.scalar (.boolean true)) ↔
      x.isNaN = false ∧ y.isNaN = false ∧ x.Same y := by
  have happly : isEqualTo.apply [(.number x : Value ν), .number y]
      = .ok (.scalar (.boolean (x.equals y))) := rfl
  simp only [happly, Except.ok.injEq, Output.scalar.injEq, Value.boolean.injEq, Number.equals_iff]

end Operator

/-- Equality of values is an equivalence, and values and leaves that are equal are hashed alike. A
number is equal to itself alone, and the one zero to the other; the operator for equality goes by
this too, but finds no NaN equal to anything. -/
theorem equality_lawful :
    (∀ a : Value ν, a == a)
      ∧ (∀ a b : Value ν, a == b → b == a)
      ∧ (∀ a b c : Value ν, a == b → b == c → a == c)
      ∧ (∀ a b : Value ν, a == b ↔ a.digest = b.digest)
      ∧ (∀ l m : Leaf ν, l.object == m.object ∧ l.path = m.path ↔ l.digest = m.digest)
      ∧ (∀ a b : Value ν, a == b ↔ a.Same b)
      ∧ (∀ a b : Value ν,
        Operator.isEqualTo.apply [a, b] = .ok (.scalar (.boolean (a == b && !a.isNaN))))
      ∧ ∀ x y : Number, Operator.isEqualTo.apply [(.number x : Value ν), .number y]
          = .ok (.scalar (.boolean true)) ↔
        x.isNaN = false ∧ y.isNaN = false ∧ x.Same y :=
  ⟨fun _ => BEq.rfl, fun _ _ => BEq.symm, fun _ _ _ => BEq.trans,
    fun _ _ => Value.beq_iff_digest_eq, fun _ _ => Leaf.digest_eq_iff.symm,
    fun _ _ => Value.beq_iff_same, Operator.apply_isEqualTo,
    fun _ _ => Operator.apply_isEqualTo_number⟩

end Testimony
