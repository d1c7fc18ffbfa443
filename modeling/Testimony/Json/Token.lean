import Testimony.Json.Basic

/-!
# The tokens of a JSON text

Brackets, separators, literals, numbers and strings, with blanks between them. `Token.split?` cuts
a whole text into its tokens; `length_of_first?` says that each takes at least one character,
which is why the cutting ends.
-/

namespace Testimony.Json

inductive Token where
  | openArray
  | closeArray
  | openObject
  | closeObject
  | comma
  | colon
  | null
  | bool (b : Bool)
  | number (literal : String)
  /-- The text that a string names, if its code units are a text. -/
  | string (text : Option String)
deriving DecidableEq

/-- Blanks between tokens, of which JSON knows four. -/
def isSpace (c : Char) : Bool :=
  c = ' ' || c = '\t' || c = '\n' || c = '\r'

/-! ### Strings -/

def hexValue? (c : Char) : Option Nat :=
  if c.isDigit then some (c.toNat - '0'.toNat)
  else if 'a' ≤ c ∧ c ≤ 'f' then some (c.toNat - 'a'.toNat + 10)
  else if 'A' ≤ c ∧ c ≤ 'F' then some (c.toNat - 'A'.toNat + 10)
  else none

/-- The code unit of four hexadecimal digits. -/
def codeUnit? (a b c d : Char) : Option Nat := do
  some (4096 * (← hexValue? a) + 256 * (← hexValue? b) + 16 * (← hexValue? c) + (← hexValue? d))

/-- The character of an escape of one letter. -/
def shortEscape? : Char → Option Char
  | '"' => some '"'
  | '\\' => some '\\'
  | '/' => some '/'
  | 'b' => some '\x08'
  | 'f' => some '\x0c'
  | 'n' => some '\n'
  | 'r' => some '\r'
  | 't' => some '\t'
  | _ => none

/-- The code points and code units of a string up to its closing quote, and the rest. -/
def stringBody? : List Char → Option (List Nat × List Char)
  | [] => none
  | '"' :: r => some ([], r)
  | '\\' :: 'u' :: a :: b :: c :: d :: r => do
    let u ← codeUnit? a b c d
    let (us, rest) ← stringBody? r
    some (u :: us, rest)
  | '\\' :: e :: r => do
    let c ← shortEscape? e
    let (us, rest) ← stringBody? r
    some (c.toNat :: us, rest)
  | c :: r =>
    if c.toNat < 0x20 || c = '\\' then none
    else do
      let (us, rest) ← stringBody? r
      some (c.toNat :: us, rest)

def isHighSurrogate (u : Nat) : Bool := 0xD800 ≤ u && u < 0xDC00

def isLowSurrogate (u : Nat) : Bool := 0xDC00 ≤ u && u < 0xE000

/-- The text of code points and code units: a high surrogate joins the low one after it, and
either of them alone is no text. -/
def textOfUnits? : List Nat → Option (List Char)
  | [] => some []
  | high :: low :: r =>
    if isHighSurrogate high && isLowSurrogate low then
      (textOfUnits? r).map (Char.ofNat (0x10000 + (high - 0xD800) * 0x400 + (low - 0xDC00)) :: ·)
    else if isHighSurrogate high || isLowSurrogate high then none
    else (textOfUnits? (low :: r)).map (Char.ofNat high :: ·)
  | [u] => if isHighSurrogate u || isLowSurrogate u then none else some [Char.ofNat u]

/-! ### Numbers -/

/-- One digit or more, and the rest. -/
def someDigits? (s : List Char) : Option (List Char × List Char) :=
  match s.takeWhile Char.isDigit with
  | [] => none
  | d :: ds => some (d :: ds, s.dropWhile Char.isDigit)

/-- The digits before the point: a zero stands only for itself. -/
def wholePart? : List Char → Option (List Char × List Char)
  | '0' :: r => some (['0'], r)
  | s => someDigits? s

def fractionPart? : List Char → Option (List Char × List Char)
  | '.' :: r => (someDigits? r).map fun (ds, rest) => ('.' :: ds, rest)
  | s => some ([], s)

/-- The sign of a power of ten, which may be left out. -/
def powerSign : List Char → List Char × List Char
  | '+' :: r => (['+'], r)
  | '-' :: r => (['-'], r)
  | s => ([], s)

def powerPart? : List Char → Option (List Char × List Char)
  | [] => some ([], [])
  | c :: r =>
    if c = 'e' || c = 'E' then
      (someDigits? (powerSign r).2).map fun (ds, rest) => (c :: ((powerSign r).1 ++ ds), rest)
    else some ([], c :: r)

def unsignedNumber? (s : List Char) : Option (List Char × List Char) := do
  let (whole, s) ← wholePart? s
  let (fractional, s) ← fractionPart? s
  let (power, s) ← powerPart? s
  some (whole ++ fractional ++ power, s)

def numberLiteral? : List Char → Option (List Char × List Char)
  | '-' :: r => (unsignedNumber? r).map fun (ds, rest) => ('-' :: ds, rest)
  | s => unsignedNumber? s

/-! ### Tokens -/

namespace Token

/-- The first token of a text that starts with one, and the rest. -/
def first? : List Char → Option (Token × List Char)
  | [] => none
  | '[' :: r => some (openArray, r)
  | ']' :: r => some (closeArray, r)
  | '\x7b' :: r => some (openObject, r)
  | '\x7d' :: r => some (closeObject, r)
  | ',' :: r => some (comma, r)
  | ':' :: r => some (colon, r)
  | 'n' :: 'u' :: 'l' :: 'l' :: r => some (null, r)
  | 't' :: 'r' :: 'u' :: 'e' :: r => some (bool true, r)
  | 'f' :: 'a' :: 'l' :: 's' :: 'e' :: r => some (bool false, r)
  | '"' :: r =>
    (stringBody? r).map fun (us, rest) => (string ((textOfUnits? us).map String.ofList), rest)
  | c :: r => (numberLiteral? (c :: r)).map fun (ds, rest) => (number (String.ofList ds), rest)

end Token

theorem length_of_stringBody? {s rest : List Char} {us : List Nat}
    (h : stringBody? s = some (us, rest)) : rest.length < s.length := by
  fun_induction stringBody? s generalizing us rest with
  | case1 => simp at h
  | case2 r => simp only [Option.some.injEq, Prod.mk.injEq] at h; simp [← h.2]
  | case3 a b c d r ih =>
    simp only [Option.bind_eq_bind, Option.bind_eq_some_iff, Option.some.injEq,
      Prod.mk.injEq] at h
    obtain ⟨u, _, ⟨vs, r'⟩, hr, _, rfl⟩ := h
    have := ih hr
    simp only [List.length_cons]
    omega
  | case4 e r _ ih =>
    simp only [Option.bind_eq_bind, Option.bind_eq_some_iff, Option.some.injEq,
      Prod.mk.injEq] at h
    obtain ⟨u, _, ⟨vs, r'⟩, hr, _, rfl⟩ := h
    have := ih hr
    simp only [List.length_cons]
    omega
  | case5 => simp at h
  | case6 c r _ _ _ _ ih =>
    simp only [Option.bind_eq_bind, Option.bind_eq_some_iff, Option.some.injEq,
      Prod.mk.injEq] at h
    obtain ⟨⟨vs, r'⟩, hr, _, rfl⟩ := h
    have := ih hr
    simp only [List.length_cons]
    omega

theorem length_of_someDigits? {s ds rest : List Char} (h : someDigits? s = some (ds, rest)) :
    rest.length < s.length := by
  have hs : (s.takeWhile Char.isDigit ++ s.dropWhile Char.isDigit).length = s.length := by
    rw [List.takeWhile_append_dropWhile]
  rw [List.length_append] at hs
  unfold someDigits? at h
  split at h
  · simp at h
  · rename_i d ds' htake
    simp only [Option.some.injEq, Prod.mk.injEq] at h
    rw [htake, h.2, List.length_cons] at hs
    omega

theorem length_of_wholePart? {s ds rest : List Char} (h : wholePart? s = some (ds, rest)) :
    rest.length < s.length := by
  unfold wholePart? at h
  split at h
  · simp only [Option.some.injEq, Prod.mk.injEq] at h
    simp [← h.2]
  · exact length_of_someDigits? h

theorem length_of_fractionPart? {s ds rest : List Char} (h : fractionPart? s = some (ds, rest)) :
    rest.length ≤ s.length := by
  unfold fractionPart? at h
  split at h
  · obtain ⟨⟨es, r'⟩, hr, he⟩ := Option.map_eq_some_iff.1 h
    simp only [Prod.mk.injEq] at he
    have := length_of_someDigits? hr
    simp only [List.length_cons, ← he.2]
    omega
  · simp only [Option.some.injEq, Prod.mk.injEq] at h
    simp [h.2]

theorem length_powerSign (s : List Char) : (powerSign s).2.length ≤ s.length := by
  unfold powerSign
  split <;> simp

theorem length_of_powerPart? {s ds rest : List Char} (h : powerPart? s = some (ds, rest)) :
    rest.length ≤ s.length := by
  unfold powerPart? at h
  split at h
  · simp only [Option.some.injEq, Prod.mk.injEq] at h
    simp [← h.2]
  · rename_i c r
    split at h
    · obtain ⟨⟨es, r'⟩, hr, he⟩ := Option.map_eq_some_iff.1 h
      simp only [Prod.mk.injEq] at he
      have := length_of_someDigits? hr
      have := length_powerSign r
      simp only [List.length_cons, ← he.2]
      omega
    · simp only [Option.some.injEq, Prod.mk.injEq] at h
      simp [← h.2]

theorem length_of_unsignedNumber? {s ds rest : List Char}
    (h : unsignedNumber? s = some (ds, rest)) : rest.length < s.length := by
  simp only [unsignedNumber?, Option.bind_eq_bind, Option.bind_eq_some_iff, Option.some.injEq,
    Prod.mk.injEq] at h
  obtain ⟨⟨whole, s₁⟩, hw, ⟨fractional, s₂⟩, hf, ⟨power, s₃⟩, hp, _, rfl⟩ := h
  exact Nat.lt_of_le_of_lt (length_of_powerPart? hp)
    (Nat.lt_of_le_of_lt (length_of_fractionPart? hf) (length_of_wholePart? hw))

theorem length_of_numberLiteral? {s ds rest : List Char}
    (h : numberLiteral? s = some (ds, rest)) : rest.length < s.length := by
  unfold numberLiteral? at h
  split at h
  · obtain ⟨⟨es, r'⟩, hr, he⟩ := Option.map_eq_some_iff.1 h
    simp only [Prod.mk.injEq] at he
    have := length_of_unsignedNumber? hr
    simp only [List.length_cons, ← he.2]
    omega
  · exact length_of_unsignedNumber? h

namespace Token

theorem length_of_first? {s rest : List Char} {t : Token} (h : first? s = some (t, rest)) :
    rest.length < s.length := by
  unfold first? at h
  split at h
  case h_1 => simp at h
  case h_11 r =>
    obtain ⟨⟨us, r'⟩, hr, he⟩ := Option.map_eq_some_iff.1 h
    simp only [Prod.mk.injEq] at he
    have := length_of_stringBody? hr
    simp only [List.length_cons, ← he.2]
    omega
  case h_12 c r _ _ _ _ _ _ _ _ _ _ =>
    obtain ⟨⟨ds, r'⟩, hr, he⟩ := Option.map_eq_some_iff.1 h
    simp only [Prod.mk.injEq] at he
    exact he.2 ▸ length_of_numberLiteral? hr
  all_goals
    simp only [Option.some.injEq, Prod.mk.injEq] at h
    simp only [List.length_cons, ← h.2]
    omega

/-- The tokens of a text, if it consists of tokens and blanks. -/
def split? (s : List Char) : Option (List Token) :=
  match s with
  | [] => some []
  | c :: r =>
    if isSpace c then split? r
    else
      match h : first? (c :: r) with
      | none => none
      | some (t, rest) =>
        have := length_of_first? h
        (split? rest).map (t :: ·)
termination_by s.length
decreasing_by
  · exact Nat.lt_succ_self _
  · assumption

end Token

end Testimony.Json
