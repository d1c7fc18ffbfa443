import Testimony.Selector.Basic
import Testimony.Text

/-!
# Reading selectors

Each reader takes a list of characters and gives what it read at the front together with the
rest, so the place where one stops is where the next begins. `length_of_compound` says that a
compound takes at least one character; this is why the loops over combinators and alternatives
end.
-/

namespace Testimony.Selector

/-- Why a text is no selector. -/
inductive Malformation where
  | identifierExpected (after : Char)
  | unexpected (found : Char)
  | selectorExpected
  | equalsExpected
  | unterminatedString
  | unclosedAttribute
deriving DecidableEq

def Malformation.message : Malformation → String
  | .identifierExpected after => s!"expected identifier after '{after}'"
  | .unexpected found => s!"unexpected character '{found}'"
  | .selectorExpected => "expected a selector"
  | .equalsExpected => "expected '=' or ']' in attribute selector"
  | .unterminatedString => "unterminated string in attribute selector"
  | .unclosedAttribute => "expected ']' to close attribute selector"

/-! ### Identifiers -/

def isIdentStart (c : Char) : Bool := c.isAlpha || c = '_'

def isIdentChar (c : Char) : Bool := c.isAlphanum || c = '_' || c = '-'

/-- The longest identifier at the front: one hyphen at most, a letter or underscore, and then
letters, digits, underscores and hyphens. -/
def ident? : List Char → Option (List Char × List Char)
  | '-' :: c :: r =>
    if isIdentStart c then some ('-' :: c :: r.takeWhile isIdentChar, r.dropWhile isIdentChar)
    else none
  | c :: r =>
    if isIdentStart c then some (c :: r.takeWhile isIdentChar, r.dropWhile isIdentChar) else none
  | [] => none

/-- An identifier that must follow the character `after`. -/
def ident (after : Char) (s : List Char) : Except Malformation (String × List Char) :=
  match ident? s with
  | some (name, rest) => .ok (String.ofList name, rest)
  | none => .error (.identifierExpected after)

/-! ### Compounds -/

/-- The text up to the closing quote, and the rest after it. -/
def quotedText (quote : Char) (s : List Char) : Except Malformation (String × List Char) :=
  match s.dropWhile (· != quote) with
  | _ :: rest => .ok (String.ofList (s.takeWhile (· != quote)), rest)
  | [] => .error .unterminatedString

/-- The value of an attribute test, bare or between quotes of either kind. -/
def attributeValue : List Char → Except Malformation (String × List Char)
  | '"' :: r => quotedText '"' r
  | '\'' :: r => quotedText '\'' r
  | s => ident '=' s

/-- The test after an opening bracket, through the closing one. -/
def attributeTest (s : List Char) : Except Malformation (AttributeTest × List Char) := do
  let (name, s) ← ident '[' (Text.skipBlank s)
  match Text.skipBlank s with
  | ']' :: rest => .ok (.present name.toLower, rest)
  | '=' :: s =>
    let (value, s) ← attributeValue (Text.skipBlank s)
    match Text.skipBlank s with
    | ']' :: rest => .ok (.equals name.toLower value, rest)
    | _ => .error .unclosedAttribute
  | _ => .error .equalsExpected

/-- A part of a compound after its tag. -/
inductive Qualifier where
  | id (name : String)
  | class (name : String)
  | attribute (test : AttributeTest)
deriving DecidableEq

/-- The qualifier at the front, if its mark stands there. -/
def qualifier? : List Char → Option (Except Malformation (Qualifier × List Char))
  | '#' :: r => some ((ident '#' r).map fun (name, rest) => (.id name, rest))
  | '.' :: r => some ((ident '.' r).map fun (name, rest) => (.class name, rest))
  | '[' :: r => some ((attributeTest r).map fun (test, rest) => (.attribute test, rest))
  | _ => none

def Qualifier.addTo (c : Compound) : Qualifier → Compound
  | .id name => { c with ids := name :: c.ids }
  | .class name => { c with classes := name :: c.classes }
  | .attribute test => { c with attributes := test :: c.attributes }

/-- The compound of a tag and the qualifiers behind it. -/
def compoundOf (tag : Option String) (qualifiers : List Qualifier) : Compound :=
  qualifiers.foldr (fun q c => q.addTo c) { tag }

theorem map_eq_ok {ε α β : Type} {f : α → β} {x : Except ε α} {b : β} :
    x.map f = .ok b ↔ ∃ a, x = .ok a ∧ f a = b := by
  rcases x with e | a <;> simp [Except.map]

theorem length_of_ident? {s name rest : List Char} (h : ident? s = some (name, rest)) :
    rest.length < s.length := by
  have hd (r : List Char) : (r.dropWhile isIdentChar).length ≤ r.length :=
    (List.dropWhile_suffix isIdentChar).length_le
  unfold ident? at h
  split at h
  · split at h
    · simp only [Option.some.injEq, Prod.mk.injEq] at h
      rename_i r _
      have := hd r
      simp only [List.length_cons, ← h.2]
      omega
    · simp at h
  · split at h
    · simp only [Option.some.injEq, Prod.mk.injEq] at h
      rename_i r _ _
      have := hd r
      simp only [List.length_cons, ← h.2]
      omega
    · simp at h
  · simp at h

theorem length_of_ident {after : Char} {s rest : List Char} {name : String}
    (h : ident after s = .ok (name, rest)) : rest.length < s.length := by
  unfold ident at h
  split at h
  · simp only [Except.ok.injEq, Prod.mk.injEq] at h
    exact h.2 ▸ length_of_ident? ‹_›
  · simp at h

theorem length_of_quotedText {quote : Char} {s rest : List Char} {text : String}
    (h : quotedText quote s = .ok (text, rest)) : rest.length < s.length := by
  have hd : (s.dropWhile (· != quote)).length ≤ s.length :=
    (List.dropWhile_suffix (· != quote)).length_le
  unfold quotedText at h
  split at h
  · rename_i c r hs
    simp only [Except.ok.injEq, Prod.mk.injEq] at h
    rw [hs, List.length_cons, h.2] at hd
    omega
  · simp at h

theorem length_of_attributeValue {s rest : List Char} {text : String}
    (h : attributeValue s = .ok (text, rest)) : rest.length < s.length := by
  unfold attributeValue at h
  split at h
  · have := length_of_quotedText h
    simp only [List.length_cons]
    omega
  · have := length_of_quotedText h
    simp only [List.length_cons]
    omega
  · exact length_of_ident h

theorem length_of_attributeTest {s rest : List Char} {test : AttributeTest}
    (h : attributeTest s = .ok (test, rest)) : rest.length < s.length := by
  have hs := Text.length_skipBlank_le s
  simp only [attributeTest, bind, Except.bind] at h
  split at h
  · simp at h
  · rename_i v hname
    have h₁ := length_of_ident hname
    have h₂ := Text.length_skipBlank_le v.2
    split at h
    · rename_i r hr
      simp only [Except.ok.injEq, Prod.mk.injEq] at h
      rw [hr, List.length_cons, h.2] at h₂
      omega
    · rename_i r hr
      rw [hr, List.length_cons] at h₂
      have h₃ := Text.length_skipBlank_le r
      split at h
      · simp at h
      · rename_i w hvalue
        have h₄ := length_of_attributeValue hvalue
        have h₅ := Text.length_skipBlank_le w.2
        split at h
        · rename_i r' hr'
          simp only [Except.ok.injEq, Prod.mk.injEq] at h
          rw [hr', List.length_cons, h.2] at h₅
          omega
        · simp at h
    · simp at h

theorem length_of_qualifier? {s rest : List Char} {q : Qualifier}
    (h : qualifier? s = some (.ok (q, rest))) : rest.length < s.length := by
  unfold qualifier? at h
  split at h <;> simp only [Option.some.injEq, reduceCtorEq, map_eq_ok, Prod.mk.injEq] at h
  all_goals
    obtain ⟨_, hv, -, rfl⟩ := h
    rw [List.length_cons]
  · exact Nat.lt_succ_of_lt (length_of_ident hv)
  · exact Nat.lt_succ_of_lt (length_of_ident hv)
  · exact Nat.lt_succ_of_lt (length_of_attributeTest hv)

/-- All qualifiers at the front. -/
def qualifiers (s : List Char) : Except Malformation (List Qualifier × List Char) :=
  match h : qualifier? s with
  | none => .ok ([], s)
  | some (.error m) => .error m
  | some (.ok (q, r)) =>
    have := length_of_qualifier? h
    (qualifiers r).map fun (qs, rest) => (q :: qs, rest)
termination_by s.length

/-- The tag at the front: a name, or the star that admits every name. -/
def tag? : List Char → Option (Option String × List Char)
  | '*' :: r => some (none, r)
  | s => (ident? s).map fun (name, rest) => (some (String.ofList name).toLower, rest)

/-- The complaint about a text that starts no compound. -/
def noCompound : List Char → Malformation
  | c :: _ => .unexpected c
  | [] => .selectorExpected

def compound (s : List Char) : Except Malformation (Compound × List Char) :=
  match tag? s with
  | some (tag, r) => (qualifiers r).map fun (qs, rest) => (compoundOf tag qs, rest)
  | none =>
    match qualifiers s with
    | .error m => .error m
    | .ok ([], _) => .error (noCompound s)
    | .ok (q :: qs, rest) => .ok (compoundOf none (q :: qs), rest)

theorem length_of_qualifiers {s rest : List Char} {qs : List Qualifier}
    (h : qualifiers s = .ok (qs, rest)) : rest.length + qs.length ≤ s.length := by
  fun_induction qualifiers s generalizing qs rest with
  | case1 s => simp only [Except.ok.injEq, Prod.mk.injEq] at h; simp [← h.1, ← h.2]
  | case2 => simp at h
  | case3 s q r hq hlt ih =>
    simp only [map_eq_ok, Prod.mk.injEq] at h
    obtain ⟨p, hr, rfl, rfl⟩ := h
    have := ih hr
    rw [List.length_cons]
    omega

theorem length_of_tag? {s rest : List Char} {tag : Option String}
    (h : tag? s = some (tag, rest)) : rest.length < s.length := by
  unfold tag? at h
  split at h
  · simp only [Option.some.injEq, Prod.mk.injEq] at h
    simp [← h.2]
  · obtain ⟨⟨name, r⟩, hr, he⟩ := Option.map_eq_some_iff.1 h
    simp only [Prod.mk.injEq] at he
    exact he.2 ▸ length_of_ident? hr

theorem length_of_compound {s rest : List Char} {c : Compound}
    (h : compound s = .ok (c, rest)) : rest.length < s.length := by
  unfold compound at h
  split at h
  · rename_i tag r htag
    simp only [map_eq_ok, Prod.mk.injEq] at h
    obtain ⟨p, hr, -, rfl⟩ := h
    have := length_of_tag? htag
    have := length_of_qualifiers hr
    omega
  · split at h
    · simp at h
    · simp at h
    · rename_i q qs r hr
      simp only [Except.ok.injEq, Prod.mk.injEq] at h
      have := length_of_qualifiers hr
      rw [List.length_cons, h.2] at this
      omega

/-! ### Chains -/

def startsCompound (c : Char) : Bool :=
  isIdentStart c || ['-', '*', '#', '.', '['].contains c

/-- The combinator at the front: a greater-than sign with blanks around it, or blanks alone before
another compound. -/
def combinator? (s : List Char) : Option (Combinator × List Char) :=
  match Text.skipBlank s with
  | '>' :: r => some (.child, Text.skipBlank r)
  | c :: r =>
    if s.head?.any Text.isBlank && startsCompound c then some (.descendant, c :: r) else none
  | [] => none

theorem length_of_combinator? {s rest : List Char} {k : Combinator}
    (h : combinator? s = some (k, rest)) : rest.length ≤ s.length := by
  have hs := Text.length_skipBlank_le s
  unfold combinator? at h
  split at h
  · rename_i r hr
    simp only [Option.some.injEq, Prod.mk.injEq] at h
    have := Text.length_skipBlank_le r
    rw [hr, List.length_cons] at hs
    rw [← h.2]
    omega
  · rename_i c r _ hr
    split at h
    · simp only [Option.some.injEq, Prod.mk.injEq] at h
      rw [hr] at hs
      exact h.2 ▸ hs
    · simp at h
  · simp at h

/-- The combinators at the front, each with the compound on its right. -/
def chain (s : List Char) : Except Malformation (List (Combinator × Compound) × List Char) :=
  match hk : combinator? s with
  | none => .ok ([], s)
  | some (k, r) =>
    match hc : compound r with
    | .error m => .error m
    | .ok (c, r') =>
      have := length_of_combinator? hk
      have := length_of_compound hc
      (chain r').map fun (cs, rest) => ((k, c) :: cs, rest)
termination_by s.length

def complex (s : List Char) : Except Malformation (Complex × List Char) :=
  match compound s with
  | .error m => .error m
  | .ok (head, r) => (chain r).map fun (tail, rest) => (⟨head, tail⟩, rest)

theorem length_of_chain {s rest : List Char} {cs : List (Combinator × Compound)}
    (h : chain s = .ok (cs, rest)) : rest.length ≤ s.length := by
  fun_induction chain s generalizing cs rest with
  | case1 s => simp only [Except.ok.injEq, Prod.mk.injEq] at h; simp [← h.2]
  | case2 => simp at h
  | case3 s k r hk c r' hc hle hlt ih =>
    simp only [map_eq_ok, Prod.mk.injEq] at h
    obtain ⟨p, hr, -, rfl⟩ := h
    have := ih hr
    omega

theorem length_of_complex {s rest : List Char} {c : Complex}
    (h : complex s = .ok (c, rest)) : rest.length < s.length := by
  unfold complex at h
  split at h
  · simp at h
  · rename_i head r hc
    simp only [map_eq_ok, Prod.mk.injEq] at h
    obtain ⟨p, hr, -, rfl⟩ := h
    have := length_of_compound hc
    have := length_of_chain hr
    omega

/-! ### Lists of alternatives -/

/-- The alternatives of a whole text, separated by commas. -/
def complexes (s : List Char) : Except Malformation (List Complex) :=
  match hc : complex (Text.skipBlank s) with
  | .error m => .error m
  | .ok (c, r) =>
    match hr : Text.skipBlank r with
    | [] => .ok [c]
    | ',' :: r' =>
      have : r'.length < s.length := by
        have h₁ := length_of_complex hc
        have h₂ := Text.length_skipBlank_le s
        have h₃ := Text.length_skipBlank_le r
        rw [hr, List.length_cons] at h₃
        omega
      (complexes r').map (c :: ·)
    | x :: _ => .error (.unexpected x)
termination_by s.length

/-- The selector that a text writes. -/
def parse (source : String) : Except QueryFailure Selector :=
  match complexes source.toList with
  | .ok cs => .ok ⟨source, cs⟩
  | .error m => .error ⟨source, m.message⟩

end Testimony.Selector
