import Testimony.Proofs.Runs
import Testimony.Selector.Reader

/-!
# How compounds are spelled

For each part of a compound a relation says which texts spell it: identifiers, values and tests of
attributes, qualifiers and tags. One part can be spelled in many ways, as blanks may stand around
the parts of a test and values may stand between quotes.

The readers take the longest part they can. What a reader has read is spelled by the text before the
rest (`spells_of_compound` and those before it). A text that spells a part is read as this part
wherever what stands behind it does not go on with it (`compound_append` and those before it).
-/

namespace Testimony.Selector

open Text

/-! ## Classes of characters -/

section Classes

variable {c : Char}

theorem isIdentStart_iff :
    isIdentStart c = true ↔ ('A' ≤ c ∧ c ≤ 'Z') ∨ ('a' ≤ c ∧ c ≤ 'z') ∨ c = '_' := by
  have halpha : c.isAlpha = true ↔ c.isUpper = true ∨ c.isLower = true := Bool.or_eq_true_iff
  have hupper : c.isUpper = true ↔ 'A' ≤ c ∧ c ≤ 'Z' := decide_eq_true_iff
  have hlower : c.isLower = true ↔ 'a' ≤ c ∧ c ≤ 'z' :=
    Bool.and_eq_true_iff.trans (and_congr decide_eq_true_iff decide_eq_true_iff)
  rw [isIdentStart, Bool.or_eq_true, decide_eq_true_eq, halpha, hupper, hlower, or_assoc]

theorem isIdentChar_iff :
    isIdentChar c = true ↔ isIdentStart c = true ∨ ('0' ≤ c ∧ c ≤ '9') ∨ c = '-' := by
  have halnum : c.isAlphanum = true ↔ c.isAlpha = true ∨ c.isDigit = true := Bool.or_eq_true_iff
  have hdigit : c.isDigit = true ↔ '0' ≤ c ∧ c ≤ '9' :=
    Bool.and_eq_true_iff.trans (and_congr decide_eq_true_iff decide_eq_true_iff)
  simp only [isIdentChar, isIdentStart, Bool.or_eq_true, decide_eq_true_eq, halnum, hdigit,
    or_assoc, or_left_comm]

theorem isIdentChar_ascii (h : isIdentChar c = true) : 0x20 < c.toNat ∧ c.toNat < 0x80 := by
  simp only [isIdentChar_iff, isIdentStart_iff, Char.le_def, UInt32.le_iff_toNat_le, Char.toNat_val,
    Char.reduceToNat] at h
  rcases h with (h | h | rfl) | h | rfl
  · omega
  · omega
  · decide
  · omega
  · decide

theorem isIdentChar_of_start (h : isIdentStart c = true) : isIdentChar c = true :=
  isIdentChar_iff.2 (.inl h)

theorem isBlank_of_identChar (h : isIdentChar c = true) : isBlank c = false :=
  isBlank_of_ascii (isIdentChar_ascii h).1 (isIdentChar_ascii h).2

theorem isIdentChar_of_isBlank (h : isBlank c = true) : isIdentChar c = false := by
  rw [Bool.eq_false_iff]
  intro hc
  rw [isBlank_of_identChar hc] at h
  cases h

/-- The marks that begin a qualifier. -/
def isMark (c : Char) : Bool := ['#', '.', '['].contains c

/-- The characters that go on with a compound, in its last name or in another qualifier. -/
def extendsCompound (c : Char) : Bool := isIdentChar c || isMark c

theorem extendsCompound_of_isBlank (h : isBlank c = true) : extendsCompound c = false := by
  have hmark : isMark c = false := by
    rw [Bool.eq_false_iff]
    intro hc
    simp only [isMark, List.contains_eq_mem, List.mem_cons, List.not_mem_nil, or_false,
      decide_eq_true_eq] at hc
    rcases hc with rfl | rfl | rfl <;> exact absurd h (by decide)
  rw [extendsCompound, isIdentChar_of_isBlank h, hmark, Bool.or_false]

theorem stops_extendsCompound {s : List Char} :
    Stops extendsCompound s ↔ Stops isIdentChar s ∧ Stops isMark s := by
  rcases s with _ | ⟨c, s⟩
  · simp only [stops_nil, and_self]
  · simp only [stops_cons, extendsCompound, Bool.or_eq_false_iff]

theorem isBlank_of_startsCompound (h : startsCompound c = true) : isBlank c = false := by
  simp only [startsCompound, Bool.or_eq_true, List.contains_eq_mem, List.mem_cons,
    List.not_mem_nil, or_false, decide_eq_true_eq] at h
  rcases h with h | rfl | rfl | rfl | rfl | rfl
  · exact isBlank_of_identChar (isIdentChar_of_start h)
  all_goals decide

end Classes

/-! ## Identifiers -/

inductive IsIdent : List Char → Prop
  | plain {c : Char} {r : List Char} : isIdentStart c = true → (∀ d ∈ r, isIdentChar d = true) →
      IsIdent (c :: r)
  | hyphen {c : Char} {r : List Char} : isIdentStart c = true → (∀ d ∈ r, isIdentChar d = true) →
      IsIdent ('-' :: c :: r)

section Identifiers

variable {s w rest : List Char}

theorem IsIdent.all_identChar (h : IsIdent w) : ∀ c ∈ w, isIdentChar c = true := by
  rcases h with ⟨hc, hr⟩ | ⟨hc, hr⟩
  · simp only [List.mem_cons, forall_eq_or_imp]
    exact ⟨isIdentChar_of_start hc, hr⟩
  · simp only [List.mem_cons, forall_eq_or_imp]
    exact ⟨by decide, isIdentChar_of_start hc, hr⟩

theorem IsIdent.stops_isBlank (h : IsIdent w) (s : List Char) : Stops isBlank (w ++ s) := by
  have hw := h.all_identChar
  rcases h with _ | _ <;> exact stops_cons.2 (isBlank_of_identChar (hw _ List.mem_cons_self))

theorem IsIdent.append_ne_cons {mark : Char} (h : IsIdent w) (hmark : isIdentChar mark = false)
    (s t : List Char) : w ++ s ≠ mark :: t := by
  intro hs
  have hw := h.all_identChar
  rcases h with _ | _ <;> cases hs <;> exact Bool.eq_false_iff.1 hmark (hw _ List.mem_cons_self)

theorem ident?_of_start {c : Char} (hc : isIdentStart c = true) (r : List Char) :
    ident? (c :: r) = some (c :: r.takeWhile isIdentChar, r.dropWhile isIdentChar) := by
  unfold ident?
  split
  · rename_i hs
    cases hs
    exact absurd hc (by decide)
  · rename_i hs
    cases hs
    rw [if_pos hc]
  · rename_i hs
    cases hs

theorem ident?_append (hw : IsIdent w) (h : Stops isIdentChar rest) :
    ident? (w ++ rest) = some (w, rest) := by
  rcases hw with ⟨hc, hr⟩ | ⟨hc, hr⟩
  · rw [List.cons_append, ident?_of_start hc, takeWhile_run hr h, dropWhile_run hr h]
  · simp only [List.cons_append, ident?, if_pos hc, takeWhile_run hr h, dropWhile_run hr h]

theorem isIdent_of_ident? (h : ident? s = some (w, rest)) : IsIdent w ∧ s = w ++ rest := by
  unfold ident? at h
  split at h
  · split at h
    · cases h
      exact ⟨.hyphen ‹_› fun _ => List.mem_takeWhile_imp, by simp⟩
    · cases h
  · split at h
    · cases h
      exact ⟨.plain ‹_› fun _ => List.mem_takeWhile_imp, by simp⟩
    · cases h
  · cases h

theorem ident_append {after : Char} (hw : IsIdent w) (h : Stops isIdentChar rest) :
    ident after (w ++ rest) = .ok (String.ofList w, rest) := by
  rw [ident, ident?_append hw h]

theorem isIdent_of_ident {after : Char} {name : String} (h : ident after s = .ok (name, rest)) :
    ∃ w, IsIdent w ∧ s = w ++ rest ∧ name = String.ofList w := by
  unfold ident at h
  split at h
  · rename_i w r hs
    cases h
    obtain ⟨hw, rfl⟩ := isIdent_of_ident? hs
    exact ⟨w, hw, rfl, rfl⟩
  · cases h

end Identifiers

/-! ## Tests of attributes -/

/-- A value is spelled bare, as an identifier, or between quotes that it does not hold. -/
inductive SpellsValue : List Char → String → Prop
  | bare {w : List Char} : IsIdent w → SpellsValue w (String.ofList w)
  | quoted {quote : Char} {w : List Char} : quote = '"' ∨ quote = '\'' →
      (∀ c ∈ w, c ≠ quote) → SpellsValue (quote :: (w ++ [quote])) (String.ofList w)

/-- What stands behind the opening bracket of a test, with the closing one. -/
inductive SpellsTest : List Char → AttributeTest → Prop
  | present {b w b' : List Char} : Blanks b → IsIdent w → Blanks b' →
      SpellsTest (b ++ w ++ b' ++ [']']) (.present (String.ofList w).toLower)
  | equals {b w b₁ b₂ v b₃ : List Char} {value : String} : Blanks b → IsIdent w → Blanks b₁ →
      Blanks b₂ → SpellsValue v value → Blanks b₃ →
      SpellsTest (b ++ w ++ b₁ ++ (['='] ++ b₂ ++ v ++ b₃ ++ [']']))
        (.equals (String.ofList w).toLower value)

section Tests

variable {s w rest : List Char}

theorem quotedText_append {quote : Char} (hw : ∀ c ∈ w, c ≠ quote) :
    quotedText quote (w ++ quote :: rest) = .ok (String.ofList w, rest) := by
  have hrun : ∀ c ∈ w, (c != quote) = true := by simpa using hw
  have hstop : Stops (· != quote) (quote :: rest) := stops_cons.2 (by simp)
  rw [quotedText, dropWhile_run hrun hstop, takeWhile_run hrun hstop]

theorem spells_of_quotedText {quote : Char} {text : String}
    (h : quotedText quote s = .ok (text, rest)) :
    ∃ w, (∀ c ∈ w, c ≠ quote) ∧ s = w ++ quote :: rest ∧ text = String.ofList w := by
  have hstop := stops_dropWhile (· != quote) s
  unfold quotedText at h
  split at h
  · rename_i c r hr
    cases h
    rw [hr, stops_cons] at hstop
    obtain rfl : c = quote := by simpa using hstop
    refine ⟨s.takeWhile (· != c), fun d hd => by simpa using List.mem_takeWhile_imp hd, ?_, rfl⟩
    rw [← hr, List.takeWhile_append_dropWhile]
  · cases h

theorem SpellsValue.stops_isBlank {value : String} (h : SpellsValue w value) (s : List Char) :
    Stops isBlank (w ++ s) := by
  rcases h with hw | ⟨rfl | rfl, -⟩
  · exact hw.stops_isBlank s
  · exact stops_cons.2 (by decide)
  · exact stops_cons.2 (by decide)

theorem attributeValue_append {value : String} (hw : SpellsValue w value)
    (h : Stops isIdentChar rest) : attributeValue (w ++ rest) = .ok (value, rest) := by
  rcases hw with hw | ⟨rfl | rfl, hw⟩
  · have hbare : ident '=' (w ++ rest) = .ok (String.ofList w, rest) := ident_append hw h
    unfold attributeValue
    split
    · exact absurd ‹_› (hw.append_ne_cons (by decide) _ _)
    · exact absurd ‹_› (hw.append_ne_cons (by decide) _ _)
    · exact hbare
  · simpa [attributeValue] using quotedText_append hw
  · simpa [attributeValue] using quotedText_append hw

theorem spells_of_attributeValue {value : String} (h : attributeValue s = .ok (value, rest)) :
    ∃ w, SpellsValue w value ∧ s = w ++ rest := by
  unfold attributeValue at h
  split at h
  · obtain ⟨w, hw, rfl, rfl⟩ := spells_of_quotedText h
    exact ⟨_, .quoted (.inl rfl) hw, by simp⟩
  · obtain ⟨w, hw, rfl, rfl⟩ := spells_of_quotedText h
    exact ⟨_, .quoted (.inr rfl) hw, by simp⟩
  · obtain ⟨w, hw, rfl, rfl⟩ := isIdent_of_ident h
    exact ⟨w, .bare hw, rfl⟩

theorem stops_blanks_mark {b : List Char} {mark : Char} (hb : Blanks b)
    (hmark : isIdentChar mark = false) : Stops isIdentChar (b ++ mark :: rest) :=
  .append (fun c hc => isIdentChar_of_isBlank (hb c hc)) (stops_cons.2 hmark)

theorem attributeTest_append {t : AttributeTest} (hw : SpellsTest w t) :
    attributeTest (w ++ rest) = .ok (t, rest) := by
  have hclose : Stops isBlank (']' :: rest) := stops_cons.2 (by decide)
  rcases hw with @⟨b, w, b', hb, hw, hb'⟩ |
    @⟨b, w, b₁, b₂, v, b₃, value, hb, hw, hb₁, hb₂, hv, hb₃⟩
  · have hname : ident '[' (w ++ (b' ++ ']' :: rest)) = _ :=
      ident_append hw (stops_blanks_mark hb' (by decide))
    simp only [List.append_assoc, List.cons_append, List.nil_append, attributeTest,
      skipBlank_run hb (hw.stops_isBlank _), hname, skipBlank_run hb' hclose, bind, Except.bind]
  · have hname : ident '[' (w ++ (b₁ ++ '=' :: (b₂ ++ (v ++ (b₃ ++ ']' :: rest))))) = _ :=
      ident_append hw (stops_blanks_mark hb₁ (by decide))
    have hequals : skipBlank (b₁ ++ '=' :: (b₂ ++ (v ++ (b₃ ++ ']' :: rest)))) = _ :=
      skipBlank_run hb₁ (stops_cons.2 (by decide))
    have hvalue : attributeValue (v ++ (b₃ ++ ']' :: rest)) = _ :=
      attributeValue_append hv (stops_blanks_mark hb₃ (by decide))
    simp only [List.append_assoc, List.cons_append, List.nil_append, attributeTest,
      skipBlank_run hb (hw.stops_isBlank _), hname, hequals, skipBlank_run hb₂ (hv.stops_isBlank _),
      hvalue, skipBlank_run hb₃ hclose, bind, Except.bind]

theorem spells_of_attributeTest {t : AttributeTest} (h : attributeTest s = .ok (t, rest)) :
    ∃ w, SpellsTest w t ∧ s = w ++ rest := by
  simp only [attributeTest, bind, Except.bind] at h
  split at h
  · cases h
  rename_i name hident
  obtain ⟨w, hw, hs, hname⟩ := isIdent_of_ident hident
  obtain ⟨b, hb, rfl⟩ := exists_blanks hs
  split at h
  · rename_i hclose
    cases h
    obtain ⟨b', hb', hs'⟩ := exists_blanks hclose
    rw [hname]
    exact ⟨_, .present hb hw hb', by simp [hs']⟩
  · rename_i hequals
    obtain ⟨b₁, hb₁, hs₁⟩ := exists_blanks hequals
    split at h
    · cases h
    rename_i value hvalue
    obtain ⟨v, hv, hs₂⟩ := spells_of_attributeValue hvalue
    obtain ⟨b₂, hb₂, hs₂⟩ := exists_blanks hs₂
    split at h
    · rename_i hclose
      cases h
      obtain ⟨b₃, hb₃, hs₃⟩ := exists_blanks hclose
      rw [hname]
      exact ⟨_, .equals hb hw hb₁ hb₂ hv hb₃, by simp [hs₁, hs₂, hs₃]⟩
    · cases h
  · cases h

end Tests

/-! ## Qualifiers and compounds -/

inductive SpellsQualifier : List Char → Qualifier → Prop
  | id {w : List Char} : IsIdent w → SpellsQualifier ('#' :: w) (.id (String.ofList w))
  | class {w : List Char} : IsIdent w → SpellsQualifier ('.' :: w) (.class (String.ofList w))
  | attribute {w : List Char} {t : AttributeTest} : SpellsTest w t →
      SpellsQualifier ('[' :: w) (.attribute t)

/-- The text spells the parts one behind the other. -/
inductive SpellsEach {α : Type} (spells : List Char → α → Prop) : List Char → List α → Prop
  | nil : SpellsEach spells [] []
  | cons {w v : List Char} {x : α} {xs : List α} : spells w x → SpellsEach spells v xs →
      SpellsEach spells (w ++ v) (x :: xs)

inductive SpellsTag : List Char → Option String → Prop
  | star : SpellsTag ['*'] none
  | name {w : List Char} : IsIdent w → SpellsTag w (some (String.ofList w).toLower)

/-- A compound has a tag or a qualifier. -/
inductive SpellsCompound : List Char → Compound → Prop
  | tagged {w v : List Char} {tag : Option String} {qs : List Qualifier} : SpellsTag w tag →
      SpellsEach SpellsQualifier v qs → SpellsCompound (w ++ v) (compoundOf tag qs)
  | untagged {v : List Char} {q : Qualifier} {qs : List Qualifier} :
      SpellsEach SpellsQualifier v (q :: qs) → SpellsCompound v (compoundOf none (q :: qs))

section Qualifiers

variable {s w v rest : List Char} {q : Qualifier} {qs : List Qualifier}

theorem stops_isIdentChar_of_qualifiers (h : SpellsEach SpellsQualifier v qs)
    (hrest : Stops isIdentChar rest) : Stops isIdentChar (v ++ rest) := by
  rcases h with _ | ⟨hq, -⟩
  · exact hrest
  · rcases hq with _ | _ | _ <;> exact stops_cons.2 (by decide)

theorem qualifier?_of_stops (h : Stops isMark s) : qualifier? s = none := by
  unfold qualifier?
  split
  · exact absurd (stops_cons.1 h) (by decide)
  · exact absurd (stops_cons.1 h) (by decide)
  · exact absurd (stops_cons.1 h) (by decide)
  · rfl

theorem qualifier?_append (hw : SpellsQualifier w q) (h : Stops isIdentChar rest) :
    qualifier? (w ++ rest) = some (.ok (q, rest)) := by
  rcases hw with hw | hw | hw
  · rw [List.cons_append, qualifier?, ident_append hw h, Except.map]
  · rw [List.cons_append, qualifier?, ident_append hw h, Except.map]
  · rw [List.cons_append, qualifier?, attributeTest_append hw, Except.map]

theorem spells_of_qualifier? (h : qualifier? s = some (.ok (q, rest))) :
    ∃ w, SpellsQualifier w q ∧ s = w ++ rest := by
  unfold qualifier? at h
  split at h <;> simp only [Option.some.injEq, reduceCtorEq, map_eq_ok, Prod.mk.injEq] at h
  · obtain ⟨name, hname, rfl, rfl⟩ := h
    obtain ⟨w, hw, rfl, hw_name⟩ := isIdent_of_ident hname
    rw [hw_name]
    exact ⟨_, .id hw, rfl⟩
  · obtain ⟨name, hname, rfl, rfl⟩ := h
    obtain ⟨w, hw, rfl, hw_name⟩ := isIdent_of_ident hname
    rw [hw_name]
    exact ⟨_, .class hw, rfl⟩
  · obtain ⟨test, htest, rfl, rfl⟩ := h
    obtain ⟨w, hw, rfl⟩ := spells_of_attributeTest htest
    exact ⟨_, .attribute hw, rfl⟩

theorem qualifiers_of_none (h : qualifier? s = none) : qualifiers s = .ok ([], s) := by
  rw [qualifiers]
  split <;> simp_all

theorem qualifiers_of_some (h : qualifier? s = some (.ok (q, rest))) :
    qualifiers s = (qualifiers rest).map fun (qs, rest) => (q :: qs, rest) := by
  rw [qualifiers]
  split <;> simp_all

theorem qualifiers_append (hv : SpellsEach SpellsQualifier v qs) (h : Stops extendsCompound rest) :
    qualifiers (v ++ rest) = .ok (qs, rest) := by
  induction hv with
  | nil => exact qualifiers_of_none (qualifier?_of_stops (stops_extendsCompound.1 h).2)
  | cons hw hv ih =>
    have hstop := stops_isIdentChar_of_qualifiers hv (stops_extendsCompound.1 h).1
    rw [List.append_assoc, qualifiers_of_some (qualifier?_append hw hstop), ih, Except.map]

theorem spells_of_qualifiers (h : qualifiers s = .ok (qs, rest)) :
    ∃ v, SpellsEach SpellsQualifier v qs ∧ s = v ++ rest := by
  fun_induction qualifiers s generalizing qs rest with
  | case1 s =>
    cases h
    exact ⟨[], .nil, rfl⟩
  | case2 => cases h
  | case3 s q r hq _ ih =>
    simp only [map_eq_ok, Prod.mk.injEq] at h
    obtain ⟨⟨qs, rest⟩, hr, rfl, rfl⟩ := h
    obtain ⟨w, hw, rfl⟩ := spells_of_qualifier? hq
    obtain ⟨v, hv, rfl⟩ := ih hr
    exact ⟨w ++ v, .cons hw hv, (List.append_assoc w v rest).symm⟩

end Qualifiers

section Compounds

variable {s w v rest : List Char} {tag : Option String} {c : Compound}

theorem tag?_append (hw : SpellsTag w tag) (h : Stops isIdentChar rest) :
    tag? (w ++ rest) = some (tag, rest) := by
  rcases hw with _ | hw
  · rfl
  · unfold tag?
    split
    · exact absurd ‹_› (hw.append_ne_cons (by decide) _ _)
    · rw [ident?_append hw h, Option.map]

theorem tag?_of_qualifiers {q : Qualifier} {qs : List Qualifier}
    (hv : SpellsEach SpellsQualifier v (q :: qs)) : tag? (v ++ rest) = none := by
  rcases hv with _ | ⟨hq, -⟩
  rcases hq with _ | _ | _ <;> rfl

theorem spells_of_tag? (h : tag? s = some (tag, rest)) : ∃ w, SpellsTag w tag ∧ s = w ++ rest := by
  unfold tag? at h
  split at h
  · cases h
    exact ⟨['*'], .star, rfl⟩
  · obtain ⟨⟨w, r⟩, hw, he⟩ := Option.map_eq_some_iff.1 h
    cases he
    obtain ⟨hident, rfl⟩ := isIdent_of_ident? hw
    exact ⟨w, .name hident, rfl⟩

theorem compound_append (hw : SpellsCompound w c) (h : Stops extendsCompound rest) :
    compound (w ++ rest) = .ok (c, rest) := by
  rcases hw with ⟨ht, hv⟩ | hv
  · have hstop := stops_isIdentChar_of_qualifiers hv (stops_extendsCompound.1 h).1
    rw [List.append_assoc, compound, tag?_append ht hstop]
    simp only [qualifiers_append hv h, Except.map]
  · rw [compound, tag?_of_qualifiers hv]
    simp only [qualifiers_append hv h]

theorem spells_of_compound (h : compound s = .ok (c, rest)) :
    ∃ w, SpellsCompound w c ∧ s = w ++ rest := by
  unfold compound at h
  split at h
  · rename_i htag
    obtain ⟨w, hw, rfl⟩ := spells_of_tag? htag
    simp only [map_eq_ok, Prod.mk.injEq] at h
    obtain ⟨⟨qs, r⟩, hqs, rfl, rfl⟩ := h
    obtain ⟨v, hv, rfl⟩ := spells_of_qualifiers hqs
    exact ⟨w ++ v, .tagged hw hv, (List.append_assoc w v r).symm⟩
  · split at h
    · cases h
    · cases h
    · rename_i hqs
      cases h
      obtain ⟨v, hv, rfl⟩ := spells_of_qualifiers hqs
      exact ⟨v, .untagged hv, rfl⟩

theorem SpellsCompound.head (h : SpellsCompound w c) :
    ∃ d v, w = d :: v ∧ startsCompound d = true := by
  rcases h with ⟨ht, -⟩ | hv
  · rcases ht with _ | ht
    · exact ⟨_, _, rfl, by decide⟩
    · rcases ht with ⟨hd, -⟩ | _
      · exact ⟨_, _, rfl, by simp [startsCompound, hd]⟩
      · exact ⟨_, _, rfl, by decide⟩
  · rcases hv with _ | ⟨hq, -⟩
    rcases hq with _ | _ | _ <;> exact ⟨_, _, rfl, by decide⟩

end Compounds

end Testimony.Selector
