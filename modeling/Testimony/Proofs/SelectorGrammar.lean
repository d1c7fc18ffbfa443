import Mathlib.Computability.Language
import Testimony.Proofs.SelectorSpelling

/-!
# The grammar of selectors

The texts that are selectors, as a language over characters built from single characters by
choice, concatenation and repetition. It says nothing about how a text is read: blanks between two
compounds can be derived in more than one way, and where a name ends is left to what stands behind.

`parse_accepts` says that `parse` gives a selector for the texts of this language and no others, and
that a failure names the whole text. Each part of the grammar derives the texts that spell a value
of this part (`mem_compound`, `mem_list` and the others); a repetition derives the texts that spell
a list of values (`mem_kstar_iff`).
-/

namespace Testimony.Selector

open Text
open scoped Computability

namespace Grammar

/-- One character of a class. -/
def char (p : Char → Prop) : Language Char := {w | ∃ c, p c ∧ w = [c]}

def mark (c : Char) : Language Char := char (· = c)

def blanks : Language Char := (char fun c => isBlank c = true)∗

def IsLetter (c : Char) : Prop := ('A' ≤ c ∧ c ≤ 'Z') ∨ ('a' ≤ c ∧ c ≤ 'z') ∨ c = '_'

def IsNameChar (c : Char) : Prop := IsLetter c ∨ ('0' ≤ c ∧ c ≤ '9') ∨ c = '-'

def ident : Language Char := (1 + mark '-') * char IsLetter * (char IsNameChar)∗

def quoted (quote : Char) : Language Char := mark quote * (char (· ≠ quote))∗ * mark quote

def value : Language Char := ident + quoted '"' + quoted '\''

/-- A test of an attribute behind its opening bracket. -/
def test : Language Char :=
  blanks * ident * blanks * (mark ']' + mark '=' * blanks * value * blanks * mark ']')

def qualifier : Language Char := mark '#' * ident + mark '.' * ident + mark '[' * test

def tag : Language Char := mark '*' + ident

/-- Without the empty text, so that a compound without a tag has a qualifier. -/
def compound : Language Char := (1 + tag) * qualifier∗ - 1

def combinator : Language Char :=
  blanks * mark '>' * blanks + (char fun c => isBlank c = true) * blanks

def complex : Language Char := compound * (combinator * compound)∗

def list : Language Char :=
  blanks * complex * blanks * (mark ',' * blanks * complex * blanks)∗

/-! ## Characters and repetitions -/

section Repetitions

variable {l : Language Char} {p : Char → Prop} {w : List Char} {c : Char}

theorem mem_char : w ∈ char p ↔ ∃ c, p c ∧ w = [c] :=
  Iff.rfl

theorem mem_mark : w ∈ mark c ↔ w = [c] := by
  constructor
  · rintro ⟨_, rfl, rfl⟩
    rfl
  · rintro rfl
    exact ⟨c, rfl, rfl⟩

theorem mem_mark_mul : w ∈ mark c * l ↔ ∃ v ∈ l, w = c :: v := by
  rw [Language.mem_mul]
  constructor
  · rintro ⟨_, ⟨_, rfl, rfl⟩, v, hv, rfl⟩
    exact ⟨v, hv, rfl⟩
  · rintro ⟨v, hv, rfl⟩
    exact ⟨[c], ⟨c, rfl, rfl⟩, v, hv, rfl⟩

theorem append_mem_kstar {u v : List Char} (hu : u ∈ l) (hv : v ∈ l∗) : u ++ v ∈ l∗ :=
  Set.mem_of_mem_of_subset (Language.append_mem_mul hu hv) (mul_kstar_le_kstar (a := l))

theorem mem_kstar_iff {α : Type} {spells : List Char → α → Prop}
    (h : ∀ w, w ∈ l ↔ ∃ x, spells w x) : w ∈ l∗ ↔ ∃ xs, SpellsEach spells w xs := by
  constructor
  · rw [Language.mem_kstar]
    rintro ⟨ws, rfl, hws⟩
    induction ws with
    | nil => exact ⟨[], .nil⟩
    | cons u ws ih =>
      obtain ⟨x, hx⟩ := (h u).1 (hws u List.mem_cons_self)
      obtain ⟨xs, hxs⟩ := ih fun v hv => hws v (List.mem_cons_of_mem u hv)
      exact ⟨x :: xs, .cons hx hxs⟩
  · rintro ⟨xs, hxs⟩
    induction hxs with
    | nil => exact Language.nil_mem_kstar l
    | cons hx _ ih => exact append_mem_kstar ((h _).2 ⟨_, hx⟩) ih

theorem mem_kstar_char : w ∈ (char p)∗ ↔ ∀ c ∈ w, p c := by
  constructor
  · rw [Language.mem_kstar]
    rintro ⟨ws, rfl, hws⟩ c hc
    obtain ⟨u, hu, hc⟩ := List.mem_flatten.1 hc
    obtain ⟨d, hd, rfl⟩ := hws u hu
    rw [List.mem_singleton] at hc
    rwa [hc]
  · intro hw
    induction w with
    | nil => exact Language.nil_mem_kstar _
    | cons c w ih =>
      rw [List.forall_mem_cons] at hw
      have hc : [c] ∈ char p := ⟨c, hw.1, rfl⟩
      exact append_mem_kstar hc (ih hw.2)

end Repetitions

/-! ## The parts of the grammar -/

section Parts

variable {w : List Char} {c : Char}

theorem isLetter_iff : IsLetter c ↔ isIdentStart c = true :=
  isIdentStart_iff.symm

theorem isNameChar_iff : IsNameChar c ↔ isIdentChar c = true := by
  rw [IsNameChar, isLetter_iff, isIdentChar_iff]

theorem mem_blanks : w ∈ blanks ↔ Blanks w :=
  mem_kstar_char

theorem mem_ident : w ∈ ident ↔ IsIdent w := by
  simp only [ident, Language.mem_mul, Language.mem_add, Language.mem_one, mem_mark, mem_char,
    mem_kstar_char, isLetter_iff, isNameChar_iff]
  constructor
  · rintro ⟨_, ⟨_, rfl | rfl, _, ⟨c, hc, rfl⟩, rfl⟩, r, hr, rfl⟩
    · exact .plain hc hr
    · exact .hyphen hc hr
  · rintro (@⟨c, r, hc, hr⟩ | @⟨c, r, hc, hr⟩)
    · exact ⟨[c], ⟨[], .inl rfl, [c], ⟨c, hc, rfl⟩, rfl⟩, r, hr, rfl⟩
    · exact ⟨['-', c], ⟨['-'], .inr rfl, [c], ⟨c, hc, rfl⟩, rfl⟩, r, hr, rfl⟩

theorem mem_quoted {quote : Char} :
    w ∈ quoted quote ↔ ∃ v, (∀ c ∈ v, c ≠ quote) ∧ w = quote :: (v ++ [quote]) := by
  simp only [quoted, Language.mem_mul, mem_mark, mem_kstar_char]
  constructor
  · rintro ⟨_, ⟨_, rfl, v, hv, rfl⟩, _, rfl, rfl⟩
    exact ⟨v, hv, rfl⟩
  · rintro ⟨v, hv, rfl⟩
    exact ⟨_, ⟨_, rfl, v, hv, rfl⟩, _, rfl, rfl⟩

theorem mem_value : w ∈ value ↔ ∃ v, SpellsValue w v := by
  simp only [value, Language.mem_add, mem_ident, mem_quoted]
  constructor
  · rintro ((hw | ⟨v, hv, rfl⟩) | ⟨v, hv, rfl⟩)
    · exact ⟨_, .bare hw⟩
    · exact ⟨_, .quoted (.inl rfl) hv⟩
    · exact ⟨_, .quoted (.inr rfl) hv⟩
  · rintro ⟨_, hw | ⟨rfl | rfl, hv⟩⟩
    · exact .inl (.inl hw)
    · exact .inl (.inr ⟨_, hv, rfl⟩)
    · exact .inr ⟨_, hv, rfl⟩

theorem mem_test : w ∈ test ↔ ∃ t, SpellsTest w t := by
  simp only [test, Language.mem_mul, Language.mem_add, mem_mark, mem_blanks, mem_ident, mem_value]
  constructor
  · rintro ⟨_, ⟨_, ⟨b, hb, u, hu, rfl⟩, b₁, hb₁, rfl⟩, _, hclose, rfl⟩
    rcases hclose with rfl | ⟨_, ⟨_, ⟨_, ⟨_, rfl, b₂, hb₂, rfl⟩, v, ⟨_, hv⟩, rfl⟩, b₃, hb₃, rfl⟩,
      _, rfl, rfl⟩
    · exact ⟨_, .present hb hu hb₁⟩
    · exact ⟨_, .equals hb hu hb₁ hb₂ hv hb₃⟩
  · rintro ⟨_, ⟨hb, hu, hb₁⟩ | ⟨hb, hu, hb₁, hb₂, hv, hb₃⟩⟩
    · exact ⟨_, ⟨_, ⟨_, hb, _, hu, rfl⟩, _, hb₁, rfl⟩, _, .inl rfl, rfl⟩
    · refine ⟨_, ⟨_, ⟨_, hb, _, hu, rfl⟩, _, hb₁, rfl⟩, _, .inr ?_, rfl⟩
      exact ⟨_, ⟨_, ⟨_, ⟨_, rfl, _, hb₂, rfl⟩, _, ⟨_, hv⟩, rfl⟩, _, hb₃, rfl⟩, _, rfl, rfl⟩

theorem mem_qualifier : w ∈ qualifier ↔ ∃ q, SpellsQualifier w q := by
  simp only [qualifier, Language.mem_add, mem_mark_mul, mem_ident, mem_test]
  constructor
  · rintro ((⟨u, hu, rfl⟩ | ⟨u, hu, rfl⟩) | ⟨u, ⟨t, hu⟩, rfl⟩)
    · exact ⟨_, .id hu⟩
    · exact ⟨_, .class hu⟩
    · exact ⟨_, .attribute hu⟩
  · rintro ⟨_, hu | hu | hu⟩
    · exact .inl (.inl ⟨_, hu, rfl⟩)
    · exact .inl (.inr ⟨_, hu, rfl⟩)
    · exact .inr ⟨_, ⟨_, hu⟩, rfl⟩

theorem mem_tag : w ∈ tag ↔ ∃ t, SpellsTag w t := by
  rw [tag, Language.mem_add, mem_mark, mem_ident]
  constructor
  · rintro (rfl | hw)
    · exact ⟨_, .star⟩
    · exact ⟨_, .name hw⟩
  · rintro ⟨_, _ | hw⟩
    · exact .inl rfl
    · exact .inr hw

theorem mem_compound : w ∈ compound ↔ ∃ c, SpellsCompound w c := by
  simp only [compound, Language.mem_sub, Language.mem_mul, Language.mem_add, Language.mem_one,
    mem_tag, mem_kstar_iff fun _ => mem_qualifier]
  constructor
  · rintro ⟨⟨_, rfl | ⟨_, hu⟩, v, ⟨qs, hv⟩, rfl⟩, hne⟩
    · rcases qs with _ | ⟨q, qs⟩
      · cases hv
        exact absurd rfl hne
      · exact ⟨_, .untagged hv⟩
    · exact ⟨_, .tagged hu hv⟩
  · rintro ⟨c, hw⟩
    obtain ⟨d, v, hd, -⟩ := hw.head
    refine ⟨?_, hd ▸ List.cons_ne_nil d v⟩
    rcases hw with ⟨hu, hv⟩ | hv
    · exact ⟨_, .inr ⟨_, hu⟩, _, ⟨_, hv⟩, rfl⟩
    · exact ⟨[], .inl rfl, _, ⟨_, hv⟩, rfl⟩

theorem mem_combinator : w ∈ combinator ↔ ∃ k, SpellsCombinator w k := by
  simp only [combinator, Language.mem_add, Language.mem_mul, mem_char, mem_mark, mem_blanks]
  constructor
  · rintro (⟨_, ⟨b, hb, _, rfl, rfl⟩, b', hb', rfl⟩ | ⟨_, ⟨c, hc, rfl⟩, b, hb, rfl⟩)
    · exact ⟨.child, by simpa using SpellsCombinator.child hb hb'⟩
    · exact ⟨.descendant, .descendant (List.forall_mem_cons.2 ⟨hc, hb⟩) (List.cons_ne_nil c b)⟩
  · rintro ⟨_, @⟨b, b', hb, hb'⟩ | ⟨hb, hne⟩⟩
    · exact .inl ⟨b ++ ['>'], ⟨b, hb, ['>'], rfl, rfl⟩, b', hb', by simp⟩
    · obtain ⟨c, b, rfl⟩ := List.exists_cons_of_ne_nil hne
      have hb := List.forall_mem_cons.1 hb
      exact .inr ⟨[c], ⟨c, hb.1, rfl⟩, b, hb.2, rfl⟩

theorem mem_link : w ∈ combinator * compound ↔ ∃ link, SpellsLink w link := by
  simp only [Language.mem_mul, mem_combinator, mem_compound]
  constructor
  · rintro ⟨u, ⟨k, hu⟩, v, ⟨c, hv⟩, rfl⟩
    exact ⟨(k, c), hu, hv⟩
  · rintro ⟨_, hu, hv⟩
    exact ⟨_, ⟨_, hu⟩, _, ⟨_, hv⟩, rfl⟩

theorem mem_complex : w ∈ complex ↔ ∃ x, SpellsComplex w x := by
  rw [complex, Language.mem_mul]
  simp only [mem_compound, mem_kstar_iff fun _ => mem_link]
  constructor
  · rintro ⟨u, ⟨head, hu⟩, v, ⟨tail, hv⟩, rfl⟩
    exact ⟨⟨head, tail⟩, hu, hv⟩
  · rintro ⟨_, hu, hv⟩
    exact ⟨_, ⟨_, hu⟩, _, ⟨_, hv⟩, rfl⟩

theorem mem_alternative : w ∈ blanks * complex * blanks ↔ ∃ x, SpellsAlternative w x := by
  simp only [Language.mem_mul, mem_blanks, mem_complex]
  constructor
  · rintro ⟨_, ⟨b, hb, u, ⟨x, hu⟩, rfl⟩, b', hb', rfl⟩
    exact ⟨x, hb, hu, hb'⟩
  · rintro ⟨_, hb, hu, hb'⟩
    exact ⟨_, ⟨_, hb, _, ⟨_, hu⟩, rfl⟩, _, hb', rfl⟩

theorem mem_next : w ∈ mark ',' * blanks * complex * blanks ↔ ∃ x, SpellsNext w x := by
  rw [mul_assoc, mul_assoc, ← mul_assoc blanks, mem_mark_mul]
  constructor
  · rintro ⟨v, hv, rfl⟩
    obtain ⟨x, hx⟩ := mem_alternative.1 hv
    exact ⟨x, ⟨hx⟩⟩
  · rintro ⟨x, ⟨hx⟩⟩
    exact ⟨_, mem_alternative.2 ⟨x, hx⟩, rfl⟩

theorem mem_list : w ∈ list ↔ ∃ xs, SpellsList w xs := by
  rw [list, Language.mem_mul]
  simp only [mem_alternative, mem_kstar_iff fun _ => mem_next]
  constructor
  · rintro ⟨u, ⟨x, hu⟩, v, ⟨xs, hv⟩, rfl⟩
    exact ⟨x :: xs, hu, hv⟩
  · rintro ⟨_, hu, hv⟩
    exact ⟨_, ⟨_, hu⟩, _, ⟨_, hv⟩, rfl⟩

end Parts

end Grammar

/-- A text is read as a selector just when the grammar derives it. -/
theorem parse_accepts (s : String) :
    ((∃ selector, parse s = .ok selector) ↔ s.toList ∈ Grammar.list) ∧
      ∀ failure, parse s = .error failure → failure.selector = s := by
  simp only [Grammar.mem_list, ← complexes_eq_ok, parse]
  rcases complexes s.toList with m | cs
  · simp
  · simp

theorem parse_accepts_sample :
    "ul >li[title = 'a, b']".toList ∈ Grammar.list ∧
      "ul > , li".toList ∉ Grammar.list ∧
      ∃ failure, parse "ul > , li" = .error failure ∧ failure.selector = "ul > , li" := by
  have hread : parse "ul >li[title = 'a, b']" = .ok ⟨"ul >li[title = 'a, b']",
      [⟨{ tag := some "ul" },
        [(.child, { tag := some "li", attributes := [.equals "title" "a, b"] })]⟩]⟩ := by
    decide +kernel
  have hfail : parse "ul > , li" = .error ⟨"ul > , li", "unexpected character ','"⟩ := by
    decide +kernel
  refine ⟨(parse_accepts _).1.1 ⟨_, hread⟩, fun h => ?_, _, hfail, (parse_accepts _).2 _ hfail⟩
  obtain ⟨selector, hs⟩ := (parse_accepts _).1.2 h
  rw [hfail] at hs
  cases hs

end Testimony.Selector
