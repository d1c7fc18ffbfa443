import Testimony.Proofs.ScopedQuery
import Testimony.Proofs.SelectorSpelling

/-!
# Joining the texts of selectors

A comma between two texts lists the alternatives of both (`parse_append`). A space or a greater-than
sign between two texts with one chain each joins the chains (`parse_join`): the blanks at the end of
the first text and at the start of the second become part of the combinator, so the first text is
read as it is by itself.

An element is described by a list if one of its alternatives describes it, so by the joint list if
one of the two lists does (`describes_append`). If the second chain is a single compound, the joint
chain describes the elements that the compound describes and that have an element above them, or
right above them, that the first chain describes (`describes_join`). A query finds the elements of
its range that its selector describes (`exists_found`); `selector_concatenation` puts this together
into what the queries of a page find with the joint texts.
-/

namespace Testimony

/-- The sign that joins two texts. -/
def Combinator.sign : Combinator → String
  | descendant => " "
  | child => ">"

/-- The first chain with the second behind it. -/
def Complex.join (a : Complex) (k : Combinator) (b : Complex) : Complex :=
  ⟨a.head, a.tail ++ (k, b.head) :: b.tail⟩

section Join

variable {a b : Complex} {k : Combinator}

theorem compounds_join : (a.join k b).compounds = a.compounds ++ b.compounds := by
  simp [Complex.join, Complex.compounds]

theorem combinators_join : (a.join k b).combinators = a.combinators ++ k :: b.combinators := by
  simp [Complex.join, Complex.combinators]

end Join

/-! ## Spelling a joint chain -/

namespace Selector

open Text

variable {a b : Complex} {k : Combinator} {s₁ s₂ : String} {x y : Selector}

/-- The blanks around the sign belong to the combinator. -/
theorem spellsCombinator_sign (k : Combinator) {u v : List Char} (hu : Blanks u) (hv : Blanks v) :
    SpellsCombinator (u ++ k.sign.toList ++ v) k := by
  cases k with
  | descendant =>
    have hblanks : Blanks (u ++ [' '] ++ v) :=
      List.forall_mem_append.2 ⟨List.forall_mem_append.2 ⟨hu, blanks_space⟩, hv⟩
    exact .descendant hblanks (by simp [Combinator.sign])
  | child => simpa [Combinator.sign] using SpellsCombinator.child hu hv

theorem SpellsComplex.join {u w v : List Char} (hw : SpellsComplex w a)
    (hu : SpellsCombinator u k) (hv : SpellsComplex v b) :
    SpellsComplex (w ++ u ++ v) (a.join k b) := by
  obtain ⟨hhead, htail⟩ := hw
  obtain ⟨hhead', htail'⟩ := hv
  simpa [Complex.join] using
    SpellsComplex.intro hhead (htail.append (.cons (.intro hu hhead') htail'))

theorem SpellsAlternative.join {w v : List Char} (hw : SpellsAlternative w a)
    (hv : SpellsAlternative v b) (k : Combinator) :
    SpellsAlternative (w ++ k.sign.toList ++ v) (a.join k b) := by
  obtain ⟨hb, hw, hb'⟩ := hw
  obtain ⟨hc, hv, hc'⟩ := hv
  simpa using SpellsAlternative.intro hb (hw.join (spellsCombinator_sign k hb' hc) hv) hc'

theorem spellsList_singleton {w : List Char} : SpellsList w [a] ↔ SpellsAlternative w a := by
  constructor
  · intro h
    obtain ⟨hw, hv⟩ := h
    cases hv
    simpa using hw
  · intro h
    simpa using SpellsList.intro h .nil

/-- The chain of a joint text is the one chain joined to the other. -/
theorem parse_join (hx : parse s₁ = .ok x) (hy : parse s₂ = .ok y) (ha : x.alternatives = [a])
    (hb : y.alternatives = [b]) (k : Combinator) :
    parse (s₁ ++ k.sign ++ s₂) = .ok ⟨s₁ ++ k.sign ++ s₂, [a.join k b]⟩ := by
  have hw := (parse_eq_ok.1 hx).1
  have hv := (parse_eq_ok.1 hy).1
  rw [ha, spellsList_singleton] at hw
  rw [hb, spellsList_singleton] at hv
  refine parse_eq_ok.2 ⟨spellsList_singleton.2 ?_, rfl⟩
  simpa using hw.join hv k

end Selector

/-! ## Elements described by joint selectors -/

/-- An alternative of the selector describes the element. -/
def Selector.Describes (s : Selector) (p : Page) (i : Fin p.size) : Prop :=
  ∃ c ∈ s.alternatives, c.Describes p i

namespace Selector

variable {p : Page} {i : Fin p.size} {a b : Complex} {k : Combinator} {s x y : Selector}

theorem describes_append (hs : s.alternatives = x.alternatives ++ y.alternatives) :
    s.Describes p i ↔ x.Describes p i ∨ y.Describes p i := by
  simp only [Describes, hs, List.mem_append, or_and_right, exists_or]

/-- Where the second chain is a single compound, the first has to describe an element that stands
to this one as the combinator says. -/
theorem describes_join (hs : s.alternatives = [a.join k b]) (ha : x.alternatives = [a])
    (hb : y.alternatives = [b]) (hsingle : b.combinators = []) :
    s.Describes p i ↔ y.Describes p i ∧ ∃ e, k.Joins p e i ∧ x.Describes p e := by
  obtain ⟨c, tail⟩ := b
  obtain rfl : tail = [] := by simpa [Complex.combinators] using hsingle
  simp only [Describes, hs, ha, hb, List.mem_singleton, exists_eq_left, Complex.describes_nil]
  exact Complex.describes_append

end Selector

/-! ## Queries with joint texts -/

namespace Page

open Selector

section Queries

variable (p : Page) (start stop : Nat) {a b : Complex} {s₁ s₂ : String} {x y : Selector}

/-- A query with a text that parses finds, in document order, the elements of its range that the
selector describes. -/
theorem exists_found (hx : parse s₁ = .ok x) :
    ∃ found, p.select start stop s₁ = .ok found ∧ found.Pairwise (· < ·) ∧
      ∀ i, i ∈ found ↔ (start ≤ i.val ∧ i.val < stop) ∧ x.Describes p i := by
  obtain ⟨found, h, hmem⟩ := p.select_of_parse start stop hx
  refine ⟨found, h, pairwise_of_select h, fun i => ?_⟩
  rw [hmem, describedAt_iff]
  rfl

theorem select_comma (hx : parse s₁ = .ok x) (hy : parse s₂ = .ok y) :
    ∃ found₁ found₂ found, p.select start stop s₁ = .ok found₁ ∧
      p.select start stop s₂ = .ok found₂ ∧ p.select start stop (s₁ ++ "," ++ s₂) = .ok found ∧
      found.Pairwise (· < ·) ∧
      ∀ i, (i ∈ found₁ ↔ (start ≤ i.val ∧ i.val < stop) ∧ x.Describes p i) ∧
        (i ∈ found₂ ↔ (start ≤ i.val ∧ i.val < stop) ∧ y.Describes p i) ∧
        (i ∈ found ↔ i ∈ found₁ ∨ i ∈ found₂) := by
  obtain ⟨found₁, h₁, -, hmem₁⟩ := p.exists_found start stop hx
  obtain ⟨found₂, h₂, -, hmem₂⟩ := p.exists_found start stop hy
  obtain ⟨found, h, hord, hmem⟩ := p.exists_found start stop (parse_append hx hy)
  refine ⟨found₁, found₂, found, h₁, h₂, h, hord, fun i => ⟨hmem₁ i, hmem₂ i, ?_⟩⟩
  rw [hmem, hmem₁, hmem₂, describes_append rfl, and_or_left]

theorem select_join (hx : parse s₁ = .ok x) (hy : parse s₂ = .ok y) (ha : x.alternatives = [a])
    (hb : y.alternatives = [b]) (hsingle : b.combinators = []) (k : Combinator) :
    ∃ found, p.select start stop (s₁ ++ k.sign ++ s₂) = .ok found ∧ found.Pairwise (· < ·) ∧
      ∀ i, i ∈ found ↔ (start ≤ i.val ∧ i.val < stop) ∧ y.Describes p i ∧
        ∃ e, k.Joins p e i ∧ x.Describes p e := by
  obtain ⟨found, h, hord, hmem⟩ := p.exists_found start stop (parse_join hx hy ha hb k)
  refine ⟨found, h, hord, fun i => ?_⟩
  rw [hmem, describes_join rfl ha hb hsingle]

end Queries

end Page

/-- A comma between two selectors lists the alternatives of both, and queries find what either
finds, each finding the elements of its range that its selector describes. A space or a greater-than
sign between two chains makes one chain of them; behind a single compound it finds the elements that
the compound describes below or right below an element that the first chain describes. -/
theorem selector_concatenation {s₁ s₂ : String} {x y : Selector}
    (hx : Selector.parse s₁ = .ok x) (hy : Selector.parse s₂ = .ok y) :
    Selector.parse (s₁ ++ "," ++ s₂)
        = .ok ⟨s₁ ++ "," ++ s₂, x.alternatives ++ y.alternatives⟩
      ∧ (∀ (p : Page) (start stop : Nat), ∃ found₁ found₂ found,
          p.select start stop s₁ = .ok found₁ ∧ p.select start stop s₂ = .ok found₂ ∧
          p.select start stop (s₁ ++ "," ++ s₂) = .ok found ∧ found.Pairwise (· < ·) ∧
          ∀ i, (i ∈ found₁ ↔ (start ≤ i.val ∧ i.val < stop) ∧ x.Describes p i) ∧
            (i ∈ found₂ ↔ (start ≤ i.val ∧ i.val < stop) ∧ y.Describes p i) ∧
            (i ∈ found ↔ i ∈ found₁ ∨ i ∈ found₂))
      ∧ ∀ a b, x.alternatives = [a] → y.alternatives = [b] → ∀ k : Combinator,
          (∃ c, Selector.parse (s₁ ++ k.sign ++ s₂) = .ok ⟨s₁ ++ k.sign ++ s₂, [c]⟩ ∧
            c.compounds = a.compounds ++ b.compounds ∧
            c.combinators = a.combinators ++ k :: b.combinators)
          ∧ (b.combinators = [] → ∀ (p : Page) (start stop : Nat), ∃ found,
              p.select start stop (s₁ ++ k.sign ++ s₂) = .ok found ∧ found.Pairwise (· < ·) ∧
              ∀ i, i ∈ found ↔ (start ≤ i.val ∧ i.val < stop) ∧ y.Describes p i ∧
                ∃ e, k.Joins p e i ∧ x.Describes p e) := by
  refine ⟨Selector.parse_append hx hy, fun p start stop => p.select_comma start stop hx hy,
    fun a b ha hb k => ⟨?_, fun hsingle p start stop => ?_⟩⟩
  · exact ⟨a.join k b, Selector.parse_join hx hy ha hb k, compounds_join, combinators_join⟩
  · exact p.select_join start stop hx hy ha hb hsingle k

section Sample

/-- A section of the body. -/
def sampleOuter : Selector where
  source := " body>section "
  alternatives := [⟨{ tag := some "body" }, [(.child, { tag := some "section" })]⟩]

/-- An element with a title that holds all signs. -/
def sampleInner : Selector where
  source := "\t[ title = 'x, y > z' ] "
  alternatives := [⟨{ attributes := [.equals "title" "x, y > z"] }, []⟩]

/-- Three elements with this title: in the section, further down in it, and outside of it. -/
def titledPage : Page :=
  let titled := (Element.ofTag "p").setAttribute "title" "x, y > z"
  .ofMarkup 0 (.node (.ofTag "body")
    [.node (.ofTag "section") [.node titled [], .node (.ofTag "div") [.node titled []]],
      .node titled []])

theorem selector_concatenation_sample :
    Selector.parse sampleOuter.source = .ok sampleOuter ∧
      Selector.parse sampleInner.source = .ok sampleInner ∧
      Selector.parse (sampleOuter.source ++ "," ++ sampleInner.source)
        = .ok ⟨sampleOuter.source ++ "," ++ sampleInner.source,
            sampleOuter.alternatives ++ sampleInner.alternatives⟩ ∧
      (∃ found₁ found₂ found, titledPage.select 0 6 sampleOuter.source = .ok found₁ ∧
        titledPage.select 0 6 sampleInner.source = .ok found₂ ∧
        titledPage.select 0 6 (sampleOuter.source ++ "," ++ sampleInner.source) = .ok found ∧
        found.map Fin.val = [1, 2, 4, 5] ∧ ∀ i, i ∈ found ↔ i ∈ found₁ ∨ i ∈ found₂) ∧
      ∃ c, Selector.parse (sampleOuter.source ++ " " ++ sampleInner.source)
          = .ok ⟨sampleOuter.source ++ " " ++ sampleInner.source, [c]⟩ ∧
        c.combinators = [.child, .descendant] ∧
        ∃ found, titledPage.select 0 6 (sampleOuter.source ++ " " ++ sampleInner.source)
            = .ok found ∧ found.map Fin.val = [2, 4] ∧
          ∀ i, i ∈ found ↔ (0 ≤ i.val ∧ i.val < 6) ∧ sampleInner.Describes titledPage i ∧
            ∃ e, titledPage.IsAncestor e i ∧ sampleOuter.Describes titledPage e := by
  have houter : Selector.parse sampleOuter.source = .ok sampleOuter := by decide +kernel
  have hinner : Selector.parse sampleInner.source = .ok sampleInner := by decide +kernel
  obtain ⟨hcomma, hunion, hjoin⟩ := selector_concatenation houter hinner
  obtain ⟨found₁, found₂, found, h₁, h₂, hfound, -, hmem⟩ := hunion titledPage 0 6
  obtain ⟨⟨c, hc, -, hcombinators⟩, hquery⟩ := hjoin _ _ rfl rfl .descendant
  obtain ⟨below, hbelow, -, hmem'⟩ := hquery rfl titledPage 0 6
  have hlist : (titledPage.select 0 6 (sampleOuter.source ++ "," ++ sampleInner.source)).map
      (List.map Fin.val) = .ok [1, 2, 4, 5] := by decide +kernel
  have hlist' : (titledPage.select 0 6
      (sampleOuter.source ++ Combinator.descendant.sign ++ sampleInner.source)).map
      (List.map Fin.val) = .ok [2, 4] := by decide +kernel
  rw [hfound] at hlist
  rw [hbelow] at hlist'
  exact ⟨houter, hinner, hcomma,
    ⟨found₁, found₂, found, h₁, h₂, hfound, Except.ok.inj hlist, fun i => (hmem i).2.2⟩,
    c, hc, hcombinators, below, hbelow, Except.ok.inj hlist', hmem'⟩

end Sample

end Testimony
