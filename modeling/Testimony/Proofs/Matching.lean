import Mathlib.Data.List.Induction
import Mathlib.Logic.Function.Basic
import Testimony.Page.Node
import Testimony.Proofs.Ancestry

/-!
# What a selector describes

A compound describes an element that has its tag, its ids, its classes and its attributes
(`Compound.Describes`). A chain of compounds describes an element if there are elements for all of
them, the last of them this one, each described by its compound and standing to the next as their
combinator says (`Complex.Describes`).

The matcher finds this out from the right, going up from one element to the next. It goes on to
every ancestor where the combinator leaves open which one is meant (`anyBehind_above`), so it misses
no choice: one step of it and one step of the description come to the same thing
(`accepts_append`, `describes_append`), and so do whole chains (`accepts_iff_describes`).
-/

namespace Testimony

/-! ## Descriptions -/

def AttributeTest.Holds : AttributeTest → Element → Prop
  | present name, e => ∃ value, e.attribute? name = some value
  | equals name value, e => e.attribute? name = some value

structure Compound.Describes (c : Compound) (e : Element) : Prop where
  tag : ∀ tag, c.tag = some tag → e.tag = tag
  ids : ∀ id ∈ c.ids, e.id = some id
  classes : ∀ name ∈ c.classes, name ∈ e.classes
  attributes : ∀ t ∈ c.attributes, t.Holds e

/-- How the element on the left stands to the one on the right. -/
def Combinator.Joins (p : Page) : Combinator → Fin p.size → Fin p.size → Prop
  | child => p.IsParent
  | descendant => p.IsAncestor

namespace Complex

/-- The compounds from left to right. -/
def compounds (s : Complex) : List Compound := s.head :: s.tail.map Prod.snd

/-- The combinators from left to right, each standing behind the compound of its number. -/
def combinators (s : Complex) : List Combinator := s.tail.map Prod.fst

/-- There are elements for the compounds, this one the last, that stand to each other as the
combinators say. -/
def Describes (s : Complex) (p : Page) (x : Fin p.size) : Prop :=
  ∃ e : Nat → Fin p.size, e s.combinators.length = x ∧
    (∀ (i : Nat) (c : Compound), s.compounds[i]? = some c → c.Describes (p.element (e i))) ∧
    ∀ (i : Nat) (k : Combinator), s.combinators[i]? = some k → k.Joins p (e i) (e (i + 1))

end Complex

/-! ## Single elements -/

theorem AttributeTest.accepts_iff {t : AttributeTest} {e : Element} :
    t.accepts e = true ↔ t.Holds e := by
  rcases t with name | ⟨name, value⟩
  · exact Option.isSome_iff_exists
  · exact beq_iff_eq

theorem Compound.accepts_iff {c : Compound} {e : Element} :
    c.accepts e = true ↔ c.Describes e := by
  simp only [accepts, Bool.and_eq_true, Option.all_eq_true, List.all_eq_true, beq_iff_eq,
    List.contains_iff_mem, AttributeTest.accepts_iff]
  constructor
  · rintro ⟨⟨⟨ht, hi⟩, hc⟩, ha⟩
    exact ⟨ht, hi, hc, ha⟩
  · rintro ⟨ht, hi, hc, ha⟩
    exact ⟨⟨⟨ht, hi⟩, hc⟩, ha⟩

/-! ## Chains -/

/-- The elements above an element, nearest first. -/
def Page.above (p : Page) (x : Fin p.size) : List Element := (p.ancestors x).map p.element

namespace Complex

variable {p : Page} {x : Fin p.size}

section Matcher

theorem anyBehind_above {test : Element → List Element → Bool} :
    anyBehind test (p.above x) = true ↔
      ∃ a, p.IsAncestor a x ∧ test (p.element a) (p.above a) = true := by
  induction x using Page.climb with
  | root x hx =>
    simp [Page.above, Page.ancestors_of_root hx, anyBehind, Page.not_isAncestor_root hx]
  | child b x hb ih =>
    have habove : p.above x = p.element b :: p.above b := by
      simp only [Page.above, hb.ancestors, List.map_cons]
    simp only [habove, anyBehind, Bool.or_eq_true, ih, hb.isAncestor_iff]
    constructor
    · rintro (h | ⟨a, ha, h⟩)
      · exact ⟨b, .inl rfl, h⟩
      · exact ⟨a, .inr ha, h⟩
    · rintro ⟨a, rfl | ha, h⟩
      · exact .inl h
      · exact .inr ⟨a, ha, h⟩

/-- A step to the left tries all elements that stand as the combinator says. -/
theorem acceptsLeft_cons {k : Combinator} {c : Compound} {left : List (Combinator × Compound)} :
    acceptsLeft ((k, c) :: left) (p.above x) = true ↔
      ∃ a, k.Joins p a x ∧ c.accepts (p.element a) = true ∧
        acceptsLeft left (p.above a) = true := by
  rcases k with _ | _
  · rw [acceptsLeft, anyBehind_above]
    simp only [Bool.and_eq_true]
    rfl
  · rcases hx : p.parent? x with _ | b
    · simp [Page.above, Page.ancestors_of_root hx, acceptsLeft, Combinator.Joins, Page.IsParent, hx]
    · have hb : p.IsParent b x := hx
      have habove : p.above x = p.element b :: p.above b := by
        simp only [Page.above, hb.ancestors, List.map_cons]
      rw [habove, acceptsLeft, Bool.and_eq_true]
      constructor
      · rintro h
        exact ⟨b, hb, h⟩
      · rintro ⟨a, ha, h⟩
        have hab : some a = some b := ha.symm.trans hb
        cases hab
        exact h

theorem fromRight_append {head c : Compound} {tail : List (Combinator × Compound)}
    {k : Combinator} :
    (⟨head, tail ++ [(k, c)]⟩ : Complex).fromRight
      = (c, (k, (⟨head, tail⟩ : Complex).fromRight.1) :: (⟨head, tail⟩ : Complex).fromRight.2) := by
  simp only [fromRight, List.foldl_append, List.foldl_cons, List.foldl_nil]

theorem accepts_append {head c : Compound} {tail : List (Combinator × Compound)} {k : Combinator} :
    (⟨head, tail ++ [(k, c)]⟩ : Complex).accepts (p.element x) (p.above x) = true ↔
      c.accepts (p.element x) = true ∧ ∃ a, k.Joins p a x ∧
        (⟨head, tail⟩ : Complex).accepts (p.element a) (p.above a) = true := by
  simp only [accepts, fromRight_append, Bool.and_eq_true, acceptsLeft_cons]

end Matcher

section Description

theorem getElem?_append_singleton {α : Type} {l : List α} {a b : α} {i : Nat} :
    (l ++ [a])[i]? = some b ↔ l[i]? = some b ∨ i = l.length ∧ a = b := by
  rcases Nat.lt_trichotomy i l.length with h | rfl | h
  · rw [List.getElem?_append_left h]
    simp [Nat.ne_of_lt h]
  · simp
  · rw [List.getElem?_eq_none (by simpa using Nat.succ_le_of_lt h),
      List.getElem?_eq_none (Nat.le_of_lt h)]
    simp [Nat.ne_of_gt h]

theorem length_compounds (s : Complex) : s.compounds.length = s.combinators.length + 1 := by
  simp [compounds, combinators]

theorem describes_nil {head : Compound} :
    (⟨head, []⟩ : Complex).Describes p x ↔ head.Describes (p.element x) := by
  constructor
  · rintro ⟨e, rfl, hc, -⟩
    exact hc 0 head rfl
  · intro h
    refine ⟨fun _ => x, rfl, fun i c hc => ?_, fun i k hk => ?_⟩
    · rcases i with _ | i
      · cases hc
        exact h
      · cases hc
    · cases hk

theorem describes_append {head c : Compound} {tail : List (Combinator × Compound)}
    {k : Combinator} :
    (⟨head, tail ++ [(k, c)]⟩ : Complex).Describes p x ↔
      c.Describes (p.element x) ∧ ∃ a, k.Joins p a x ∧
        (⟨head, tail⟩ : Complex).Describes p a := by
  have hcs : (⟨head, tail ++ [(k, c)]⟩ : Complex).compounds
      = (⟨head, tail⟩ : Complex).compounds ++ [c] := by simp [compounds]
  have hks : (⟨head, tail ++ [(k, c)]⟩ : Complex).combinators
      = (⟨head, tail⟩ : Complex).combinators ++ [k] := by simp [combinators]
  have hlen := length_compounds ⟨head, tail⟩
  simp only [Describes, hcs, hks, getElem?_append_singleton, List.length_append,
    List.length_singleton]
  generalize (⟨head, tail⟩ : Complex).compounds = cs at hlen ⊢
  generalize (⟨head, tail⟩ : Complex).combinators = ks at hlen ⊢
  constructor
  · rintro ⟨e, rfl, hc, hk⟩
    refine ⟨hc _ c (.inr ⟨hlen.symm, rfl⟩), e ks.length, hk _ k (.inr ⟨rfl, rfl⟩), e, rfl, ?_, ?_⟩
    · exact fun i c' h => hc i c' (.inl h)
    · exact fun i k' h => hk i k' (.inl h)
  · rintro ⟨hx, a, ha, e, rfl, hc, hk⟩
    have hold (i : Nat) (h : i < ks.length + 1) :
        Function.update e (ks.length + 1) x i = e i := by
      rw [Function.update_of_ne]
      omega
    refine ⟨Function.update e (ks.length + 1) x, Function.update_self _ _ _, ?_, ?_⟩
    · rintro i c' (h | ⟨rfl, rfl⟩)
      · have hi : i < cs.length := (List.getElem?_eq_some_iff.1 h).1
        rw [hold i (by omega)]
        exact hc i c' h
      · rw [hlen, Function.update_self]
        exact hx
    · rintro i k' (h | ⟨rfl, rfl⟩)
      · have hi : i < ks.length := (List.getElem?_eq_some_iff.1 h).1
        rw [hold i (by omega), hold (i + 1) (by omega)]
        exact hk i k' h
      · rw [hold _ (by omega), Function.update_self]
        exact ha

end Description

theorem accepts_iff_describes {s : Complex} :
    s.accepts (p.element x) (p.above x) = true ↔ s.Describes p x := by
  rcases s with ⟨head, tail⟩
  induction tail using List.reverseRecOn generalizing x with
  | nil =>
    rw [describes_nil, ← Compound.accepts_iff]
    simp [accepts, fromRight, acceptsLeft]
  | append_singleton tail kc ih =>
    rw [accepts_append, describes_append, Compound.accepts_iff]
    simp only [ih]

end Complex

/-- On every element of every page, a chain matches where it describes the element, and a selector
where one of its alternatives does. -/
theorem matching_iff_description (p : Page) (x : Fin p.size) :
    (∀ s : Complex, s.accepts (p.element x) ((p.ancestors x).map p.element) = true ↔
        s.Describes p x)
      ∧ ∀ s : Selector, s.accepts (p.element x) ((p.ancestors x).map p.element) = true ↔
        ∃ c ∈ s.alternatives, c.Describes p x := by
  have hchain (s : Complex) :
      s.accepts (p.element x) ((p.ancestors x).map p.element) = true ↔ s.Describes p x :=
    Complex.accepts_iff_describes
  refine ⟨hchain, fun s => ?_⟩
  simp only [Selector.accepts, List.any_eq_true, hchain]

/-- The nearest `b` above the `c` is not below an `a`, but the one further up is. -/
example :
    ((Page.ofMarkup 0 (.node (.ofTag "a") [.node (.ofTag "b") [.node (.ofTag "d")
      [.node (.ofTag "b") [.node (.ofTag "c") []]]]])).queryAll "a > b c").toOption.map
        (List.map Fin.val) = some [4] := by
  decide +kernel

end Testimony
