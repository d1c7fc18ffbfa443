import Testimony.Operator.Apply
import Testimony.Page.Node
import Testimony.Proofs.Layout
import Testimony.Proofs.Matching

/-!
# Queries from an element

A query from an element looks at the rest of its stretch, and what stands there are the elements
below it. Whether a selector describes one of them does not depend on where the query starts. So the
query finds what a query of the whole page finds, less the elements that are not below it, and
refuses the same selectors (`queryFrom_ofMarkup`). `scoped_query` adds the order of the results and
the members that the operator makes of them.
-/

namespace Testimony.Page

/-- Whether a selector describes the element at a position, seen from the whole page. -/
def describedAt (p : Page) (s : Selector) (i : Fin p.size) : Bool :=
  s.accepts (p.element i) ((p.ancestors i).map p.element)

theorem describedAt_iff {p : Page} {s : Selector} {i : Fin p.size} :
    p.describedAt s i = true ↔ ∃ c ∈ s.alternatives, c.Describes p i := by
  have hchain (c : Complex) :
      c.accepts (p.element i) ((p.ancestors i).map p.element) = true ↔ c.Describes p i :=
    Complex.accepts_iff_describes
  simp only [describedAt, Selector.accepts, List.any_eq_true, hchain]

section Select

variable {p : Page} {start stop : Nat} {selector : String}

theorem select_eq : p.select start stop selector = (Selector.parse selector).map fun s =>
    (List.finRange p.size).filter fun i =>
      start ≤ i.val && i.val < stop && p.describedAt s i := by
  unfold select
  rcases Selector.parse selector with failure | s <;> rfl

/-- A query with a selector that parses succeeds and finds the positions of its range that the
selector describes. -/
theorem select_of_parse (p : Page) (start stop : Nat) {s : Selector}
    (h : Selector.parse selector = .ok s) :
    ∃ found, p.select start stop selector = .ok found ∧
      ∀ i, i ∈ found ↔ (start ≤ i.val ∧ i.val < stop) ∧ p.describedAt s i = true := by
  rw [select_eq, h]
  exact ⟨_, rfl, fun i => by simp⟩

/-- The results of a query are in document order. -/
theorem pairwise_of_select {found : List (Fin p.size)}
    (h : p.select start stop selector = .ok found) : found.Pairwise (· < ·) := by
  rw [select_eq] at h
  rcases hs : Selector.parse selector with failure | s <;> rw [hs] at h
  · cases h
  · cases h
    exact (List.pairwise_lt_finRange p.size).filter _

end Select

section OfMarkup

variable {id : Nat} {root : Markup} (x : Fin (ofMarkup id root).size) (selector : String)

/-- A query from an element finds those results of the whole page that are below it. -/
theorem queryFrom_ofMarkup :
    (ofMarkup id root).queryFrom x selector
      = ((ofMarkup id root).queryAll selector).map
          (List.filter fun y => decide ((ofMarkup id root).IsAncestor x y)) := by
  rw [queryFrom, queryAll, select_eq, select_eq]
  rcases Selector.parse selector with failure | s
  · rfl
  · simp only [Except.map, List.filter_filter]
    congr 1
    refine List.filter_congr fun y _ => ?_
    have hscope : (ofMarkup id root).IsAncestor x y
        ↔ x.val + 1 ≤ y.val ∧ y.val < ((ofMarkup id root).entry x).stop := isAncestor_iff
    simp only [hscope, Bool.decide_and, Nat.zero_le, y.isLt, decide_true, Bool.true_and]

end OfMarkup

/-- What the operator makes of the results of a query. -/
theorem apply_findBySelector (p : Page) (x : Fin p.size) (selector : String) :
    (Operator.findBySelector selector).apply [.element (⟨p, x⟩ : PageElement)]
      = match p.queryFrom x selector with
        | .ok found => .ok (.members (found.mapIdx fun i y =>
            ⟨.element ⟨p, y⟩, .selectorMatch selector i⟩))
        | .error failure => .error (.ofQueryFailure failure) := by
  have hquery : Node.query (⟨p, x⟩ : PageElement) selector
      = (p.queryFrom x selector).map (List.map fun y => ⟨p, y⟩) := rfl
  have hfind : (Operator.findBySelector selector).apply [.element (⟨p, x⟩ : PageElement)]
      = Operator.find selector (⟨p, x⟩ : PageElement) := rfl
  rw [hfind, Operator.find, hquery]
  rcases p.queryFrom x selector with failure | found
  · rfl
  · have hmembers : Operator.matchesOf selector (found.map fun y => (⟨p, y⟩ : PageElement))
        = found.mapIdx fun i y => ⟨.element ⟨p, y⟩, .selectorMatch selector i⟩ := by
      refine List.ext_getElem? fun i => ?_
      simp [Operator.matchesOf, Function.comp_def]
    simp only [Except.map, hmembers]

/-- How a query from an element, the same query of the whole page and the operator go together. -/
inductive Scoped (p : Page) (x : Fin p.size) (selector : String) : Prop
  | refused (failure : QueryFailure)
      (page : p.queryAll selector = .error failure)
      (element : p.queryFrom x selector = .error failure)
      (operator : (Operator.findBySelector selector).apply [.element (⟨p, x⟩ : PageElement)]
        = .error (.ofQueryFailure failure))
  | found (all below : List (Fin p.size))
      (page : p.queryAll selector = .ok all)
      (element : p.queryFrom x selector = .ok below)
      (scope : below = all.filter fun y => decide (p.IsAncestor x y))
      (pageOrder : all.Pairwise (· < ·))
      (order : below.Pairwise (· < ·))
      (proper : x ∉ below)
      (operator : (Operator.findBySelector selector).apply [.element (⟨p, x⟩ : PageElement)]
        = .ok (.members (below.mapIdx fun i y => ⟨.element ⟨p, y⟩, .selectorMatch selector i⟩)))

theorem scoped_query (id : Nat) (root : Markup) (x : Fin (ofMarkup id root).size)
    (selector : String) : Scoped (ofMarkup id root) x selector := by
  have hfrom := queryFrom_ofMarkup x selector
  have hoperator := apply_findBySelector (ofMarkup id root) x selector
  rcases hpage : (ofMarkup id root).queryAll selector with failure | all
  · rw [hpage] at hfrom
    rw [hfrom] at hoperator
    exact .refused failure hpage hfrom hoperator
  · rw [hpage] at hfrom
    rw [hfrom] at hoperator
    have hself : ¬ (ofMarkup id root).IsAncestor x x := by
      rw [isAncestor_iff]
      exact fun h => Nat.lt_irrefl _ h.1
    exact .found all _ hpage hfrom rfl (pairwise_of_select hpage) (pairwise_of_select hfrom)
      (by simp [hself]) hoperator

end Testimony.Page
