import Testimony.Proofs.Replay
import Testimony.Proofs.ScopedQuery
import Testimony.Proofs.Searches
import Testimony.Proofs.SelectorSpelling

/-!
# Selectors of alternatives from two selectors

Two selectors with a comma in between are one selector, with the alternatives of both. So a query
of a page with it finds what either of them describes, in document order (`select_append`). A
quantifier over these elements comes across those of both queries, each element once, and combines
the outcomes of the quantifiers over the two queries (`quantifyFound_append`).

This needs pages: a node of another kind may answer a joint query as it likes. In the scope and in
the operand no other elements may stand, in the body they may.
-/

namespace Testimony

/-! ## Queries -/

namespace Page

variable {p : Page}

theorem describedAt_append (s s₁ s₂ : Selector)
    (h : s.alternatives = s₁.alternatives ++ s₂.alternatives) (i : Fin p.size) :
    p.describedAt s i = (p.describedAt s₁ i || p.describedAt s₂ i) := by
  simp only [describedAt, Selector.accepts, h, List.any_append]

/-- A query finds some of the positions in document order, and a joint query finds what one of the
two queries finds. -/
theorem select_append {start stop : Nat} {selector₁ selector₂ : String}
    {found₁ found₂ : List (Fin p.size)} (h₁ : p.select start stop selector₁ = .ok found₁)
    (h₂ : p.select start stop selector₂ = .ok found₂) :
    ∃ P Q : Fin p.size → Bool, (List.finRange p.size).filter P = found₁ ∧
      (List.finRange p.size).filter Q = found₂ ∧
      p.select start stop (selector₁ ++ "," ++ selector₂)
        = .ok ((List.finRange p.size).filter fun i => P i || Q i) := by
  rw [select_eq] at h₁ h₂ ⊢
  obtain ⟨s₁, hs₁, rfl⟩ := Selector.map_eq_ok.1 h₁
  obtain ⟨s₂, hs₂, rfl⟩ := Selector.map_eq_ok.1 h₂
  refine ⟨_, _, rfl, rfl, ?_⟩
  rw [Selector.parse_append hs₁ hs₂]
  refine congrArg Except.ok (List.filter_congr fun i _ => ?_)
  rw [describedAt_append _ s₁ s₂ rfl, Bool.and_or_distrib_left]

end Page

variable {μ : Type} [Node μ]

theorem query_page {x : PageElement} {selector : String} {found : List (PageElement ⊕ μ)} :
    Node.query (.inl x : PageElement ⊕ μ) selector = .ok found ↔
      ∃ ys, x.page.queryFrom x.index selector = .ok ys ∧
        ys.map (fun y => .inl ⟨x.page, y⟩) = found := by
  have hquery : Node.query (.inl x : PageElement ⊕ μ) selector
      = ((x.page.queryFrom x.index selector).map (List.map fun y => ⟨x.page, y⟩)).map
          (List.map .inl) := rfl
  rw [hquery]
  rcases x.page.queryFrom x.index selector with failure | ys
  · simp [Except.map]
  · simp [Except.map, Function.comp_def]

/-! ## Quantifiers -/

/-- The value, if it is an element, is one of a page. -/
def Value.OfPage (v : Value (PageElement ⊕ μ)) : Prop :=
  ∀ n, v = .element n → ∃ x, n = .inl x

namespace Expr

variable {q : Quantifier} {name selector₁ selector₂ : String}
  {operand body : Expr (PageElement ⊕ μ)} {s : Settings} {c : Context (PageElement ⊕ μ)}

theorem exists_page_of_element {level : Nat} {g : Finding (PageElement ⊕ μ)} {n : PageElement ⊕ μ}
    (hc : c.All fun b => b.value.OfPage) (hv : ∀ v ∈ operand.constants, v.OfPage)
    (hg : operand.evaluateAt s level c = .ok g) (hn : g.output = .scalar (.element n)) :
    ∃ x, n = .inl x := by
  obtain ⟨b, hb, hbn, -⟩ := exists_term_of_element hg hn
  exact hc.term hv hb n hbn

theorem decides_append {level : Nat} {holds₁ holds₂ : Bool} (hc : c.All fun b => b.value.OfPage)
    (hv : ∀ v ∈ operand.constants, v.OfPage)
    (h₁ : ∃ f, (quantifyFound q name selector₁ operand body).evaluateAt s level c = .ok f ∧
      f.output = .scalar (.boolean holds₁))
    (h₂ : ∃ f, (quantifyFound q name selector₂ operand body).evaluateAt s level c = .ok f ∧
      f.output = .scalar (.boolean holds₂)) :
    ∃ f, (quantifyFound q name (selector₁ ++ "," ++ selector₂) operand body).evaluateAt s level c
        = .ok f ∧ f.output = .scalar (.boolean (q.combine holds₁ holds₂)) := by
  rw [quantify_query_decides] at h₁ h₂ ⊢
  obtain ⟨hl, g, n, found₁, hg, hn, hfound₁, he₁, hs₁⟩ := h₁
  obtain ⟨-, g', n', found₂, hg', hn', hfound₂, he₂, hs₂⟩ := h₂
  cases hg.symm.trans hg'
  cases hn.symm.trans hn'
  obtain ⟨x, rfl⟩ := exists_page_of_element hc hv hg hn
  obtain ⟨ys₁, hys₁, rfl⟩ := query_page.1 hfound₁
  obtain ⟨ys₂, hys₂, rfl⟩ := query_page.1 hfound₂
  obtain ⟨P, Q, rfl, rfl, hys⟩ := Page.select_append hys₁ hys₂
  rw [Quantifier.search_map] at hs₁ hs₂
  refine ⟨hl, g, .inl x, _, hg, hn, query_page.2 ⟨_, hys, rfl⟩, fun hnil => he₁ ?_, ?_⟩
  · -- what the first query finds is among what the joint query finds
    simp only [List.map_eq_nil_iff, List.filter_eq_nil_iff, Bool.or_eq_true, not_or] at hnil ⊢
    exact fun y hy => (hnil y hy).1
  · rw [Quantifier.search_map]
    exact Quantifier.search_filter_or hs₁ hs₂

/-- If the quantifiers over two queries succeed, the one over the joint query does and combines
what they decide. -/
theorem quantifyFound_append (q : Quantifier) (name selector₁ selector₂ : String)
    (operand body : Expr (PageElement ⊕ μ)) (s : Settings) (c : Context (PageElement ⊕ μ))
    (hc : c.All fun b => b.value.OfPage) (hv : ∀ v ∈ operand.constants, v.OfPage)
    {f₁ f₂ : Finding (PageElement ⊕ μ)}
    (h₁ : (quantifyFound q name selector₁ operand body).evaluate s c = .ok f₁)
    (h₂ : (quantifyFound q name selector₂ operand body).evaluate s c = .ok f₂) :
    ∃ holds₁ holds₂ f, f₁.output = .scalar (.boolean holds₁) ∧
      f₂.output = .scalar (.boolean holds₂) ∧
      (quantifyFound q name (selector₁ ++ "," ++ selector₂) operand body).evaluate s c = .ok f ∧
      f.output = .scalar (.boolean (q.combine holds₁ holds₂)) := by
  obtain ⟨-, _, _, -, -, -, holds₁, w₁, -, hf₁⟩ := evaluateAt_quantify_ok.1 h₁
  obtain ⟨-, _, _, -, -, -, holds₂, w₂, -, hf₂⟩ := evaluateAt_quantify_ok.1 h₂
  subst hf₁ hf₂
  obtain ⟨f, hf, hholds⟩ := decides_append hc hv ⟨_, h₁, rfl⟩ ⟨_, h₂, rfl⟩
  exact ⟨holds₁, holds₂, f, rfl, rfl, hf, hholds⟩

section Sample

/-- Below some element that the selector describes there is a red paragraph. -/
def sampleSearch (selector : String) : Expr (PageElement ⊕ PageElement) :=
  quantifyFound .existential "$x" selector (input 0)
    (quantifyFound .existential "$y" "p" (var "$x")
      (apply .isEqualTo [apply (.computedStyle "color") [var "$y"], constant (.text "red")]))

theorem quantifyFound_append_sample :
    let c := Context.ofInputs [.element (.inl ⟨samplePage, 0, by decide⟩)]
    c.All (fun b => b.value.OfPage) ∧
      ∃ f₁ f₂, (sampleSearch "p").evaluate {} c = .ok f₁ ∧
        (sampleSearch "section").evaluate {} c = .ok f₂ ∧
        ∃ holds₁ holds₂ f, f₁.output = .scalar (.boolean holds₁) ∧
          f₂.output = .scalar (.boolean holds₂) ∧
          (sampleSearch "p,section").evaluate {} c = .ok f ∧
          f.output = .scalar (.boolean (holds₁ || holds₂)) := by
  intro c
  have hc : c.All fun b => b.value.OfPage := Context.all_ofInputs fun v hv n hn => by
    obtain rfl := List.mem_singleton.1 hv
    cases hn
    exact ⟨_, rfl⟩
  obtain ⟨f₁, h₁⟩ : ∃ f, (sampleSearch "p").evaluate {} c = .ok f :=
    exists_of_isOk (by decide +kernel)
  obtain ⟨f₂, h₂⟩ : ∃ f, (sampleSearch "section").evaluate {} c = .ok f :=
    exists_of_isOk (by decide +kernel)
  exact ⟨hc, f₁, f₂, h₁, h₂, quantifyFound_append .existential "$x" "p" "section" (input 0) _ {} c
    hc (fun v hv => absurd hv List.not_mem_nil) h₁ h₂⟩

end Sample

end Expr

end Testimony
