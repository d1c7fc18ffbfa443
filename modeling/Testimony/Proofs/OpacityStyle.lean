import Testimony.Proofs.ComputedStyle
import Testimony.Proofs.SelectorUnion

/-!
# The opacity of an element as a style

The opacity of an element of a page is its computed style `opacity` read as a number. An element
without that style set has it at its initial value, so the two operators read the same text, and
both read it by `Style.measure?` (`apply_opacityAsStyle`). They name the same step, so paths stay
the same too. Where the text is no number, the one fails and the other gives the text. An evaluation
that succeeds has asked no such element for its opacity, so every opacity in the expression can be
taken as a style (`evaluate_opacityAsStyle`).

A node that is not of a page may have no style `opacity` at all. It counts as opaque, but its style
is null.
-/

namespace Testimony

/-! ## The operators -/

theorem toLower_opacity : "opacity".toLower = "opacity" := by decide +kernel

/-- Something is always stated for the opacity of an element, if only by the initial value. -/
theorem Page.exists_opacity (p : Page) (i : Fin p.size) :
    ∃ raw, p.style? i "opacity" = some raw := by
  have hinherited : Style.isInherited "opacity".toLower = false := by decide +kernel
  rcases h : (p.element i).inline? "opacity".toLower with _ | raw
  · rw [style?_of_initial h (.inl hinherited), toLower_opacity]
    exact ⟨"1", rfl⟩
  · exact ⟨raw, style?_of_inline h⟩

namespace Operator

/-- The style `opacity` in place of the opacity. -/
def opacityAsStyle : Operator → Operator
  | opacity => ofProperty "opacity"
  | op => op

theorem ofProperty_opacity : ofProperty "opacity" = computedStyle "opacity" := by
  rw [ofProperty, toLower_opacity]

theorem step_opacityAsStyle (op : Operator) (index : Nat) :
    op.opacityAsStyle.step index = op.step index := by
  cases op
  case opacity =>
    rw [opacityAsStyle, ofProperty_opacity]
    rfl
  all_goals rfl

theorem styleValue_of_opacityOf {ν : Type} [Node ν] {op : Operator} {n : ν} {raw : String}
    {x : Number} (hraw : Node.style n "opacity" = some raw) (h : op.opacityOf n = .ok x) :
    styleValue n "opacity" = .number x := by
  rw [opacityOf, hraw] at h
  rw [styleValue, hraw]
  rcases hmeasure : Style.measure? raw with _ | y <;> simp only [hmeasure] at h ⊢
  · cases h
  · cases h
    rfl

variable {μ : Type} [Node μ]

theorem apply_opacityAsStyle {op : Operator} {vs : List (Value (PageElement ⊕ μ))}
    {out : Output (PageElement ⊕ μ)} (hvs : ∀ v ∈ vs, v.OfPage) (h : op.apply vs = .ok out) :
    op.opacityAsStyle.apply vs = .ok out := by
  cases op
  case opacity =>
    rw [opacityAsStyle, ofProperty_opacity]
    rcases vs with _ | ⟨v, _ | ⟨w, vs⟩⟩
    · cases h
    · simp only [apply, bind_eq_ok, elementOf_eq_ok, pure, Except.pure, Except.ok.injEq] at h
      obtain ⟨n, rfl, x, hx, rfl⟩ := h
      obtain ⟨e, rfl⟩ := hvs _ List.mem_cons_self n rfl
      obtain ⟨raw, hraw⟩ := e.page.exists_opacity e.index
      have hvalue : styleValue (.inl e : PageElement ⊕ μ) "opacity" = .number x :=
        styleValue_of_opacityOf hraw hx
      simp only [apply, bind_eq_ok, elementOf_eq_ok, pure, Except.pure, Except.ok.injEq]
      exact ⟨.inl e, rfl, by rw [hvalue]⟩
    · cases h
  all_goals exact h

end Operator

/-! ## Expressions -/

/-- A match below an element of a page is an element of that page. -/
theorem Value.OfPage.follow {μ : Type} [Node μ] {v w : Value (PageElement ⊕ μ)}
    {selector : String} {index : Nat} (hv : v.OfPage)
    (hw : (Step.selectorMatch selector index).follow? v = some w) : w.OfPage := by
  rintro x rfl
  cases v
  case element n =>
    obtain ⟨e, rfl⟩ := hv n rfl
    rw [Step.follow?] at hw
    rcases hquery : Node.query (.inl e : PageElement ⊕ μ) selector with failure | found <;>
      simp only [hquery] at hw
    · cases hw
    · obtain ⟨ys, -, rfl⟩ := query_page.1 hquery
      simp only [List.getElem?_map, Option.map_eq_some_iff] at hw
      obtain ⟨_, ⟨y, -, rfl⟩, hx⟩ := hw
      cases hx
      exact ⟨_, rfl⟩
  all_goals cases hw

theorem visit_of_visit {ν : Type} {q : Quantifier} {p : WitnessPolicy}
    {test test' : Binding ν → Except Fault (Bool × Witness ν)} {r : Bool × Witness ν} :
    ∀ {bs : List (Binding ν)} {kept : Option (Witness ν)},
      (∀ b ∈ bs, ∀ r, test b = .ok r → test' b = .ok r) →
      q.visit p test bs kept = .ok r → q.visit p test' bs kept = .ok r
  | [], _, _, h => h
  | b :: bs, kept, htest, h => by
    simp only [Quantifier.visit, bind_eq_ok] at h ⊢
    obtain ⟨⟨outcome, w⟩, hb, h⟩ := h
    refine ⟨(outcome, w), htest b List.mem_cons_self _ hb, ?_⟩
    dsimp only at h ⊢
    split_ifs at h ⊢
    · exact h
    · exact visit_of_visit (fun b' hb' => htest b' (List.mem_cons_of_mem b hb')) h

namespace Expr

section Replacement

variable {ν : Type}

mutual

/-- The expression with the style `opacity` in place of the opacity everywhere. -/
def opacityAsStyle : Expr ν → Expr ν
  | constant v => constant v
  | reference r => reference r
  | apply op es => apply op.opacityAsStyle (opacityAsStyleAll es)
  | quantify q name domain body => quantify q name domain.opacityAsStyle body.opacityAsStyle

def opacityAsStyleAll : List (Expr ν) → List (Expr ν)
  | [] => []
  | e :: es => e.opacityAsStyle :: opacityAsStyleAll es

end

end Replacement

variable {μ : Type} [Node μ] {s : Settings} {c : Context (PageElement ⊕ μ)}

/-- What queries find from elements of pages are elements of pages. -/
theorem ofPage_candidate {domain : Expr (PageElement ⊕ μ)} {level : Nat} {name : String}
    {d : Finding (PageElement ⊕ μ)} {ms : List (Member (PageElement ⊕ μ))}
    (hc : c.All fun b => b.value.OfPage) (hv : ∀ v ∈ domain.constants, v.OfPage)
    (hd : domain.evaluateAt s level c = .ok d) (hms : d.output = .members ms)
    {b : Binding (PageElement ⊕ μ)} (hb : b ∈ ms.map (d.candidate name)) : b.value.OfPage := by
  obtain ⟨m, hm, rfl⟩ := List.mem_map.1 hb
  exact hc.candidate hv Value.OfPage.follow hd hms hm

theorem ofPage_of_evaluateOperands {op : Operator} :
    ∀ {es : List (Expr (PageElement ⊕ μ))} {index level : Nat} {a : Arguments (PageElement ⊕ μ)},
      c.All (fun b => b.value.OfPage) → (∀ v ∈ constantsAll es, v.OfPage) →
      evaluateOperands s op es index level c = .ok a → ∀ v ∈ a.values, v.OfPage
  | [], _, _, _, _, _, h, v, hv => by
    cases h
    cases hv
  | e :: es, index, level, a, hc, hes, h, v, hv => by
    obtain ⟨f, w, rest, hf, hw, hrest, rfl⟩ := evaluateOperands_cons_ok.1 h
    simp only [constantsAll, List.forall_mem_append] at hes
    rcases List.mem_cons.1 hv with rfl | hv
    · rintro n rfl
      exact exists_page_of_element hc hes.1 hf hw
    · exact ofPage_of_evaluateOperands hc hes.2 hrest v hv

mutual

theorem evaluateAt_opacityAsStyle :
    ∀ {e : Expr (PageElement ⊕ μ)} {level : Nat} {c : Context (PageElement ⊕ μ)}
      {f : Finding (PageElement ⊕ μ)},
      c.All (fun b => b.value.OfPage) → (∀ v ∈ e.constants, v.OfPage) →
      e.evaluateAt s level c = .ok f → e.opacityAsStyle.evaluateAt s level c = .ok f
  | constant v, _, _, _, _, _, h => h
  | reference r, _, _, _, _, _, h => h
  | apply op es, level, c, f, hc, hes, h => by
    obtain ⟨hl, a, out, ha, hout, rfl⟩ := evaluateAt_apply_ok.1 h
    have hvalues := ofPage_of_evaluateOperands hc hes ha
    exact evaluateAt_apply_ok.2 ⟨hl, a, out, evaluateOperands_opacityAsStyle hc hes ha,
      Operator.apply_opacityAsStyle hvalues hout, rfl⟩
  | quantify q name domain body, level, c, f, hc, hv, h => by
    obtain ⟨hl, d, ms, hd, hms, hempty, holds, w, hvisit, rfl⟩ := evaluateAt_quantify_ok.1 h
    simp only [constants, List.forall_mem_append] at hv
    refine evaluateAt_quantify_ok.2 ⟨hl, d, ms, evaluateAt_opacityAsStyle hc hv.1 hd, hms, hempty,
      holds, w, visit_of_visit (fun b hb r ht => ?_) hvisit, rfl⟩
    obtain ⟨g, hg, hout, hw⟩ := testBody_ok.1 ht
    have hb := ofPage_candidate hc hv.1 hd hms hb
    exact testBody_ok.2 ⟨g, evaluateAt_opacityAsStyle (hc.extend hb name) hv.2 hg, hout, hw⟩

theorem evaluateOperands_opacityAsStyle {op : Operator} :
    ∀ {es : List (Expr (PageElement ⊕ μ))} {index level : Nat} {c : Context (PageElement ⊕ μ)}
      {a : Arguments (PageElement ⊕ μ)},
      c.All (fun b => b.value.OfPage) → (∀ v ∈ constantsAll es, v.OfPage) →
      evaluateOperands s op es index level c = .ok a →
      evaluateOperands s op.opacityAsStyle (opacityAsStyleAll es) index level c = .ok a
  | [], _, _, _, _, _, _, h => h
  | e :: es, index, level, c, a, hc, hes, h => by
    obtain ⟨f, v, rest, hf, hv, hrest, rfl⟩ := evaluateOperands_cons_ok.1 h
    simp only [constantsAll, List.forall_mem_append] at hes
    rw [← op.step_opacityAsStyle]
    exact evaluateOperands_cons_ok.2 ⟨f, v, rest, evaluateAt_opacityAsStyle hc hes.1 hf, hv,
      evaluateOperands_opacityAsStyle hc hes.2 hrest, rfl⟩

end

/-- Where an expression succeeds on elements of pages, its opacities can be taken as styles, and
neither the output nor the path or the witness changes. -/
theorem evaluate_opacityAsStyle (e : Expr (PageElement ⊕ μ)) (s : Settings)
    (c : Context (PageElement ⊕ μ)) (hc : c.All fun b => b.value.OfPage)
    (hv : ∀ v ∈ e.constants, v.OfPage) {f : Finding (PageElement ⊕ μ)}
    (h : e.evaluate s c = .ok f) : e.opacityAsStyle.evaluate s c = .ok f :=
  evaluateAt_opacityAsStyle hc hv h

section Sample

/-- A faint paragraph and one whose opacity is not set. -/
def sampleFaded : Page :=
  .ofMarkup 0 (.node (.ofTag "body")
    [.node ((Element.ofTag "p").setStyle "opacity" " 0.25 ") [], .node (.ofTag "p") []])

/-- Some paragraph is opaque. -/
def sampleOpaque : Expr (PageElement ⊕ PageElement) :=
  quantify .existential "$x" (apply (.findBySelector "p") [input 0])
    (apply .isEqualTo [apply .opacity [var "$x"], constant (.number .one)])

theorem evaluate_opacityAsStyle_sampleOpaque :
    let c := Context.ofInputs [.element (.inl ⟨sampleFaded, 0, by decide⟩)]
    c.All (fun b => b.value.OfPage) ∧ (∀ v ∈ sampleOpaque.constants, v.OfPage) ∧
      ∃ f, sampleOpaque.evaluate {} c = .ok f ∧
        sampleOpaque.opacityAsStyle.evaluate {} c = .ok f := by
  intro c
  have hc : c.All fun b => b.value.OfPage := Context.all_ofInputs fun v hv n hn => by
    obtain rfl := List.mem_singleton.1 hv
    cases hn
    exact ⟨_, rfl⟩
  have hv : ∀ v ∈ sampleOpaque.constants, v.OfPage := fun v hv n hn => by
    obtain rfl := List.mem_singleton.1 hv
    cases hn
  obtain ⟨f, hf⟩ : ∃ f, sampleOpaque.evaluate {} c = .ok f := exists_of_isOk (by decide +kernel)
  exact ⟨hc, hv, f, hf, evaluate_opacityAsStyle sampleOpaque {} c hc hv hf⟩

end Sample

end Expr

end Testimony
