import Testimony.Proofs.Complaints

/-!
# Free references

An evaluation looks up the free references of its expression and no others: the variable of a
quantifier is found in the scope that the quantifier opens, whatever is bound further out. So two
contexts in which the free references stand for the same things give the same evaluation, however
else they differ (`evaluateAt_congr_lookup`). And a reference that is reported as unbound is one of
the free ones (`complaint_evaluateAt`). `evaluate_free_references` puts the two together.
-/

namespace Testimony.Expr

variable {ν : Type}

theorem lookup?_extend_congr {q : Quantifier} {name : String} {domain body : Expr ν}
    {c c' : Context ν}
    (h : ∀ r ∈ (quantify q name domain body).freeReferences, c.lookup? r = c'.lookup? r)
    (b : Binding ν) :
    ∀ r ∈ body.freeReferences, (c.extend name b).lookup? r = (c'.extend name b).lookup? r := by
  intro r hr
  rw [Context.lookup?_extend, Context.lookup?_extend]
  split_ifs with hname
  · rfl
  · exact h r (mem_freeReferences_quantify.2 (.inr ⟨hr, hname⟩))

variable [Node ν] {s : Settings}

mutual

theorem evaluateAt_congr_lookup :
    ∀ (e : Expr ν) (level : Nat) {c c' : Context ν},
      (∀ r ∈ e.freeReferences, c.lookup? r = c'.lookup? r) →
      e.evaluateAt s level c = e.evaluateAt s level c'
  | constant v, level, c, c', _ => by
    simp only [evaluateAt]
  | reference r, level, c, c', h => by
    have hr : c.resolve r = c'.resolve r := by
      rw [Context.resolve, Context.resolve, h r (List.mem_singleton.2 rfl)]
    simp only [evaluateAt, hr]
  | apply op es, level, c, c', h => by
    simp only [evaluateAt, evaluateOperands_congr_lookup op es 0 (level + 1) h]
  | quantify q name domain body, level, c, c', h => by
    have hdomain : domain.evaluateAt s (level + 1) c = domain.evaluateAt s (level + 1) c' :=
      evaluateAt_congr_lookup domain (level + 1) fun r hr =>
        h r (mem_freeReferences_quantify.2 (.inl hr))
    have hbody : testBody q name body s (level + 1) c = testBody q name body s (level + 1) c' :=
      testBody_congr fun b =>
        evaluateAt_congr_lookup body (level + 1) (lookup?_extend_congr h b)
    rw [evaluateAt_quantify, evaluateAt_quantify, hdomain, hbody]

theorem evaluateOperands_congr_lookup (op : Operator) :
    ∀ (es : List (Expr ν)) (index level : Nat) {c c' : Context ν},
      (∀ r ∈ freeReferencesAll es, c.lookup? r = c'.lookup? r) →
      evaluateOperands s op es index level c = evaluateOperands s op es index level c'
  | [], _, _, _, _, _ => rfl
  | e :: es, index, level, c, c', h => by
    have he : e.evaluateAt s level c = e.evaluateAt s level c' :=
      evaluateAt_congr_lookup e level fun r hr => h r (List.mem_append_left _ hr)
    have hes : evaluateOperands s op es (index + 1) level c
        = evaluateOperands s op es (index + 1) level c' :=
      evaluateOperands_congr_lookup op es (index + 1) level fun r hr =>
        h r (List.mem_append_right _ hr)
    simp only [evaluateOperands, he, hes]

end

/-- Contexts that resolve the free references alike give the same evaluation, and a reference that
an evaluation reports as unbound is a free one that the context does not resolve. -/
theorem evaluate_free_references (e : Expr ν) (s : Settings) (c : Context ν) :
    (∀ c', (∀ r ∈ e.freeReferences, c.resolve r = c'.resolve r) → e.evaluate s c = e.evaluate s c')
      ∧ ∀ t, e.evaluate s c = .error (.unboundReference t) →
          ∃ r ∈ e.freeReferences, t = r.text ∧ ∀ b, c.resolve r ≠ .ok b := by
  refine ⟨fun c' h => ?_, fun t ht => ?_⟩
  · refine evaluateAt_congr_lookup e 0 fun r hr => Option.ext fun b => ?_
    have hresolve := h r hr
    rw [← resolve_eq_ok, ← resolve_eq_ok, hresolve]
  · have hcomplaint := failsBy_iff.1 (complaint_evaluateAt e 0 c) _ ht
    cases hcomplaint with
    | given hgiven => cases hgiven
    | @unbound r hr hnone =>
      refine ⟨r, hr, rfl, fun b hb => ?_⟩
      rw [resolve_eq_ok, hnone] at hb
      cases hb

section Sample

/-- A variable of the name that the rule binds itself, and another one. -/
def sampleScope : Context PageElement :=
  ((Context.ofInputs sampleInputs).extend "$y" (.input .null)).extend "$x" (.input (.text "red"))

theorem evaluate_free_references_sampleRule :
    sampleRule.evaluate {} (.ofInputs sampleInputs) = sampleRule.evaluate {} sampleScope
      ∧ ∃ r ∈ sampleRule.freeReferences, r = .positional 1 ∧
          ∀ b, (Context.ofInputs (sampleInputs.take 1)).resolve r ≠ .ok b := by
  have hfree : sampleRule.freeReferences = [.positional 1, .positional 0] := by decide
  refine ⟨(evaluate_free_references sampleRule {} _).1 sampleScope fun r hr => ?_, ?_⟩
  · simp only [hfree, List.mem_cons, List.not_mem_nil, or_false] at hr
    rcases hr with rfl | rfl <;> rfl
  · obtain ⟨r, hr, htext, hnone⟩ :=
      (evaluate_free_references sampleRule {} (.ofInputs (sampleInputs.take 1))).2 "@1" rfl
    refine ⟨r, hr, ?_, hnone⟩
    simp only [hfree, List.mem_cons, List.not_mem_nil, or_false] at hr
    rcases hr with rfl | rfl
    · rfl
    · exact absurd htext (by decide)

end Sample

end Testimony.Expr
