import Mathlib.Data.List.Forall2
import Testimony.Proofs.Replay
import Testimony.Proofs.WitnessLength

/-!
# A witness gives its outcome again

The leaves of a witness lead to the values that the operators had. So the outcome can be had from
the witness alone: drop the domains, which keeps the terms (`skeleton`, `terms_skeleton`), put the
values to which the leaves lead in their place (`fill`, `terms_fill`), and evaluate without inputs.
The outcome is the same (`evaluate_fill_skeleton`), provided that no quantifier over nothing left
terms without a leaf.

The induction is on the expression, under any scope whose bindings are faithful. A quantifier
contributes the run of its body for the candidate that it reports, one level further up; nothing in
what is left can fail for standing higher, which is why the levels below `level` are all covered.
-/

namespace Testimony

variable {ν : Type}

namespace Expr

mutual

/-- The expression with the body of each quantifier in place of the quantifier. -/
def skeleton : Expr ν → Expr ν
  | constant v => constant v
  | reference r => reference r
  | apply op es => apply op (skeletonAll es)
  | quantify _ _ _ body => body.skeleton

def skeletonAll : List (Expr ν) → List (Expr ν)
  | [] => []
  | e :: es => e.skeleton :: skeletonAll es

end

mutual

/-- The expression with literals of the values in place of its terms, from left to right. Each
operand takes as many values as it has terms. -/
def fill : Expr ν → List (Value ν) → Expr ν
  | constant v, vs => vs.head?.elim (constant v) constant
  | reference r, vs => vs.head?.elim (reference r) constant
  | apply op es, vs => apply op (fillAll es vs)
  | quantify q name domain body, vs => quantify q name domain (body.fill vs)

def fillAll : List (Expr ν) → List (Value ν) → List (Expr ν)
  | [], _ => []
  | e :: es, vs => e.fill (vs.take e.leafCount) :: fillAll es (vs.drop e.leafCount)

end

section Terms

mutual

theorem terms_skeleton : ∀ e : Expr ν, e.skeleton.terms = e.terms
  | constant _ => rfl
  | reference _ => rfl
  | apply _ es => termsAll_skeletonAll es
  | quantify _ _ _ body => terms_skeleton body

theorem termsAll_skeletonAll : ∀ es : List (Expr ν), termsAll (skeletonAll es) = termsAll es
  | [] => rfl
  | e :: es => by
    rw [skeletonAll, termsAll, termsAll, terms_skeleton e, termsAll_skeletonAll es]

end

theorem leafCount_skeleton (e : Expr ν) : e.skeleton.leafCount = e.leafCount := by
  rw [← length_terms, terms_skeleton, length_terms]

mutual

theorem terms_fill : ∀ (e : Expr ν) {vs : List (Value ν)}, vs.length = e.leafCount →
    (e.fill vs).terms = vs.map constant
  | constant _, vs, h => by
    obtain ⟨v, rfl⟩ := List.length_eq_one_iff.1 h
    rfl
  | reference _, vs, h => by
    obtain ⟨v, rfl⟩ := List.length_eq_one_iff.1 h
    rfl
  | apply _ es, _, h => termsAll_fillAll es h
  | quantify _ _ _ body, _, h => terms_fill body h

theorem termsAll_fillAll : ∀ (es : List (Expr ν)) {vs : List (Value ν)},
    vs.length = leafCountAll es → termsAll (fillAll es vs) = vs.map constant
  | [], vs, h => by
    rw [List.length_eq_zero_iff.1 h]
    rfl
  | e :: es, vs, h => by
    rw [leafCountAll] at h
    have htake : (vs.take e.leafCount).length = e.leafCount := by
      rw [List.length_take]
      omega
    have hdrop : (vs.drop e.leafCount).length = leafCountAll es := by
      rw [List.length_drop]
      omega
    rw [fillAll, termsAll, terms_fill e htake, termsAll_fillAll es hdrop, ← List.map_append,
      List.take_append_drop]

end

end Terms

variable [Node ν] {s : Settings}

mutual

theorem evaluateAt_fill_skeleton (hs : s.emptyDomain = .reject) :
    ∀ (e : Expr ν) {level : Nat} {c : Context ν} {f : Finding ν}, c.All Binding.Faithful →
      e.evaluateAt s level c = .ok f →
      ∃ vs, List.Forall₂ (fun l v => l.replay? = some v) f.witness vs ∧
        ∀ level' ≤ level, ∀ c' : Context ν, ∃ g,
          (e.skeleton.fill vs).evaluateAt s level' c' = .ok g ∧ g.output = f.output
  | constant v, level, c, f, _, h => by
    obtain ⟨hl, rfl⟩ := evaluateAt_constant_ok.1 h
    refine ⟨[v], .cons rfl .nil, fun level' hle c' => ?_⟩
    exact ⟨_, evaluateAt_constant_ok.2 ⟨Nat.lt_of_le_of_lt hle hl, rfl⟩, rfl⟩
  | reference r, level, c, f, hc, h => by
    obtain ⟨hl, b, hb, rfl⟩ := evaluateAt_reference_ok.1 h
    refine ⟨[b.value], .cons (hc r b hb) .nil, fun level' hle c' => ?_⟩
    exact ⟨_, evaluateAt_constant_ok.2 ⟨Nat.lt_of_le_of_lt hle hl, rfl⟩, rfl⟩
  | apply op es, level, c, f, hc, h => by
    obtain ⟨hl, a, out, ha, hout, rfl⟩ := evaluateAt_apply_ok.1 h
    obtain ⟨vs, hvs, hrun⟩ := evaluateOperands_fill_skeleton hs op es hc ha
    refine ⟨vs, hvs, fun level' hle c' => ?_⟩
    obtain ⟨a', ha', hvalues⟩ := hrun 0 (level' + 1) (Nat.succ_le_succ hle) c'
    rw [← hvalues] at hout
    exact ⟨_, evaluateAt_apply_ok.2 ⟨Nat.lt_of_le_of_lt hle hl, a', out, ha', hout, rfl⟩, rfl⟩
  | quantify q name domain body, level, c, f, hc, h => by
    obtain ⟨d, ms, hd, hms, ⟨-, hv, -⟩ | ⟨m, hm, g, hg, ho, hw⟩⟩ := exists_reported h
    · rw [hs] at hv
      cases hv
    have hcand : (d.candidate name m).Faithful := hc.candidate
      (fun v _ => Binding.faithful_input v) (fun hb hx => hb.matched hx) hd hms hm
    obtain ⟨vs, hvs, hrun⟩ := evaluateAt_fill_skeleton hs body (hc.extend hcand name) hg
    rw [hw] at hvs
    refine ⟨vs, hvs, fun level' hle c' => ?_⟩
    obtain ⟨g', hg', ho'⟩ := hrun level' (Nat.le_succ_of_le hle) c'
    exact ⟨g', hg', ho'.trans ho⟩

theorem evaluateOperands_fill_skeleton (hs : s.emptyDomain = .reject) (op : Operator) :
    ∀ (es : List (Expr ν)) {index level : Nat} {c : Context ν} {a : Arguments ν},
      c.All Binding.Faithful → evaluateOperands s op es index level c = .ok a →
      ∃ vs, List.Forall₂ (fun l v => l.replay? = some v) a.witness vs ∧
        ∀ index', ∀ level' ≤ level, ∀ c' : Context ν, ∃ a',
          evaluateOperands s op (fillAll (skeletonAll es) vs) index' level' c' = .ok a' ∧
            a'.values = a.values
  | [], index, level, c, a, _, h => by
    cases h
    exact ⟨[], .nil, fun _ _ _ _ => ⟨_, rfl, rfl⟩⟩
  | e :: es, index, level, c, a, hc, h => by
    obtain ⟨f, v, rest, hf, hv, hrest, rfl⟩ := evaluateOperands_cons_ok.1 h
    obtain ⟨vs, hvs, hrun⟩ := evaluateAt_fill_skeleton hs e hc hf
    obtain ⟨ws, hws, hrun'⟩ := evaluateOperands_fill_skeleton hs op es hc hrest
    have hlen : e.skeleton.leafCount = vs.length := by
      rw [leafCount_skeleton, ← (length_witness e hf).2 hs, hvs.length_eq]
    refine ⟨vs ++ ws, List.rel_append hvs hws, fun index' level' hle c' => ?_⟩
    obtain ⟨g, hg, ho⟩ := hrun level' hle c'
    obtain ⟨rest', hrest', hvalues⟩ := hrun' (index' + 1) level' hle c'
    simp only [skeletonAll, fillAll, hlen, List.take_left, List.drop_left]
    refine ⟨_, evaluateOperands_cons_ok.2 ⟨g, v, rest', hg, ho.trans hv, hrest', rfl⟩, ?_⟩
    rw [hvalues]

end

/-- Where empty domains are rejected, the leaves of a witness lead to values, one for each term that
is left without the domains, and with these values as its terms the expression has the same outcome
without any input. -/
theorem evaluate_fill_skeleton (e : Expr ν) (s : Settings) (hs : s.emptyDomain = .reject)
    (inputs : List (Value ν)) {f : Finding ν} (h : e.evaluate s (.ofInputs inputs) = .ok f) :
    ∃ vs, List.Forall₂ (fun l v => l.replay? = some v) f.witness vs ∧
      vs.length = e.skeleton.leafCount ∧
      (e.skeleton.fill vs).terms = vs.map constant ∧
      ∃ g, (e.skeleton.fill vs).evaluate s (.ofInputs []) = .ok g ∧ g.output = f.output := by
  have hc : (Context.ofInputs inputs).All Binding.Faithful :=
    Context.all_ofInputs fun v _ => Binding.faithful_input v
  obtain ⟨vs, hvs, hrun⟩ := evaluateAt_fill_skeleton hs e hc h
  have hlen : vs.length = e.skeleton.leafCount := by
    rw [leafCount_skeleton, ← (length_witness e h).2 hs, hvs.length_eq]
  exact ⟨vs, hvs, hlen, terms_fill e.skeleton hlen, hrun 0 (Nat.le_refl 0) (.ofInputs [])⟩

theorem evaluate_fill_skeleton_sampleRule :
    ∃ f, sampleRule.evaluate { emptyDomain := .reject } (.ofInputs sampleInputs) = .ok f ∧
      ∃ vs, List.Forall₂ (fun l v => l.replay? = some v) f.witness vs ∧ vs.length = 3 ∧
        (sampleRule.skeleton.fill vs).terms = vs.map constant ∧
        ∃ g, (sampleRule.skeleton.fill vs).evaluate { emptyDomain := .reject } (.ofInputs [])
          = .ok g ∧ g.output = f.output := by
  obtain ⟨f, hf⟩ := exists_sampleRule .reject
  exact ⟨f, hf, evaluate_fill_skeleton sampleRule { emptyDomain := .reject } rfl sampleInputs hf⟩

end Expr

end Testimony
