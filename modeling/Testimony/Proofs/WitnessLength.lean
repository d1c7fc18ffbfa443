import Testimony.Proofs.Agreement

/-!
# The length of a witness

Operands append their witnesses and a quantifier hands on one of its body's, so a witness has as
many leaves as the expression has terms. Only a quantifier over nothing falls short: it has no
witness. So the number of terms is a bound, and it is the length if empty domains are rejected
(`length_witness`) or would not have been met (`witness_length`).
-/

namespace Testimony.Expr

variable {ν : Type} [Node ν] {s : Settings}

mutual

theorem length_witness :
    ∀ (e : Expr ν) {level : Nat} {c : Context ν} {f : Finding ν},
      e.evaluateAt s level c = .ok f →
        f.witness.length ≤ e.leafCount
          ∧ (s.emptyDomain = .reject → f.witness.length = e.leafCount)
  | constant v, level, c, f, h => by
    obtain ⟨-, rfl⟩ := evaluateAt_constant_ok.1 h
    exact ⟨Nat.le_refl 1, fun _ => rfl⟩
  | reference r, level, c, f, h => by
    obtain ⟨-, b, -, rfl⟩ := evaluateAt_reference_ok.1 h
    exact ⟨Nat.le_refl 1, fun _ => rfl⟩
  | apply op es, level, c, f, h => by
    obtain ⟨-, a, out, ha, -, rfl⟩ := evaluateAt_apply_ok.1 h
    exact length_operands_witness op es ha
  | quantify q name domain body, level, c, f, h => by
    obtain ⟨d, ms, -, -, ⟨-, hv, hw⟩ | ⟨m, -, g, hg, -, hw⟩⟩ := exists_reported h
    · refine ⟨?_, fun hs => ?_⟩
      · rw [hw]
        exact Nat.zero_le _
      · rw [hs] at hv
        cases hv
    · rw [← hw]
      exact length_witness body hg

theorem length_operands_witness (op : Operator) :
    ∀ (es : List (Expr ν)) {index level : Nat} {c : Context ν} {a : Arguments ν},
      evaluateOperands s op es index level c = .ok a →
        a.witness.length ≤ leafCountAll es
          ∧ (s.emptyDomain = .reject → a.witness.length = leafCountAll es)
  | [], index, level, c, a, h => by
    cases h
    exact ⟨Nat.le_refl 0, fun _ => rfl⟩
  | e :: es, index, level, c, a, h => by
    obtain ⟨f, v, rest, hf, -, hrest, rfl⟩ := evaluateOperands_cons_ok.1 h
    obtain ⟨hle, heq⟩ := length_witness e hf
    obtain ⟨hles, heqs⟩ := length_operands_witness op es hrest
    simp only [List.length_append, leafCountAll]
    exact ⟨Nat.add_le_add hle hles, fun hs => by rw [heq hs, heqs hs]⟩

end

/-- A witness has at most as many leaves as the expression has terms, and exactly as many if empty
domains are rejected or none was met. -/
theorem witness_length (e : Expr ν) (s : Settings) (c : Context ν) {f : Finding ν}
    (h : e.evaluate s c = .ok f) :
    f.witness.length ≤ e.leafCount
      ∧ (s.emptyDomain = .reject → f.witness.length = e.leafCount)
      ∧ ((∀ name, e.evaluate { s with emptyDomain := .reject } c ≠ .error (.emptyDomain name)) →
          f.witness.length = e.leafCount) := by
  obtain ⟨hle, hreject⟩ := length_witness e h
  refine ⟨hle, hreject, fun hne => ?_⟩
  have hsame := sameUnless_evaluateAt (relaxed_reject s) e 0 c
  have heq := hsame.eq <| by
    rintro _ ⟨name, rfl⟩
    exact hne name
  rw [evaluate, ← heq] at h
  exact (length_witness e h).2 rfl

theorem witness_length_sampleRule :
    ∃ f, sampleRule.evaluate {} (.ofInputs sampleInputs) = .ok f ∧ f.witness.length = 3 := by
  obtain ⟨f, hf⟩ := exists_sampleRule .vacuous
  obtain ⟨g, hg⟩ := exists_sampleRule .reject
  refine ⟨f, hf, (witness_length sampleRule {} _ hf).2.2 fun name he => ?_⟩
  rw [hg] at he
  cases he

end Testimony.Expr
