import Testimony.Proofs.Agreement
import Testimony.Proofs.Parallel

/-!
# What the policies change

The witness policy chooses among the witnesses of a quantifier that no candidate decides, and
nothing that is evaluated looks at a witness: operators get values, and a quantifier asks its body
for an outcome. The one thing taken from a witness is the object that candidates are reported
through, and it is the leaf of the single term that the domain queries, the same whatever the
policy (`eq_of_members`). So two evaluations that differ in the witness policy run in parallel
(`parallel_evaluateAt`): one fault, or one output with one path.

The policy for empty domains decides whether a quantifier over nothing fails. A failure ends the
evaluation, so where none of this kind occurs both policies give the same
(`sameUnless_evaluateAt`). `policies_separate` puts the two together.
-/

namespace Testimony

variable {ν : Type}

/-- The findings differ at most in their witnesses. -/
structure Finding.SameDerivation (f g : Finding ν) : Prop where
  output : f.output = g.output
  path : f.path = g.path

variable [Node ν]

namespace Expr

/-- A domain is the same under all settings that let it be evaluated. -/
theorem eq_of_members {s s' : Settings} {level level' : Nat} {e : Expr ν} {c : Context ν}
    {f g : Finding ν} {ms ms' : List (Member ν)} (hf : e.evaluateAt s level c = .ok f)
    (hg : e.evaluateAt s' level' c = .ok g) (hms : f.output = .members ms)
    (hms' : g.output = .members ms') : f = g := by
  obtain ⟨selector, t, b, n, found, rfl, ht, hn, hq, rfl, hp, hw⟩ := exists_query_of_members hf hms
  obtain ⟨_, _, b', n', found', heq, ht', hn', hq', rfl, hp', hw'⟩ :=
    exists_query_of_members hg hms'
  cases heq
  rw [ht] at ht'
  cases ht'
  rw [hn] at hn'
  cases hn'
  rw [hq] at hq'
  cases hq'
  rcases f with ⟨out, path, w⟩
  rcases g with ⟨out', path', w'⟩
  cases hms
  cases hms'
  dsimp only at hp hp' hw hw'
  rw [hp, hp', hw, hw']

variable {s : Settings} {p p' : WitnessPolicy}

mutual

/-- Evaluations that differ in the witness policy fail alike, or have one output and one path. -/
theorem parallel_evaluateAt :
    ∀ (e : Expr ν) (level : Nat) (c : Context ν), Parallel Finding.SameDerivation
      (e.evaluateAt { s with witnessPolicy := p } level c)
      (e.evaluateAt { s with witnessPolicy := p' } level c)
  | constant v, level, c => by
    simp only [evaluateAt]
    exact (Parallel.refl (s.allowLevel level)).bind fun _ _ _ _ _ => .ok ⟨rfl, rfl⟩
  | reference r, level, c => by
    simp only [evaluateAt]
    refine (Parallel.refl (s.allowLevel level)).bind fun _ _ _ _ _ => ?_
    refine (Parallel.refl _).bind ?_
    rintro b _ - - rfl
    exact .ok ⟨rfl, rfl⟩
  | apply op es, level, c => by
    simp only [evaluateAt]
    refine (Parallel.refl (s.allowLevel level)).bind fun _ _ _ _ _ => ?_
    refine (parallel_evaluateOperands op es 0 (level + 1) c).bind ?_
    rintro ⟨values, path, w⟩ ⟨_, _, w'⟩ - - ⟨rfl, rfl⟩
    refine (Parallel.refl _).bind ?_
    rintro out _ - - rfl
    exact .ok ⟨rfl, rfl⟩
  | quantify q name domain body, level, c => by
    rw [evaluateAt_quantify, evaluateAt_quantify]
    refine (Parallel.refl (s.allowLevel level)).bind fun _ _ _ _ _ => ?_
    refine (parallel_evaluateAt domain (level + 1) c).bind fun d d' hd hd' hsame => ?_
    refine (parallel_members q.name hsame.output).bind ?_
    rintro ms _ hms hms' rfl
    -- the candidates are the same, leaves included
    obtain rfl : d = d' := eq_of_members hd hd' (members_eq_ok.1 hms) (members_eq_ok.1 hms')
    have hbody (b : Binding ν) := (parallel_evaluateAt body (level + 1) (c.extend name b)).mono
      fun _ _ => Finding.SameDerivation.output
    dsimp only
    split_ifs
    · exact .error
    · refine (parallel_visit ?_ none none).bind ?_
      · exact List.forall₂_same.2 fun b _ => parallel_testBody q (hbody b)
      · rintro ⟨holds, w⟩ ⟨_, w'⟩ - - rfl
        exact .ok ⟨rfl, rfl⟩

theorem parallel_evaluateOperands (op : Operator) :
    ∀ (es : List (Expr ν)) (index level : Nat) (c : Context ν),
      Parallel (fun a a' => a.values = a'.values ∧ a.path = a'.path)
        (evaluateOperands { s with witnessPolicy := p } op es index level c)
        (evaluateOperands { s with witnessPolicy := p' } op es index level c)
  | [], _, _, _ => .ok ⟨rfl, rfl⟩
  | e :: es, index, level, c => by
    simp only [evaluateOperands]
    refine (parallel_evaluateAt e level c).bind fun f g _ _ hfg => ?_
    refine (parallel_scalar op.name hfg.output).bind ?_
    rintro v _ - - rfl
    refine (parallel_evaluateOperands op es (index + 1) level c).bind ?_
    rintro ⟨values, path, w⟩ ⟨_, _, w'⟩ - - ⟨rfl, rfl⟩
    rw [hfg.path]
    exact .ok ⟨rfl, rfl⟩

end

/-- The witness policy changes nothing but the witness, and rejecting empty domains nothing but
that the evaluation may fail for one. -/
theorem policies_separate (e : Expr ν) (s : Settings) (c : Context ν) :
    ((∃ fault, e.evaluate { s with witnessPolicy := .first } c = .error fault
          ∧ e.evaluate { s with witnessPolicy := .last } c = .error fault)
        ∨ ∃ f g, e.evaluate { s with witnessPolicy := .first } c = .ok f
          ∧ e.evaluate { s with witnessPolicy := .last } c = .ok g
          ∧ f.output = g.output ∧ f.path = g.path)
      ∧ (∀ f, e.evaluate { s with emptyDomain := .reject } c = .ok f →
          e.evaluate { s with emptyDomain := .vacuous } c = .ok f)
      ∧ ∀ fault, e.evaluate { s with emptyDomain := .reject } c = .error fault →
          (∀ name, fault ≠ .emptyDomain name) →
          e.evaluate { s with emptyDomain := .vacuous } c = .error fault := by
  have hempty : SameUnless (∃ name, · = .emptyDomain name)
      (e.evaluate { s with emptyDomain := .reject } c)
      (e.evaluate { s with emptyDomain := .vacuous } c) :=
    sameUnless_evaluateAt (relaxed_reject { s with emptyDomain := .vacuous }) e 0 c
  refine ⟨?_, fun f hf => ?_, fun fault hfault hne => ?_⟩
  · rcases (parallel_evaluateAt e 0 c).cases with hfault | ⟨f, g, hf, hg, hsame⟩
    · exact .inl hfault
    · exact .inr ⟨f, g, hf, hg, hsame.output, hsame.path⟩
  · rw [← hf]
    refine (hempty.eq fun g _ hg => ?_).symm
    rw [hf] at hg
    cases hg
  · rw [← hfault]
    refine (hempty.eq ?_).symm
    rintro g ⟨name, rfl⟩ hg
    rw [hfault] at hg
    exact hne name (Except.error.inj hg)

theorem policies_separate_sampleRule :
    (∃ f, sampleRule.evaluate { emptyDomain := .reject } (.ofInputs sampleInputs) = .ok f
        ∧ sampleRule.evaluate { emptyDomain := .vacuous } (.ofInputs sampleInputs) = .ok f)
      ∧ sampleRule.evaluate { emptyDomain := .reject } (.ofInputs [])
        = .error (.unboundReference (Reference.positional 1).text)
      ∧ sampleRule.evaluate { emptyDomain := .vacuous } (.ofInputs [])
        = .error (.unboundReference (Reference.positional 1).text) := by
  obtain ⟨f, hf⟩ := exists_sampleRule .reject
  refine ⟨⟨f, hf, (policies_separate sampleRule {} _).2.1 f hf⟩, rfl, ?_⟩
  exact (policies_separate sampleRule {} _).2.2 _ rfl (by simp)

end Expr

end Testimony
