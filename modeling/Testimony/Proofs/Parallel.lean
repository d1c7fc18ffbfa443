import Mathlib.Data.List.Forall2
import Testimony.Proofs.Evaluation

/-!
# Evaluations in parallel

`Parallel R` relates two outcomes that are one fault, or results in the relation `R`. It goes
through sequencing (`Parallel.bind`). All that is asked of a finding is its output, so consumers of
findings with one output run in parallel, and so do visits of candidates for which the body has one
outcome, whatever leaves the candidates have and whichever witnesses are kept (`parallel_visit`).
-/

namespace Testimony

/-- Both outcomes are the same fault, or both are results in the relation. -/
inductive Parallel {α β : Type} (R : α → β → Prop) : Except Fault α → Except Fault β → Prop
  | ok {a : α} {b : β} : R a b → Parallel R (.ok a) (.ok b)
  | error {f : Fault} : Parallel R (.error f) (.error f)

section Sequences

variable {α β γ δ : Type} {R R' : α → β → Prop} {S : γ → δ → Prop} {x : Except Fault α}
  {y : Except Fault β}

theorem Parallel.refl (x : Except Fault α) : Parallel (· = ·) x x := by
  rcases x with f | a
  · exact .error
  · exact .ok rfl

theorem Parallel.mono (h : Parallel R x y) (hR : ∀ a b, R a b → R' a b) : Parallel R' x y := by
  cases h with
  | ok hab => exact .ok (hR _ _ hab)
  | error => exact .error

/-- What follows two results may make use of where they come from. -/
theorem Parallel.bind {k : α → Except Fault γ} {l : β → Except Fault δ} (h : Parallel R x y)
    (hk : ∀ a b, x = .ok a → y = .ok b → R a b → Parallel S (k a) (l b)) :
    Parallel S (x >>= k) (y >>= l) := by
  cases h with
  | ok hab => exact hk _ _ rfl rfl hab
  | error => exact .error

theorem Parallel.map_eq {k : α → γ} {l : β → γ} (h : Parallel (fun a b => k a = l b) x y) :
    x.map k = y.map l := by
  cases h with
  | ok hab => exact congrArg Except.ok hab
  | error => rfl

theorem Parallel.cases (h : Parallel R x y) :
    (∃ f, x = .error f ∧ y = .error f) ∨ ∃ a b, x = .ok a ∧ y = .ok b ∧ R a b := by
  cases h with
  | ok hab => exact .inr ⟨_, _, rfl, rfl, hab⟩
  | error => exact .inl ⟨_, rfl, rfl⟩

end Sequences

variable {ν : Type}

/-! ## Consumers -/

section Consumers

variable {f g : Finding ν} (consumer : String)

theorem parallel_scalar (h : f.output = g.output) :
    Parallel (· = ·) (f.scalar consumer) (g.scalar consumer) := by
  unfold Finding.scalar
  rw [h]
  exact .refl _

theorem parallel_members (h : f.output = g.output) :
    Parallel (· = ·) (f.members consumer) (g.members consumer) := by
  unfold Finding.members
  rw [h]
  exact .refl _

theorem parallel_boolean (h : f.output = g.output) :
    Parallel (· = ·) (f.boolean consumer) (g.boolean consumer) := by
  unfold Finding.boolean
  refine (parallel_scalar consumer h).bind ?_
  rintro v _ - - rfl
  exact .refl _

end Consumers

/-! ## Visits -/

section Visits

variable {q : Quantifier} {p p' : WitnessPolicy}
  {test test' : Binding ν → Except Fault (Bool × Witness ν)}

/-- Visits of candidates with the same outcomes stop at the same place, whichever witnesses are
kept. -/
theorem parallel_visit {bs bs' : List (Binding ν)}
    (h : List.Forall₂ (fun b b' => Parallel (·.1 = ·.1) (test b) (test' b')) bs bs') :
    ∀ kept kept' : Option (Witness ν),
      Parallel (·.1 = ·.1) (q.visit p test bs kept) (q.visit p' test' bs' kept') := by
  induction h with
  | nil => exact fun _ _ => .ok rfl
  | cons hb _ ih =>
    intro kept kept'
    simp only [Quantifier.visit]
    refine hb.bind ?_
    rintro ⟨outcome, w⟩ ⟨_, w'⟩ - - rfl
    dsimp only
    split_ifs
    · exact .ok rfl
    · exact ih _ _

variable [Node ν] {s s' : Settings} {level level' : Nat} {c c' : Context ν} {b b' : Binding ν}

theorem Expr.parallel_testBody (q : Quantifier) {name : String} {body body' : Expr ν}
    (h : Parallel (·.output = ·.output) (body.evaluateAt s level (c.extend name b))
      (body'.evaluateAt s' level' (c'.extend name b'))) :
    Parallel (·.1 = ·.1) (testBody q name body s level c b)
      (testBody q name body' s' level' c' b') := by
  unfold testBody
  refine h.bind fun f g _ _ hfg => ?_
  refine (parallel_boolean q.name hfg).bind ?_
  rintro holds _ - - rfl
  exact .ok rfl

end Visits

end Testimony
