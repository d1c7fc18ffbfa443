import Testimony.Proofs.Evaluation

/-!
# Evaluations that agree up to some faults

`SameUnless` says of two outcomes that they are the same unless the first is a fault of a kind that
is excused. It goes through sequencing (`SameUnless.bind`) and through the visit of candidates
(`sameUnless_visit`), because nothing takes up an evaluation again that has failed.

So if settings differ only in what they allow (`Relaxed`), then the stricter evaluation ends in an
excused fault or is the other one, witness and path included (`sameUnless_evaluateAt`). Settings
that reject empty domains are stricter in this sense than those that do not (`relaxed_reject`).
-/

namespace Testimony

/-- The outcomes are the same, unless the first is an excused fault. -/
def SameUnless {α : Type} (excused : Fault → Prop) (x y : Except Fault α) : Prop :=
  x = y ∨ ∃ f, x = .error f ∧ excused f

variable {ν : Type} {excused : Fault → Prop}

section Sequences

variable {α β : Type} {x y : Except Fault α}

theorem SameUnless.refl (x : Except Fault α) : SameUnless excused x x := .inl rfl

theorem SameUnless.eq (h : SameUnless excused x y) (hx : ∀ f, excused f → x ≠ .error f) :
    x = y := by
  rcases h with h | ⟨f, hf, he⟩
  · exact h
  · exact absurd hf (hx f he)

theorem SameUnless.bind {k l : α → Except Fault β} (h : SameUnless excused x y)
    (hk : ∀ a, SameUnless excused (k a) (l a)) : SameUnless excused (x >>= k) (y >>= l) := by
  rcases h with rfl | ⟨f, rfl, he⟩
  · rcases x with f | a
    · exact .refl _
    · exact hk a
  · exact .inr ⟨f, rfl, he⟩

end Sequences

theorem sameUnless_visit {q : Quantifier} {p : WitnessPolicy}
    {test test' : Binding ν → Except Fault (Bool × Witness ν)}
    (h : ∀ b, SameUnless excused (test b) (test' b)) :
    ∀ (bs : List (Binding ν)) (kept : Option (Witness ν)),
      SameUnless excused (q.visit p test bs kept) (q.visit p test' bs kept)
  | [], _ => .refl _
  | b :: bs, kept => by
    simp only [Quantifier.visit]
    refine (h b).bind fun r => ?_
    split
    · exact .refl _
    · exact sameUnless_visit h bs _

/-! ## Settings -/

/-- The settings `s'` allow what `s` allows, and make no other difference. -/
structure Relaxed (excused : Fault → Prop) (s s' : Settings) : Prop where
  policy : s'.witnessPolicy = s.witnessPolicy
  level : ∀ level, SameUnless excused (s.allowLevel level) (s'.allowLevel level)
  empty : s'.emptyDomain = s.emptyDomain
    ∨ s.emptyDomain = .reject ∧ ∀ name, excused (.emptyDomain name)

theorem relaxed_reject (s : Settings) :
    Relaxed (∃ name, · = .emptyDomain name) { s with emptyDomain := .reject } s where
  policy := rfl
  level := fun _ => .refl _
  empty := .inr ⟨rfl, fun name => ⟨name, rfl⟩⟩

variable [Node ν] {s s' : Settings}

theorem sameUnless_testBody (q : Quantifier) (name : String) {body : Expr ν} {level : Nat}
    (h : ∀ c, SameUnless excused (body.evaluateAt s level c) (body.evaluateAt s' level c))
    (c : Context ν) (b : Binding ν) :
    SameUnless excused (Expr.testBody q name body s level c b)
      (Expr.testBody q name body s' level c b) :=
  (h _).bind fun _ => .refl _

mutual

theorem sameUnless_evaluateAt (hs : Relaxed excused s s') :
    ∀ (e : Expr ν) (level : Nat) (c : Context ν),
      SameUnless excused (e.evaluateAt s level c) (e.evaluateAt s' level c)
  | .constant v, level, c => by
    simp only [Expr.evaluateAt]
    exact (hs.level level).bind fun _ => .refl _
  | .reference r, level, c => by
    simp only [Expr.evaluateAt]
    exact (hs.level level).bind fun _ => .refl _
  | .apply op es, level, c => by
    simp only [Expr.evaluateAt]
    exact (hs.level level).bind fun _ =>
      (sameUnless_evaluateOperands hs op es 0 (level + 1) c).bind fun _ => .refl _
  | .quantify q name domain body, level, c => by
    simp only [Expr.evaluateAt_quantify]
    refine (hs.level level).bind fun _ => ?_
    refine (sameUnless_evaluateAt hs domain (level + 1) c).bind fun d => ?_
    refine (SameUnless.refl _).bind fun ms => ?_
    have hbody := sameUnless_testBody q name (sameUnless_evaluateAt hs body (level + 1)) c
    rw [hs.policy]
    rcases hs.empty with he | ⟨he, hx⟩
    · rw [he]
      split
      · exact .refl _
      · exact (sameUnless_visit hbody _ none).bind fun _ => .refl _
    · rcases ms with _ | ⟨m, ms⟩
      · refine .inr ⟨.emptyDomain name, ?_, hx name⟩
        simp [he]
      · simp only [List.isEmpty_cons, Bool.false_and, Bool.false_eq_true, if_false]
        exact (sameUnless_visit hbody _ none).bind fun _ => .refl _

theorem sameUnless_evaluateOperands (hs : Relaxed excused s s') (op : Operator) :
    ∀ (es : List (Expr ν)) (index level : Nat) (c : Context ν),
      SameUnless excused (Expr.evaluateOperands s op es index level c)
        (Expr.evaluateOperands s' op es index level c)
  | [], _, _, _ => by
    simp only [Expr.evaluateOperands]
    exact .refl _
  | e :: es, index, level, c => by
    simp only [Expr.evaluateOperands]
    exact (sameUnless_evaluateAt hs e level c).bind fun _ => (SameUnless.refl _).bind fun _ =>
      (sameUnless_evaluateOperands hs op es (index + 1) level c).bind fun _ => .refl _

end

end Testimony
