import Testimony.Proofs.Height

/-!
# The two quantifiers are dual

`Alike R` relates two outcomes that are faults of one code, or results in the relation `R`. As an
evaluation goes on after a result and ends at a fault, it goes through sequencing (`Alike.bind`).

A body and its denial have opposite outcomes and one witness (`alike_testBody`), and what settles a
quantifier is the opposite of what settles its dual. So over the same candidates both visits stop
at the same place and keep the same witness (`alike_visit`). `quantify_dual` says this of the whole
expressions: a quantifier and the denial of its dual over the denied body.
-/

namespace Testimony

/-- Both outcomes are faults of one code, or both are results in the relation. -/
inductive Alike {α β : Type} (R : α → β → Prop) : Except Fault α → Except Fault β → Prop
  | ok {a : α} {b : β} : R a b → Alike R (.ok a) (.ok b)
  | error {f g : Fault} : f.code = g.code → Alike R (.error f) (.error g)

section Sequences

variable {α β γ δ : Type} {R R' : α → β → Prop} {S : γ → δ → Prop}

theorem Alike.refl (x : Except Fault α) : Alike (· = ·) x x := by
  rcases x with f | a
  · exact .error rfl
  · exact .ok rfl

theorem Alike.mono {x : Except Fault α} {y : Except Fault β} (h : Alike R x y)
    (hR : ∀ a b, R a b → R' a b) : Alike R' x y := by
  rcases h with hab | hc
  · exact .ok (hR _ _ hab)
  · exact .error hc

theorem Alike.bind {x : Except Fault α} {y : Except Fault β} {k : α → Except Fault γ}
    {l : β → Except Fault δ} (h : Alike R x y) (hk : ∀ a b, R a b → Alike S (k a) (l b)) :
    Alike S (x >>= k) (y >>= l) := by
  rcases h with hab | hc
  · exact hk _ _ hab
  · exact .error hc

end Sequences

variable {ν : Type}

/-! ## Consumers -/

section Consumers

variable (f : Finding ν) (consumer consumer' : String)

theorem alike_members : Alike (· = ·) (f.members consumer) (f.members consumer') := by
  unfold Finding.members
  split
  · exact .ok rfl
  · exact .error rfl

theorem alike_scalar : Alike (· = ·) (f.scalar consumer) (f.scalar consumer') := by
  unfold Finding.scalar
  split
  · exact .ok rfl
  · exact .error rfl

theorem alike_boolean : Alike (· = ·) (f.boolean consumer) (f.boolean consumer') := by
  refine (alike_scalar f consumer consumer').bind ?_
  rintro v _ rfl
  cases v
  case boolean b => exact .ok rfl
  all_goals exact .error rfl

/-- What becomes of the outcome of an expression under a denial. -/
def Finding.denied (f : Finding ν) : Except Fault (Finding ν) := do
  let b ← f.boolean Operator.not.name
  return ⟨.scalar (.boolean !b), f.path.extend (Operator.not.step 0), f.witness⟩

theorem alike_denied :
    Alike (fun b g => g.output = .scalar (.boolean !b) ∧ g.witness = f.witness)
      (f.boolean consumer) f.denied := by
  unfold Finding.denied
  rw [← bind_pure (f.boolean consumer)]
  refine (alike_boolean f consumer _).bind ?_
  rintro b _ rfl
  exact .ok ⟨rfl, rfl⟩

end Consumers

/-! ## Visits -/

namespace Quantifier

/-- The quantifier that the opposite outcome settles. -/
def dual : Quantifier → Quantifier
  | universal => existential
  | existential => universal

theorem deciding_dual (q : Quantifier) : q.dual.deciding = !q.deciding := by
  cases q <;> rfl

end Quantifier

/-- Opposite outcomes with one witness. -/
def Opposite (r r' : Bool × Witness ν) : Prop := r' = (!r.1, r.2)

/-- Tests with opposite outcomes let dual quantifiers stop at the same candidate. -/
theorem alike_visit {q : Quantifier} {p : WitnessPolicy}
    {test test' : Binding ν → Except Fault (Bool × Witness ν)}
    (h : ∀ b, Alike Opposite (test b) (test' b)) :
    ∀ (bs : List (Binding ν)) (kept : Option (Witness ν)),
      Alike Opposite (q.visit p test bs kept) (q.dual.visit p test' bs kept)
  | [], kept => by
    simp only [Quantifier.visit, Quantifier.deciding_dual]
    exact .ok rfl
  | b :: bs, kept => by
    simp only [Quantifier.visit]
    refine (h b).bind ?_
    rintro ⟨outcome, w⟩ _ rfl
    simp only [Quantifier.deciding_dual, Bool.not_inj_iff]
    split_ifs with ho
    · exact .ok rfl
    · exact alike_visit h bs _

variable [Node ν] {s : Settings} {c : Context ν}

namespace Expr

/-! ## Denials -/

def deny (e : Expr ν) : Expr ν := apply .not [e]

theorem evaluateAt_deny (e : Expr ν) {level : Nat} (hl : level < s.maxDepth) :
    e.deny.evaluateAt s level c = e.evaluateAt s (level + 1) c >>= Finding.denied := by
  simp only [deny, evaluateAt, allowLevel_of_lt hl, evaluateOperands]
  rcases e.evaluateAt s (level + 1) c with f | ⟨v | ms, path, w⟩
  · rfl
  · -- the operator complains about what is no boolean just as the consumer of one does
    cases v
    case boolean b =>
      simp [Finding.denied, Finding.boolean, Finding.scalar, Operator.apply, Operator.booleanOf,
        bind, Except.bind, pure, Except.pure, Path.compose_trivial]
    all_goals rfl
  · rfl

theorem alike_testBody {q q' : Quantifier} {name : String} {body : Expr ν} {level : Nat}
    (hb : level + 1 + body.height ≤ s.maxDepth) (b : Binding ν) :
    Alike Opposite (testBody q name body s level c b) (testBody q' name body.deny s level c b) := by
  have hl : level < s.maxDepth := by omega
  have hc : body.evaluateAt s (level + 1) (c.extend name b)
      = body.evaluateAt s level (c.extend name b) :=
    evaluateAt_congr_level body (c.extend name b) hb (by omega)
  unfold testBody
  rw [evaluateAt_deny body hl, hc, bind_assoc]
  refine (Alike.refl _).bind ?_
  rintro f _ rfl
  refine (alike_denied f q.name).bind ?_
  rintro holds ⟨out, path, w⟩ ⟨rfl, rfl⟩
  exact .ok rfl

/-! ## Quantifiers -/

/-- The quantifier and its dual over the denied body have opposite outcomes and one witness. -/
theorem alike_quantify (q : Quantifier) (name : String) (domain body : Expr ν) (level level' : Nat)
    (hd : level + 1 + domain.height ≤ s.maxDepth) (hd' : level' + 1 + domain.height ≤ s.maxDepth)
    (hb : level + 1 + body.height ≤ s.maxDepth) (hb' : level' + 2 + body.height ≤ s.maxDepth) :
    Alike (fun f g => ∃ holds, f.output = .scalar (.boolean holds) ∧
        g.output = .scalar (.boolean !holds) ∧ g.witness = f.witness)
      ((quantify q name domain body).evaluateAt s level c)
      ((quantify q.dual name domain body.deny).evaluateAt s level' c) := by
  have hl : level < s.maxDepth := by omega
  have hl' : level' < s.maxDepth := by omega
  have hdomain := evaluateAt_congr_level domain c hd hd'
  have hbody : testBody q name body s (level + 1) c = testBody q name body s (level' + 1) c :=
    testBody_congr fun b => evaluateAt_congr_level body (c.extend name b) hb (by omega)
  rw [evaluateAt_quantify, evaluateAt_quantify, allowLevel_of_lt hl, allowLevel_of_lt hl', hdomain,
    hbody]
  refine (Alike.refl _).bind fun _ _ _ => (Alike.refl _).bind ?_
  rintro d _ rfl
  refine (alike_members d _ _).bind ?_
  rintro ms _ rfl
  split_ifs with he
  · exact .error rfl
  · refine (alike_visit (alike_testBody hb') _ none).bind ?_
    rintro ⟨holds, w⟩ _ rfl
    exact .ok ⟨holds, rfl, rfl, rfl⟩

/-- A quantifier and the denial of its dual over the denied body fail with the same code, or have
the same outcome and the same witness. -/
theorem quantify_dual (q : Quantifier) (name : String) (domain body : Expr ν) (s : Settings)
    (c : Context ν)
    (h : max (quantify q name domain body).height
      (quantify q.dual name domain body.deny).deny.height ≤ s.maxDepth) :
    Alike (fun f g => ∃ holds, f.output = .scalar (.boolean holds) ∧
        g.output = .scalar (.boolean holds) ∧ g.witness = f.witness)
      ((quantify q name domain body).evaluate s c)
      ((quantify q.dual name domain body.deny).deny.evaluate s c) := by
  simp only [deny, height, heightAll] at h
  rw [evaluate, evaluate, evaluateAt_deny _ (by omega)]
  have hq := alike_quantify q name domain body 0 1 (s := s) (c := c) (by omega) (by omega)
    (by omega) (by omega)
  rw [← bind_pure ((quantify q name domain body).evaluateAt s 0 c)]
  refine hq.bind ?_
  rintro ⟨_, path, w⟩ ⟨_, path', _⟩ ⟨holds, rfl, rfl, rfl⟩
  refine .ok ⟨holds, rfl, ?_, rfl⟩
  simp only [Bool.not_not]

section Sample

def sampleDomain : Expr PageElement := apply (.findBySelector "*") [input 0]

def sampleBody : Expr PageElement :=
  apply .isEqualTo [apply (.computedStyle "color") [var "$x"], constant (.text "red")]

theorem quantify_dual_sample :
    max (quantify .universal "$x" sampleDomain sampleBody).height
        (quantify .existential "$x" sampleDomain sampleBody.deny).deny.height = 6
      ∧ Alike (fun f g => ∃ holds, f.output = .scalar (.boolean holds) ∧
          g.output = .scalar (.boolean holds) ∧ g.witness = f.witness)
        ((quantify .universal "$x" sampleDomain sampleBody).evaluate { maxDepth := 6 }
          (.ofInputs sampleInputs))
        ((quantify .existential "$x" sampleDomain sampleBody.deny).deny.evaluate { maxDepth := 6 }
          (.ofInputs sampleInputs)) :=
  ⟨by decide, quantify_dual .universal "$x" sampleDomain sampleBody { maxDepth := 6 } _ (by decide)⟩

end Sample

end Expr

end Testimony
