import Testimony.Proofs.DepthLimit

/-!
# Strictness

An operator is applied when all its operands have been evaluated, and a quantifier visits its body
when its domain has been. Neither asks beforehand whether the result is settled, so nothing that
stands outside the bodies of quantifiers is passed over (`Exposed.evaluateAt_ok`).

What stands deep in an expression is closer to the limit on nesting than the same thing by itself.
That makes a difference only if the limit cuts it off (`sameUnless_level`). So where the whole
expression succeeds, everything exposed in it succeeds by itself as well (`evaluate_exposed`).
-/

namespace Testimony.Expr

variable {ν : Type}

/-- What stands in an expression so many levels down, but in no body of a quantifier. -/
inductive Exposed : Expr ν → (depth : Nat) → Expr ν → Prop
  | itself {e : Expr ν} : Exposed e 0 e
  | operand {op : Operator} {es : List (Expr ν)} {e e' : Expr ν} {depth : Nat} : e ∈ es →
      Exposed e depth e' → Exposed (apply op es) (depth + 1) e'
  | domain {q : Quantifier} {name : String} {domain body e' : Expr ν} {depth : Nat} :
      Exposed domain depth e' → Exposed (quantify q name domain body) (depth + 1) e'

variable [Node ν] {s : Settings}

theorem exists_of_mem_operands {op : Operator} {e : Expr ν} {level : Nat} {c : Context ν} :
    ∀ {es : List (Expr ν)} {index : Nat} {a : Arguments ν}, e ∈ es →
      evaluateOperands s op es index level c = .ok a → ∃ f, e.evaluateAt s level c = .ok f
  | e₀ :: es, index, a, he, h => by
    obtain ⟨f, v, rest, hf, -, hrest, -⟩ := evaluateOperands_cons_ok.1 h
    rcases List.mem_cons.1 he with rfl | he
    · exact ⟨f, hf⟩
    · exact exists_of_mem_operands he hrest

/-- An evaluation that succeeds has evaluated everything exposed, each at its own level. -/
theorem Exposed.evaluateAt_ok {e e' : Expr ν} {depth level : Nat} {c : Context ν} {f : Finding ν}
    (h : Exposed e depth e') (hf : e.evaluateAt s level c = .ok f) :
    ∃ g, e'.evaluateAt s (level + depth) c = .ok g := by
  induction h generalizing level f with
  | itself => exact ⟨f, hf⟩
  | @operand op es e e' depth he _ ih =>
    obtain ⟨-, a, out, ha, -, -⟩ := evaluateAt_apply_ok.1 hf
    obtain ⟨g, hg⟩ := exists_of_mem_operands he ha
    have hlevel : level + 1 + depth = level + (depth + 1) := by omega
    exact hlevel ▸ ih hg
  | @domain q name domain body e' depth _ ih =>
    obtain ⟨-, d, ms, hd, -⟩ := evaluateAt_quantify_ok.1 hf
    have hlevel : level + 1 + depth = level + (depth + 1) := by omega
    exact hlevel ▸ ih hd

/-! ## Closer to the limit -/

theorem sameUnless_allowLevel {level level' : Nat} (h : level' ≤ level) :
    SameUnless (∃ limit, · = .depthExceeded limit) (s.allowLevel level) (s.allowLevel level') := by
  by_cases hl : level < s.maxDepth
  · have hl' : level' < s.maxDepth := by omega
    rw [allowLevel_of_lt hl, allowLevel_of_lt hl']
    exact .refl _
  · exact .inr ⟨.depthExceeded s.maxDepth, by simp [Settings.allowLevel, hl], _, rfl⟩

mutual

/-- Further from the limit an evaluation is the same, unless the limit cut it off. -/
theorem sameUnless_level :
    ∀ (e : Expr ν) {level level' : Nat} (c : Context ν), level' ≤ level →
      SameUnless (∃ limit, · = .depthExceeded limit) (e.evaluateAt s level c)
        (e.evaluateAt s level' c)
  | constant v, level, level', c, h => by
    simp only [evaluateAt]
    exact (sameUnless_allowLevel h).bind fun _ => .refl _
  | reference r, level, level', c, h => by
    simp only [evaluateAt]
    exact (sameUnless_allowLevel h).bind fun _ => .refl _
  | apply op es, level, level', c, h => by
    simp only [evaluateAt]
    refine (sameUnless_allowLevel h).bind fun _ => ?_
    exact (sameUnless_level_operands op es 0 c (Nat.succ_le_succ h)).bind fun _ => .refl _
  | quantify q name domain body, level, level', c, h => by
    simp only [evaluateAt_quantify]
    refine (sameUnless_allowLevel h).bind fun _ => ?_
    refine (sameUnless_level domain c (Nat.succ_le_succ h)).bind fun d => ?_
    refine (SameUnless.refl _).bind fun ms => ?_
    have hbody (b : Binding ν) :
        SameUnless (∃ limit, · = .depthExceeded limit) (testBody q name body s (level + 1) c b)
          (testBody q name body s (level' + 1) c b) :=
      (sameUnless_level body (c.extend name b) (Nat.succ_le_succ h)).bind fun _ => .refl _
    split
    · exact .refl _
    · exact (sameUnless_visit hbody _ none).bind fun _ => .refl _

theorem sameUnless_level_operands (op : Operator) :
    ∀ (es : List (Expr ν)) (index : Nat) {level level' : Nat} (c : Context ν), level' ≤ level →
      SameUnless (∃ limit, · = .depthExceeded limit) (evaluateOperands s op es index level c)
        (evaluateOperands s op es index level' c)
  | [], _, _, _, _, _ => by
    simp only [evaluateOperands]
    exact .refl _
  | e :: es, index, level, level', c, h => by
    simp only [evaluateOperands]
    refine (sameUnless_level e c h).bind fun f => (SameUnless.refl _).bind fun v => ?_
    exact (sameUnless_level_operands op es (index + 1) c h).bind fun _ => .refl _

end

theorem evaluateAt_ok_of_le {e : Expr ν} {level level' : Nat} {c : Context ν} {f : Finding ν}
    (h : level' ≤ level) (hf : e.evaluateAt s level c = .ok f) :
    e.evaluateAt s level' c = .ok f := by
  rw [← hf]
  refine ((sameUnless_level e c h).eq ?_).symm
  rintro _ - hfault
  rw [hf] at hfault
  cases hfault

/-- If an evaluation succeeds, everything exposed in the expression succeeds where it stands and by
itself. So the whole fails if any of it fails, whichever operators stand above it. -/
theorem evaluate_exposed (e : Expr ν) (s : Settings) (c : Context ν) :
    (∀ f, e.evaluate s c = .ok f → ∀ depth e', Exposed e depth e' →
        ∃ g, e'.evaluateAt s depth c = .ok g ∧ e'.evaluate s c = .ok g)
      ∧ ∀ depth e' fault, Exposed e depth e' →
          e'.evaluate s c = .error fault ∨ e'.evaluateAt s depth c = .error fault →
          ∃ fault', e.evaluate s c = .error fault' := by
  have hsucceeds : ∀ f, e.evaluate s c = .ok f → ∀ depth e', Exposed e depth e' →
      ∃ g, e'.evaluateAt s depth c = .ok g ∧ e'.evaluate s c = .ok g := by
    intro f hf depth e' hexposed
    obtain ⟨g, hg⟩ := hexposed.evaluateAt_ok hf
    rw [Nat.zero_add] at hg
    exact ⟨g, hg, evaluateAt_ok_of_le (Nat.zero_le depth) hg⟩
  refine ⟨hsucceeds, fun depth e' fault hexposed hfault => ?_⟩
  rcases he : e.evaluate s c with fault' | f
  · exact ⟨fault', rfl⟩
  · obtain ⟨g, hplace, hitself⟩ := hsucceeds f he depth e' hexposed
    rcases hfault with hfault | hfault
    · rw [hitself] at hfault
      cases hfault
    · rw [hplace] at hfault
      cases hfault

section Sample

theorem exists_of_isOk_eq_false {α : Type} {x : Except Fault α} (h : x.isOk = false) :
    ∃ fault, x = .error fault := by
  rcases x with fault | a
  · exact ⟨fault, rfl⟩
  · cases h

/-- The left side settles the disjunction, and the right one quantifies over nothing. -/
def sampleDisjunction : Expr PageElement :=
  apply .or [input 1, apply .not [sampleUnvisited (var "$x")]]

theorem evaluate_exposed_sampleDisjunction :
    (∃ f g, sampleDisjunction.evaluate {} (.ofInputs sampleInputs) = .ok f ∧
        (apply (.findBySelector "table") [input 0]).evaluate {} (.ofInputs sampleInputs) = .ok g)
      ∧ ∃ fault fault', (sampleUnvisited (var "$x")).evaluate { emptyDomain := .reject }
            (.ofInputs sampleInputs) = .error fault ∧
          sampleDisjunction.evaluate { emptyDomain := .reject } (.ofInputs sampleInputs)
            = .error fault' := by
  have hquantifier : Exposed sampleDisjunction 2 (sampleUnvisited (var "$x")) :=
    .operand (List.mem_cons_of_mem _ List.mem_cons_self) (.operand List.mem_cons_self .itself)
  have hdomain : Exposed sampleDisjunction 3 (apply (.findBySelector "table") [input 0]) :=
    .operand (List.mem_cons_of_mem _ List.mem_cons_self)
      (.operand List.mem_cons_self (.domain .itself))
  constructor
  · obtain ⟨f, hf⟩ : ∃ f, sampleDisjunction.evaluate {} (.ofInputs sampleInputs) = .ok f :=
      exists_of_isOk (by decide +kernel)
    obtain ⟨g, -, hg⟩ := (evaluate_exposed sampleDisjunction {} _).1 f hf 3 _ hdomain
    exact ⟨f, g, hf, hg⟩
  · obtain ⟨fault, hfault⟩ := exists_of_isOk_eq_false (x := (sampleUnvisited (var "$x")).evaluate
      { emptyDomain := .reject } (.ofInputs sampleInputs)) (by decide +kernel)
    obtain ⟨fault', hfault'⟩ := (evaluate_exposed sampleDisjunction _ _).2 2 _ _ hquantifier
      (.inl hfault)
    exact ⟨fault, fault', hfault, hfault'⟩

end Sample

end Testimony.Expr
