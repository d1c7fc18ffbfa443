import Testimony.Proofs.Agreement
import Testimony.Proofs.Complaints

/-!
# The depth limit

The limit on nesting cuts an evaluation off and does nothing else. Only a level that is not allowed
is a reason to complain about depth, and an expression that has room for its height meets none
(`ne_depthExceeded`). A greater limit allows what a smaller one allows (`relaxed_maxDepth`), so an
evaluation that is not cut off stays as it is. And what stands at the limit or deeper is cut off
before it is looked at, whatever it is (`evaluateAt_of_maxDepth_le`); so it can be replaced without
changing anything (`evaluateAt_of_replaced`). `depth_limit_cuts_off` puts these together.
-/

namespace Testimony

namespace Expr

variable {ν : Type} [Node ν] {s : Settings}

/-- Where there is room for its height, an expression does not complain about depth. -/
theorem ne_depthExceeded (e : Expr ν) {level : Nat} (c : Context ν)
    (h : level + e.height ≤ s.maxDepth) (limit : Nat) :
    e.evaluateAt s level c ≠ .error (.depthExceeded limit) := by
  intro hf
  have hcomplaint := failsBy_iff.1 (complaint_evaluateAt e level c) _ hf
  cases hcomplaint with
  | given hgiven => cases hgiven
  | depth hdepth => omega

/-! ## A greater limit -/

theorem relaxed_maxDepth {limit : Nat} (h : s.maxDepth ≤ limit) :
    Relaxed (∃ limit, · = .depthExceeded limit) s { s with maxDepth := limit } where
  policy := rfl
  level level := by
    by_cases hl : level < s.maxDepth
    · have hl' : level < limit := by omega
      exact .inl (by simp [Settings.allowLevel, hl, hl'])
    · exact .inr ⟨.depthExceeded s.maxDepth, by simp [Settings.allowLevel, hl], _, rfl⟩
  empty := .inl rfl

/-! ## Beyond the limit -/

mutual

/-- The second expression comes from the first, which stands at `level`, by replacing subexpressions
that stand at `limit` or deeper, each by any other. -/
inductive Replaced (limit : Nat) : (level : Nat) → Expr ν → Expr ν → Prop
  | beyond {level : Nat} {e e' : Expr ν} : limit ≤ level → Replaced limit level e e'
  | constant {level : Nat} {v : Value ν} : Replaced limit level (.constant v) (.constant v)
  | reference {level : Nat} {r : Reference} : Replaced limit level (.reference r) (.reference r)
  | apply {level : Nat} {op : Operator} {es es' : List (Expr ν)} :
      ReplacedAll limit (level + 1) es es' → Replaced limit level (.apply op es) (.apply op es')
  | quantify {level : Nat} {q : Quantifier} {name : String} {domain domain' body body' : Expr ν} :
      Replaced limit (level + 1) domain domain' → Replaced limit (level + 1) body body' →
      Replaced limit level (.quantify q name domain body) (.quantify q name domain' body')

inductive ReplacedAll (limit : Nat) : (level : Nat) → List (Expr ν) → List (Expr ν) → Prop
  | nil {level : Nat} : ReplacedAll limit level [] []
  | cons {level : Nat} {e e' : Expr ν} {es es' : List (Expr ν)} : Replaced limit level e e' →
      ReplacedAll limit level es es' → ReplacedAll limit level (e :: es) (e' :: es')

end

theorem evaluateAt_of_maxDepth_le (e : Expr ν) {level : Nat} (c : Context ν)
    (h : s.maxDepth ≤ level) : e.evaluateAt s level c = .error (.depthExceeded s.maxDepth) := by
  have hl : s.allowLevel level = .error (.depthExceeded s.maxDepth) := by
    simp [Settings.allowLevel, Nat.not_lt.2 h]
  rcases e with _ | _ | _ | _ <;> simp only [evaluateAt, hl] <;> rfl

mutual

theorem evaluateAt_of_replaced :
    ∀ (e : Expr ν) {e' : Expr ν} {level : Nat} (c : Context ν), Replaced s.maxDepth level e e' →
      e'.evaluateAt s level c = e.evaluateAt s level c
  | e, e', level, c, .beyond h => by
    rw [evaluateAt_of_maxDepth_le e c h, evaluateAt_of_maxDepth_le e' c h]
  | _, _, _, _, .constant => rfl
  | _, _, _, _, .reference => rfl
  | .apply op es, _, level, c, .apply hes => by
    simp only [evaluateAt, evaluateOperands_of_replaced op es 0 c hes]
  | .quantify q name domain body, .quantify _ _ domain' body', level, c, .quantify hd hb => by
    have hbody : testBody q name body' s (level + 1) c = testBody q name body s (level + 1) c :=
      testBody_congr fun b => evaluateAt_of_replaced body (c.extend name b) hb
    rw [evaluateAt_quantify, evaluateAt_quantify, evaluateAt_of_replaced domain c hd, hbody]

theorem evaluateOperands_of_replaced (op : Operator) :
    ∀ (es : List (Expr ν)) {es' : List (Expr ν)} (index : Nat) {level : Nat} (c : Context ν),
      ReplacedAll s.maxDepth level es es' →
      evaluateOperands s op es' index level c = evaluateOperands s op es index level c
  | [], _, _, _, _, .nil => rfl
  | e :: es, _, index, level, c, .cons he hes => by
    simp only [evaluateOperands, evaluateAt_of_replaced e c he,
      evaluateOperands_of_replaced op es (index + 1) c hes]

end

/-- An evaluation with room for the height is not cut off, one that is not cut off is the same under
every greater limit, and what stands at the limit or deeper does not matter. -/
theorem depth_limit_cuts_off (e : Expr ν) (s : Settings) (c : Context ν) :
    (e.height ≤ s.maxDepth → ∀ limit, e.evaluate s c ≠ .error (.depthExceeded limit))
      ∧ ((∀ limit, e.evaluate s c ≠ .error (.depthExceeded limit)) →
          ∀ limit, s.maxDepth ≤ limit →
            e.evaluate { s with maxDepth := limit } c = e.evaluate s c)
      ∧ ∀ e', Replaced s.maxDepth 0 e e' → e'.evaluate s c = e.evaluate s c := by
  refine ⟨fun h => ?_, fun h limit hle => ?_, fun e' h => evaluateAt_of_replaced e c h⟩
  · exact ne_depthExceeded e c (by omega)
  · have hsame := sameUnless_evaluateAt (relaxed_maxDepth hle) e 0 c
    refine (hsame.eq ?_).symm
    rintro _ ⟨limit, rfl⟩
    exact h limit

section Sample

/-- A quantifier over the tables of a page, which has none, so that the body is never visited. -/
def sampleUnvisited (body : Expr PageElement) : Expr PageElement :=
  quantify .universal "$x" (apply (.findBySelector "table") [input 0])
    (apply .not [apply .not [body]])

theorem depth_limit_cuts_off_sample :
    (∀ limit, sampleRule.evaluate { maxDepth := 6 } (.ofInputs sampleInputs)
        ≠ .error (.depthExceeded limit))
      ∧ sampleRule.evaluate { maxDepth := 7 } (.ofInputs sampleInputs)
        = sampleRule.evaluate { maxDepth := 6 } (.ofInputs sampleInputs)
      ∧ ((sampleUnvisited (var "$x")).evaluate { maxDepth := 3 }
          (.ofInputs sampleInputs)).isOk = true
      ∧ (sampleUnvisited sampleRule).evaluate { maxDepth := 3 } (.ofInputs sampleInputs)
        = (sampleUnvisited (var "$x")).evaluate { maxDepth := 3 } (.ofInputs sampleInputs) := by
  obtain ⟨hheight, hlimit, -⟩ :=
    depth_limit_cuts_off sampleRule { maxDepth := 6 } (.ofInputs sampleInputs)
  have hne := hheight (by decide)
  refine ⟨hne, hlimit hne 7 (by decide), by decide +kernel, ?_⟩
  refine (depth_limit_cuts_off (sampleUnvisited (var "$x")) { maxDepth := 3 } _).2.2 _ ?_
  refine .quantify (.apply (.cons .reference .nil)) (.apply (.cons (.apply (.cons ?_ .nil)) .nil))
  exact .beyond (by decide)

end Sample

end Expr

end Testimony
