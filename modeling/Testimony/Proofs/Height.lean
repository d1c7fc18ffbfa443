import Testimony.Proofs.Evaluation

/-!
# How deep an expression nests

The height of an expression is the number of levels it takes, its own and those of what stands in
it. Where there is room for them, every level is allowed, and so the evaluation does not depend on
the level at which it starts (`evaluateAt_congr_level`).
-/

namespace Testimony

variable {ν : Type}

theorem allowLevel_of_lt {s : Settings} {level : Nat} (h : level < s.maxDepth) :
    s.allowLevel level = .ok () :=
  allowLevel_eq_ok.2 h

namespace Expr

mutual

def height : Expr ν → Nat
  | constant _ => 1
  | reference _ => 1
  | apply _ es => 1 + heightAll es
  | quantify _ _ domain body => 1 + max domain.height body.height

/-- The greatest height of some expressions; zero if there are none. -/
def heightAll : List (Expr ν) → Nat
  | [] => 0
  | e :: es => max e.height (heightAll es)

end

variable [Node ν] {s : Settings}

mutual

/-- An evaluation that has room for the height of the expression is the same at every level. -/
theorem evaluateAt_congr_level :
    ∀ (e : Expr ν) {level level' : Nat} (c : Context ν), level + e.height ≤ s.maxDepth →
      level' + e.height ≤ s.maxDepth → e.evaluateAt s level c = e.evaluateAt s level' c
  | constant v, level, level', c, h, h' => by
    simp only [height] at h h'
    simp only [evaluateAt, allowLevel_of_lt (Nat.lt_of_succ_le h),
      allowLevel_of_lt (Nat.lt_of_succ_le h')]
  | reference r, level, level', c, h, h' => by
    simp only [height] at h h'
    simp only [evaluateAt, allowLevel_of_lt (Nat.lt_of_succ_le h),
      allowLevel_of_lt (Nat.lt_of_succ_le h')]
  | apply op es, level, level', c, h, h' => by
    simp only [height] at h h'
    have hl : level < s.maxDepth := by omega
    have hl' : level' < s.maxDepth := by omega
    have hes : evaluateOperands s op es 0 (level + 1) c
        = evaluateOperands s op es 0 (level' + 1) c :=
      evaluateOperands_congr_level op es 0 c (by omega) (by omega)
    simp only [evaluateAt, allowLevel_of_lt hl, allowLevel_of_lt hl', hes]
  | quantify q name domain body, level, level', c, h, h' => by
    simp only [height] at h h'
    have hl : level < s.maxDepth := by omega
    have hl' : level' < s.maxDepth := by omega
    have hd : domain.evaluateAt s (level + 1) c = domain.evaluateAt s (level' + 1) c :=
      evaluateAt_congr_level domain c (by omega) (by omega)
    have hb : testBody q name body s (level + 1) c = testBody q name body s (level' + 1) c :=
      testBody_congr fun b => evaluateAt_congr_level body (c.extend name b) (by omega) (by omega)
    simp only [evaluateAt_quantify, allowLevel_of_lt hl, allowLevel_of_lt hl', hd, hb]

theorem evaluateOperands_congr_level (op : Operator) :
    ∀ (es : List (Expr ν)) (index : Nat) {level level' : Nat} (c : Context ν),
      level + heightAll es ≤ s.maxDepth → level' + heightAll es ≤ s.maxDepth →
      evaluateOperands s op es index level c = evaluateOperands s op es index level' c
  | [], index, level, level', c, _, _ => rfl
  | e :: es, index, level, level', c, h, h' => by
    simp only [heightAll] at h h'
    have he : e.evaluateAt s level c = e.evaluateAt s level' c :=
      evaluateAt_congr_level e c (by omega) (by omega)
    have hes : evaluateOperands s op es (index + 1) level c
        = evaluateOperands s op es (index + 1) level' c :=
      evaluateOperands_congr_level op es (index + 1) c (by omega) (by omega)
    simp only [evaluateOperands, he, hes]

end

end Expr

end Testimony
