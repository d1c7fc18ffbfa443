import Testimony.Evaluation
import Testimony.Verdict

/-!
# Suites

A suite owns named conditions and evaluates them all on the inputs it is given. Each condition is
evaluated on its own, and one that cannot be evaluated is a failure, not a false verdict. The
suite keeps the outcome of its latest run, if no condition failed in it.
-/

namespace Testimony

/-- An expression that must come out as a boolean. -/
structure Condition (ν : Type) where
  name : String
  expr : Expr ν

structure Suite (ν : Type) where
  conditions : List (Condition ν)
  settings : Settings := {}
  /-- The outcome of the latest run. -/
  latest : Option (Outcome ν) := none

variable {ν : Type}

/-- The outcome of the latest run, if there is one. -/
def Suite.outcome (s : Suite ν) : Except Fault (Outcome ν) :=
  match s.latest with
  | some o => .ok o
  | none => .error .queryBeforeEvaluation

variable [Node ν]

/-- The verdict on a condition. -/
def Condition.judge (c : Condition ν) (s : Settings) (context : Context ν) :
    Except Fault (Verdict ν) := do
  let f ← c.expr.evaluate s context
  return ⟨c.name, ← f.boolean c.name, f.witness⟩

namespace Suite

/-- Every condition by itself, with its verdict or what prevents one. -/
def judgements (s : Suite ν) (inputs : List (Value ν)) :
    List (String × Except Fault (Verdict ν)) :=
  s.conditions.map fun c => (c.name, c.judge s.settings (.ofInputs inputs))

/-- The verdict of a judgement that has one. -/
def verdictOf? : String × Except Fault (Verdict ν) → Option (Verdict ν)
  | (_, .ok v) => some v
  | (_, .error _) => none

/-- The condition and the fault of a judgement without verdict. -/
def failureOf? : String × Except Fault (Verdict ν) → Option (String × Fault)
  | (_, .ok _) => none
  | (name, .error f) => some (name, f)

/-- The outcome on some inputs: a verdict on every condition, or all that failed. -/
def judge (s : Suite ν) (inputs : List (Value ν)) : Except Fault (Outcome ν) := do
  s.settings.validate
  let js := s.judgements inputs
  match js.filterMap failureOf? with
  | [] => return ⟨js.filterMap verdictOf?⟩
  | failures => .error (.conditionsFailed failures)

/-- Evaluates all conditions on some inputs. What was kept before is dropped in any case. -/
def run (s : Suite ν) (inputs : List (Value ν)) : Suite ν × Except Fault Unit :=
  match s.judge inputs with
  | .ok o => ({ s with latest := some o }, .ok ())
  | .error f => ({ s with latest := none }, .error f)

end Suite

end Testimony
