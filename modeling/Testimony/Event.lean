/-!
# Events

What can be observed of a run, by name.
-/

namespace Testimony

inductive Event where
  | evaluationBegin
  | evaluationComplete
  | conditionEvaluated
  | conditionFailed
  /-- A quantifier stopped at a deciding candidate. -/
  | quantifierShortCircuit
  /-- A quantifier visited its whole domain. -/
  | quantifierExhausted
  | domainEmpty
deriving DecidableEq

namespace Event

def name : Event → String
  | evaluationBegin => "EVALUATION_BEGIN"
  | evaluationComplete => "EVALUATION_COMPLETE"
  | conditionEvaluated => "CONDITION_EVALUATED"
  | conditionFailed => "CONDITION_FAILED"
  | quantifierShortCircuit => "QUANTIFIER_SHORT_CIRCUIT"
  | quantifierExhausted => "QUANTIFIER_EXHAUSTED"
  | domainEmpty => "DOMAIN_EMPTY"

def all : List Event :=
  [evaluationBegin, evaluationComplete, conditionEvaluated, conditionFailed,
    quantifierShortCircuit, quantifierExhausted, domainEmpty]

end Event

end Testimony
