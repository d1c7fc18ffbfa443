import Testimony.Leaf

/-!
# Verdicts

The outcome of a condition with the leaves that determined it, and the outcome of a whole run: the
verdicts in the order of the conditions. A run passes if all its verdicts hold, so one without
conditions passes.
-/

namespace Testimony

structure Verdict (ν : Type) where
  condition : String
  holds : Bool
  witness : Witness ν

structure Outcome (ν : Type) where
  verdicts : List (Verdict ν)

variable {ν : Type}

namespace Outcome

def passed (o : Outcome ν) : Bool := o.verdicts.all Verdict.holds

/-- The first verdict on a condition of this name. -/
def verdict? (o : Outcome ν) (condition : String) : Option (Verdict ν) :=
  o.verdicts.find? (·.condition == condition)

/-- The verdicts that do not hold. -/
def failed (o : Outcome ν) : List (Verdict ν) := o.verdicts.filter (!·.holds)

end Outcome

variable [Node ν]

def Verdict.json (v : Verdict ν) : Json String :=
  .object [("condition", .string v.condition), ("result", .bool v.holds),
    ("witness", .array (v.witness.map Leaf.json))]

def Outcome.json (o : Outcome ν) : Json String :=
  .object [("result", .bool o.passed), ("verdicts", .array (o.verdicts.map Verdict.json))]

end Testimony
