import Testimony.Fault
import Testimony.Leaf
import Testimony.Operator.Apply

/-!
# Findings

The outcome of evaluating an expression. The output and the path by which it was derived are for
the operator around the expression; the witness, the leaves that justify the output, goes up
unchanged.
-/

namespace Testimony

structure Finding (ν : Type) where
  output : Output ν
  path : Path
  witness : Witness ν

namespace Finding

variable {ν : Type}

/-- The finding of a single term. -/
def ofLeaf (value : Value ν) (leaf : Leaf ν) : Finding ν := ⟨.scalar value, leaf.path, [leaf]⟩

/-- The finding of a quantifier. -/
def decided (holds : Bool) (witness : Witness ν) : Finding ν :=
  ⟨.scalar (.boolean holds), .trivial, witness⟩

/-- The single value with its path, if there is a single value. -/
def derived? (f : Finding ν) : Option (Value ν × Path) :=
  match f.output with
  | .scalar v => some (v, f.path)
  | .members _ => none

/-- The single value that a consumer needs. -/
def scalar (f : Finding ν) (consumer : String) : Except Fault (Value ν) :=
  match f.output with
  | .scalar v => .ok v
  | .members _ => .error (.typeMismatch consumer "a single value" "a sequence")

/-- The sequence that a consumer needs. -/
def members (f : Finding ν) (consumer : String) : Except Fault (List (Member ν)) :=
  match f.output with
  | .members ms => .ok ms
  | .scalar v => .error (.typeMismatch consumer "a sequence" v.kind)

/-- The truth value that a consumer needs. -/
def boolean (f : Finding ν) (consumer : String) : Except Fault Bool := do
  match ← f.scalar consumer with
  | .boolean b => .ok b
  | v => .error (.typeMismatch consumer "boolean" v.kind)

end Finding

end Testimony
