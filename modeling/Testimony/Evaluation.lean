import Testimony.Context
import Testimony.Expr.Basic
import Testimony.Finding
import Testimony.Operator.Apply
import Testimony.Settings.Basic

/-!
# Evaluation

Operands are evaluated from left to right, and then the operator is applied to their values. A
quantifier evaluates its domain once and visits the members in order; the first whose body has the
deciding outcome ends the visit, and later members are never looked at.
-/

namespace Testimony

/-- The values of operands with the path and the witness they make together. -/
structure Arguments (ν : Type) where
  values : List (Value ν)
  path : Path
  witness : Witness ν

variable {ν : Type}

/-- The witness to keep after another candidate that decided nothing. -/
def WitnessPolicy.keep (p : WitnessPolicy) (kept : Option (Witness ν)) (w : Witness ν) :
    Option (Witness ν) :=
  match p with
  | first => some (kept.getD w)
  | last => some w

/-- Visits candidates until one has the deciding outcome. If none has, the outcome is the other
one, with the witness that the policy kept. -/
def Quantifier.visit (q : Quantifier) (policy : WitnessPolicy)
    (test : Binding ν → Except Fault (Bool × Witness ν)) :
    List (Binding ν) → (kept : Option (Witness ν)) → Except Fault (Bool × Witness ν)
  | [], kept => .ok (!q.deciding, kept.getD [])
  | b :: bs, kept => do
    let (outcome, witness) ← test b
    if outcome = q.deciding then return (outcome, witness)
    else q.visit policy test bs (policy.keep kept witness)

/-- A member of a domain as a binding of the variable `name`. Its leaf is the object from which
the domain started, with the path from there to the member. -/
def Finding.candidate (domain : Finding ν) (name : String) (m : Member ν) : Binding ν where
  value := m.value
  leaf :=
    { object := (domain.witness.head?.map Leaf.object).getD m.value
      path := (domain.path.extend m.step).extend (.bound name) }

variable [Node ν]

namespace Expr

mutual

/-- Evaluates an expression that stands `level` levels below the root. -/
def evaluateAt (s : Settings) : Expr ν → (level : Nat) → Context ν → Except Fault (Finding ν)
  | constant value, level, _ => do
    s.allowLevel level
    return .ofLeaf value (.plain value)
  | reference r, level, c => do
    s.allowLevel level
    let b ← c.resolve r
    return .ofLeaf b.value b.leaf
  | apply op operands, level, c => do
    s.allowLevel level
    let a ← evaluateOperands s op operands 0 (level + 1) c
    let output ← op.apply a.values
    return ⟨output, a.path, a.witness⟩
  | quantify q name domain body, level, c => do
    s.allowLevel level
    let d ← evaluateAt s domain (level + 1) c
    let members ← d.members q.name
    if members.isEmpty && s.emptyDomain = .reject then .error (.emptyDomain name)
    else
      let test (b : Binding ν) : Except Fault (Bool × Witness ν) := do
        let f ← evaluateAt s body (level + 1) (c.extend name b)
        return (← f.boolean q.name, f.witness)
      let (holds, witness) ←
        q.visit s.witnessPolicy test (members.map (d.candidate name)) none
      return .decided holds witness

/-- Evaluates operands, the first of which has the number `index`. -/
def evaluateOperands (s : Settings) (op : Operator) :
    List (Expr ν) → (index level : Nat) → Context ν → Except Fault (Arguments ν)
  | [], _, _, _ => .ok ⟨[], .trivial, []⟩
  | e :: es, index, level, c => do
    let f ← evaluateAt s e level c
    let value ← f.scalar op.name
    let rest ← evaluateOperands s op es (index + 1) level c
    return ⟨value :: rest.values, (f.path.extend (op.step index)).compose rest.path,
      f.witness ++ rest.witness⟩

end

/-- Evaluates an expression in a context. -/
def evaluate (e : Expr ν) (s : Settings) (c : Context ν) : Except Fault (Finding ν) :=
  e.evaluateAt s 0 c

end Expr

end Testimony
