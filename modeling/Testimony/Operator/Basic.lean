import Testimony.Json.Basic
import Testimony.Path

/-!
# Operators

The closed set of primitive computations, each with a fixed number of operands and a step that
says how an operand went into the result.
-/

namespace Testimony

inductive Operator where
  | greaterThan
  | greaterOrEqual
  | lessThan
  | lessOrEqual
  | isEqualTo
  | and
  | or
  | implies
  | not
  | addition
  | subtraction
  /-- The opacity of an element. -/
  | opacity
  /-- A style property of an element. -/
  | computedStyle (property : String)
  /-- The elements below an element that a selector describes. -/
  | findBySelector (selector : String)
deriving DecidableEq

namespace Operator

/-- The operator for a property written in any case. -/
def ofProperty (property : String) : Operator := computedStyle property.toLower

def name : Operator → String
  | greaterThan => "GreaterThan"
  | greaterOrEqual => "GreaterOrEqual"
  | lessThan => "LessThan"
  | lessOrEqual => "LessOrEqual"
  | isEqualTo => "IsEqualTo"
  | and => "And"
  | or => "Or"
  | implies => "Implies"
  | not => "Not"
  | addition => "Addition"
  | subtraction => "Subtraction"
  | opacity => "Opacity"
  | computedStyle _ => "ComputedStyle"
  | findBySelector _ => "FindBySelector"

/-- The text that an operator carries besides its name. -/
def parameter? : Operator → Option String
  | computedStyle property => some property
  | findBySelector selector => some selector
  | _ => none

def arity : Operator → Nat
  | not | opacity | computedStyle _ | findBySelector _ => 1
  | _ => 2

def producesMembers : Operator → Bool
  | findBySelector _ => true
  | _ => false

/-- The step from operand `index` into the result. A query adds none here, for each of its members
carries its own. -/
def step (op : Operator) (index : Nat) : Step :=
  match op with
  | opacity => .styleProperty "opacity"
  | computedStyle property => .styleProperty property
  | findBySelector _ => .itself
  | op => .operand op.name index

def json (op : Operator) : Json String :=
  match op.parameter? with
  | some parameter => .object [(op.name, .string parameter)]
  | none => .string op.name

end Operator

end Testimony
