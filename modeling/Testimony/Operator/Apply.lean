import Testimony.Fault
import Testimony.Operator.Basic
import Testimony.Value

/-!
# Applying operators

From operand values to an output: a single value, or a sequence of values each with the step by
which it was reached. Only a sequence can be the domain of a quantifier.

Nothing is converted: numbers go with numbers, booleans with booleans, and the operand further left
is complained about first. A style value is a number if it is written as a plain number or as a
length in pixels, with blanks around it and before the unit.
-/

namespace Testimony

/-! ### Outputs -/

structure Member (ν : Type) where
  value : Value ν
  /-- How the member was reached from the operand. -/
  step : Step

inductive Output (ν : Type) where
  | scalar (value : Value ν)
  | members (members : List (Member ν))

/-! ### Style values that are numbers -/

namespace Style

/-- The text without `px` at its end, if it ends so. -/
def dropUnit (s : List Char) : List Char :=
  match s.reverse with
  | 'x' :: 'p' :: r => r.reverse
  | _ => s

/-- The finite number that a style value states. -/
def measure? (value : String) : Option Number :=
  (Number.ofText? (Text.trim (dropUnit (Text.trim value.toList)))).filter Number.isFinite

end Style

/-! ### Operators -/

namespace Operator

variable {ν : Type}

/-- An operand that has to be a number. -/
def numberOf (op : Operator) : Value ν → Except Fault Number
  | .number x => .ok x
  | v => .error (.typeMismatch op.name "number" v.kind)

/-- An operand that has to be a boolean. -/
def booleanOf (op : Operator) : Value ν → Except Fault Bool
  | .boolean b => .ok b
  | v => .error (.typeMismatch op.name "boolean" v.kind)

/-- An operand that has to be an element. -/
def elementOf (op : Operator) : Value ν → Except Fault ν
  | .element n => .ok n
  | v => .error (.typeMismatch op.name "element" v.kind)

def compare (op : Operator) (test : Number → Number → Bool) (a b : Value ν) :
    Except Fault (Output ν) := do
  let x ← op.numberOf a
  let y ← op.numberOf b
  return .scalar (.boolean (test x y))

def calculate (op : Operator) (f : Number → Number → Number) (a b : Value ν) :
    Except Fault (Output ν) := do
  let x ← op.numberOf a
  let y ← op.numberOf b
  return .scalar (.number (f x y))

def connect (op : Operator) (f : Bool → Bool → Bool) (a b : Value ν) :
    Except Fault (Output ν) := do
  let x ← op.booleanOf a
  let y ← op.booleanOf b
  return .scalar (.boolean (f x y))

variable [Node ν]

/-- Numbers are equal by value, so that NaN differs from itself; the rest as values are. -/
def same : Value ν → Value ν → Bool
  | .number x, .number y => x.equals y
  | a, b => a == b

/-- The value of a style as computed: a number if it states one, a text otherwise. -/
def styleValue (n : ν) (property : String) : Value ν :=
  match Node.style n property with
  | none => .null
  | some raw =>
    match Style.measure? raw with
    | some x => .number x
    | none => .text raw

/-- The opacity of a node; one that reports none is opaque. -/
def opacityOf (op : Operator) (n : ν) : Except Fault Number :=
  match Node.style n "opacity" with
  | none => .ok .one
  | some raw =>
    match Style.measure? raw with
    | some x => .ok x
    | none => .error (.typeMismatch op.name "numeric opacity" s!"\"{raw}\"")

/-- The nodes found, each with its number among the matches. -/
def matchesOf (selector : String) (found : List ν) : List (Member ν) :=
  found.mapIdx fun i n => ⟨.element n, .selectorMatch selector i⟩

def find (selector : String) (n : ν) : Except Fault (Output ν) :=
  match Node.query n selector with
  | .ok found => .ok (.members (matchesOf selector found))
  | .error f => .error (.ofQueryFailure f)

def apply (op : Operator) (operands : List (Value ν)) : Except Fault (Output ν) :=
  match op, operands with
  | greaterThan, [a, b] => op.compare (fun x y => y.less x) a b
  | greaterOrEqual, [a, b] => op.compare (fun x y => y.lessOrEqual x) a b
  | lessThan, [a, b] => op.compare Number.less a b
  | lessOrEqual, [a, b] => op.compare Number.lessOrEqual a b
  | isEqualTo, [a, b] => .ok (.scalar (.boolean (same a b)))
  | and, [a, b] => op.connect (· && ·) a b
  | or, [a, b] => op.connect (· || ·) a b
  | implies, [a, b] => op.connect (fun x y => !x || y) a b
  | not, [a] => do return .scalar (.boolean !(← op.booleanOf a))
  | addition, [a, b] => op.calculate (· + ·) a b
  | subtraction, [a, b] => op.calculate (· - ·) a b
  | opacity, [a] => do return .scalar (.number (← op.opacityOf (← op.elementOf a)))
  | computedStyle property, [a] => do return .scalar (styleValue (← op.elementOf a) property)
  | findBySelector selector, [a] => do find selector (← op.elementOf a)
  | op, operands => .error (.arityMismatch op.name op.arity operands.length)

end Operator

end Testimony
