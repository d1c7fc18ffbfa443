import Testimony.Operator.Basic
import Testimony.Reference
import Testimony.Value

/-!
# Expressions

Literals, references, operators on expressions, and quantifiers that bind a variable to each
member of a domain in turn.
-/

namespace Testimony

inductive Quantifier where
  | universal
  | existential
deriving DecidableEq

namespace Quantifier

def name : Quantifier → String
  | universal => "UniversalQuantifier"
  | existential => "ExistentialQuantifier"

/-- The outcome of a body that settles the quantifier by itself. -/
def deciding : Quantifier → Bool
  | universal => false
  | existential => true

def keyword : Quantifier → String
  | universal => "forall"
  | existential => "exists"

def tag : Quantifier → String
  | universal => "universal"
  | existential => "existential"

end Quantifier

inductive Expr (ν : Type) where
  | constant (value : Value ν)
  | reference (r : Reference)
  | apply (op : Operator) (operands : List (Expr ν))
  | quantify (q : Quantifier) (name : String) (domain body : Expr ν)

namespace Expr

variable {ν : Type}

/-- The input at a position. -/
def input (index : Nat) : Expr ν := reference (.positional index)

/-- The variable of a name. -/
def var (name : String) : Expr ν := reference (.named name)

/-- An operator on the first inputs, as many as it takes. -/
def bare (op : Operator) : Expr ν := apply op ((List.range op.arity).map input)

mutual

/-- The number of terms, literals and references, each as often as it stands. Of a quantifier the
terms of the body count. -/
def leafCount : Expr ν → Nat
  | constant _ => 1
  | reference _ => 1
  | apply _ operands => leafCountAll operands
  | quantify _ _ _ body => body.leafCount

def leafCountAll : List (Expr ν) → Nat
  | [] => 0
  | e :: es => e.leafCount + leafCountAll es

end

variable [Node ν]

mutual

/-- The expression for a reader. -/
def describe : Expr ν → String
  | constant value => value.describe
  | reference r => r.text
  | apply op operands =>
    let parameter := op.parameter?.elim "" fun p => s!"[\"{p}\"]"
    op.name ++ parameter ++ "(" ++ ", ".intercalate (describeAll operands) ++ ")"
  | quantify q name domain body =>
    q.keyword ++ " " ++ name ++ " in " ++ domain.describe ++ ": " ++ body.describe

def describeAll : List (Expr ν) → List String
  | [] => []
  | e :: es => e.describe :: describeAll es

end

mutual

def json : Expr ν → Json String
  | constant value => .object [("constant", value.json)]
  | reference r => .object [("reference", r.json)]
  | apply op operands =>
    .object [("function", .object [("operator", op.json), ("operands", .array (jsonAll operands))])]
  | quantify q name domain body =>
    .object [("quantifier", .object [("kind", .string q.tag), ("variable", .string name),
      ("domain", domain.json), ("body", body.json)])]

def jsonAll : List (Expr ν) → List (Json String)
  | [] => []
  | e :: es => e.json :: jsonAll es

end

end Expr

end Testimony
