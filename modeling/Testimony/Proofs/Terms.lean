import Testimony.Context
import Testimony.Expr.Basic

/-!
# What stands in an expression

The literals of an expression, the variables of its quantifiers, the references that none of them
binds, and its terms from left to right, of which `leafCount` is the number (`length_terms`).
-/

namespace Testimony.Expr

variable {ν : Type}

/-- What a literal or a reference stands for. Other expressions are no terms. -/
def term? (c : Context ν) : Expr ν → Option (Binding ν)
  | constant v => some (.input v)
  | reference r => c.lookup? r
  | _ => none

mutual

/-- The values of the literals that stand in an expression. -/
def constants : Expr ν → List (Value ν)
  | constant v => [v]
  | reference _ => []
  | apply _ es => constantsAll es
  | quantify _ _ domain body => domain.constants ++ body.constants

def constantsAll : List (Expr ν) → List (Value ν)
  | [] => []
  | e :: es => e.constants ++ constantsAll es

end

mutual

/-- The variables of the quantifiers that stand in an expression. -/
def boundNames : Expr ν → List String
  | constant _ => []
  | reference _ => []
  | apply _ es => boundNamesAll es
  | quantify _ name domain body => name :: (domain.boundNames ++ body.boundNames)

def boundNamesAll : List (Expr ν) → List String
  | [] => []
  | e :: es => e.boundNames ++ boundNamesAll es

end

mutual

/-- The references that no quantifier of the expression binds. A quantifier binds its variable in
the body and not in the domain. -/
def freeReferences : Expr ν → List Reference
  | constant _ => []
  | reference r => [r]
  | apply _ es => freeReferencesAll es
  | quantify _ name domain body =>
    domain.freeReferences ++ body.freeReferences.filter (· != .named name)

def freeReferencesAll : List (Expr ν) → List Reference
  | [] => []
  | e :: es => e.freeReferences ++ freeReferencesAll es

end

theorem mem_freeReferences_quantify {q : Quantifier} {name : String} {domain body : Expr ν}
    {r : Reference} :
    r ∈ (quantify q name domain body).freeReferences ↔
      r ∈ domain.freeReferences ∨ r ∈ body.freeReferences ∧ r ≠ .named name := by
  simp only [freeReferences, List.mem_append, List.mem_filter, bne_iff_ne]

mutual

/-- The terms of an expression from left to right, without those of domains. -/
def terms : Expr ν → List (Expr ν)
  | constant v => [constant v]
  | reference r => [reference r]
  | apply _ es => termsAll es
  | quantify _ _ _ body => body.terms

def termsAll : List (Expr ν) → List (Expr ν)
  | [] => []
  | e :: es => e.terms ++ termsAll es

end

mutual

theorem length_terms : ∀ e : Expr ν, e.terms.length = e.leafCount
  | constant _ => rfl
  | reference _ => rfl
  | apply _ es => length_termsAll es
  | quantify _ _ _ body => length_terms body

theorem length_termsAll : ∀ es : List (Expr ν), (termsAll es).length = leafCountAll es
  | [] => rfl
  | e :: es => by
    rw [termsAll, leafCountAll, List.length_append, length_terms e, length_termsAll es]

end

end Testimony.Expr
