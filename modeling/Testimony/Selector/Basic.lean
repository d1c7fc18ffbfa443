/-!
# Selectors

A selector describes elements of a page: a list of alternatives, each a chain of compounds joined
by combinators. A compound tests one element, its tag, ids, classes and attributes.
-/

namespace Testimony

/-- A test on one attribute of an element. -/
inductive AttributeTest where
  | present (name : String)
  | equals (name value : String)
deriving DecidableEq

/-- Tests on a single element that must all hold; the universal selector has none. -/
structure Compound where
  tag : Option String := none
  ids : List String := []
  classes : List String := []
  attributes : List AttributeTest := []
deriving DecidableEq

/-- How an element stands to the element on its left in a chain. -/
inductive Combinator where
  | descendant
  | child
deriving DecidableEq

/-- Compounds from the outermost to the one for the selected element. -/
structure Complex where
  head : Compound
  tail : List (Combinator × Compound) := []
deriving DecidableEq

/-- A selector as written and the alternatives it lists. -/
structure Selector where
  source : String
  alternatives : List Complex
deriving DecidableEq

/-- A query that a document refuses: the selector asked for and why. -/
structure QueryFailure where
  selector : String
  reason : String
deriving DecidableEq

def QueryFailure.message (f : QueryFailure) : String :=
  s!"invalid selector \"{f.selector}\": {f.reason}"

end Testimony
