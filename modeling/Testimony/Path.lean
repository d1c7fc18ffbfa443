import Testimony.Json.Basic

/-!
# Paths

A path leads from a literal or an input to the value that was used, one step at a time. The path
that goes nowhere is written as the single step `itself`; every other path has steps, none of which
is `itself`. So a path is known by its proper steps, and composing two paths appends these:
`proper_ofSteps` and `proper_compose`.
-/

namespace Testimony

inductive Step where
  /-- Stays where it is. -/
  | itself
  /-- To the match of a selector with this number, in document order. -/
  | selectorMatch (selector : String) (index : Nat)
  /-- To the value of a style property. -/
  | styleProperty (property : String)
  /-- Into an argument of an operator. -/
  | operand (operator : String) (index : Nat)
  /-- Into a quantified variable. -/
  | bound (name : String)
deriving DecidableEq, Hashable

namespace Step

def describe : Step → String
  | itself => "itself"
  | selectorMatch selector index => s!"element matching \"{selector}\" (match {index.repr})"
  | styleProperty property => s!"{property} of"
  | operand operator index => s!"argument {index.repr} of {operator}"
  | bound name => s!"bound to {name}"

def json : Step → Json String
  | itself => .object [("kind", .string "identity")]
  | selectorMatch selector index =>
    .object [("kind", .string "selector_match"), ("selector", .string selector),
      ("index", .ofNat index)]
  | styleProperty property =>
    .object [("kind", .string "style_property"), ("property", .string property)]
  | operand operator index =>
    .object [("kind", .string "operand"), ("operator", .string operator), ("index", .ofNat index)]
  | bound name => .object [("kind", .string "bound"), ("name", .string name)]

end Step

structure Path where
  steps : List Step
  canonical : steps = [.itself] ∨ steps ≠ [] ∧ .itself ∉ steps
deriving DecidableEq

namespace Path

/-- The path that goes nowhere. -/
def trivial : Path := ⟨[.itself], .inl rfl⟩

/-- The steps that go somewhere. -/
def proper (p : Path) : List Step := p.steps.filter (· != .itself)

/-- The path along some steps, in order. -/
def ofSteps (steps : List Step) : Path :=
  let kept := steps.filter (· != .itself)
  if h : kept = [] then trivial
  else ⟨kept, .inr ⟨h, fun hm => by simpa [kept] using (List.mem_filter.1 hm).2⟩⟩

def single (step : Step) : Path := ofSteps [step]

/-- One path followed by another. -/
def compose (p q : Path) : Path := ofSteps (p.steps ++ q.steps)

/-- A path followed by one more step. -/
def extend (p : Path) (step : Step) : Path := ofSteps (p.steps ++ [step])

def isTrivial (p : Path) : Bool := p.steps == [.itself]

/-- The number of steps; the trivial path has one. -/
def length (p : Path) : Nat := p.steps.length

theorem steps_ne_nil (p : Path) : p.steps ≠ [] := by
  rcases p.canonical with h | h
  · simp [h]
  · exact h.1

/-- The step next to the value that was used. -/
def last (p : Path) : Step := p.steps.getLast p.steps_ne_nil

instance : Inhabited Path := ⟨trivial⟩

def describe (p : Path) : String := " -> ".intercalate (p.steps.map Step.describe)

def json (p : Path) : Json String := .array (p.steps.map Step.json)

theorem proper_trivial : trivial.proper = [] := rfl

theorem proper_ofSteps (steps : List Step) :
    (ofSteps steps).proper = steps.filter (· != .itself) := by
  unfold ofSteps
  dsimp only
  split
  · rename_i h
    rw [h, proper_trivial]
  · simp [proper]

theorem proper_compose (p q : Path) : (p.compose q).proper = p.proper ++ q.proper := by
  rw [compose, proper_ofSteps, List.filter_append]
  rfl

end Path

end Testimony
