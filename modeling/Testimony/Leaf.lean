import Testimony.Path
import Testimony.Value

/-!
# Leaves

A literal or an input with the path from it to the value that was used. The leaves that justify a
result are its witness, in the order in which the terms stand in the expression.
-/

namespace Testimony

structure Leaf (ν : Type) where
  object : Value ν
  path : Path

abbrev Witness (ν : Type) := List (Leaf ν)

namespace Leaf

variable {ν : Type}

/-- A value that was used as it is. -/
def plain (object : Value ν) : Leaf ν := ⟨object, .trivial⟩

variable [Node ν]

def equals (a b : Leaf ν) : Bool := a.object == b.object && a.path == b.path

instance : BEq (Leaf ν) := ⟨equals⟩

/-- What equality looks at. -/
def digest (l : Leaf ν) : Value.Digest × List Step := (l.object.digest, l.path.steps)

instance : Hashable (Leaf ν) := ⟨fun l => hash l.digest⟩

def describe (l : Leaf ν) : String :=
  if l.path.isTrivial then l.object.describe else s!"{l.object.describe} [{l.path.describe}]"

def json (l : Leaf ν) : Json String :=
  .object [("object", l.object.json), ("designator", l.path.json)]

end Leaf

end Testimony
