import Testimony.Fault
import Testimony.Leaf
import Testimony.Reference

/-!
# Contexts

What the references of an expression speak of: the inputs, and the variables of the quantifiers
around it, the innermost first. Extending a context leaves the old one as it is, and a new binding
hides an older one of the same name.
-/

namespace Testimony

/-- What a reference stands for: the value that operators get, and the leaf that a witness shows. -/
structure Binding (ν : Type) where
  value : Value ν
  leaf : Leaf ν

/-- An input is its own leaf. -/
def Binding.input {ν : Type} (value : Value ν) : Binding ν := ⟨value, .plain value⟩

structure Context (ν : Type) where
  inputs : List (Binding ν)
  scope : List (String × Binding ν)

namespace Context

variable {ν : Type}

def ofInputs (values : List (Value ν)) : Context ν := ⟨values.map .input, []⟩

def extend (c : Context ν) (name : String) (b : Binding ν) : Context ν :=
  { c with scope := (name, b) :: c.scope }

def lookup? (c : Context ν) : Reference → Option (Binding ν)
  | .positional index => c.inputs[index]?
  | .named name => c.scope.lookup name

def resolve (c : Context ν) (r : Reference) : Except Fault (Binding ν) :=
  match c.lookup? r with
  | some b => .ok b
  | none => .error (.unboundReference r.text)

theorem lookup?_extend (c : Context ν) (name : String) (b : Binding ν) (r : Reference) :
    (c.extend name b).lookup? r = if r = .named name then some b else c.lookup? r := by
  rcases r with index | x
  · simp [lookup?, extend]
  · by_cases h : x = name
    · simp [lookup?, extend, h]
    · simp [lookup?, extend, List.lookup_cons, h, beq_false_of_ne h]

end Context

end Testimony
