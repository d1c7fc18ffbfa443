import Testimony.Json.Basic
import Testimony.Node
import Testimony.Number.Text

/-!
# Values

Literals, inputs and results of operators. Two values are equal if they have the same kind and
the same content; of a number the bit pattern counts, except that the two zeros are one, and of an
element its identity. `Value.digest` is all that equality looks at.
-/

namespace Testimony

inductive Value (ν : Type) where
  | null
  | boolean (b : Bool)
  | number (x : Number)
  | text (s : String)
  | element (n : ν)

namespace Value

variable {ν : Type}

/-- The name of the kind of a value. -/
def kind : Value ν → String
  | null => "null"
  | boolean _ => "boolean"
  | number _ => "number"
  | text _ => "text"
  | element _ => "element"

def number? : Value ν → Option Number
  | number x => some x
  | _ => none

def boolean? : Value ν → Option Bool
  | boolean b => some b
  | _ => none

def text? : Value ν → Option String
  | text s => some s
  | _ => none

def element? : Value ν → Option ν
  | element n => some n
  | _ => none

variable [Node ν]

def equals : Value ν → Value ν → Bool
  | null, null => true
  | boolean a, boolean b => a == b
  | number x, number y => x.key == y.key
  | text s, text t => s == t
  | element m, element n => Node.identity m == Node.identity n
  | _, _ => false

instance : BEq (Value ν) := ⟨equals⟩

/-- The content of a value that equality and hashing look at. -/
inductive Digest where
  | null
  | boolean (b : Bool)
  | number (key : UInt64)
  | text (s : String)
  | element (identity : Identity)
deriving DecidableEq, Hashable

def digest : Value ν → Digest
  | null => .null
  | boolean b => .boolean b
  | number x => .number x.key
  | text s => .text s
  | element n => .element (Node.identity n)

instance : Hashable (Value ν) := ⟨fun v => hash v.digest⟩

/-- The value for a reader; a text stands between quotes as it is. -/
def describe : Value ν → String
  | null => "null"
  | boolean b => if b then "true" else "false"
  | number x => x.text
  | text s => s!"\"{s}\""
  | element n => Node.describe n

/-- The value in JSON: an element is its description, and infinities and NaN are `null`. -/
def json : Value ν → Json String
  | null => .null
  | boolean b => .bool b
  | number x => if x.isFinite then .number (Number.literal.text x) else .null
  | text s => .string s
  | element n => .string (Node.describe n)

end Value

end Testimony
