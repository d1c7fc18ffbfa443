import Testimony.Fault
import Testimony.Json.Basic
import Testimony.Text

/-!
# References

A reference speaks of an input by its position, written `@0`, or of a quantified variable by its
name, written `$x`; the sign belongs to the name.
-/

namespace Testimony

inductive Reference where
  | positional (index : Nat)
  | named (name : String)
deriving DecidableEq

namespace Reference

/-- The digits after a plus sign, which may be left out. -/
def unsigned : List Char → List Char
  | '+' :: r => r
  | s => s

def ofChars? : List Char → Option Reference
  | '@' :: r => (Text.index? (unsigned r)).map positional
  | '$' :: r =>
    if r.isEmpty || r.any Text.isBlank then none else some (named (String.ofList ('$' :: r)))
  | _ => none

/-- The reference that a token writes. -/
def parse (token : String) : Except Fault Reference :=
  match ofChars? token.toList with
  | some r => .ok r
  | none => .error (.invalidReference token)

def text : Reference → String
  | positional index => "@" ++ index.repr
  | named name => name

def json : Reference → Json String
  | positional index => .object [("positional", .ofNat index)]
  | named name => .object [("named", .string name)]

end Reference

end Testimony
