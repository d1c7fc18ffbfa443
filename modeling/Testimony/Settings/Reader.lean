import Testimony.Json.Reader
import Testimony.Settings.Basic
import Testimony.Text

/-!
# Reading settings

Settings come as a JSON object whose members may be left out, or as a list of values in their
order. Members of other names are passed over, but none of the known ones may come twice.
-/

namespace Testimony.Settings

/-- A depth is written with digits alone. -/
def depth? : Json.Reading → Option Nat
  | .number literal => Text.index? literal.toList
  | _ => none

/-- A choice is its name, or an object that gives the name a null. -/
def choice? {α : Type} (ofName? : String → Option α) : Json.Reading → Option α
  | .string (some name) => ofName? name
  | .object [(some name, .null)] => ofName? name
  | _ => none

/-- The member of a name, read by `read?`, or the default if there is none. -/
def member? {α : Type} (name : String) (read? : Json.Reading → Option α) (default : α)
    (members : List (Option String × Json.Reading)) : Option α :=
  match members.filter (·.1 == some name) with
  | [] => some default
  | [m] => read? m.2
  | _ => none

/-- The item at a position, read by `read?`, or the default if the list is shorter. -/
def item? {α : Type} (index : Nat) (read? : Json.Reading → Option α) (default : α)
    (items : List Json.Reading) : Option α :=
  items[index]?.elim (some default) read?

def ofJson? : Json.Reading → Option Settings
  | .object members => do
    guard (members.all (·.1.isSome))
    let maxDepth ← member? "max_depth" depth? 256 members
    let witnessPolicy ← member? "witness_policy" (choice? WitnessPolicy.ofName?) .last members
    let emptyDomain ← member? "empty_domain" (choice? EmptyDomainPolicy.ofName?) .vacuous members
    some { maxDepth, witnessPolicy, emptyDomain }
  | .array items => do
    guard (items.length ≤ 3)
    let maxDepth ← item? 0 depth? 256 items
    let witnessPolicy ← item? 1 (choice? WitnessPolicy.ofName?) .last items
    let emptyDomain ← item? 2 (choice? EmptyDomainPolicy.ofName?) .vacuous items
    some { maxDepth, witnessPolicy, emptyDomain }
  | _ => none

/-- The settings that a JSON text gives, if they are ones to evaluate under. -/
def parse (text : String) : Except Fault Settings :=
  match Json.ofText? text >>= ofJson? with
  | none => .error .unreadableSettings
  | some s => s.validate.map fun _ => s

end Testimony.Settings
