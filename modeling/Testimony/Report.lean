import Testimony.Verdict

/-!
# Reports

An outcome for a reader, as text or as JSON: each verdict with its witness, and each leaf by the
kind and the description of its object and the steps of its path. A report only looks at an outcome
and evaluates nothing.
-/

namespace Testimony

/-- A leaf in words. -/
structure Report.Entry where
  kind : String
  object : String
  /-- The steps, outermost first; none for the trivial path. -/
  path : List String
deriving DecidableEq

/-- A verdict in words. -/
structure Report.Item where
  condition : String
  holds : Bool
  witness : List Report.Entry
deriving DecidableEq

/-- An outcome in words. -/
structure Report where
  passed : Bool
  items : List Report.Item
deriving DecidableEq

namespace Report

variable {ν : Type} [Node ν]

def Entry.ofLeaf (l : Leaf ν) : Entry where
  kind := l.object.kind
  object := l.object.describe
  path := if l.path.isTrivial then [] else l.path.steps.map Step.describe

def Item.ofVerdict (v : Verdict ν) : Item where
  condition := v.condition
  holds := v.holds
  witness := v.witness.map .ofLeaf

def ofOutcome (o : Outcome ν) : Report where
  passed := o.passed
  items := o.verdicts.map .ofVerdict

/-- The number of verdicts that hold. -/
def passedCount (r : Report) : Nat := r.items.countP Item.holds

/-- The number of verdicts that do not hold. -/
def failedCount (r : Report) : Nat := r.items.length - r.passedCount

/-! ### As text -/

/-- The line of a leaf, which is the `index`-th of its witness, counted from zero. -/
def Entry.line (indent : String) (index : Nat) (e : Entry) : String :=
  let path := if e.path.isEmpty then "" else " via " ++ " -> ".intercalate e.path
  s!"{indent}    {(index + 1).repr}. {e.kind} {e.object}{path}\n"

def Item.witnessText (indent : String) (i : Item) : String :=
  if i.witness.isEmpty then s!"{indent}  Witness: (none)\n"
  else s!"{indent}  Witness:\n" ++ String.join (i.witness.mapIdx (Entry.line indent))

def Item.textWithin (indent : String) (i : Item) : String :=
  let status := if i.holds then "PASS" else "FAIL"
  s!"{indent}[{status}] {i.condition}\n" ++ i.witnessText indent

/-- A verdict on its own. -/
def Item.text (i : Item) : String := i.textWithin ""

def text (r : Report) : String :=
  let status := if r.passed then "PASSED" else "FAILED"
  let heading := s!"=== TEST RESULT ===\nStatus: {status}\n"
  let counts := s!"Conditions: {r.passedCount.repr} passed, {r.failedCount.repr} failed\n"
  let verdicts :=
    if r.items.isEmpty then ""
    else "Verdicts:\n" ++ String.join (r.items.map (Item.textWithin "  "))
  heading ++ counts ++ verdicts

/-! ### As JSON -/

def Entry.json (e : Entry) : Json String :=
  .object [("kind", .string e.kind), ("object", .string e.object),
    ("path", .array (e.path.map .string))]

def Item.json (i : Item) : Json String :=
  .object [("condition", .string i.condition), ("result", .bool i.holds),
    ("witness", .array (i.witness.map Entry.json))]

def json (r : Report) : Json String :=
  .object [("result", .bool r.passed), ("passed", .ofNat r.passedCount),
    ("failed", .ofNat r.failedCount), ("verdicts", .array (r.items.map Item.json))]

end Report

end Testimony
