import Testimony.Selector.Basic

/-!
# Faults

Why an evaluation has no result. A fault ends the evaluation of the condition in which it arises;
it is never taken for a false verdict.
-/

namespace Testimony

inductive Fault where
  | typeMismatch (consumer expected found : String)
  | arityMismatch (operator : String) (expected found : Nat)
  | unboundReference (reference : String)
  | invalidReference (token : String)
  | invalidSelector (selector reason : String)
  | emptyDomain (name : String)
  | depthExceeded (limit : Nat)
  | queryBeforeEvaluation
  /-- Every condition that failed, by name and cause. -/
  | conditionsFailed (failures : List (String × Fault))
  | invalidSettings (complaint : String)
  /-- A text that gives no settings at all. -/
  | unreadableSettings

namespace Fault

/-- The stable name of the kind of fault. -/
def code : Fault → String
  | typeMismatch .. => "LINEAGE_TYPE_MISMATCH"
  | arityMismatch .. => "LINEAGE_ARITY_MISMATCH"
  | unboundReference _ => "LINEAGE_UNBOUND_REFERENCE"
  | invalidReference _ => "LINEAGE_INVALID_REFERENCE"
  | invalidSelector .. => "LINEAGE_INVALID_SELECTOR"
  | emptyDomain _ => "LINEAGE_EMPTY_DOMAIN"
  | depthExceeded _ => "LINEAGE_DEPTH_EXCEEDED"
  | queryBeforeEvaluation => "LINEAGE_QUERY_BEFORE_EVALUATION"
  | conditionsFailed _ => "LINEAGE_CONDITIONS_FAILED"
  | invalidSettings _ | unreadableSettings => "LINEAGE_INVALID_CONFIG"

mutual

def message : Fault → String
  | typeMismatch consumer expected found => s!"{consumer} expected {expected}, found {found}"
  | arityMismatch operator expected found =>
    s!"{operator} takes {expected.repr} operand(s), got {found.repr}"
  | unboundReference reference => s!"Unbound reference: {reference}"
  | invalidReference token => s!"Invalid reference token: {token}"
  | invalidSelector selector reason => s!"Invalid selector \"{selector}\": {reason}"
  | emptyDomain name => s!"Quantifier domain for {name} is empty"
  | depthExceeded limit => s!"Expression nesting exceeds depth limit of {limit.repr}"
  | queryBeforeEvaluation => "Result queried before any evaluation"
  | conditionsFailed failures =>
    s!"{failures.length.repr} condition(s) failed: " ++ "; ".intercalate (messages failures)
  | invalidSettings complaint => s!"Invalid configuration: {complaint}"
  | unreadableSettings => "Invalid configuration: the text gives no settings"

/-- The name and the message of each failure. -/
def messages : List (String × Fault) → List String
  | [] => []
  | (condition, fault) :: rest => s!"\"{condition}\": {fault.message}" :: messages rest

end

/-- Whether the document refused a query. -/
def isDocumentFault : Fault → Bool
  | invalidSelector .. => true
  | _ => false

def ofQueryFailure (f : QueryFailure) : Fault := invalidSelector f.selector f.reason

end Fault

end Testimony
