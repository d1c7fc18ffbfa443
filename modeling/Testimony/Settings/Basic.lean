import Testimony.Fault
import Testimony.Json.Basic

/-!
# Settings

What an evaluation is free to choose: how deep expressions may nest, which witness a quantifier
reports when no candidate decides it, and what a quantifier over nothing is.
-/

namespace Testimony

/-- The witness of a quantifier that no candidate decides. -/
inductive WitnessPolicy where
  | first
  | last
deriving DecidableEq

namespace WitnessPolicy

def name : WitnessPolicy → String
  | first => "first"
  | last => "last"

def ofName? : String → Option WitnessPolicy
  | "first" => some first
  | "last" => some last
  | _ => none

end WitnessPolicy

/-- The outcome of a quantifier without candidates. -/
inductive EmptyDomainPolicy where
  /-- A universal quantifier holds, an existential one does not, and there is no witness. -/
  | vacuous
  /-- The evaluation fails. -/
  | reject
deriving DecidableEq

namespace EmptyDomainPolicy

def name : EmptyDomainPolicy → String
  | vacuous => "vacuous"
  | reject => "reject"

def ofName? : String → Option EmptyDomainPolicy
  | "vacuous" => some vacuous
  | "reject" => some reject
  | _ => none

end EmptyDomainPolicy

structure Settings where
  maxDepth : Nat := 256
  witnessPolicy : WitnessPolicy := .last
  emptyDomain : EmptyDomainPolicy := .vacuous
deriving DecidableEq

namespace Settings

/-- Complains about settings under which nothing can be evaluated. -/
def validate (s : Settings) : Except Fault Unit :=
  if s.maxDepth = 0 then .error (.invalidSettings "max_depth must be at least 1") else .ok ()

/-- Complains about a nesting level beyond the greatest depth; the outermost level is zero. -/
def allowLevel (s : Settings) (level : Nat) : Except Fault Unit :=
  if level < s.maxDepth then .ok () else .error (.depthExceeded s.maxDepth)

def json (s : Settings) : Json String :=
  .object [("max_depth", .ofNat s.maxDepth), ("witness_policy", .string s.witnessPolicy.name),
    ("empty_domain", .string s.emptyDomain.name)]

end Settings

end Testimony
