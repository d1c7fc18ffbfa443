import Testimony.Proofs.JsonRoundTrip
import Testimony.Settings.Reader

/-!
# Settings written and read

A text need not say everything that settings have. An object gives some of the fields, in any order,
with members of other names between them (`Settings.Gives`); what is read from it has these fields
as they are written and the others as they are by default (`Settings.keep`), if that leaves a depth
to evaluate in (`parse_of_gives`).

The text of settings gives all fields, so they are read from it again. And whatever the text,
settings that are read are ones to evaluate under (`validate_of_parse`).
-/

namespace Testimony.Settings

/-- What settings say. -/
inductive Field where
  | maxDepth
  | witnessPolicy
  | emptyDomain
deriving DecidableEq

def Field.name : Field → String
  | maxDepth => "max_depth"
  | witnessPolicy => "witness_policy"
  | emptyDomain => "empty_domain"

/-- A field as it is written. -/
def field (s : Settings) : Field → Json String
  | .maxDepth => .ofNat s.maxDepth
  | .witnessPolicy => .string s.witnessPolicy.name
  | .emptyDomain => .string s.emptyDomain.name

/-- The settings in some fields, the defaults in the others. -/
def keep (s : Settings) (fields : List Field) : Settings :=
  let default : Settings := {}
  { maxDepth := if .maxDepth ∈ fields then s.maxDepth else default.maxDepth
    witnessPolicy := if .witnessPolicy ∈ fields then s.witnessPolicy else default.witnessPolicy
    emptyDomain := if .emptyDomain ∈ fields then s.emptyDomain else default.emptyDomain }

/-- The members of an object give some fields of the settings, each of them once and in this order,
and say other things besides. -/
inductive Gives (s : Settings) : List Field → List (Option String × Json.Reading) → Prop
  | nothing : Gives s [] []
  | field {f : Field} {fields : List Field} {members : List (Option String × Json.Reading)} :
      f ∉ fields → Gives s fields members →
      Gives s (f :: fields) ((some f.name, (s.field f).reading) :: members)
  | other {key : String} {value : Json.Reading} {fields : List Field}
      {members : List (Option String × Json.Reading)} : (∀ f : Field, key ≠ f.name) →
      Gives s fields members → Gives s fields ((some key, value) :: members)

/-- The settings, if they are ones to evaluate under. -/
def checked (s : Settings) : Except Fault Settings :=
  if s.maxDepth = 0 then .error (.invalidSettings "max_depth must be at least 1") else .ok s

variable {s : Settings} {fields : List Field} {text : String}
  {members : List (Option String × Json.Reading)}

/-! ## Looking members up -/

theorem Field.name_injective : ∀ {f g : Field}, f.name = g.name → f = g
  | maxDepth, maxDepth, _ | witnessPolicy, witnessPolicy, _ | emptyDomain, emptyDomain, _ => rfl

theorem Gives.all_isSome (h : s.Gives fields members) : members.all (·.1.isSome) = true := by
  induction h with
  | nothing => rfl
  | field _ _ ih => simpa using ih
  | other _ _ ih => simpa using ih

/-- The members of the name of a field: the one that gives it, if one does. -/
theorem Gives.filter_name (h : s.Gives fields members) (f : Field) :
    members.filter (·.1 == some f.name)
      = if f ∈ fields then [(some f.name, (s.field f).reading)] else [] := by
  induction h with
  | nothing => rfl
  | @field g fields members hg _ ih =>
    by_cases hf : f = g
    · subst hf
      simp [ih, hg]
    · have hname : g.name ≠ f.name := fun h => hf (Field.name_injective h).symm
      simp [ih, hf, hname]
  | other hkey _ ih => simp [ih, hkey f]

theorem Gives.member?_eq_some {α : Type} {read? : Json.Reading → Option α} {value default : α}
    (h : s.Gives fields members) (f : Field) (hread : read? (s.field f).reading = some value) :
    member? f.name read? default members = some (if f ∈ fields then value else default) := by
  rw [member?, h.filter_name]
  split_ifs
  · exact hread
  · rfl

/-! ## Reading -/

theorem depth?_ofNat {n : Nat} (h : n < Text.wordSize) : depth? (Json.ofNat n).reading = some n :=
  Text.index?_repr h

theorem choice?_witnessPolicy (p : WitnessPolicy) :
    choice? WitnessPolicy.ofName? (Json.string p.name).reading = some p := by
  cases p <;> rfl

theorem choice?_emptyDomain (p : EmptyDomainPolicy) :
    choice? EmptyDomainPolicy.ofName? (Json.string p.name).reading = some p := by
  cases p <;> rfl

theorem ofJson?_of_gives (h : s.Gives fields members) (hs : s.maxDepth < Text.wordSize) :
    ofJson? (.object members) = some (s.keep fields) := by
  have hdepth : member? "max_depth" depth? 256 members = some (s.keep fields).maxDepth :=
    h.member?_eq_some .maxDepth (depth?_ofNat hs)
  have hwitness : member? "witness_policy" (choice? WitnessPolicy.ofName?) .last members
      = some (s.keep fields).witnessPolicy :=
    h.member?_eq_some .witnessPolicy (choice?_witnessPolicy _)
  have hempty : member? "empty_domain" (choice? EmptyDomainPolicy.ofName?) .vacuous members
      = some (s.keep fields).emptyDomain :=
    h.member?_eq_some .emptyDomain (choice?_emptyDomain _)
  simp only [ofJson?, h.all_isSome, hdepth, hwitness, hempty, guard_true, Option.pure_def,
    Option.bind_eq_bind, Option.bind_some]

theorem map_validate (s : Settings) : (s.validate.map fun _ => s) = s.checked := by
  unfold validate checked
  split_ifs <;> rfl

/-- What is read from an object that gives some fields. -/
theorem parse_of_gives (hs : s.maxDepth < Text.wordSize)
    (hread : Json.ofText? text = some (.object members)) (h : s.Gives fields members) :
    parse text = (s.keep fields).checked := by
  simp only [parse, hread, Option.bind_eq_bind, Option.bind_some, ofJson?_of_gives h hs,
    map_validate]

theorem validate_of_parse (h : parse text = .ok s) : s.validate = .ok () := by
  unfold parse at h
  split at h
  · cases h
  · rename_i s' _
    rcases hs : s'.validate with fault | ⟨⟩ <;> rw [hs] at h <;> cases h
    exact hs

/-! ## Writing -/

theorem wellWritten_json (s : Settings) : s.json.WellWritten :=
  ⟨Json.isLiteral_repr _, trivial, trivial, trivial⟩

/-- The text of settings gives all their fields. -/
theorem gives_json (s : Settings) : ∃ members, s.json.reading = .object members
    ∧ s.Gives [.maxDepth, .witnessPolicy, .emptyDomain] members :=
  ⟨_, rfl, .field (by decide) (.field (by decide) (.field (by decide) .nothing))⟩

theorem keep_all (s : Settings) : s.keep [.maxDepth, .witnessPolicy, .emptyDomain] = s := by
  simp [keep]

theorem parse_compact_json (hs : s.maxDepth < Text.wordSize) :
    parse s.json.compact = s.checked := by
  obtain ⟨members, hmembers, hgives⟩ := s.gives_json
  have hread := Json.ofText?_compact s.wellWritten_json
  rw [hmembers] at hread
  rw [parse_of_gives hs hread hgives, keep_all]

/-- An object that gives some fields is read as the settings that have these fields and are else as
by default, or refused for a depth of zero. So settings are read from their own text, and no text
gives settings that cannot be evaluated under. -/
theorem parse_written (s : Settings) (fields : List Field) (hs : s.maxDepth < Text.wordSize) :
    (∀ text members, Json.ofText? text = some (.object members) → s.Gives fields members →
        parse text = (s.keep fields).checked)
      ∧ (∀ members, Json.WellWrittenMembers members → s.Gives fields (Json.memberReadings members) →
        parse (Json.object members).compact = (s.keep fields).checked)
      ∧ (0 < s.maxDepth → parse s.json.compact = .ok s)
      ∧ ∀ text s', parse text = .ok s' → s'.validate = .ok () := by
  refine ⟨fun text members hread h => parse_of_gives hs hread h, fun members hmembers h => ?_,
    fun hpos => ?_, fun text s' h => validate_of_parse h⟩
  · exact parse_of_gives hs (Json.ofText?_compact (j := .object members) hmembers) h
  · rw [parse_compact_json hs, checked, if_neg (by omega)]

section Sample

def sampleSettings : Settings where
  maxDepth := 18446744073709551615
  witnessPolicy := .first
  emptyDomain := .reject

/-- A policy and the greatest depth, out of order, with members of other names between them. -/
def sampleMembers : List (String × Json String) :=
  [("note", .array [.object [("max_depth", .ofNat 0)]]), ("empty_domain", .string "reject"),
    ("Max_depth", .null), ("max_depth", .ofNat 18446744073709551615)]

def sampleText : String :=
  "\x7b\"note\":[\x7b\"max_depth\":0\x7d],\"empty_domain\":\"reject\","
    ++ "\"Max_depth\":null,\"max_depth\":18446744073709551615\x7d"

theorem compact_sampleMembers : (Json.object sampleMembers).compact = sampleText := by
  decide +kernel

theorem wellWritten_sampleMembers : Json.WellWrittenMembers sampleMembers :=
  ⟨⟨⟨Json.isLiteral_repr _, trivial⟩, trivial⟩, trivial, trivial, Json.isLiteral_repr _, trivial⟩

theorem gives_sampleMembers :
    sampleSettings.Gives [.emptyDomain, .maxDepth] (Json.memberReadings sampleMembers) := by
  have hnote : ∀ f : Field, "note" ≠ f.name := by
    intro f
    cases f <;> decide
  have hupper : ∀ f : Field, "Max_depth" ≠ f.name := by
    intro f
    cases f <;> decide
  exact .other hnote (.field (by decide) (.other hupper (.field (by decide) .nothing)))

/-- The policy for witnesses is not written, so it is read as by default. -/
theorem parse_written_sampleSettings :
    parse sampleText = .ok { sampleSettings with witnessPolicy := .last }
      ∧ parse sampleSettings.json.compact = .ok sampleSettings := by
  have h := parse_written sampleSettings [.emptyDomain, .maxDepth] (by decide)
  rw [← compact_sampleMembers]
  exact ⟨h.2.1 _ wellWritten_sampleMembers gives_sampleMembers, h.2.2.1 (by decide)⟩

end Sample

end Testimony.Settings
