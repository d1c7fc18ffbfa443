import Testimony.Proofs.Evaluation
import Testimony.Proofs.JsonRoundTrip
import Testimony.Proofs.Terms

/-!
# Expressions with one text are one expression

An expression is written in JSON with nothing left out: the key of an object says what kind of
expression it is, name and parameter say which operator, and a plain literal stands as it is. So
two expressions with one text are equal (`compact_json_inj`).

Literals that are not plain can share a text: an element is written as its description, and a
number that is not finite as `null`.
-/

namespace Testimony

variable {ν : Type} [Node ν]

theorem Json.tagged_inj {k k' : String} {j j' : Json String} :
    Json.object [(k, j)] = .object [(k', j')] ↔ k = k' ∧ j = j' := by
  simp only [object.injEq, List.cons.injEq, Prod.mk.injEq, and_true]

/-! ## Values -/

namespace Value

/-- The value is `null`, a boolean or a text. -/
inductive IsPlain : Value ν → Prop
  | null : IsPlain null
  | boolean (b : Bool) : IsPlain (boolean b)
  | text (s : String) : IsPlain (text s)

theorem IsPlain.wellWritten_json {v : Value ν} (h : v.IsPlain) : v.json.WellWritten := by
  cases h <;> trivial

theorem IsPlain.eq_of_json_eq {v v' : Value ν} (h : v.IsPlain) (h' : v'.IsPlain)
    (hjson : v.json = v'.json) : v = v' := by
  cases h <;> cases h' <;> cases hjson <;> rfl

end Value

/-! ## Operators, references and quantifiers -/

theorem Operator.eq_of_name_parameter {op op' : Operator} (hname : op.name = op'.name)
    (hparameter : op.parameter? = op'.parameter?) : op = op' := by
  cases op <;> cases op' <;> simp_all [name, parameter?]

theorem Operator.wellWritten_json (op : Operator) : op.json.WellWritten := by
  unfold json
  split
  · exact ⟨trivial, trivial⟩
  · exact trivial

theorem Operator.json_injective {op op' : Operator} (h : op.json = op'.json) : op = op' := by
  unfold json at h
  rcases hp : op.parameter? with _ | p <;> rcases hp' : op'.parameter? with _ | p' <;>
    simp only [hp, hp', Json.tagged_inj, Json.string.injEq, reduceCtorEq] at h
  case none.none => exact eq_of_name_parameter h (hp.trans hp'.symm)
  case some.some => exact eq_of_name_parameter h.1 (by rw [hp, hp', h.2])

theorem Reference.wellWritten_json (r : Reference) : r.json.WellWritten := by
  cases r with
  | positional index => exact ⟨Json.isLiteral_repr index, trivial⟩
  | named name => exact ⟨trivial, trivial⟩

theorem Reference.json_injective {r r' : Reference} (h : r.json = r'.json) : r = r' := by
  cases r <;> cases r' <;>
    simp only [json, Json.ofNat, Json.tagged_inj, String.reduceEq, false_and, true_and,
      Json.number.injEq, Json.string.injEq] at h
  case positional.positional => rw [Text.repr_injective h]
  case named.named => rw [h]

theorem Quantifier.tag_injective : ∀ {q q' : Quantifier}, q.tag = q'.tag → q = q'
  | universal, universal, _ | existential, existential, _ => rfl

/-! ## Expressions -/

namespace Expr

mutual

theorem wellWritten_json :
    ∀ e : Expr ν, (∀ v ∈ e.constants, v.IsPlain) → e.json.WellWritten
  | constant v, h => ⟨(h v List.mem_cons_self).wellWritten_json, trivial⟩
  | reference r, _ => ⟨r.wellWritten_json, trivial⟩
  | apply op es, h =>
    ⟨⟨op.wellWritten_json, wellWritten_jsonAll es h, trivial⟩, trivial⟩
  | quantify _ _ domain body, h =>
    have hparts := List.forall_mem_append.1 h
    ⟨⟨trivial, trivial, wellWritten_json domain hparts.1, wellWritten_json body hparts.2, trivial⟩,
      trivial⟩

theorem wellWritten_jsonAll :
    ∀ es : List (Expr ν), (∀ v ∈ constantsAll es, v.IsPlain) →
      Json.WellWrittenItems (jsonAll es)
  | [], _ => trivial
  | e :: es, h =>
    have hparts := List.forall_mem_append.1 h
    ⟨wellWritten_json e hparts.1, wellWritten_jsonAll es hparts.2⟩

end

mutual

theorem json_injective :
    ∀ {e e' : Expr ν}, (∀ v ∈ e.constants, v.IsPlain) → (∀ v ∈ e'.constants, v.IsPlain) →
      e.json = e'.json → e = e'
  | constant v, e', h, h', hjson => by
    cases e' with
    | constant v' =>
      simp only [json, Json.tagged_inj, true_and] at hjson
      rw [(h v List.mem_cons_self).eq_of_json_eq (h' v' List.mem_cons_self) hjson]
    | _ => simp [json] at hjson
  | reference r, e', _, _, hjson => by
    cases e' with
    | reference r' =>
      simp only [json, Json.tagged_inj, true_and] at hjson
      rw [Reference.json_injective hjson]
    | _ => simp [json] at hjson
  | apply op es, e', h, h', hjson => by
    cases e' with
    | apply op' es' =>
      simp only [json, Json.object.injEq, List.cons.injEq, Prod.mk.injEq, Json.array.injEq,
        true_and, and_true] at hjson
      rw [Operator.json_injective hjson.1, jsonAll_injective h h' hjson.2]
    | _ => simp [json] at hjson
  | quantify q name domain body, e', h, h', hjson => by
    cases e' with
    | quantify q' name' domain' body' =>
      simp only [json, Json.object.injEq, List.cons.injEq, Prod.mk.injEq, Json.string.injEq,
        true_and, and_true] at hjson
      obtain ⟨hq, hname, hdomain, hbody⟩ := hjson
      have hparts := List.forall_mem_append.1 h
      have hparts' := List.forall_mem_append.1 h'
      rw [Quantifier.tag_injective hq, hname, json_injective hparts.1 hparts'.1 hdomain,
        json_injective hparts.2 hparts'.2 hbody]
    | _ => simp [json] at hjson

theorem jsonAll_injective :
    ∀ {es es' : List (Expr ν)}, (∀ v ∈ constantsAll es, v.IsPlain) →
      (∀ v ∈ constantsAll es', v.IsPlain) → jsonAll es = jsonAll es' → es = es'
  | [], [], _, _, _ => rfl
  | e :: es, e' :: es', h, h', hjson => by
    simp only [jsonAll, List.cons.injEq] at hjson
    have hparts := List.forall_mem_append.1 h
    have hparts' := List.forall_mem_append.1 h'
    rw [json_injective hparts.1 hparts'.1 hjson.1, jsonAll_injective hparts.2 hparts'.2 hjson.2]

end

theorem compact_json_inj {e e' : Expr ν} (h : ∀ v ∈ e.constants, v.IsPlain)
    (h' : ∀ v ∈ e'.constants, v.IsPlain) : e.json.compact = e'.json.compact ↔ e = e' := by
  constructor
  · intro htext
    have hjson := Json.eq_of_compact_eq (wellWritten_json e h) (wellWritten_json e' h') htext
    exact json_injective h h' hjson
  · rintro rfl
    rfl

section Sample

/-- Some link has this label. -/
def sampleLabel (label : String) : Expr PageElement :=
  quantify .existential "$x" (apply (.findBySelector "a[href=\"/\"]") [input 0])
    (apply .isEqualTo [apply (.computedStyle "content") [var "$x"], constant (.text label)])

theorem isPlain_sampleLabel (label : String) :
    ∀ v ∈ (sampleLabel label).constants, v.IsPlain :=
  List.forall_mem_singleton.2 (.text label)

/-- A quote behind a new line, and the same two characters as they are escaped. -/
theorem compact_json_inj_sampleLabel :
    (sampleLabel "\n\"").json.compact ≠ (sampleLabel "\\n\\\"").json.compact := by
  intro htext
  have heq := (compact_json_inj (isPlain_sampleLabel _) (isPlain_sampleLabel _)).1 htext
  simp [sampleLabel] at heq

end Sample

end Expr

end Testimony
