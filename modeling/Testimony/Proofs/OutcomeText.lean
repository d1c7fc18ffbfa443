import Mathlib.Data.List.Basic
import Testimony.Proofs.ExprText
import Testimony.Proofs.Path
import Testimony.Verdict

/-!
# Outcomes with one text are one outcome

An outcome is written in JSON with nothing left out: the member `kind` says what kind of step a step
is, and the other members of a step are its parameters; a path is the list of its steps, and a leaf,
a verdict and an outcome are objects of their parts. So two outcomes with one text are equal
(`Outcome.compact_json_eq_iff`), whatever names, selectors and numbers stand in them.

The objects of the leaves have to be plain, as in the text of an expression.
-/

namespace Testimony

/-! ## Lists of parts -/

section Lists

variable {α β : Type} {f : α → β} {P : α → Prop}

/-- A function that tells things of a kind apart tells lists of them apart. -/
theorem eq_of_map_eq (hf : ∀ a b, P a → P b → f a = f b → a = b) :
    ∀ {l l' : List α}, (∀ a ∈ l, P a) → (∀ a ∈ l', P a) → l.map f = l'.map f → l = l'
  | [], [], _, _, _ => rfl
  | a :: l, b :: l', h, h', heq => by
    simp only [List.map_cons, List.cons.injEq] at heq
    obtain ⟨ha, hl⟩ := List.forall_mem_cons.1 h
    obtain ⟨hb, hl'⟩ := List.forall_mem_cons.1 h'
    rw [hf a b ha hb heq.1, eq_of_map_eq hf hl hl' heq.2]

theorem Json.wellWrittenItems_map {f : α → Json String} :
    ∀ {l : List α}, (∀ a ∈ l, (f a).WellWritten) → WellWrittenItems (l.map f)
  | [], _ => trivial
  | _ :: _, h =>
    have hparts := List.forall_mem_cons.1 h
    ⟨hparts.1, wellWrittenItems_map hparts.2⟩

end Lists

/-! ## Steps and paths -/

theorem Step.wellWritten_json (s : Step) : s.json.WellWritten := by
  cases s with
  | itself | styleProperty _ | bound _ => simp [json, Json.WellWritten, Json.WellWrittenMembers]
  | selectorMatch _ index | operand _ index =>
    simp [json, Json.ofNat, Json.WellWritten, Json.WellWrittenMembers, Json.isLiteral_repr]

theorem Step.json_injective : Function.Injective json := by
  intro s s' h
  cases s <;> cases s' <;>
    simp only [json, Json.ofNat, Json.object.injEq, Json.string.injEq, Json.number.injEq,
      List.cons.injEq, Prod.mk.injEq, String.reduceEq, reduceCtorEq, true_and, and_true, false_and,
      and_false] at h
  case itself.itself => rfl
  case selectorMatch.selectorMatch => rw [h.1, Text.repr_injective h.2]
  case styleProperty.styleProperty => rw [h]
  case operand.operand => rw [h.1, Text.repr_injective h.2]
  case bound.bound => rw [h]

theorem Path.wellWritten_json (p : Path) : p.json.WellWritten :=
  Json.wellWrittenItems_map fun step _ => step.wellWritten_json

theorem Path.json_injective : Function.Injective json := by
  intro p p' h
  simp only [json, Json.array.injEq] at h
  exact eq_of_steps_eq (List.map_injective_iff.2 Step.json_injective h)

/-! ## Leaves, verdicts and outcomes -/

attribute [ext] Leaf Verdict Outcome

variable {ν : Type} [Node ν]

section Leaves

variable {l l' : Leaf ν}

theorem Leaf.wellWritten_json (h : l.object.IsPlain) : l.json.WellWritten :=
  ⟨h.wellWritten_json, l.path.wellWritten_json, trivial⟩

theorem Leaf.eq_of_json_eq (h : l.object.IsPlain) (h' : l'.object.IsPlain)
    (hjson : l.json = l'.json) : l = l' := by
  simp only [json, Json.object.injEq, List.cons.injEq, Prod.mk.injEq, true_and, and_true] at hjson
  have hobject := h.eq_of_json_eq h' hjson.1
  have hpath := Path.json_injective hjson.2
  exact Leaf.ext hobject hpath

end Leaves

/-- All leaves of the witness have plain objects. -/
def Verdict.IsPlain (v : Verdict ν) : Prop := ∀ l ∈ v.witness, l.object.IsPlain

section Verdicts

variable {v v' : Verdict ν}

theorem Verdict.wellWritten_json (h : v.IsPlain) : v.json.WellWritten :=
  ⟨trivial, trivial, Json.wellWrittenItems_map fun l hl => Leaf.wellWritten_json (h l hl), trivial⟩

theorem Verdict.eq_of_json_eq (h : v.IsPlain) (h' : v'.IsPlain) (hjson : v.json = v'.json) :
    v = v' := by
  simp only [json, Json.object.injEq, List.cons.injEq, Prod.mk.injEq, Json.string.injEq,
    Json.bool.injEq, Json.array.injEq, true_and, and_true] at hjson
  obtain ⟨hcondition, hholds, hwitness⟩ := hjson
  exact Verdict.ext hcondition hholds (eq_of_map_eq (fun _ _ => Leaf.eq_of_json_eq) h h' hwitness)

end Verdicts

namespace Outcome

/-- All leaves of all witnesses have plain objects. -/
def IsPlain (o : Outcome ν) : Prop := ∀ v ∈ o.verdicts, v.IsPlain

variable {o o' : Outcome ν}

theorem wellWritten_json (h : o.IsPlain) : o.json.WellWritten :=
  ⟨trivial, Json.wellWrittenItems_map fun v hv => Verdict.wellWritten_json (h v hv), trivial⟩

theorem eq_of_json_eq (h : o.IsPlain) (h' : o'.IsPlain) (hjson : o.json = o'.json) : o = o' := by
  simp only [json, Json.object.injEq, List.cons.injEq, Prod.mk.injEq, Json.array.injEq, true_and,
    and_true] at hjson
  exact Outcome.ext (eq_of_map_eq (fun _ _ => Verdict.eq_of_json_eq) h h' hjson.2)

/-- Outcomes over plain objects are equal if they have the same text. -/
theorem compact_json_eq_iff (h : o.IsPlain) (h' : o'.IsPlain) :
    o.json.compact = o'.json.compact ↔ o = o' := by
  constructor
  · intro htext
    have hjson := Json.eq_of_compact_eq (wellWritten_json h) (wellWritten_json h') htext
    exact eq_of_json_eq h h' hjson
  · rintro rfl
    rfl

section Sample

/-- One verdict, whose leaf was reached along some steps. -/
def sampleOutcome (steps : List Step) : Outcome PageElement :=
  ⟨[⟨"label", true, [⟨.text "\"\x7d", .ofSteps steps⟩]⟩]⟩

theorem isPlain_sampleOutcome (steps : List Step) : (sampleOutcome steps).IsPlain :=
  List.forall_mem_singleton.2 (List.forall_mem_singleton.2 (.text _))

theorem sampleOutcome_ne {steps steps' : List Step} (h : Path.ofSteps steps ≠ .ofSteps steps') :
    sampleOutcome steps ≠ sampleOutcome steps' := by
  intro heq
  simp only [sampleOutcome, mk.injEq, List.cons.injEq, Verdict.mk.injEq, Leaf.mk.injEq, true_and,
    and_true] at heq
  exact h heq

/-- A variable with the name of a style property, and a selector whose quote ends no string. -/
theorem compact_json_eq_iff_sampleOutcome :
    (sampleOutcome [.bound "color"]).json.compact
        ≠ (sampleOutcome [.styleProperty "color"]).json.compact
      ∧ (sampleOutcome [.selectorMatch "a\",\"index\":1" 0]).json.compact
        ≠ (sampleOutcome [.selectorMatch "a" 1]).json.compact :=
  ⟨(compact_json_eq_iff (isPlain_sampleOutcome _) (isPlain_sampleOutcome _)).not.2
      (sampleOutcome_ne (by decide)),
    (compact_json_eq_iff (isPlain_sampleOutcome _) (isPlain_sampleOutcome _)).not.2
      (sampleOutcome_ne (by decide))⟩

end Sample

end Outcome

end Testimony
