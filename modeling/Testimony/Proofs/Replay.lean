import Testimony.Proofs.Evaluation

/-!
# Replaying a path

A leaf can be followed from its object along its path: a match of a selector leads to that match
below the element one stands at, a variable leads nowhere else, and the other steps lead to no
element. `Leaf.replay?` is where one arrives, if one does.

A binding is faithful if its leaf leads to its value. Inputs are, and a member of a domain is if
the term that was queried is (`Binding.Faithful.matched`). A quantifier gives its variable nothing
else: each candidate is a match from the term in its domain. So a property that queries keep passes
from the scope and the literals of the domain to the candidates (`Context.All.candidate`).
-/

namespace Testimony

variable {ν : Type}

/-! ## Contexts -/

/-- All that references speak of has the property. -/
def Context.All (P : Binding ν → Prop) (c : Context ν) : Prop :=
  ∀ r b, c.lookup? r = some b → P b

section Contexts

variable {P : Binding ν → Prop} {c : Context ν} {b : Binding ν}

theorem Context.All.extend (hc : c.All P) (hb : P b) (name : String) : (c.extend name b).All P := by
  intro r b' h
  rw [lookup?_extend] at h
  split_ifs at h
  · cases h
    exact hb
  · exact hc r b' h

theorem Context.all_ofInputs {inputs : List (Value ν)} (h : ∀ v ∈ inputs, P (.input v)) :
    (Context.ofInputs inputs).All P := by
  rintro (index | x) b' hb
  · simp only [lookup?, ofInputs, List.getElem?_map, Option.map_eq_some_iff] at hb
    obtain ⟨v, hv, rfl⟩ := hb
    exact h v (List.mem_of_getElem? hv)
  · cases hb

theorem Context.All.term {e : Expr ν} (hc : c.All P) (hv : ∀ v ∈ e.constants, P (.input v))
    (h : e.term? c = some b) : P b := by
  rcases e with v | r | _ | _
  · cases h
    exact hv v (List.mem_singleton.2 rfl)
  · exact hc r b h
  · cases h
  · cases h

end Contexts

variable [Node ν]

/-! ## Steps and paths -/

/-- Where a step leads from a value. -/
def Step.follow? : Step → Value ν → Option (Value ν)
  | .itself, v => some v
  | .bound _, v => some v
  | .selectorMatch selector index, .element n =>
    match Node.query n selector with
    | .ok found => found[index]?.map .element
    | .error _ => none
  | _, _ => none

/-- Where a path leads from a value. -/
def Path.replay? (p : Path) (v : Value ν) : Option (Value ν) :=
  p.steps.foldlM (fun v step => step.follow? v) v

/-- Where the path of a leaf leads from its object. -/
def Leaf.replay? (l : Leaf ν) : Option (Value ν) := l.path.replay? l.object

theorem replay?_eq_proper (p : Path) (v : Value ν) :
    p.replay? v = p.proper.foldlM (fun v step => step.follow? v) v := by
  by_cases h : p = .trivial
  · rw [h]
    rfl
  · rw [Path.replay?, Path.steps_eq_proper h]

theorem replay?_extend {p : Path} {step : Step} (h : step ≠ .itself) (v : Value ν) :
    (p.extend step).replay? v = (p.replay? v).bind step.follow? := by
  rw [replay?_eq_proper, replay?_eq_proper, Path.proper_extend h, List.foldlM_append]
  simp [bind]

theorem follow?_selectorMatch {selector : String} {index : Nat} {n x : ν} {found : List ν}
    (hq : Node.query n selector = .ok found) (hx : found[index]? = some x) :
    (Step.selectorMatch selector index).follow? (.element n) = some (.element x) := by
  simp [Step.follow?, hq, hx]

/-! ## Bindings -/

/-- The leaf of the binding leads to its value. -/
def Binding.Faithful (b : Binding ν) : Prop := b.leaf.replay? = some b.value

omit [Node ν] in
/-- The binding of a variable to an element that was found from another binding. -/
def Binding.matched (b : Binding ν) (selector : String) (index : Nat) (name : String) (x : ν) :
    Binding ν where
  value := .element x
  leaf :=
    { object := b.leaf.object
      path := (b.leaf.path.extend (.selectorMatch selector index)).extend (.bound name) }

theorem Binding.faithful_input (v : Value ν) : (Binding.input v).Faithful := rfl

theorem Binding.Faithful.matched {b : Binding ν} {selector name : String} {index : Nat} {x : ν}
    (hb : b.Faithful)
    (hx : (Step.selectorMatch selector index).follow? b.value = some (.element x)) :
    (b.matched selector index name x).Faithful := by
  have hleaf : b.leaf.path.replay? b.leaf.object = some b.value := hb
  calc (b.matched selector index name x).leaf.replay?
      = (((b.leaf.path.replay? b.leaf.object).bind
          (Step.selectorMatch selector index).follow?).bind (Step.bound name).follow?) := by
        rw [← replay?_extend (by simp), ← replay?_extend (by simp)]
        rfl
    _ = some (.element x) := by
        rw [hleaf, Option.bind_some, hx]
        rfl

/-- A candidate was found from the term in its domain, so it has what queries keep. -/
theorem Context.All.candidate {P : Binding ν → Prop} {s : Settings} {level : Nat} {c : Context ν}
    {domain : Expr ν} {d : Finding ν} {ms : List (Member ν)} {m : Member ν} {name : String}
    (hc : c.All P) (hv : ∀ v ∈ domain.constants, P (.input v))
    (hmatched : ∀ {b : Binding ν} {selector : String} {index : Nat} {x : ν}, P b →
      (Step.selectorMatch selector index).follow? b.value = some (.element x) →
      P (b.matched selector index name x))
    (hd : domain.evaluateAt s level c = .ok d) (hms : d.output = .members ms) (hm : m ∈ ms) :
    P (d.candidate name m) := by
  obtain ⟨selector, t, b, n, found, rfl, hb, hbn, hq, rfl, hp, hw⟩ :=
    Expr.exists_query_of_members hd hms
  obtain ⟨index, hi, rfl⟩ := List.mem_mapIdx.1 hm
  have hterm : P b := hc.term (fun v ht => hv v (List.mem_append_left _ ht)) hb
  have hx : (Step.selectorMatch selector index).follow? b.value = some (.element found[index]) := by
    rw [hbn]
    exact follow?_selectorMatch hq (List.getElem?_eq_getElem hi)
  have hcand : d.candidate name ⟨.element found[index], .selectorMatch selector index⟩
      = b.matched selector index name found[index] := by
    simp [Finding.candidate, Binding.matched, hp, hw]
  rw [hcand]
  exact hmatched hterm hx

end Testimony
