import Testimony.Proofs.Parallel
import Testimony.Proofs.Terms

/-!
# Grounding

An expression is grounded in a context by putting literals in the place of its free references,
each of the value that the reference stands for (`Expr.ground`). The literals come without the
leaves that the bindings had, and no operator and no quantifier asks for these. So the grounded
expression has without any context the outcome that the expression has in the context
(`evaluate_ground`).

In between some references have been replaced and others have not. `parallel_substitute` says of any
two contexts that the outcome is the same if every free reference has in the first context the value
that it has been replaced by, or has in the second if it has not been (`Expr.substitute`). A
quantifier keeps this up in its body: its variable is not replaced there, and it has the same
members for values on both sides.
-/

namespace Testimony

variable {ν : Type}

/-- The value that a reference stands for. -/
def Context.value? (c : Context ν) (r : Reference) : Option (Value ν) :=
  (c.lookup? r).map Binding.value

/-- Values to be put in the place of references. -/
abbrev Substitution (ν : Type) := Reference → Option (Value ν)

/-- What is left to be put in the place of references where this variable is bound. -/
def Substitution.hide (σ : Substitution ν) (name : String) : Substitution ν := fun r =>
  if r = .named name then none else σ r

namespace Expr

mutual

/-- The expression with literals in the place of its free references, where there are values for
them. A quantifier hides its variable in the body and not in the domain. -/
def substitute (σ : Substitution ν) : Expr ν → Expr ν
  | constant v => constant v
  | reference r => (σ r).elim (reference r) constant
  | apply op es => apply op (substituteAll σ es)
  | quantify q name domain body =>
    quantify q name (domain.substitute σ) (body.substitute (σ.hide name))

def substituteAll (σ : Substitution ν) : List (Expr ν) → List (Expr ν)
  | [] => []
  | e :: es => e.substitute σ :: substituteAll σ es

end

/-- The expression with a literal in the place of each free reference that the context resolves. -/
def ground (e : Expr ν) (c : Context ν) : Expr ν := e.substitute c.value?

mutual

theorem substitute_none : ∀ e : Expr ν, e.substitute (fun _ => none) = e
  | constant _ => rfl
  | reference _ => rfl
  | apply op es => by rw [substitute, substituteAll_none es]
  | quantify q name domain body => by
    have hhide : Substitution.hide (fun _ => (none : Option (Value ν))) name = fun _ => none :=
      funext fun _ => ite_self none
    rw [substitute, hhide, substitute_none domain, substitute_none body]

theorem substituteAll_none : ∀ es : List (Expr ν), substituteAll (fun _ => none) es = es
  | [] => rfl
  | e :: es => by rw [substituteAll, substitute_none e, substituteAll_none es]

end

/-! ## What is left free -/

mutual

/-- The references that are left free are those that there was no value for. -/
theorem freeReferences_substitute :
    ∀ (e : Expr ν) (σ : Substitution ν),
      (e.substitute σ).freeReferences = e.freeReferences.filter fun r => (σ r).isNone
  | constant _, _ => rfl
  | reference r, σ => by
    rcases h : σ r with _ | v <;> simp [substitute, freeReferences, h]
  | apply _ es, σ => freeReferencesAll_substituteAll es σ
  | quantify q name domain body, σ => by
    have hbody : (body.freeReferences.filter fun r => (σ.hide name r).isNone).filter
          (· != .named name)
        = (body.freeReferences.filter (· != .named name)).filter fun r => (σ r).isNone := by
      rw [List.filter_filter, List.filter_filter]
      refine List.filter_congr fun r _ => ?_
      by_cases hr : r = .named name
      · simp [hr]
      · simp [Substitution.hide, hr, Bool.and_comm]
    rw [substitute, freeReferences, freeReferences, freeReferences_substitute domain,
      freeReferences_substitute body, List.filter_append, hbody]

theorem freeReferencesAll_substituteAll :
    ∀ (es : List (Expr ν)) (σ : Substitution ν),
      freeReferencesAll (substituteAll σ es) = (freeReferencesAll es).filter fun r => (σ r).isNone
  | [], _ => rfl
  | e :: es, σ => by
    rw [substituteAll, freeReferencesAll, freeReferencesAll, freeReferences_substitute e,
      freeReferencesAll_substituteAll es, List.filter_append]

end

/-! ## Evaluation -/

/-- What the expression takes from the first context it takes, after the substitution, from the
literals or from the second context. -/
def Grounds (σ : Substitution ν) (c c' : Context ν) (rs : List Reference) : Prop :=
  ∀ r ∈ rs, c.value? r = (σ r).or (c'.value? r)

section Grounds

variable {σ : Substitution ν} {c c' : Context ν} {b b' : Binding ν}

theorem Grounds.extend {q : Quantifier} {name : String} {domain body : Expr ν}
    (h : Grounds σ c c' (quantify q name domain body).freeReferences) (hb : b.value = b'.value) :
    Grounds (σ.hide name) (c.extend name b) (c'.extend name b') body.freeReferences := by
  intro r hr
  simp only [Context.value?, Context.lookup?_extend, Substitution.hide]
  split_ifs with hname
  · rw [Option.map_some, Option.map_some, hb]
    rfl
  · exact h r (mem_freeReferences_quantify.2 (.inr ⟨hr, hname⟩))

/-- Bindings of one value are one as far as outputs go. -/
theorem parallel_resolve {r : Reference} (h : c.value? r = c'.value? r) :
    Parallel (fun b b' => b.value = b'.value) (c.resolve r) (c'.resolve r) := by
  unfold Context.value? at h
  unfold Context.resolve
  rcases hb : c.lookup? r with _ | b <;> rcases hb' : c'.lookup? r with _ | b' <;>
    rw [hb, hb'] at h
  · exact .error
  · cases h
  · cases h
  · exact .ok (Option.some.inj h)

end Grounds

variable [Node ν] {s : Settings}

mutual

theorem parallel_substitute :
    ∀ (e : Expr ν) {σ : Substitution ν} (level : Nat) {c c' : Context ν},
      Grounds σ c c' e.freeReferences →
      Parallel (·.output = ·.output) (e.evaluateAt s level c)
        ((e.substitute σ).evaluateAt s level c')
  | constant v, σ, level, c, c', _ => by
    simp only [substitute, evaluateAt]
    exact (Parallel.refl (s.allowLevel level)).bind fun _ _ _ _ _ => .ok rfl
  | reference r, σ, level, c, c', h => by
    have hr : c.value? r = (σ r).or (c'.value? r) := h r (List.mem_singleton.2 rfl)
    rw [substitute]
    rcases hσ : σ r with _ | v
    · rw [hσ, Option.none_or] at hr
      simp only [Option.elim_none, evaluateAt]
      refine (Parallel.refl (s.allowLevel level)).bind fun _ _ _ _ _ => ?_
      refine (parallel_resolve hr).bind fun b b' _ _ hb => .ok ?_
      simp only [Finding.ofLeaf, hb]
    · rw [hσ, Option.some_or, Context.value?, Option.map_eq_some_iff] at hr
      obtain ⟨b, hb, rfl⟩ := hr
      simp only [Option.elim_some, evaluateAt, Context.resolve, hb]
      exact (Parallel.refl (s.allowLevel level)).bind fun _ _ _ _ _ => .ok rfl
  | apply op es, σ, level, c, c', h => by
    simp only [substitute, evaluateAt]
    refine (Parallel.refl (s.allowLevel level)).bind fun _ _ _ _ _ => ?_
    refine (parallel_substituteAll op es 0 (level + 1) h).bind ?_
    rintro ⟨values, path, w⟩ ⟨_, path', w'⟩ - - rfl
    refine (Parallel.refl _).bind ?_
    rintro out _ - - rfl
    exact .ok rfl
  | quantify q name domain body, σ, level, c, c', h => by
    rw [substitute, evaluateAt_quantify, evaluateAt_quantify]
    refine (Parallel.refl (s.allowLevel level)).bind fun _ _ _ _ _ => ?_
    have hdomain : Grounds σ c c' domain.freeReferences := fun r hr =>
      h r (mem_freeReferences_quantify.2 (.inl hr))
    refine (parallel_substitute domain (level + 1) hdomain).bind fun d d' _ _ hd => ?_
    refine (parallel_members q.name hd).bind ?_
    rintro ms _ - - rfl
    dsimp only
    split_ifs
    · exact .error
    · refine (parallel_visit ?_ none none).bind ?_
      · rw [List.forall₂_map_left_iff, List.forall₂_map_right_iff, List.forall₂_same]
        intro m _
        -- both candidates have the member for value, whatever their leaves
        exact parallel_testBody q (parallel_substitute body (level + 1) (h.extend rfl))
      · rintro ⟨holds, w⟩ ⟨_, w'⟩ - - rfl
        exact .ok rfl

theorem parallel_substituteAll (op : Operator) :
    ∀ (es : List (Expr ν)) {σ : Substitution ν} (index level : Nat) {c c' : Context ν},
      Grounds σ c c' (freeReferencesAll es) →
      Parallel (·.values = ·.values) (evaluateOperands s op es index level c)
        (evaluateOperands s op (substituteAll σ es) index level c')
  | [], _, _, _, _, _, _ => .ok rfl
  | e :: es, σ, index, level, c, c', h => by
    simp only [substituteAll, evaluateOperands]
    have he : Grounds σ c c' e.freeReferences := fun r hr => h r (List.mem_append_left _ hr)
    have hes : Grounds σ c c' (freeReferencesAll es) := fun r hr =>
      h r (List.mem_append_right _ hr)
    refine (parallel_substitute e level he).bind fun f g _ _ hfg => ?_
    refine (parallel_scalar op.name hfg).bind ?_
    rintro v _ - - rfl
    refine (parallel_substituteAll op es (index + 1) level hes).bind ?_
    rintro ⟨values, path, w⟩ ⟨_, path', w'⟩ - - rfl
    exact .ok rfl

end

/-- No outcome depends on more than the values that the free references stand for. -/
theorem parallel_of_values {e : Expr ν} {level : Nat} {c c' : Context ν}
    (h : ∀ r ∈ e.freeReferences, c.value? r = c'.value? r) :
    Parallel (·.output = ·.output) (e.evaluateAt s level c) (e.evaluateAt s level c') := by
  have hgrounds : Grounds (fun _ => none) c c' e.freeReferences := h
  have hrun := parallel_substitute (s := s) e level hgrounds
  rwa [substitute_none] at hrun

/-- Grounding leaves nothing free that the context resolves, and the grounded expression has without
any context the outcome that the expression has in the context. -/
theorem evaluate_ground (e : Expr ν) (s : Settings) (c : Context ν) :
    ((∀ r ∈ e.freeReferences, ∃ b, c.resolve r = .ok b) → (e.ground c).freeReferences = [])
      ∧ Parallel (·.output = ·.output) (e.evaluate s c)
          ((e.ground c).evaluate s (.ofInputs [])) := by
  refine ⟨fun h => ?_, parallel_substitute e 0 fun r _ => ?_⟩
  · rw [ground, freeReferences_substitute, List.filter_eq_nil_iff]
    intro r hr
    obtain ⟨b, hb⟩ := h r hr
    simp [Context.value?, resolve_eq_ok.1 hb]
  · have hempty : (Context.ofInputs ([] : List (Value ν))).value? r = none := by
      rcases r with index | name <;> rfl
    rw [hempty, Option.or_none]

section Sample

/-- Below `$x` some `$x` is red. Only the first `$x` is free. -/
def sampleShadowing : Expr PageElement :=
  quantify .existential "$x" (apply (.findBySelector "p") [var "$x"])
    (apply .isEqualTo [apply (.computedStyle "color") [var "$x"], constant (.text "red")])

/-- The last section of the page as the candidate of a quantifier. -/
def sampleCandidate : Binding PageElement where
  value := .element ⟨samplePage, 4, by decide⟩
  leaf := ⟨sampleInputs.headD .null, .ofSteps [.selectorMatch "section" 1, .bound "$x"]⟩

theorem evaluate_ground_shadowing :
    let c := (Context.ofInputs sampleInputs).extend "$x" sampleCandidate
    sampleShadowing.ground c = quantify .existential "$x"
        (apply (.findBySelector "p") [constant sampleCandidate.value])
        (apply .isEqualTo [apply (.computedStyle "color") [var "$x"], constant (.text "red")])
      ∧ (sampleShadowing.ground c).freeReferences = []
      ∧ ∃ f g, sampleShadowing.evaluate {} c = .ok f
          ∧ (sampleShadowing.ground c).evaluate {} (.ofInputs []) = .ok g
          ∧ f.output = g.output := by
  intro c
  obtain ⟨hclosed, hrun⟩ := evaluate_ground sampleShadowing {} c
  refine ⟨rfl, hclosed fun r hr => ?_, ?_⟩
  · obtain rfl : r = .named "$x" := by
      have hfree : sampleShadowing.freeReferences = [.named "$x"] := by decide
      simpa [hfree] using hr
    exact ⟨sampleCandidate, rfl⟩
  · rcases hrun.cases with ⟨fault, hfault, -⟩ | hok
    · obtain ⟨f, hf⟩ : ∃ f, sampleShadowing.evaluate {} c = .ok f :=
        exists_of_isOk (by decide +kernel)
      rw [hfault] at hf
      cases hf
    · exact hok

end Sample

end Expr

end Testimony
