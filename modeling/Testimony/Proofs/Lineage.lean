import Testimony.Proofs.Replay

/-!
# Where the leaves of a witness come from

`Lineage` says what a binding can be while an expression is evaluated: an input, a literal, or an
element that a query found from another such binding. It is kept by every scope that a quantifier
opens, since the domain of a quantifier is a query of a single term, and every leaf of a witness is
the leaf of such a binding (`exists_lineage`).

All that is to know of the leaves follows by induction on the lineage: the object is a literal or an
input (`Lineage.object_mem`), the path goes from match to match and names a variable at each
(`Lineage.hops`), and it leads to the value (`Lineage.faithful`). `witness_provenance` puts these
together.
-/

namespace Testimony

variable {ν : Type}

/-- The steps go from match to match, each of them bound to one of the variables. -/
inductive Hops (names : List String) : List Step → Prop
  | nil : Hops names []
  | cons {selector name : String} {index : Nat} {steps : List Step} : name ∈ names →
      Hops names steps → Hops names (.selectorMatch selector index :: .bound name :: steps)

section Hops

variable {names : List String} {steps : List Step}

theorem Hops.append_hop {name : String} (hname : name ∈ names) (selector : String) (index : Nat)
    (h : Hops names steps) :
    Hops names (steps ++ [.selectorMatch selector index, .bound name]) := by
  induction h with
  | nil => exact .cons hname .nil
  | cons hn _ ih => exact .cons hn ih

theorem Hops.mem_cases {step : Step} (h : Hops names steps) (hs : step ∈ steps) :
    (∃ selector index, step = .selectorMatch selector index)
      ∨ ∃ name ∈ names, step = .bound name := by
  induction h with
  | nil => cases hs
  | @cons selector name index steps hname _ ih =>
    rcases List.mem_cons.1 hs with rfl | hs
    · exact .inl ⟨selector, index, rfl⟩
    rcases List.mem_cons.1 hs with rfl | hs
    · exact .inr ⟨name, hname, rfl⟩
    · exact ih hs

end Hops

variable [Node ν]

/-- The bindings that roots and queries give rise to. -/
inductive Lineage (roots : List (Value ν)) (names : List String) : Binding ν → Prop
  | root {v : Value ν} : v ∈ roots → Lineage roots names (.input v)
  | matched {b : Binding ν} {selector name : String} {index : Nat} {x : ν} :
      Lineage roots names b →
      (Step.selectorMatch selector index).follow? b.value = some (.element x) →
      name ∈ names → Lineage roots names (b.matched selector index name x)

section Lineage

variable {roots : List (Value ν)} {names : List String} {b : Binding ν}

theorem Lineage.object_mem (h : Lineage roots names b) : b.leaf.object ∈ roots := by
  induction h with
  | root hv => exact hv
  | matched _ _ _ ih => exact ih

theorem Lineage.hops (h : Lineage roots names b) : Hops names b.leaf.path.proper := by
  induction h with
  | root _ => exact .nil
  | @matched b selector name index x _ _ hname ih =>
    simp only [Binding.matched]
    rw [Path.proper_extend (by simp), Path.proper_extend (by simp), List.append_assoc]
    exact ih.append_hop hname selector index

theorem Lineage.faithful (h : Lineage roots names b) : b.Faithful := by
  induction h with
  | root _ => exact Binding.faithful_input _
  | matched _ hx _ ih => exact ih.matched hx

mutual

/-- Every leaf of a witness is the leaf of a binding that the roots and queries gave rise to. -/
theorem exists_lineage :
    ∀ (e : Expr ν) {s : Settings} {level : Nat} {c : Context ν} {f : Finding ν},
      e.constants ⊆ roots → e.boundNames ⊆ names → c.All (Lineage roots names) →
      e.evaluateAt s level c = .ok f → ∀ l ∈ f.witness, ∃ b, Lineage roots names b ∧ b.leaf = l
  | .constant v, s, level, c, f, hr, _, _, h, l, hl => by
    obtain ⟨-, rfl⟩ := Expr.evaluateAt_constant_ok.1 h
    cases List.mem_singleton.1 hl
    exact ⟨.input v, .root (hr (List.mem_singleton.2 rfl)), rfl⟩
  | .reference r, s, level, c, f, _, _, hc, h, l, hl => by
    obtain ⟨-, b, hb, rfl⟩ := Expr.evaluateAt_reference_ok.1 h
    cases List.mem_singleton.1 hl
    exact ⟨b, hc r b hb, rfl⟩
  | .apply op es, s, level, c, f, hr, hn, hc, h, l, hl => by
    obtain ⟨-, a, out, ha, -, rfl⟩ := Expr.evaluateAt_apply_ok.1 h
    exact exists_lineage_operands op es hr hn hc ha l hl
  | .quantify q name domain body, s, level, c, f, hr, hn, hc, h, l, hl => by
    obtain ⟨d, ms, hd, hms, ⟨-, -, hw⟩ | ⟨m, hm, g, hg, -, hw⟩⟩ := Expr.exists_reported h
    · rw [hw] at hl
      cases hl
    simp only [Expr.constants, List.append_subset] at hr
    simp only [Expr.boundNames, List.cons_subset, List.append_subset] at hn
    have hcand : Lineage roots names (d.candidate name m) := hc.candidate
      (fun v hv => .root (hr.1 hv)) (fun hb hx => .matched hb hx hn.1) hd hms hm
    rw [← hw] at hl
    exact exists_lineage body hr.2 hn.2.2 (hc.extend hcand name) hg l hl

theorem exists_lineage_operands (op : Operator) :
    ∀ (es : List (Expr ν)) {s : Settings} {index level : Nat} {c : Context ν} {a : Arguments ν},
      Expr.constantsAll es ⊆ roots → Expr.boundNamesAll es ⊆ names → c.All (Lineage roots names) →
      Expr.evaluateOperands s op es index level c = .ok a →
      ∀ l ∈ a.witness, ∃ b, Lineage roots names b ∧ b.leaf = l
  | [], s, index, level, c, a, _, _, _, h, l, hl => by
    cases h
    cases hl
  | e :: es, s, index, level, c, a, hr, hn, hc, h, l, hl => by
    obtain ⟨f, v, rest, hf, -, hrest, rfl⟩ := Expr.evaluateOperands_cons_ok.1 h
    simp only [Expr.constantsAll, List.append_subset] at hr
    simp only [Expr.boundNamesAll, List.append_subset] at hn
    rcases List.mem_append.1 hl with hl | hl
    · exact exists_lineage e hr.1 hn.1 hc hf l hl
    · exact exists_lineage_operands op es hr.2 hn.2 hc hrest l hl

end

end Lineage

/-- The leaves of a witness start at literals and inputs and lead from match to match, and every
candidate is reported through the object that its domain started from. -/
theorem witness_provenance (e : Expr ν) (s : Settings) (inputs : List (Value ν)) :
    (∀ f, e.evaluate s (.ofInputs inputs) = .ok f → ∀ l ∈ f.witness,
      l.object ∈ e.constants ++ inputs
        ∧ (l.path = .trivial ∨ l.path.steps ≠ [] ∧ Hops e.boundNames l.path.steps)
        ∧ (∀ step ∈ l.path.steps,
            (∀ op i, step ≠ .operand op i) ∧ ∀ property, step ≠ .styleProperty property)
        ∧ ∃ v, l.replay? = some v)
      ∧ ∀ (domain : Expr ν) (level : Nat) (c : Context ν) (d : Finding ν) (ms : List (Member ν)),
          domain.evaluateAt s level c = .ok d → d.output = .members ms →
          ∃ anchor, d.witness.head? = some anchor ∧
            ∀ name, ∀ m ∈ ms, (d.candidate name m).leaf.object = anchor.object := by
  refine ⟨fun f h l hl => ?_, fun domain level c d ms hd hms => ?_⟩
  · have hc : (Context.ofInputs inputs).All (Lineage (e.constants ++ inputs) e.boundNames) :=
      Context.all_ofInputs fun v hv => .root (List.mem_append_right _ hv)
    obtain ⟨b, hb, rfl⟩ := exists_lineage e (List.subset_append_left _ _) (List.Subset.refl _) hc h
      l hl
    refine ⟨hb.object_mem, ?_, fun step hstep => ?_, b.value, hb.faithful⟩
    · by_cases ht : b.leaf.path = .trivial
      · exact .inl ht
      · refine .inr ⟨b.leaf.path.steps_ne_nil, ?_⟩
        rw [Path.steps_eq_proper ht]
        exact hb.hops
    · by_cases ht : b.leaf.path = .trivial
      · rw [ht] at hstep
        cases List.mem_singleton.1 hstep
        simp
      · rw [Path.steps_eq_proper ht] at hstep
        rcases hb.hops.mem_cases hstep with ⟨selector, index, rfl⟩ | ⟨name, -, rfl⟩
        · simp
        · simp
  · obtain ⟨selector, t, b, n, found, -, -, -, -, -, -, hw⟩ := Expr.exists_query_of_members hd hms
    refine ⟨b.leaf, by rw [hw]; rfl, fun name m _ => ?_⟩
    simp [Finding.candidate, hw]

theorem witness_provenance_sampleRule :
    ∃ f, sampleRule.evaluate {} (.ofInputs sampleInputs) = .ok f ∧ ∀ l ∈ f.witness,
      l.object ∈ sampleRule.constants ++ sampleInputs
        ∧ (l.path = .trivial ∨ l.path.steps ≠ [] ∧ Hops ["$x", "$x"] l.path.steps)
        ∧ ∃ v, l.replay? = some v := by
  obtain ⟨f, hf⟩ := exists_sampleRule .vacuous
  refine ⟨f, hf, fun l hl => ?_⟩
  obtain ⟨hobject, hpath, -, hreplay⟩ :=
    (witness_provenance sampleRule {} sampleInputs).1 f hf l hl
  exact ⟨hobject, hpath, hreplay⟩

/-- The red paragraph of the last section is reported through the body of the page. -/
example :
    (sampleRule.evaluate {} (.ofInputs sampleInputs)).toOption.map
        (fun f => f.witness.map fun l => l.path.steps)
      = some [[.itself],
          [.selectorMatch "section" 1, .bound "$x", .selectorMatch "p" 0, .bound "$x"],
          [.itself]] := by
  decide +kernel

end Testimony
