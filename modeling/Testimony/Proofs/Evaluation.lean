import Mathlib.Tactic.SplitIfs
import Testimony.Evaluation
import Testimony.Page.Node
import Testimony.Proofs.Path
import Testimony.Proofs.Terms

/-!
# What a successful evaluation has done

An evaluation that succeeds has succeeded at every step it took. For each form of expression one
statement says what these steps were: `evaluateAt_constant_ok`, `evaluateAt_reference_ok`,
`evaluateAt_apply_ok`, `evaluateAt_quantify_ok`, and `evaluateOperands_cons_ok` for operands.

A quantifier over members reports one of them: the witness it keeps comes from a member whose body
had the outcome that the quantifier has (`exists_of_visit`). Only a query produces members, and no
operator produces an element (`apply_ok_cases`); so where an element is the outcome, a literal or a
reference was evaluated (`exists_term_of_element`), and where members are, a query of one
(`exists_query_of_members`).
-/

namespace Testimony

variable {ν : Type}

theorem bind_eq_ok {ε α β : Type} {x : Except ε α} {k : α → Except ε β} {b : β} :
    x >>= k = .ok b ↔ ∃ a, x = .ok a ∧ k a = .ok b := by
  rcases x with e | a
  · simp [bind, Except.bind]
  · simp [bind, Except.bind]

theorem exists_of_isOk {ε α : Type} {x : Except ε α} (h : x.isOk = true) : ∃ a, x = .ok a := by
  rcases x with e | a
  · cases h
  · exact ⟨a, rfl⟩

theorem allowLevel_eq_ok {s : Settings} {level : Nat} {u : Unit} :
    s.allowLevel level = .ok u ↔ level < s.maxDepth := by
  unfold Settings.allowLevel
  split_ifs <;> simp_all

theorem resolve_eq_ok {c : Context ν} {r : Reference} {b : Binding ν} :
    c.resolve r = .ok b ↔ c.lookup? r = some b := by
  unfold Context.resolve
  split <;> simp_all

/-! ## Findings -/

section Findings

variable {f : Finding ν} {consumer : String}

theorem scalar_eq_ok {v : Value ν} : f.scalar consumer = .ok v ↔ f.output = .scalar v := by
  unfold Finding.scalar
  split <;> simp_all

theorem members_eq_ok {ms : List (Member ν)} :
    f.members consumer = .ok ms ↔ f.output = .members ms := by
  unfold Finding.members
  split <;> simp_all

theorem boolean_eq_ok {b : Bool} :
    f.boolean consumer = .ok b ↔ f.output = .scalar (.boolean b) := by
  simp only [Finding.boolean, bind_eq_ok, scalar_eq_ok]
  constructor
  · rintro ⟨v, hv, h⟩
    split at h
    · cases h
      exact hv
    · cases h
  · intro h
    exact ⟨_, h, rfl⟩

end Findings

/-! ## Visits -/

section Visits

variable {q : Quantifier} {p : WitnessPolicy} {test : Binding ν → Except Fault (Bool × Witness ν)}
  {holds : Bool} {w : Witness ν}

/-- What a visit reports comes from a candidate whose test had that outcome, or was kept from
before. -/
theorem visit_eq_ok : ∀ {bs : List (Binding ν)} {kept : Option (Witness ν)},
    q.visit p test bs kept = .ok (holds, w) →
      (∃ b ∈ bs, test b = .ok (holds, w))
        ∨ (holds = !q.deciding) ∧ kept.getD [] = w ∧ (bs = [] ∨ kept ≠ none)
  | [], kept, h => by
    simp only [Quantifier.visit, Except.ok.injEq, Prod.mk.injEq] at h
    exact .inr ⟨h.1.symm, h.2, .inl rfl⟩
  | b :: bs, kept, h => by
    simp only [Quantifier.visit, bind_eq_ok] at h
    obtain ⟨⟨outcome, witness⟩, hb, h⟩ := h
    dsimp only at h
    split_ifs at h with ho
    · cases h
      exact .inl ⟨b, List.mem_cons_self, hb⟩
    rcases visit_eq_ok h with ⟨b', hb', ht⟩ | ⟨hh, hw, -⟩
    · exact .inl ⟨b', List.mem_cons_of_mem _ hb', ht⟩
    -- nothing later was reported, so it is this candidate's witness or the older one
    have hout : outcome = holds := by
      rw [hh]
      cases outcome <;> cases hd : q.deciding <;> simp_all
    subst hout
    rcases p with _ | _
    · rcases kept with _ | k
      · refine .inl ⟨b, List.mem_cons_self, ?_⟩
        rw [hb, ← hw]
        rfl
      · exact .inr ⟨hh, hw, .inr (by simp)⟩
    · refine .inl ⟨b, List.mem_cons_self, ?_⟩
      rw [hb, ← hw]
      rfl

theorem exists_of_visit {bs : List (Binding ν)} (hbs : bs ≠ [])
    (h : q.visit p test bs none = .ok (holds, w)) : ∃ b ∈ bs, test b = .ok (holds, w) := by
  rcases visit_eq_ok h with hb | ⟨-, -, hnil | hnone⟩
  · exact hb
  · exact absurd hnil hbs
  · exact absurd rfl hnone

end Visits

variable [Node ν]

/-! ## Operators -/

section Operators

open Operator

variable {op : Operator} {a b : Value ν} {out : Output ν}

omit [Node ν] in
theorem numberOf_eq_ok {x : Number} : op.numberOf a = .ok x ↔ a = .number x := by
  rcases a with _ | _ | y | _ | _ <;> simp [numberOf]

omit [Node ν] in
theorem booleanOf_eq_ok {x : Bool} : op.booleanOf a = .ok x ↔ a = .boolean x := by
  rcases a with _ | b | _ | _ | _ <;> simp [booleanOf]

omit [Node ν] in
theorem elementOf_eq_ok {n : ν} : op.elementOf a = .ok n ↔ a = .element n := by
  rcases a with _ | _ | _ | _ | m <;> simp [elementOf]

omit [Node ν] in
theorem compare_eq_ok {test : Number → Number → Bool} :
    op.compare test a b = .ok out ↔
      ∃ x y, a = .number x ∧ b = .number y ∧ .scalar (.boolean (test x y)) = out := by
  simp only [Operator.compare, bind_eq_ok, numberOf_eq_ok, pure, Except.pure, Except.ok.injEq]
  grind

omit [Node ν] in
theorem calculate_eq_ok {g : Number → Number → Number} :
    op.calculate g a b = .ok out ↔
      ∃ x y, a = .number x ∧ b = .number y ∧ .scalar (.number (g x y)) = out := by
  simp only [calculate, bind_eq_ok, numberOf_eq_ok, pure, Except.pure, Except.ok.injEq]
  grind

omit [Node ν] in
theorem connect_eq_ok {g : Bool → Bool → Bool} :
    op.connect g a b = .ok out ↔
      ∃ x y, a = .boolean x ∧ b = .boolean y ∧ .scalar (.boolean (g x y)) = out := by
  simp only [connect, bind_eq_ok, booleanOf_eq_ok, pure, Except.pure, Except.ok.injEq]
  grind

theorem find_eq_ok {selector : String} {n : ν} :
    find selector n = .ok out ↔
      ∃ found, Node.query n selector = .ok found ∧ .members (matchesOf selector found) = out := by
  unfold find
  split <;> simp_all

theorem styleValue_ne_element (n m : ν) (property : String) :
    styleValue n property ≠ .element m := by
  unfold styleValue
  split
  · simp
  · split <;> simp

/-- An operator produces a single value that is no element, or it is a query. -/
theorem apply_ok_cases {vs : List (Value ν)} (h : op.apply vs = .ok out) :
    (∃ v, out = .scalar v ∧ ∀ n, v ≠ .element n)
      ∨ ∃ selector n found, op = .findBySelector selector ∧ vs = [.element n] ∧
          Node.query n selector = .ok found ∧ out = .members (matchesOf selector found) := by
  unfold apply at h
  split at h
  case h_14 selector a =>
    simp only [bind_eq_ok, elementOf_eq_ok, find_eq_ok] at h
    obtain ⟨n, rfl, found, hq, rfl⟩ := h
    exact .inr ⟨selector, n, found, rfl, rfl, hq, rfl⟩
  case h_15 => cases h
  all_goals
    left
    simp only [compare_eq_ok, calculate_eq_ok, connect_eq_ok, bind_eq_ok, booleanOf_eq_ok,
      elementOf_eq_ok, pure, Except.pure, Except.ok.injEq] at h
  case h_5 =>
    exact ⟨_, h.symm, by simp⟩
  case h_9 | h_13 =>
    obtain ⟨x, -, rfl⟩ := h
    exact ⟨_, rfl, by simp [styleValue_ne_element]⟩
  case h_12 =>
    obtain ⟨n, -, x, -, rfl⟩ := h
    exact ⟨_, rfl, by simp⟩
  all_goals
    obtain ⟨x, y, -, -, rfl⟩ := h
    exact ⟨_, rfl, by simp⟩

end Operators

/-! ## Expressions -/

namespace Expr

section Steps

variable {s : Settings} {level : Nat} {c : Context ν} {f : Finding ν}

theorem evaluateAt_constant_ok {v : Value ν} :
    (constant v).evaluateAt s level c = .ok f ↔
      level < s.maxDepth ∧ .ofLeaf v (.plain v) = f := by
  simp [evaluateAt, bind_eq_ok, allowLevel_eq_ok, pure, Except.pure]

theorem evaluateAt_reference_ok {r : Reference} :
    (reference r).evaluateAt s level c = .ok f ↔
      level < s.maxDepth ∧ ∃ b, c.lookup? r = some b ∧ .ofLeaf b.value b.leaf = f := by
  simp [evaluateAt, bind_eq_ok, allowLevel_eq_ok, resolve_eq_ok, pure, Except.pure]

theorem evaluateAt_apply_ok {op : Operator} {es : List (Expr ν)} :
    (apply op es).evaluateAt s level c = .ok f ↔
      level < s.maxDepth ∧ ∃ a out, evaluateOperands s op es 0 (level + 1) c = .ok a ∧
        op.apply a.values = .ok out ∧ ⟨out, a.path, a.witness⟩ = f := by
  simp [evaluateAt, bind_eq_ok, allowLevel_eq_ok, pure, Except.pure]

theorem evaluateOperands_cons_ok {op : Operator} {e : Expr ν} {es : List (Expr ν)} {index : Nat}
    {a : Arguments ν} :
    evaluateOperands s op (e :: es) index level c = .ok a ↔
      ∃ f v rest, e.evaluateAt s level c = .ok f ∧ f.output = .scalar v ∧
        evaluateOperands s op es (index + 1) level c = .ok rest ∧
        ⟨v :: rest.values, (f.path.extend (op.step index)).compose rest.path,
          f.witness ++ rest.witness⟩ = a := by
  simp [evaluateOperands, bind_eq_ok, scalar_eq_ok, pure, Except.pure]

/-- What a quantifier asks of a candidate: the outcome of the body, and the witness of that. -/
def testBody (q : Quantifier) (name : String) (body : Expr ν) (s : Settings) (level : Nat)
    (c : Context ν) (b : Binding ν) : Except Fault (Bool × Witness ν) := do
  let f ← body.evaluateAt s level (c.extend name b)
  return (← f.boolean q.name, f.witness)

section Quantifiers

variable {q : Quantifier} {name : String} {domain body : Expr ν} {holds : Bool} {w : Witness ν}

theorem testBody_congr {body' : Expr ν} {level' : Nat} {c' : Context ν}
    (h : ∀ b, body.evaluateAt s level (c.extend name b)
      = body'.evaluateAt s level' (c'.extend name b)) :
    testBody q name body s level c = testBody q name body' s level' c' := by
  funext b
  unfold testBody
  rw [h]

theorem testBody_ok {b : Binding ν} :
    testBody q name body s level c b = .ok (holds, w) ↔
      ∃ g, body.evaluateAt s level (c.extend name b) = .ok g ∧
        g.output = .scalar (.boolean holds) ∧ g.witness = w := by
  simp only [testBody, bind_eq_ok, boolean_eq_ok, pure, Except.pure, Except.ok.injEq, Prod.mk.injEq]
  constructor
  · rintro ⟨g, hg, x, hx, rfl, rfl⟩
    exact ⟨g, hg, hx, rfl⟩
  · rintro ⟨g, hg, ho, rfl⟩
    exact ⟨g, hg, holds, ho, rfl, rfl⟩

theorem evaluateAt_quantify :
    (quantify q name domain body).evaluateAt s level c = (do
      s.allowLevel level
      let d ← domain.evaluateAt s (level + 1) c
      let ms ← d.members q.name
      if ms.isEmpty && s.emptyDomain = .reject then .error (.emptyDomain name)
      else
        let (holds, witness) ← q.visit s.witnessPolicy (testBody q name body s (level + 1) c)
          (ms.map (d.candidate name)) none
        return .decided holds witness) := by
  rw [evaluateAt]
  rfl

theorem evaluateAt_quantify_ok :
    (quantify q name domain body).evaluateAt s level c = .ok f ↔
      level < s.maxDepth ∧ ∃ d ms, domain.evaluateAt s (level + 1) c = .ok d ∧
        d.output = .members ms ∧ (ms = [] → s.emptyDomain = .vacuous) ∧
        ∃ holds w, q.visit s.witnessPolicy (testBody q name body s (level + 1) c)
          (ms.map (d.candidate name)) none = .ok (holds, w) ∧ .decided holds w = f := by
  simp only [evaluateAt_quantify, bind_eq_ok, allowLevel_eq_ok, members_eq_ok]
  constructor
  · rintro ⟨-, hl, d, hd, ms, hms, h⟩
    split_ifs at h with he
    simp only [bind_eq_ok] at h
    obtain ⟨⟨holds, w⟩, hv, h⟩ := h
    cases h
    refine ⟨hl, d, ms, hd, hms, fun hnil => ?_, holds, w, hv, rfl⟩
    subst hnil
    cases hp : s.emptyDomain <;> simp [hp] at he ⊢
  · rintro ⟨hl, d, ms, hd, hms, he, holds, w, hv, rfl⟩
    refine ⟨(), hl, d, hd, ms, hms, ?_⟩
    rw [if_neg, bind_eq_ok]
    · exact ⟨(holds, w), hv, rfl⟩
    · simp only [List.isEmpty_iff, Bool.and_eq_true, decide_eq_true_eq, not_and]
      intro hnil
      simp [he hnil]

/-- A quantifier over members reports one of them: it has the outcome and the witness that its
body has for this member. Over nothing it has no witness. -/
theorem exists_reported (h : (quantify q name domain body).evaluateAt s level c = .ok f) :
    ∃ d ms, domain.evaluateAt s (level + 1) c = .ok d ∧ d.output = .members ms ∧
      (ms = [] ∧ s.emptyDomain = .vacuous ∧ f.witness = []
        ∨ ∃ m ∈ ms, ∃ g,
            body.evaluateAt s (level + 1) (c.extend name (d.candidate name m)) = .ok g ∧
              g.output = f.output ∧ g.witness = f.witness) := by
  obtain ⟨-, d, ms, hd, hms, he, holds, w, hv, rfl⟩ := evaluateAt_quantify_ok.1 h
  refine ⟨d, ms, hd, hms, ?_⟩
  rcases ms with _ | ⟨m, ms⟩
  · cases hv
    exact .inl ⟨rfl, he rfl, rfl⟩
  · obtain ⟨b, hb, ht⟩ := exists_of_visit (by simp) hv
    obtain ⟨m', hm', rfl⟩ := List.mem_map.1 hb
    obtain ⟨g, hg, ho, hw⟩ := testBody_ok.1 ht
    exact .inr ⟨m', hm', g, hg, ho, hw⟩

end Quantifiers

section Terms

theorem exists_term_of_element {e : Expr ν} {n : ν} (h : e.evaluateAt s level c = .ok f)
    (hn : f.output = .scalar (.element n)) :
    ∃ b, e.term? c = some b ∧ b.value = .element n ∧ .ofLeaf b.value b.leaf = f := by
  rcases e with v | r | ⟨op, es⟩ | ⟨q, name, domain, body⟩
  · obtain ⟨-, rfl⟩ := evaluateAt_constant_ok.1 h
    exact ⟨.input v, rfl, Output.scalar.inj hn, rfl⟩
  · obtain ⟨-, b, hb, rfl⟩ := evaluateAt_reference_ok.1 h
    exact ⟨b, hb, Output.scalar.inj hn, rfl⟩
  · obtain ⟨-, a, out, -, hout, rfl⟩ := evaluateAt_apply_ok.1 h
    rcases apply_ok_cases hout with ⟨v, rfl, hv⟩ | ⟨_, _, _, _, _, _, rfl⟩
    · exact absurd (Output.scalar.inj hn) (hv n)
    · cases hn
  · obtain ⟨-, _, _, _, _, _, _, _, _, rfl⟩ := evaluateAt_quantify_ok.1 h
    cases hn

/-- Members are what a query of a term found, and the term is the whole witness. -/
theorem exists_query_of_members {e : Expr ν} {ms : List (Member ν)}
    (h : e.evaluateAt s level c = .ok f) (hms : f.output = .members ms) :
    ∃ selector t b n found, e = .apply (.findBySelector selector) [t] ∧ t.term? c = some b ∧
      b.value = .element n ∧ Node.query n selector = .ok found ∧
      ms = Operator.matchesOf selector found ∧ f.path = b.leaf.path ∧ f.witness = [b.leaf] := by
  rcases e with v | r | ⟨op, es⟩ | ⟨q, name, domain, body⟩
  · obtain ⟨-, rfl⟩ := evaluateAt_constant_ok.1 h
    cases hms
  · obtain ⟨-, b, hb, rfl⟩ := evaluateAt_reference_ok.1 h
    cases hms
  · obtain ⟨-, a, out, ha, hout, rfl⟩ := evaluateAt_apply_ok.1 h
    rcases apply_ok_cases hout with ⟨v, rfl, -⟩ | ⟨selector, n, found, rfl, hvs, hq, rfl⟩
    · cases hms
    · cases hms
      rcases es with _ | ⟨t, es⟩
      · cases ha
        cases hvs
      obtain ⟨g, v, rest, hg, hv, hrest, rfl⟩ := evaluateOperands_cons_ok.1 ha
      rcases es with _ | ⟨t', es⟩
      · cases hrest
        cases hvs
        obtain ⟨b, hb, hbn, rfl⟩ := exists_term_of_element hg hv
        refine ⟨selector, t, b, n, found, rfl, hb, hbn, hq, rfl, ?_, rfl⟩
        simp only [Operator.step, Path.extend_itself, Path.compose_trivial]
        rfl
      · obtain ⟨_, _, _, _, _, _, rfl⟩ := evaluateOperands_cons_ok.1 hrest
        cases hvs
  · obtain ⟨-, _, _, _, _, _, _, _, _, rfl⟩ := evaluateAt_quantify_ok.1 h
    cases hms

end Terms

end Steps

end Expr

/-! ## A page to evaluate on -/

section Sample

open Testimony.Expr

/-- Two sections, with a red paragraph in each and a plain one before the first. -/
def samplePage : Page :=
  .ofMarkup 0 (.node (.ofTag "body")
    [.node (.ofTag "section")
      [.node (.ofTag "p") [], .node ((Element.ofTag "p").setStyle "color" "red") []],
     .node (.ofTag "section") [.node ((Element.ofTag "p").setStyle "color" "red") []]])

theorem samplePage_pos : 0 < samplePage.size := by decide

/-- The body of the page, and whether to look at it. -/
def sampleInputs : List (Value PageElement) :=
  [.element ⟨samplePage, 0, by decide⟩, .boolean true]

/-- Every section has a red paragraph. The inner variable hides the outer one. -/
def sampleRule : Expr PageElement :=
  apply .implies [input 1,
    quantify .universal "$x" (apply (.findBySelector "section") [input 0])
      (quantify .existential "$x" (apply (.findBySelector "p") [var "$x"])
        (apply .isEqualTo [apply (.computedStyle "color") [var "$x"], constant (.text "red")]))]

theorem exists_sampleRule (p : EmptyDomainPolicy) :
    ∃ f, sampleRule.evaluate { emptyDomain := p } (.ofInputs sampleInputs) = .ok f := by
  rcases p with _ | _
  · exact exists_of_isOk (by decide +kernel)
  · exact exists_of_isOk (by decide +kernel)

end Sample

end Testimony
