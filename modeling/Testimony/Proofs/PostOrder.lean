import Testimony.Proofs.Evaluation

/-!
# Result paths and witnesses in flat form

An evaluation puts its path together operand by operand and drops the steps that go nowhere as it
does. What comes out is a list that can be read off the expression: its terms and the edges to its
operands in post-order, where a term gives the steps of its leaf and an edge the step of its
operator (`proper_path`). A quantifier is no more than a place in this list where nothing stands.

Without quantifiers the witness can be read off as well. It has the leaf of each term, from left to
right (`witness_of_quantifierFree`).
-/

namespace Testimony.Expr

variable {ν : Type}

/-- What a walk over an expression comes across: a term, or the edge to an operand on the way back
from it. -/
inductive Mark (ν : Type) where
  | term (t : Expr ν)
  | edge (op : Operator) (index : Nat)

/-- The steps that a term or an edge gives to the path. -/
def Mark.steps (c : Context ν) : Mark ν → List Step
  | term t => (t.term? c).elim [] fun b => b.leaf.path.proper
  | edge op index => [op.step index].filter (· != .itself)

mutual

/-- The terms and the edges to operands in post-order, each edge behind all that stands below it. A
quantifier is not entered. -/
def postorder : Expr ν → List (Mark ν)
  | constant v => [.term (constant v)]
  | reference r => [.term (reference r)]
  | apply op es => postorderAll op es 0
  | quantify _ _ _ _ => []

/-- The operands of an operator, the first of which has the number `index`. -/
def postorderAll (op : Operator) : List (Expr ν) → (index : Nat) → List (Mark ν)
  | [], _ => []
  | e :: es, index => e.postorder ++ .edge op index :: postorderAll op es (index + 1)

end

/-- No quantifier stands in the expression, as no variable is bound in it. -/
def QuantifierFree (e : Expr ν) : Prop := e.boundNames = []

variable [Node ν] {s : Settings}

/-! ## The path -/

mutual

theorem proper_path : ∀ (e : Expr ν) {level : Nat} {c : Context ν} {f : Finding ν},
    e.evaluateAt s level c = .ok f → f.path.proper = e.postorder.flatMap (Mark.steps c)
  | constant v, level, c, f, h => by
    obtain ⟨-, rfl⟩ := evaluateAt_constant_ok.1 h
    rfl
  | reference r, level, c, f, h => by
    obtain ⟨-, b, hb, rfl⟩ := evaluateAt_reference_ok.1 h
    simp [postorder, Mark.steps, term?, hb, Finding.ofLeaf]
  | apply op es, level, c, f, h => by
    obtain ⟨-, a, out, ha, -, rfl⟩ := evaluateAt_apply_ok.1 h
    exact proper_operands_path op es ha
  | quantify q name domain body, level, c, f, h => by
    obtain ⟨-, _, _, -, -, -, holds, w, -, rfl⟩ := evaluateAt_quantify_ok.1 h
    rfl

theorem proper_operands_path (op : Operator) :
    ∀ (es : List (Expr ν)) {index level : Nat} {c : Context ν} {a : Arguments ν},
      evaluateOperands s op es index level c = .ok a →
        a.path.proper = (postorderAll op es index).flatMap (Mark.steps c)
  | [], index, level, c, a, h => by
    cases h
    rfl
  | e :: es, index, level, c, a, h => by
    obtain ⟨f, v, rest, hf, -, hrest, rfl⟩ := evaluateOperands_cons_ok.1 h
    have hpath := proper_path e hf
    have hrestPath := proper_operands_path op es hrest
    calc ((f.path.extend (op.step index)).compose rest.path).proper
        = f.path.proper ++ [op.step index].filter (· != .itself) ++ rest.path.proper := by
          rw [Path.proper_compose, Path.proper_extend_eq]
      _ = (postorderAll op (e :: es) index).flatMap (Mark.steps c) := by
          simp [hpath, hrestPath, postorderAll, Mark.steps]

end

/-! ## The witness -/

mutual

theorem witness_of_quantifierFree :
    ∀ (e : Expr ν) {level : Nat} {c : Context ν} {f : Finding ν}, e.QuantifierFree →
      e.evaluateAt s level c = .ok f →
      f.witness.map some = e.terms.map fun t => (t.term? c).map Binding.leaf
  | constant v, level, c, f, _, h => by
    obtain ⟨-, rfl⟩ := evaluateAt_constant_ok.1 h
    rfl
  | reference r, level, c, f, _, h => by
    obtain ⟨-, b, hb, rfl⟩ := evaluateAt_reference_ok.1 h
    simp [terms, term?, hb, Finding.ofLeaf]
  | apply op es, level, c, f, hq, h => by
    obtain ⟨-, a, out, ha, -, rfl⟩ := evaluateAt_apply_ok.1 h
    exact operands_witness_of_quantifierFree op es hq ha
  | quantify q name domain body, level, c, f, hq, _ => by
    simp [QuantifierFree, boundNames] at hq

theorem operands_witness_of_quantifierFree (op : Operator) :
    ∀ (es : List (Expr ν)) {index level : Nat} {c : Context ν} {a : Arguments ν},
      boundNamesAll es = [] → evaluateOperands s op es index level c = .ok a →
        a.witness.map some = (termsAll es).map fun t => (t.term? c).map Binding.leaf
  | [], index, level, c, a, _, h => by
    cases h
    rfl
  | e :: es, index, level, c, a, hq, h => by
    obtain ⟨f, v, rest, hf, -, hrest, rfl⟩ := evaluateOperands_cons_ok.1 h
    simp only [boundNamesAll, List.append_eq_nil_iff] at hq
    have hwitness := witness_of_quantifierFree e hq.1 hf
    have hrestWitness := operands_witness_of_quantifierFree op es hq.2 hrest
    simp only [termsAll, List.map_append, hwitness, hrestWitness]

end

/-- The proper steps of a result path are those of the terms and the operand edges in post-order,
and without quantifiers the witness is the leaves of the terms. -/
theorem evaluate_flat_form (e : Expr ν) (s : Settings) (c : Context ν) {f : Finding ν}
    (h : e.evaluate s c = .ok f) :
    f.path.proper = e.postorder.flatMap (Mark.steps c)
      ∧ (e.QuantifierFree →
          f.witness.map some = e.terms.map fun t => (t.term? c).map Binding.leaf) :=
  ⟨proper_path e h, fun hq => witness_of_quantifierFree e hq h⟩

section Sample

theorem three_lt_samplePage : 3 < samplePage.size := by decide

/-- The red paragraph of the first section, as a candidate of a quantifier over paragraphs. -/
def sampleParagraph : Binding PageElement where
  value := .element ⟨samplePage, 3, three_lt_samplePage⟩
  leaf :=
    { object := .element ⟨samplePage, 0, samplePage_pos⟩
      path := .ofSteps [.selectorMatch "p" 1, .bound "$x"] }

/-- The paragraph in scope is red, if this is to be looked at. -/
def sampleCheck : Expr PageElement :=
  apply .implies [input 1,
    apply .isEqualTo [apply (.computedStyle "color") [var "$x"], constant (.text "red")]]

theorem evaluate_flat_form_sampleCheck :
    ∃ f, sampleCheck.evaluate {} ((Context.ofInputs sampleInputs).extend "$x" sampleParagraph)
        = .ok f ∧ sampleCheck.QuantifierFree ∧
      f.path.proper = [.operand "Implies" 0, .selectorMatch "p" 1, .bound "$x",
        .styleProperty "color", .operand "IsEqualTo" 0, .operand "IsEqualTo" 1,
        .operand "Implies" 1] ∧
      f.witness.map some = [some (.plain (.boolean true)), some sampleParagraph.leaf,
        some (.plain (.text "red"))] := by
  obtain ⟨f, hf⟩ := exists_of_isOk (x := sampleCheck.evaluate {}
    ((Context.ofInputs sampleInputs).extend "$x" sampleParagraph)) (by decide +kernel)
  obtain ⟨hpath, hwitness⟩ := evaluate_flat_form _ _ _ hf
  exact ⟨f, hf, rfl, hpath, hwitness rfl⟩

/-- The quantifiers of the rule add nothing to the edges above them. -/
example : (sampleRule.evaluate {} (.ofInputs sampleInputs)).toOption.map (·.path.proper)
    = some [.operand "Implies" 0, .operand "Implies" 1] := by
  decide +kernel

end Sample

end Testimony.Expr
