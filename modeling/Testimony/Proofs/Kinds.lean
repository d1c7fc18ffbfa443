import Mathlib.Data.List.Forall2
import Testimony.Proofs.Evaluation

/-!
# Kinds of expressions

Kinds are given to expressions by rules (`HasKind`), under an assignment of kinds to references.
A quantifier gives its variable the kind of elements in its body and nothing in its domain.

An expression that has a kind gives it: under any settings, in a context whose bindings have the
kinds assigned to them, its evaluation succeeds with an output of that kind or fails for a reason
that lies in the settings or in the elements at hand (`Residual`). That is, no reference is unbound,
no operator has the wrong number of operands, and none meets an operand of another kind than it
takes. `evaluate_hasKind` says so.

`Safe` is the form in which this goes through sequencing: a result has a property or a fault is
excused.
-/

namespace Testimony

/-- The result has the property, or the fault is excused. -/
def Safe {α : Type} (P : α → Prop) (excused : Fault → Prop) : Except Fault α → Prop
  | .ok a => P a
  | .error f => excused f

section Sequences

variable {α β : Type} {P : α → Prop} {Q : β → Prop} {excused : Fault → Prop}

theorem Safe.bind {x : Except Fault α} {k : α → Except Fault β} (h : Safe P excused x)
    (hk : ∀ a, P a → Safe Q excused (k a)) : Safe Q excused (x >>= k) := by
  rcases x with f | a
  · exact h
  · exact hk a h

theorem Safe.cases {x : Except Fault α} (h : Safe P excused x) :
    (∃ a, x = .ok a ∧ P a) ∨ ∃ f, x = .error f ∧ excused f := by
  rcases x with f | a
  · exact .inr ⟨f, rfl, h⟩
  · exact .inl ⟨a, rfl, h⟩

end Sequences

/-! ## Kinds -/

inductive ValueKind where
  | null
  | boolean
  | number
  | text
  | element
deriving DecidableEq

/-- The kinds of what expressions give. -/
inductive Kind where
  | single (k : ValueKind)
  /-- A single value of a kind that depends on the element. -/
  | someSingle
  | sequence
deriving DecidableEq

variable {ν : Type}

def Value.valueKind : Value ν → ValueKind
  | null => .null
  | boolean _ => .boolean
  | number _ => .number
  | text _ => .text
  | element _ => .element

/-- A single value that has the kind. -/
def Kind.Admits : Kind → Value ν → Prop
  | single k, v => v.valueKind = k
  | someSingle, _ => True
  | sequence, _ => False

/-- A single value has the kinds that admit it. A sequence is one of elements. -/
def Output.HasKind : Output ν → Kind → Prop
  | scalar v, k => k.Admits v
  | members ms, k => k = .sequence ∧ ∀ m ∈ ms, ∃ n, m.value = .element n

section Admitted

variable {v : Value ν}

theorem admits_boolean : (Kind.single .boolean).Admits v ↔ ∃ b, v = .boolean b := by
  rcases v with _ | b | _ | _ | _ <;> simp [Kind.Admits, Value.valueKind]

theorem admits_number : (Kind.single .number).Admits v ↔ ∃ x, v = .number x := by
  rcases v with _ | _ | x | _ | _ <;> simp [Kind.Admits, Value.valueKind]

theorem admits_element : (Kind.single .element).Admits v ↔ ∃ n, v = .element n := by
  rcases v with _ | _ | _ | _ | n <;> simp [Kind.Admits, Value.valueKind]

theorem admitted_singleton {k : Kind} {vs : List (Value ν)} :
    List.Forall₂ Kind.Admits [k] vs ↔ ∃ v, vs = [v] ∧ k.Admits v := by
  constructor
  · intro h
    obtain ⟨v, _, hv, hnil, rfl⟩ := List.forall₂_cons_left_iff.1 h
    cases hnil
    exact ⟨v, rfl, hv⟩
  · rintro ⟨v, rfl, hv⟩
    exact .cons hv .nil

theorem admitted_pair {k l : Kind} {vs : List (Value ν)} :
    List.Forall₂ Kind.Admits [k, l] vs ↔ ∃ v w, vs = [v, w] ∧ k.Admits v ∧ l.Admits w := by
  rw [List.forall₂_cons_left_iff]
  simp only [admitted_singleton]
  constructor
  · rintro ⟨v, _, hv, ⟨w, rfl, hw⟩, rfl⟩
    exact ⟨v, w, rfl, hv, hw⟩
  · rintro ⟨v, w, rfl, hv, hw⟩
    exact ⟨v, [w], hv, ⟨w, rfl, hw⟩, rfl⟩

end Admitted

/-- The kinds of the operands that an operator takes, and of what it gives. -/
inductive Operator.Takes : Operator → List Kind → Kind → Prop
  | compare {op : Operator} : op ∈ [greaterThan, greaterOrEqual, lessThan, lessOrEqual] →
      Takes op [.single .number, .single .number] (.single .boolean)
  | isEqualTo {k l : Kind} : k ≠ .sequence → l ≠ .sequence →
      Takes isEqualTo [k, l] (.single .boolean)
  | connect {op : Operator} : op ∈ [and, or, implies] →
      Takes op [.single .boolean, .single .boolean] (.single .boolean)
  | not : Takes not [.single .boolean] (.single .boolean)
  | calculate {op : Operator} : op ∈ [addition, subtraction] →
      Takes op [.single .number, .single .number] (.single .number)
  | opacity : Takes opacity [.single .element] (.single .number)
  | computedStyle {property : String} :
      Takes (computedStyle property) [.single .element] .someSingle
  | findBySelector {selector : String} :
      Takes (findBySelector selector) [.single .element] .sequence

theorem Operator.Takes.ne_sequence {op : Operator} {ks : List Kind} {k : Kind} (h : op.Takes ks k) :
    ∀ l ∈ ks, l ≠ .sequence := by
  cases h <;> simp_all

/-- The kinds of what references stand for, where they stand for something. -/
abbrev Assignment := Reference → Option ValueKind

namespace Assignment

/-- The assignment in the body of a quantifier over this variable. -/
def bind (Γ : Assignment) (name : String) : Assignment := fun r =>
  if r = .named name then some .element else Γ r

mutual

inductive HasKind : Assignment → Expr ν → Kind → Prop
  | constant {Γ : Assignment} {v : Value ν} : HasKind Γ (.constant v) (.single v.valueKind)
  | reference {Γ : Assignment} {r : Reference} {k : ValueKind} : Γ r = some k →
      HasKind Γ (.reference r) (.single k)
  | apply {Γ : Assignment} {op : Operator} {es : List (Expr ν)} {ks : List Kind} {k : Kind} :
      HaveKinds Γ es ks → op.Takes ks k → HasKind Γ (.apply op es) k
  | quantify {Γ : Assignment} {q : Quantifier} {name : String} {domain body : Expr ν} :
      HasKind Γ domain .sequence → HasKind (Γ.bind name) body (.single .boolean) →
      HasKind Γ (.quantify q name domain body) (.single .boolean)

inductive HaveKinds : Assignment → List (Expr ν) → List Kind → Prop
  | nil {Γ : Assignment} : HaveKinds Γ [] []
  | cons {Γ : Assignment} {e : Expr ν} {es : List (Expr ν)} {k : Kind} {ks : List Kind} :
      HasKind Γ e k → HaveKinds Γ es ks → HaveKinds Γ (e :: es) (k :: ks)

end

end Assignment

/-- The bindings have the kinds that the assignment gives to references. -/
def Context.Fits (c : Context ν) (Γ : Assignment) : Prop :=
  ∀ r k, Γ r = some k → ∃ b, c.lookup? r = some b ∧ b.value.valueKind = k

theorem Context.Fits.extend {c : Context ν} {Γ : Assignment} {b : Binding ν} {n : ν}
    (hc : c.Fits Γ) (hb : b.value = .element n) (name : String) :
    (c.extend name b).Fits (Γ.bind name) := by
  intro r k hk
  rw [lookup?_extend]
  unfold Assignment.bind at hk
  split_ifs at hk ⊢
  · cases hk
    exact ⟨b, rfl, by rw [hb]; rfl⟩
  · exact hc r k hk

/-! ## Visits -/

theorem safe_visit {q : Quantifier} {p : WitnessPolicy}
    {test : Binding ν → Except Fault (Bool × Witness ν)} {excused : Fault → Prop} :
    ∀ (bs : List (Binding ν)) (kept : Option (Witness ν)),
      (∀ b ∈ bs, Safe (fun _ => True) excused (test b)) →
      Safe (fun _ => True) excused (q.visit p test bs kept)
  | [], _, _ => trivial
  | b :: bs, kept, h => by
    simp only [Quantifier.visit]
    refine (h b List.mem_cons_self).bind fun r _ => ?_
    split
    · trivial
    · exact safe_visit bs _ fun b' hb' => h b' (List.mem_cons_of_mem _ hb')

variable [Node ν]

/-! ## What kinds do not rule out -/

/-- The faults that come from the settings and from the elements at hand. -/
inductive Residual (ν : Type) [Node ν] (s : Settings) : Fault → Prop
  | depth : Residual ν s (.depthExceeded s.maxDepth)
  | empty {name : String} : s.emptyDomain = .reject → Residual ν s (.emptyDomain name)
  | query {n : ν} {selector : String} {f : QueryFailure} : Node.query n selector = .error f →
      Residual ν s (.ofQueryFailure f)
  | opacity {n : ν} {raw : String} : Node.style n "opacity" = some raw → Style.measure? raw = none →
      Residual ν s (.typeMismatch "Opacity" "numeric opacity" s!"\"{raw}\"")

variable {s : Settings}

theorem safe_allowLevel (level : Nat) :
    Safe (fun _ => True) (Residual ν s) (s.allowLevel level) := by
  unfold Settings.allowLevel
  split_ifs
  · trivial
  · exact .depth

theorem safe_scalar {f : Finding ν} {k : Kind} {consumer : String} (hf : f.output.HasKind k)
    (hk : k ≠ .sequence) : Safe k.Admits (Residual ν s) (f.scalar consumer) := by
  rcases f with ⟨v | ms, path, w⟩
  · exact hf
  · exact absurd hf.1 hk

theorem safe_members {f : Finding ν} {consumer : String} (hf : f.output.HasKind .sequence) :
    Safe (fun ms => ∀ m ∈ ms, ∃ n, m.value = .element n) (Residual ν s) (f.members consumer) := by
  rcases f with ⟨v | ms, path, w⟩
  · exact hf.elim
  · exact hf.2

theorem safe_boolean {f : Finding ν} {consumer : String}
    (hf : f.output.HasKind (.single .boolean)) :
    Safe (fun _ => True) (Residual ν s) (f.boolean consumer) := by
  refine (safe_scalar hf (by simp)).bind fun v hv => ?_
  obtain ⟨b, rfl⟩ := admits_boolean.1 hv
  trivial

/-! ## Operators -/

theorem safe_opacityOf (n : ν) :
    Safe (fun _ => True) (Residual ν s) (Operator.opacity.opacityOf n) := by
  unfold Operator.opacityOf
  split
  · trivial
  · rename_i raw hraw
    split
    · trivial
    · exact .opacity hraw ‹_›

theorem safe_find (selector : String) (n : ν) :
    Safe (·.HasKind .sequence) (Residual ν s) (Operator.find selector n) := by
  unfold Operator.find
  split
  · rename_i found _
    refine ⟨rfl, fun m hm => ?_⟩
    obtain ⟨i, hi, rfl⟩ := List.mem_mapIdx.1 hm
    exact ⟨_, rfl⟩
  · exact .query ‹_›

/-- An operator on operands of the kinds that it takes gives what it is to give. -/
theorem safe_apply {op : Operator} {ks : List Kind} {k : Kind} {vs : List (Value ν)}
    (h : op.Takes ks k) (hvs : List.Forall₂ Kind.Admits ks vs) :
    Safe (·.HasKind k) (Residual ν s) (op.apply vs) := by
  cases h
  case isEqualTo =>
    obtain ⟨a, b, rfl, -, -⟩ := admitted_pair.1 hvs
    rfl
  case compare hop =>
    obtain ⟨a, b, rfl, ha, hb⟩ := admitted_pair.1 hvs
    obtain ⟨x, rfl⟩ := admits_number.1 ha
    obtain ⟨y, rfl⟩ := admits_number.1 hb
    simp only [List.mem_cons, List.not_mem_nil, or_false] at hop
    rcases hop with rfl | rfl | rfl | rfl <;> rfl
  case connect hop =>
    obtain ⟨a, b, rfl, ha, hb⟩ := admitted_pair.1 hvs
    obtain ⟨x, rfl⟩ := admits_boolean.1 ha
    obtain ⟨y, rfl⟩ := admits_boolean.1 hb
    simp only [List.mem_cons, List.not_mem_nil, or_false] at hop
    rcases hop with rfl | rfl | rfl <;> rfl
  case calculate hop =>
    obtain ⟨a, b, rfl, ha, hb⟩ := admitted_pair.1 hvs
    obtain ⟨x, rfl⟩ := admits_number.1 ha
    obtain ⟨y, rfl⟩ := admits_number.1 hb
    simp only [List.mem_cons, List.not_mem_nil, or_false] at hop
    rcases hop with rfl | rfl <;> rfl
  case not =>
    obtain ⟨a, rfl, ha⟩ := admitted_singleton.1 hvs
    obtain ⟨x, rfl⟩ := admits_boolean.1 ha
    rfl
  case opacity =>
    obtain ⟨a, rfl, ha⟩ := admitted_singleton.1 hvs
    obtain ⟨n, rfl⟩ := admits_element.1 ha
    exact (safe_opacityOf n).bind fun x _ => rfl
  case computedStyle =>
    obtain ⟨a, rfl, ha⟩ := admitted_singleton.1 hvs
    obtain ⟨n, rfl⟩ := admits_element.1 ha
    trivial
  case findBySelector =>
    obtain ⟨a, rfl, ha⟩ := admitted_singleton.1 hvs
    obtain ⟨n, rfl⟩ := admits_element.1 ha
    exact safe_find _ n

/-! ## Expressions -/

mutual

theorem safe_evaluateAt :
    ∀ (e : Expr ν) {Γ : Assignment} {k : Kind} {level : Nat} {c : Context ν}, Γ.HasKind e k →
      c.Fits Γ → Safe (·.output.HasKind k) (Residual ν s) (e.evaluateAt s level c)
  | .constant v, Γ, k, level, c, he, _ => by
    simp only [Expr.evaluateAt]
    refine (safe_allowLevel level).bind fun _ _ => ?_
    cases he
    rfl
  | .reference r, Γ, k, level, c, he, hc => by
    simp only [Expr.evaluateAt]
    refine (safe_allowLevel level).bind fun _ _ => ?_
    cases he with
    | reference hr =>
      obtain ⟨b, hb, rfl⟩ := hc r _ hr
      rw [resolve_eq_ok.2 hb]
      rfl
  | .apply op es, Γ, k, level, c, he, hc => by
    simp only [Expr.evaluateAt]
    refine (safe_allowLevel level).bind fun _ _ => ?_
    cases he with
    | apply hes hop =>
      refine (safe_evaluateOperands op es hes hop.ne_sequence hc).bind fun a ha => ?_
      exact (safe_apply hop ha).bind fun out hout => hout
  | .quantify q name domain body, Γ, k, level, c, he, hc => by
    rw [Expr.evaluateAt_quantify]
    refine (safe_allowLevel level).bind fun _ _ => ?_
    cases he with
    | quantify hdomain hbody =>
      refine (safe_evaluateAt domain hdomain hc).bind fun d hd => ?_
      refine (safe_members hd).bind fun ms hms => ?_
      split_ifs with hempty
      · simp only [Bool.and_eq_true, decide_eq_true_eq] at hempty
        exact .empty hempty.2
      · refine (safe_visit _ none fun b hb => ?_).bind fun r _ => rfl
        obtain ⟨m, hm, rfl⟩ := List.mem_map.1 hb
        obtain ⟨n, hn⟩ := hms m hm
        -- the candidate is an element, as the body takes its variable to be
        have hfits : (c.extend name (d.candidate name m)).Fits (Γ.bind name) := hc.extend hn name
        refine (safe_evaluateAt body hbody hfits).bind fun f hf => ?_
        exact (safe_boolean hf).bind fun _ _ => trivial

theorem safe_evaluateOperands (op : Operator) :
    ∀ (es : List (Expr ν)) {Γ : Assignment} {ks : List Kind} {index level : Nat} {c : Context ν},
      Γ.HaveKinds es ks → (∀ k ∈ ks, k ≠ .sequence) → c.Fits Γ →
      Safe (fun a => List.Forall₂ Kind.Admits ks a.values) (Residual ν s)
        (Expr.evaluateOperands s op es index level c)
  | [], Γ, ks, index, level, c, hes, _, _ => by
    simp only [Expr.evaluateOperands]
    cases hes
    exact .nil
  | e :: es, Γ, ks, index, level, c, hes, hks, hc => by
    simp only [Expr.evaluateOperands]
    cases hes with
    | cons he hes =>
      simp only [List.mem_cons, forall_eq_or_imp] at hks
      refine (safe_evaluateAt e he hc).bind fun f hf => ?_
      refine (safe_scalar hf hks.1).bind fun v hv => ?_
      refine (safe_evaluateOperands op es hes hks.2 hc).bind fun rest hrest => ?_
      exact .cons hv hrest

end

/-- An expression that has a kind gives it, or fails for a reason that lies in the settings or in
the elements at hand. -/
theorem evaluate_hasKind (e : Expr ν) (s : Settings) {Γ : Assignment} {k : Kind} {c : Context ν}
    (he : Γ.HasKind e k) (hc : c.Fits Γ) :
    (∃ f, e.evaluate s c = .ok f ∧ f.output.HasKind k)
      ∨ ∃ f, e.evaluate s c = .error f ∧ Residual ν s f :=
  (safe_evaluateAt e he hc).cases

section Sample

def sampleAssignment : Assignment
  | .positional 0 => some .element
  | .positional 1 => some .boolean
  | _ => none

theorem fits_sampleInputs : (Context.ofInputs sampleInputs).Fits sampleAssignment := by
  intro r k hk
  unfold sampleAssignment at hk
  split at hk
  · cases hk
    exact ⟨_, rfl, rfl⟩
  · cases hk
    exact ⟨_, rfl, rfl⟩
  · cases hk

theorem hasKind_sampleRule : sampleAssignment.HasKind sampleRule (.single .boolean) := by
  refine .apply (.cons (.reference rfl) (.cons (.quantify ?_ (.quantify ?_ ?_)) .nil))
    (.connect (by decide))
  · exact .apply (.cons (.reference rfl) .nil) .findBySelector
  · exact .apply (.cons (.reference rfl) .nil) .findBySelector
  · exact .apply (.cons (.apply (.cons (.reference rfl) .nil) .computedStyle)
      (.cons .constant .nil)) (.isEqualTo (by decide) (by decide))

theorem evaluate_hasKind_sampleRule :
    ∃ f, sampleRule.evaluate {} (.ofInputs sampleInputs) = .ok f ∧
      f.output.HasKind (.single .boolean) := by
  obtain ⟨g, hg⟩ := exists_sampleRule .vacuous
  rcases evaluate_hasKind sampleRule {} hasKind_sampleRule fits_sampleInputs with hf | ⟨f, hf, -⟩
  · exact hf
  · rw [hg] at hf
    cases hf

end Sample

end Testimony
