import Testimony.Proofs.Height
import Testimony.Proofs.Kinds

/-!
# What an evaluation complains about

An operator finds fault with its operands, and whoever asks for an outcome of some form finds fault
with the outcome (`Fault.FindsFault`); neither complains about anything else (`findsFault_apply`).
All other complaints are the evaluator's: an expression that nests beyond the limit, a quantifier
over nothing, and a free reference that the context does not resolve. `complaint_evaluateAt` says
that these are all, each with the place in the expression it comes from. A quantifier resolves its
own variable in its body, so no complaint about the variable leaves the quantifier
(`Complaint.leave`).
-/

namespace Testimony

/-- If the outcome is a fault, it is one of these. -/
def FailsBy {α : Type} (P : Fault → Prop) (x : Except Fault α) : Prop := Safe (fun _ => True) P x

section Sequences

variable {α β : Type} {P Q : Fault → Prop} {x : Except Fault α}

theorem failsBy_iff : FailsBy P x ↔ ∀ f, x = .error f → P f := by
  rcases x with f | a
  · simp [FailsBy, Safe]
  · simp [FailsBy, Safe]

theorem failsBy_ok (a : α) : FailsBy P (.ok a) := trivial

theorem FailsBy.bind {k : α → Except Fault β} (h : FailsBy P x) (hk : ∀ a, FailsBy P (k a)) :
    FailsBy P (x >>= k) :=
  Safe.bind h fun a _ => hk a

theorem FailsBy.mono (h : FailsBy P x) (hPQ : ∀ f, P f → Q f) : FailsBy Q x :=
  failsBy_iff.2 fun f hf => hPQ f (failsBy_iff.1 h f hf)

end Sequences

/-! ## Operands and outcomes -/

/-- The fault is found with what an operator or a consumer is given. -/
inductive Fault.FindsFault : Fault → Prop
  | typeMismatch {consumer expected found : String} :
      FindsFault (.typeMismatch consumer expected found)
  | arityMismatch {operator : String} {expected found : Nat} :
      FindsFault (.arityMismatch operator expected found)
  | invalidSelector {selector reason : String} : FindsFault (.invalidSelector selector reason)

variable {ν : Type}

section Operators

open Fault

variable (op : Operator) (a : Value ν)

theorem findsFault_numberOf : FailsBy FindsFault (op.numberOf a) := by
  rcases a with _ | _ | _ | _ | _
  case number => trivial
  all_goals exact FindsFault.typeMismatch

theorem findsFault_booleanOf : FailsBy FindsFault (op.booleanOf a) := by
  rcases a with _ | _ | _ | _ | _
  case boolean => trivial
  all_goals exact FindsFault.typeMismatch

theorem findsFault_elementOf : FailsBy FindsFault (op.elementOf a) := by
  rcases a with _ | _ | _ | _ | _
  case element => trivial
  all_goals exact FindsFault.typeMismatch

variable [Node ν]

theorem findsFault_opacityOf (n : ν) : FailsBy FindsFault (op.opacityOf n) := by
  unfold Operator.opacityOf
  split
  · trivial
  · split
    · trivial
    · exact FindsFault.typeMismatch

theorem findsFault_find (selector : String) (n : ν) :
    FailsBy FindsFault (Operator.find selector n) := by
  unfold Operator.find
  split
  · trivial
  · exact FindsFault.invalidSelector

theorem findsFault_apply (vs : List (Value ν)) : FailsBy FindsFault (op.apply vs) := by
  unfold Operator.apply
  split
  case h_5 => exact failsBy_ok _
  case h_1 | h_2 | h_3 | h_4 | h_10 | h_11 =>
    exact (findsFault_numberOf _ _).bind fun _ => (findsFault_numberOf _ _).bind fun _ =>
      failsBy_ok _
  case h_6 | h_7 | h_8 =>
    exact (findsFault_booleanOf _ _).bind fun _ => (findsFault_booleanOf _ _).bind fun _ =>
      failsBy_ok _
  case h_9 => exact (findsFault_booleanOf _ _).bind fun _ => failsBy_ok _
  case h_12 =>
    refine (findsFault_elementOf _ _).bind fun n => ?_
    exact (findsFault_opacityOf _ n).bind fun _ => failsBy_ok _
  case h_13 => exact (findsFault_elementOf _ _).bind fun _ => failsBy_ok _
  case h_14 => exact (findsFault_elementOf _ _).bind fun n => findsFault_find _ n
  case h_15 => exact FindsFault.arityMismatch

end Operators

section Consumers

open Fault

variable (f : Finding ν) (consumer : String)

theorem findsFault_scalar : FailsBy FindsFault (f.scalar consumer) := by
  rcases f with ⟨v | ms, path, w⟩
  · trivial
  · exact FindsFault.typeMismatch

theorem findsFault_members : FailsBy FindsFault (f.members consumer) := by
  rcases f with ⟨v | ms, path, w⟩
  · exact FindsFault.typeMismatch
  · trivial

theorem findsFault_boolean : FailsBy FindsFault (f.boolean consumer) := by
  refine (findsFault_scalar f consumer).bind fun v => ?_
  rcases v with _ | _ | _ | _ | _
  case boolean => trivial
  all_goals exact FindsFault.typeMismatch

end Consumers

/-! ## Expressions -/

/-- What the evaluation of an expression with these free references and bound variables complains
about, if it reaches down to the level before `reach`. -/
inductive Complaint (s : Settings) (c : Context ν) (free : List Reference) (names : List String)
    (reach : Nat) : Fault → Prop
  | given {f : Fault} : f.FindsFault → Complaint s c free names reach f
  | unbound {r : Reference} : r ∈ free → c.lookup? r = none →
      Complaint s c free names reach (.unboundReference r.text)
  | empty {name : String} : name ∈ names → s.emptyDomain = .reject →
      Complaint s c free names reach (.emptyDomain name)
  | depth : s.maxDepth < reach → Complaint s c free names reach (.depthExceeded s.maxDepth)

section Complaints

variable {s : Settings} {c : Context ν} {free free' : List Reference} {names names' : List String}
  {reach reach' : Nat} {f : Fault}

theorem Complaint.mono (h : Complaint s c free names reach f) (hfree : free ⊆ free')
    (hnames : names ⊆ names') (hreach : reach ≤ reach') :
    Complaint s c free' names' reach' f := by
  cases h with
  | given hf => exact .given hf
  | unbound hr hc => exact .unbound (hfree hr) hc
  | empty hname he => exact .empty (hnames hname) he
  | depth hs => exact .depth (Nat.lt_of_lt_of_le hs hreach)

/-- A complaint from where a variable is bound is not about the variable. -/
theorem Complaint.leave {name : String} {b : Binding ν}
    (h : Complaint s (c.extend name b) free names reach f) :
    Complaint s c (free.filter (· != .named name)) names reach f := by
  cases h with
  | given hf => exact .given hf
  | unbound hr hc =>
    rw [Context.lookup?_extend] at hc
    split_ifs at hc with hname
    exact .unbound (List.mem_filter.2 ⟨hr, by simpa using hname⟩) hc
  | empty hname he => exact .empty hname he
  | depth hs => exact .depth hs

theorem complaint_allowLevel {level : Nat} (h : level < reach) :
    FailsBy (Complaint s c free names reach) (s.allowLevel level) := by
  unfold Settings.allowLevel
  split_ifs with hl
  · trivial
  · exact Complaint.depth (Nat.lt_of_le_of_lt (Nat.not_lt.1 hl) h)

theorem complaint_resolve {r : Reference} (h : r ∈ free) :
    FailsBy (Complaint s c free names reach) (c.resolve r) := by
  unfold Context.resolve
  split
  · trivial
  · exact Complaint.unbound h ‹_›

end Complaints

namespace Expr

variable [Node ν] {s : Settings}

mutual

theorem complaint_evaluateAt :
    ∀ (e : Expr ν) (level : Nat) (c : Context ν),
      FailsBy (Complaint s c e.freeReferences e.boundNames (level + e.height))
        (e.evaluateAt s level c)
  | constant v, level, c => by
    simp only [evaluateAt]
    exact (complaint_allowLevel (Nat.lt_succ_self level)).bind fun _ => failsBy_ok _
  | reference r, level, c => by
    simp only [evaluateAt]
    refine (complaint_allowLevel (Nat.lt_succ_self level)).bind fun _ => ?_
    exact (complaint_resolve (List.mem_singleton.2 rfl)).bind fun _ => failsBy_ok _
  | apply op es, level, c => by
    simp only [evaluateAt, freeReferences, boundNames, height, ← Nat.add_assoc]
    refine (complaint_allowLevel (by omega)).bind fun _ => ?_
    refine (complaint_evaluateOperands op es 0 (level + 1) c).bind fun a => ?_
    exact ((findsFault_apply op a.values).mono fun f hf => .given hf).bind fun _ => failsBy_ok _
  | quantify q name domain body, level, c => by
    simp only [evaluateAt_quantify, freeReferences, boundNames, height]
    refine (complaint_allowLevel (by omega)).bind fun _ => ?_
    have hdomain := complaint_evaluateAt domain (level + 1) c
    refine (hdomain.mono fun f hf => hf.mono (by simp) (by simp) (by omega)).bind fun d => ?_
    refine ((findsFault_members d q.name).mono fun f hf => .given hf).bind fun ms => ?_
    split_ifs with hempty
    · simp only [Bool.and_eq_true, decide_eq_true_eq] at hempty
      exact Complaint.empty List.mem_cons_self hempty.2
    · refine (safe_visit _ none fun b _ => ?_).bind fun r _ => trivial
      have hbody := complaint_evaluateAt body (level + 1) (c.extend name b)
      refine FailsBy.bind (hbody.mono fun f hf => hf.leave.mono ?_ ?_ ?_) fun g => ?_
      · exact List.subset_append_right _ _
      · exact List.subset_cons_of_subset _ (List.subset_append_right _ _)
      · omega
      · exact ((findsFault_boolean g q.name).mono fun f hf => .given hf).bind fun _ => failsBy_ok _

theorem complaint_evaluateOperands (op : Operator) :
    ∀ (es : List (Expr ν)) (index level : Nat) (c : Context ν),
      FailsBy (Complaint s c (freeReferencesAll es) (boundNamesAll es) (level + heightAll es))
        (evaluateOperands s op es index level c)
  | [], _, _, _ => failsBy_ok _
  | e :: es, index, level, c => by
    simp only [evaluateOperands, freeReferencesAll, boundNamesAll, heightAll]
    have he := complaint_evaluateAt e level c
    have hes := complaint_evaluateOperands op es (index + 1) level c
    refine (he.mono fun f hf => hf.mono (by simp) (by simp) (by omega)).bind fun g => ?_
    refine ((findsFault_scalar g op.name).mono fun f hf => .given hf).bind fun v => ?_
    refine (hes.mono fun f hf => hf.mono (by simp) (by simp) (by omega)).bind fun _ => failsBy_ok _

end

end Expr

end Testimony
