import Testimony.Proofs.Grounding

/-!
# Quantifiers as searches

A quantifier looks for the first item with the deciding outcome and looks at no item behind it. What
it decides does not depend on paths and witnesses, so it is what a plain search for this outcome
decides, over the values of the members (`quantify_decides`) or, where the domain is a query, over
the elements that were found (`quantify_query_decides`).

If a search of two selections from a list of items decides, a search of both selections together
decides too, and combines what the two decided (`search_filter_or`). What failed in neither search
stands before what settled one of them, and it is this part of both that the joint search sees.
-/

namespace Testimony

namespace Quantifier

/-- What the quantifier makes of its outcomes over two parts of a domain. -/
def combine : Quantifier → Bool → Bool → Bool
  | universal, a, b => a && b
  | existential, a, b => a || b

/-- Tests items until one has the deciding outcome. -/
def search {α : Type} (q : Quantifier) (test : α → Except Fault Bool) : List α → Except Fault Bool
  | [] => .ok (!q.deciding)
  | x :: xs => do
    if (← test x) = q.deciding then return q.deciding else q.search test xs

section Search

variable {α β : Type} {q : Quantifier} {test : α → Except Fault Bool}

theorem combine_comm (q : Quantifier) (a b : Bool) : q.combine a b = q.combine b a := by
  cases q
  · exact Bool.and_comm a b
  · exact Bool.or_comm a b

theorem combine_deciding (q : Quantifier) (b : Bool) : q.combine q.deciding b = q.deciding := by
  cases q <;> rfl

theorem combine_self (q : Quantifier) (b : Bool) : q.combine b b = b := by
  cases q
  · exact Bool.and_self b
  · exact Bool.or_self b

theorem search_cons_ok {x : α} {xs : List α} {a : Bool} : q.search test (x :: xs) = .ok a ↔
    test x = .ok q.deciding ∧ a = q.deciding
      ∨ test x = .ok (!q.deciding) ∧ q.search test xs = .ok a := by
  rw [search]
  rcases test x with fault | outcome
  · simp [bind, Except.bind]
  · cases outcome <;> cases q <;> simp [bind, Except.bind, deciding, pure, Except.pure, eq_comm]

theorem search_map (f : β → α) (ys : List β) :
    q.search test (ys.map f) = q.search (test ∘ f) ys := by
  induction ys with
  | nil => rfl
  | cons y ys ih => rw [List.map_cons, search, search, ih, Function.comp_apply]

theorem search_filter_or {P Q : α → Bool} :
    ∀ {xs : List α} {a b : Bool}, q.search test (xs.filter P) = .ok a →
      q.search test (xs.filter Q) = .ok b →
      q.search test (xs.filter fun x => P x || Q x) = .ok (q.combine a b)
  | [], a, b, ha, hb => by
    obtain rfl : (!q.deciding) = a := Except.ok.inj ha
    obtain rfl : (!q.deciding) = b := Except.ok.inj hb
    rw [combine_self]
    rfl
  | x :: xs, a, b, ha, hb => by
    rcases hP : P x with _ | _ <;> rcases hQ : Q x with _ | _ <;>
      simp only [List.filter_cons, hP, hQ, Bool.or_true, Bool.or_false, if_true, Bool.false_eq_true,
        if_false, search_cons_ok] at ha hb ⊢
    · exact search_filter_or ha hb
    · rcases hb with ⟨hx, rfl⟩ | ⟨hx, hb⟩
      · exact .inl ⟨hx, by rw [combine_comm, combine_deciding]⟩
      · exact .inr ⟨hx, search_filter_or ha hb⟩
    · rcases ha with ⟨hx, rfl⟩ | ⟨hx, ha⟩
      · exact .inl ⟨hx, combine_deciding q b⟩
      · exact .inr ⟨hx, search_filter_or ha hb⟩
    · -- an item of both selections settles both searches or neither
      rcases ha with ⟨hx, rfl⟩ | ⟨hx, ha⟩
      · exact .inl ⟨hx, combine_deciding q b⟩
      · rcases hb with ⟨hx', -⟩ | ⟨-, hb⟩
        · rw [hx] at hx'
          cases hd : q.deciding <;> simp [hd] at hx'
        · exact .inr ⟨hx, search_filter_or ha hb⟩

end Search

/-- A visit decides what the search decides, whatever witnesses it keeps. -/
theorem visit_search {ν : Type} (q : Quantifier) (p : WitnessPolicy)
    (test : Binding ν → Except Fault (Bool × Witness ν)) :
    ∀ (bs : List (Binding ν)) (kept : Option (Witness ν)),
      (q.visit p test bs kept).map Prod.fst = q.search (fun b => (test b).map Prod.fst) bs
  | [], _ => rfl
  | b :: bs, kept => by
    rw [visit, search]
    rcases test b with fault | ⟨outcome, w⟩
    · rfl
    · simp only [bind, Except.bind, Except.map]
      split_ifs with h
      · rw [← h]
        rfl
      · exact visit_search q p test bs _

end Quantifier

namespace Expr

variable {ν : Type} [Node ν] {q : Quantifier} {name : String} {domain operand body : Expr ν}
  {s : Settings} {level : Nat} {c : Context ν} {holds : Bool}

/-- The outcome of the body for a value of the variable. -/
def outcome (q : Quantifier) (name : String) (body : Expr ν) (s : Settings) (level : Nat)
    (c : Context ν) (v : Value ν) : Except Fault Bool :=
  (testBody q name body s level c (.input v)).map Prod.fst

/-- The leaf of the variable does not matter to the outcome of the body. -/
theorem testBody_outcome (b : Binding ν) :
    (testBody q name body s level c b).map Prod.fst = outcome q name body s level c b.value := by
  refine (parallel_testBody q (parallel_of_values fun r _ => ?_)).map_eq
  simp only [Context.value?, Context.lookup?_extend]
  split_ifs <;> rfl

theorem quantify_decides :
    (∃ f, (quantify q name domain body).evaluateAt s level c = .ok f ∧
        f.output = .scalar (.boolean holds)) ↔
      level < s.maxDepth ∧ ∃ d ms, domain.evaluateAt s (level + 1) c = .ok d ∧
        d.output = .members ms ∧ (ms = [] → s.emptyDomain = .vacuous) ∧
        q.search (outcome q name body s (level + 1) c) (ms.map Member.value) = .ok holds := by
  have hsearch (d : Finding ν) (ms : List (Member ν)) :
      q.search (outcome q name body s (level + 1) c) (ms.map Member.value)
        = (q.visit s.witnessPolicy (testBody q name body s (level + 1) c)
            (ms.map (d.candidate name)) none).map Prod.fst := by
    rw [Quantifier.visit_search, Quantifier.search_map, Quantifier.search_map]
    exact congrArg (q.search · ms) (funext fun m => (testBody_outcome (d.candidate name m)).symm)
  constructor
  · rintro ⟨f, hf, hholds⟩
    obtain ⟨hl, d, ms, hd, hms, he, holds', w, hv, rfl⟩ := evaluateAt_quantify_ok.1 hf
    cases hholds
    exact ⟨hl, d, ms, hd, hms, he, by rw [hsearch d, hv]; rfl⟩
  · rintro ⟨hl, d, ms, hd, hms, he, hs⟩
    rw [hsearch d] at hs
    rcases hv : q.visit s.witnessPolicy (testBody q name body s (level + 1) c)
      (ms.map (d.candidate name)) none with fault | ⟨holds', w⟩ <;> rw [hv] at hs
    · cases hs
    · cases hs
      exact ⟨_, evaluateAt_quantify_ok.2 ⟨hl, d, ms, hd, hms, he, _, w, hv, rfl⟩, rfl⟩

/-- A quantifier over what a query of the operand finds. -/
def quantifyFound (q : Quantifier) (name selector : String) (operand body : Expr ν) : Expr ν :=
  quantify q name (apply (.findBySelector selector) [operand]) body

/-- What a query of an operand produces. -/
theorem query_members {selector : String} {ms : List (Member ν)} :
    (∃ d, (apply (.findBySelector selector) [operand]).evaluateAt s level c = .ok d ∧
        d.output = .members ms) ↔
      level < s.maxDepth ∧ ∃ g n found, operand.evaluateAt s (level + 1) c = .ok g ∧
        g.output = .scalar (.element n) ∧ Node.query n selector = .ok found ∧
        Operator.matchesOf selector found = ms := by
  constructor
  · rintro ⟨d, hd, hms⟩
    obtain ⟨hl, a, out, ha, hout, rfl⟩ := evaluateAt_apply_ok.1 hd
    obtain ⟨g, v, rest, hg, hv, hrest, rfl⟩ := evaluateOperands_cons_ok.1 ha
    cases hrest
    rcases apply_ok_cases hout with ⟨u, rfl, -⟩ | ⟨_, n, found, hop, hvs, hq, rfl⟩
    · cases hms
    · cases hop
      cases hvs
      exact ⟨hl, g, n, found, hg, hv, hq, Output.members.inj hms⟩
  · rintro ⟨hl, g, n, found, hg, hn, hq, rfl⟩
    refine ⟨_, evaluateAt_apply_ok.2 ⟨hl, _, _, evaluateOperands_cons_ok.2
      ⟨g, .element n, _, hg, hn, rfl, rfl⟩, ?_, rfl⟩, rfl⟩
    exact find_eq_ok.2 ⟨found, hq, rfl⟩

theorem quantify_query_decides {selector : String} :
    (∃ f, (quantifyFound q name selector operand body).evaluateAt s level c = .ok f ∧
        f.output = .scalar (.boolean holds)) ↔
      level + 1 < s.maxDepth ∧ ∃ g n found, operand.evaluateAt s (level + 2) c = .ok g ∧
        g.output = .scalar (.element n) ∧ Node.query n selector = .ok found ∧
        (found = [] → s.emptyDomain = .vacuous) ∧
        q.search (outcome q name body s (level + 1) c ∘ .element) found = .ok holds := by
  have hvalues (found : List ν) :
      (Operator.matchesOf selector found).map Member.value = found.map .element := by
    refine List.ext_getElem? fun i => ?_
    simp [Operator.matchesOf, Function.comp_def]
  have hempty (found : List ν) : Operator.matchesOf selector found = [] ↔ found = [] := by
    simp [Operator.matchesOf]
  rw [quantifyFound, quantify_decides]
  constructor
  · rintro ⟨-, d, ms, hd, hms, he, hs⟩
    obtain ⟨hl, g, n, found, hg, hn, hq, rfl⟩ := query_members.1 ⟨d, hd, hms⟩
    rw [hvalues, Quantifier.search_map] at hs
    exact ⟨hl, g, n, found, hg, hn, hq, fun h => he ((hempty found).2 h), hs⟩
  · rintro ⟨hl, g, n, found, hg, hn, hq, he, hs⟩
    obtain ⟨d, hd, hms⟩ := query_members.2 ⟨hl, g, n, found, hg, hn, hq, rfl⟩
    rw [← Quantifier.search_map, ← hvalues] at hs
    exact ⟨Nat.lt_of_succ_lt hl, d, _, hd, hms, fun h => he ((hempty found).1 h), hs⟩

end Expr

end Testimony
