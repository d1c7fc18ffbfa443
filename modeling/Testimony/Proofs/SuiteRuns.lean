import Mathlib.Data.List.Forall2
import Testimony.Proofs.Evaluation
import Testimony.Suite

/-!
# The runs of a suite

`Answered` says what a call of a suite must leave behind, in terms of what each condition gives when
it is evaluated alone: the verdicts of all, or the faults of those that fail and no outcome.
`answered_run` shows it of one call, whatever the suite went through before.

A call reads the conditions and the settings of a suite and nothing else of it (`run_congr`), and
changes neither. So along a run each call does what it would have done as the first one
(`trace_eq_map`), and every call of a run is answered in this sense (`trace_answered`).
-/

namespace Testimony

variable {ν : Type} [Node ν]

/-! ## One call -/

/-- What is left after a call with these inputs, the suite and the reply. -/
structure Answered (conditions : List (Condition ν)) (settings : Settings)
    (inputs : List (Value ν)) (r : Suite ν × Except Fault Unit) : Prop where
  conditions_eq : r.1.conditions = conditions
  settings_eq : r.1.settings = settings
  passed : 0 < settings.maxDepth →
    (∀ c ∈ conditions, ∃ v, c.judge settings (.ofInputs inputs) = .ok v) →
    r.2 = .ok () ∧ ∃ o, r.1.outcome = .ok o ∧
      List.Forall₂ (fun c v => c.judge settings (.ofInputs inputs) = .ok v) conditions o.verdicts ∧
      (o.passed = true ↔ ∀ v ∈ o.verdicts, v.holds = true)
  failed : 0 < settings.maxDepth →
    (∃ c ∈ conditions, ∃ f, c.judge settings (.ofInputs inputs) = .error f) →
    r.1.outcome = .error .queryBeforeEvaluation ∧ ∃ failures,
      r.2 = .error (.conditionsFailed failures) ∧
      List.Forall₂ (fun c p => p.1 = c.name ∧ c.judge settings (.ofInputs inputs) = .error p.2)
        (conditions.filter fun c => !(c.judge settings (.ofInputs inputs)).isOk) failures
  invalid : settings.maxDepth = 0 →
    r.2 = .error (.invalidSettings "max_depth must be at least 1") ∧
      r.1.outcome = .error .queryBeforeEvaluation

namespace Suite

section Judgements

variable (g : Condition ν → Except Fault (Verdict ν))

omit [Node ν] in
theorem forall₂_failures : ∀ cs : List (Condition ν),
    List.Forall₂ (fun c p => p.1 = c.name ∧ g c = .error p.2) (cs.filter fun c => !(g c).isOk)
      ((cs.map fun c => (c.name, g c)).filterMap failureOf?)
  | [] => .nil
  | c :: cs => by
    have ih := forall₂_failures cs
    rw [List.map_cons, List.filterMap_cons, List.filter_cons]
    rcases hc : g c with f | v
    · exact .cons ⟨rfl, hc⟩ ih
    · exact ih

omit [Node ν] in
theorem forall₂_verdicts : ∀ cs : List (Condition ν), (∀ c ∈ cs, ∃ v, g c = .ok v) →
    List.Forall₂ (fun c v => g c = .ok v) cs
      ((cs.map fun c => (c.name, g c)).filterMap verdictOf?)
  | [], _ => .nil
  | c :: cs, h => by
    obtain ⟨v, hv⟩ := h c List.mem_cons_self
    have ih := forall₂_verdicts cs fun c' hc' => h c' (List.mem_cons_of_mem _ hc')
    rw [List.map_cons, List.filterMap_cons, hv]
    exact .cons hv ih

end Judgements

variable {s s' : Suite ν} {inputs : List (Value ν)}

theorem judge_of_invalid (h : s.settings.maxDepth = 0) :
    s.judge inputs = .error (.invalidSettings "max_depth must be at least 1") := by
  simp [judge, Settings.validate, h, bind, Except.bind]

theorem judge_of_valid (h : 0 < s.settings.maxDepth) (inputs : List (Value ν)) :
    s.judge inputs =
      match (s.judgements inputs).filterMap failureOf? with
      | [] => .ok ⟨(s.judgements inputs).filterMap verdictOf?⟩
      | failures => .error (.conditionsFailed failures) := by
  have h0 : s.settings.maxDepth ≠ 0 := by omega
  simp only [judge, Settings.validate, h0, if_false]
  rfl

theorem judge_eq_ok (h : 0 < s.settings.maxDepth)
    (hok : ∀ c ∈ s.conditions, ∃ v, c.judge s.settings (.ofInputs inputs) = .ok v) :
    ∃ vs, s.judge inputs = .ok ⟨vs⟩ ∧
      List.Forall₂ (fun c v => c.judge s.settings (.ofInputs inputs) = .ok v) s.conditions vs := by
  have hfail := forall₂_failures (·.judge s.settings (.ofInputs inputs)) s.conditions
  have hnone : (s.conditions.filter fun c =>
      !(c.judge s.settings (.ofInputs inputs)).isOk) = [] := by
    refine List.filter_eq_nil_iff.2 fun c hc => ?_
    obtain ⟨v, hv⟩ := hok c hc
    simp [hv, Except.isOk, Except.toBool]
  rw [hnone, List.forall₂_nil_left_iff] at hfail
  have hj := judge_of_valid h inputs
  rw [judgements, hfail] at hj
  exact ⟨_, hj, forall₂_verdicts _ s.conditions hok⟩

theorem judge_eq_error (h : 0 < s.settings.maxDepth)
    (hf : ∃ c ∈ s.conditions, ∃ f, c.judge s.settings (.ofInputs inputs) = .error f) :
    ∃ failures, s.judge inputs = .error (.conditionsFailed failures) ∧
      List.Forall₂ (fun c p => p.1 = c.name ∧ c.judge s.settings (.ofInputs inputs) = .error p.2)
        (s.conditions.filter fun c => !(c.judge s.settings (.ofInputs inputs)).isOk) failures := by
  obtain ⟨c, hc, f, hf⟩ := hf
  have hfail := forall₂_failures (·.judge s.settings (.ofInputs inputs)) s.conditions
  have hsome : c ∈ s.conditions.filter fun c =>
      !(c.judge s.settings (.ofInputs inputs)).isOk := by
    simp [hc, hf, Except.isOk, Except.toBool]
  have hj := judge_of_valid h inputs
  rcases hl : (s.judgements inputs).filterMap failureOf? with _ | ⟨p, ps⟩
  · rw [judgements] at hl
    rw [hl, List.forall₂_nil_right_iff] at hfail
    rw [hfail] at hsome
    cases hsome
  · rw [hl] at hj
    refine ⟨_, hj, ?_⟩
    rw [← hl]
    exact hfail

theorem run_congr (hc : s.conditions = s'.conditions) (hs : s.settings = s'.settings) :
    s.run inputs = s'.run inputs := by
  have hj : s.judge inputs = s'.judge inputs := by
    simp only [judge, judgements, hc, hs]
  unfold run
  rw [hj]
  split
  · simp [hc, hs]
  · simp [hc, hs]

theorem conditions_run : (s.run inputs).1.conditions = s.conditions := by
  unfold run
  split <;> rfl

theorem settings_run : (s.run inputs).1.settings = s.settings := by
  unfold run
  split <;> rfl

theorem run_of_ok {o : Outcome ν} (h : s.judge inputs = .ok o) :
    (s.run inputs).2 = .ok () ∧ (s.run inputs).1.outcome = .ok o := by
  unfold run
  rw [h]
  exact ⟨rfl, rfl⟩

theorem run_of_error {f : Fault} (h : s.judge inputs = .error f) :
    (s.run inputs).2 = .error f ∧ (s.run inputs).1.outcome = .error .queryBeforeEvaluation := by
  unfold run
  rw [h]
  exact ⟨rfl, rfl⟩

theorem answered_run (s : Suite ν) (inputs : List (Value ν)) :
    Answered s.conditions s.settings inputs (s.run inputs) where
  conditions_eq := conditions_run
  settings_eq := settings_run
  passed := by
    intro hd hok
    obtain ⟨vs, hj, hvs⟩ := judge_eq_ok hd hok
    obtain ⟨hreply, hout⟩ := run_of_ok hj
    exact ⟨hreply, _, hout, hvs, List.all_eq_true⟩
  failed := by
    intro hd hf
    obtain ⟨failures, hj, hfs⟩ := judge_eq_error hd hf
    obtain ⟨hreply, hout⟩ := run_of_error hj
    exact ⟨hout, failures, hreply, hfs⟩
  invalid := fun h => run_of_error (judge_of_invalid h)

/-! ## Runs -/

/-- The suite and the reply after each of some calls. -/
def trace : Suite ν → List (List (Value ν)) → List (Suite ν × Except Fault Unit)
  | _, [] => []
  | s, inputs :: calls => s.run inputs :: (s.run inputs).1.trace calls

theorem trace_eq_map : ∀ (calls : List (List (Value ν))) {s s' : Suite ν},
    s.conditions = s'.conditions → s.settings = s'.settings →
    s.trace calls = calls.map s'.run
  | [], _, _, _, _ => rfl
  | inputs :: calls, s, s', hc, hs => by
    have hrest : (s'.run inputs).1.trace calls = calls.map s'.run :=
      trace_eq_map calls conditions_run settings_run
    rw [trace, List.map_cons, run_congr hc hs, hrest]

/-- Every call of a run does what it would have done as the first call, and what it does is told by
the conditions evaluated alone. -/
theorem trace_answered (conditions : List (Condition ν)) (settings : Settings)
    (calls : List (List (Value ν))) :
    ({ conditions, settings } : Suite ν).trace calls
        = calls.map ({ conditions, settings } : Suite ν).run
      ∧ List.Forall₂ (Answered conditions settings) calls
          (({ conditions, settings } : Suite ν).trace calls) := by
  have hmap : ({ conditions, settings } : Suite ν).trace calls
      = calls.map ({ conditions, settings } : Suite ν).run := trace_eq_map calls rfl rfl
  refine ⟨hmap, ?_⟩
  rw [hmap, List.forall₂_map_right_iff, List.forall₂_same]
  exact fun inputs _ => answered_run { conditions, settings } inputs

/-- A call without inputs fails, and leaves no trace in the call after it. -/
example :
    (({ conditions := [⟨"red", sampleRule⟩, ⟨"seen", .input 1⟩] } : Suite PageElement).trace
      [sampleInputs, [], sampleInputs]).map (fun r => (r.2.isOk, r.1.outcome.isOk))
      = [(true, true), (false, false), (true, true)] := by
  decide +kernel

end Suite

end Testimony
