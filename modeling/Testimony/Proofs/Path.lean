import Mathlib.Tactic.ByContra
import Testimony.Path

/-!
# Paths by their proper steps

A path is known by its proper steps: two with the same ones are equal (`eq_of_proper_eq`), the
trivial path is the one that has none (`proper_eq_nil`), and every other path is written as them
(`steps_eq_proper`). So a law about paths is a law about lists of proper steps.
-/

namespace Testimony.Path

variable {p q : Path} {step : Step}

theorem eq_of_steps_eq (h : p.steps = q.steps) : p = q := by
  rcases p with ⟨ps, hp⟩
  rcases q with ⟨qs, hq⟩
  cases h
  rfl

theorem steps_eq_proper (h : p ≠ trivial) : p.steps = p.proper := by
  rcases p.canonical with ht | ⟨-, hp⟩
  · exact absurd (eq_of_steps_eq ht) h
  · refine (List.filter_eq_self.2 fun step hs => ?_).symm
    rw [bne_iff_ne]
    rintro rfl
    exact hp hs

theorem proper_eq_nil : p.proper = [] ↔ p = trivial := by
  constructor
  · intro h
    by_contra ht
    rw [← steps_eq_proper ht] at h
    exact p.steps_ne_nil h
  · rintro rfl
    exact proper_trivial

theorem eq_of_proper_eq (h : p.proper = q.proper) : p = q := by
  by_cases hp : p = trivial
  · rw [hp, proper_trivial] at h
    rw [hp, proper_eq_nil.1 h.symm]
  · have hq : q ≠ trivial := fun hq => hp (proper_eq_nil.1 (by rw [h, hq, proper_trivial]))
    exact eq_of_steps_eq (by rw [steps_eq_proper hp, steps_eq_proper hq, h])

/-! ## Operations -/

theorem proper_extend_eq (p : Path) (step : Step) :
    (p.extend step).proper = p.proper ++ [step].filter (· != .itself) := by
  rw [extend, proper_ofSteps, List.filter_append]
  rfl

theorem proper_extend (h : step ≠ .itself) : (p.extend step).proper = p.proper ++ [step] := by
  rw [extend, proper_ofSteps, List.filter_append]
  simp [proper, h]

theorem extend_itself (p : Path) : p.extend .itself = p := by
  apply eq_of_proper_eq
  rw [extend, proper_ofSteps, List.filter_append]
  simp [proper]

theorem compose_trivial (p : Path) : p.compose trivial = p := by
  apply eq_of_proper_eq
  rw [proper_compose, proper_trivial, List.append_nil]

end Testimony.Path
