import Mathlib.Algebra.FreeMonoid.Basic
import Testimony.Proofs.Path

/-!
# Paths are a free monoid

A path is written as its proper steps, or as `itself` alone if it has none (`steps_eq`). Every
operation on paths is one on the lists of proper steps, so that whatever way a path is built, its
proper steps are those that were named on the way, in order (`Construction.proper_path`).

So composing paths is appending words: paths are a monoid, and the free one on the steps that go
somewhere (`freeEquiv`). `paths_are_words` puts the laws together.
-/

namespace Testimony.Path

variable {p : Path} {steps : List Step} {step : Step}

/-! ## How a path is written -/

theorem ne_itself_of_mem_proper (h : step ∈ p.proper) : step ≠ .itself := by
  simpa using (List.mem_filter.1 h).2

theorem steps_eq (p : Path) : p.steps = if p.proper = [] then [.itself] else p.proper := by
  split_ifs with h
  · rw [proper_eq_nil.1 h]
    rfl
  · exact steps_eq_proper fun ht => h (proper_eq_nil.2 ht)

/-- A list of steps that go somewhere is the path along them. -/
theorem proper_ofSteps_eq_self (h : .itself ∉ steps) : (ofSteps steps).proper = steps := by
  rw [proper_ofSteps, List.filter_eq_self]
  intro step hstep
  rw [bne_iff_ne]
  rintro rfl
  exact h hstep

theorem ofSteps_proper (p : Path) : ofSteps p.proper = p :=
  eq_of_proper_eq (proper_ofSteps_eq_self fun h => ne_itself_of_mem_proper h rfl)

/-! ## Laws -/

theorem extend_eq_compose (p : Path) (step : Step) : p.extend step = p.compose (single step) := by
  apply eq_of_proper_eq
  rw [proper_extend_eq, proper_compose, single, proper_ofSteps]

theorem ofSteps_append (l l' : List Step) :
    ofSteps (l ++ l') = (ofSteps l).compose (ofSteps l') := by
  apply eq_of_proper_eq
  rw [proper_compose, proper_ofSteps, proper_ofSteps, proper_ofSteps, List.filter_append]

theorem compose_assoc (p q r : Path) : (p.compose q).compose r = p.compose (q.compose r) := by
  apply eq_of_proper_eq
  simp only [proper_compose, List.append_assoc]

theorem trivial_compose (p : Path) : trivial.compose p = p := by
  apply eq_of_proper_eq
  rw [proper_compose, proper_trivial, List.nil_append]

instance : Monoid Path where
  mul := compose
  mul_assoc := compose_assoc
  one := trivial
  one_mul := trivial_compose
  mul_one := compose_trivial

/-- The steps that go somewhere. -/
abbrev ProperStep := {step : Step // step ≠ .itself}

/-- The proper steps of a path, as a word. -/
def word (p : Path) : FreeMonoid ProperStep :=
  .ofList (p.proper.attachWith (· ≠ .itself) fun _ => ne_itself_of_mem_proper)

theorem map_word (p : Path) : p.word.toList.map Subtype.val = p.proper :=
  List.attachWith_map_subtype_val _

theorem eq_of_map_word_eq {w w' : FreeMonoid ProperStep}
    (h : w.toList.map Subtype.val = w'.toList.map Subtype.val) : w = w' :=
  FreeMonoid.toList.injective (List.map_injective_iff.2 Subtype.val_injective h)

/-- A path is the word of its proper steps. -/
def freeEquiv : Path ≃* FreeMonoid ProperStep where
  toFun := word
  invFun w := ofSteps (w.toList.map Subtype.val)
  left_inv p := by
    dsimp only
    rw [map_word, ofSteps_proper]
  right_inv w := by
    apply eq_of_map_word_eq
    rw [map_word, proper_ofSteps_eq_self]
    simp
  map_mul' p q := by
    apply eq_of_map_word_eq
    rw [FreeMonoid.toList_mul, List.map_append, map_word, map_word, map_word]
    exact proper_compose p q

/-! ## Building paths -/

/-- A way to build a path. -/
inductive Construction where
  | default
  | trivial
  | single (step : Step)
  | ofSteps (steps : List Step)
  | compose (first second : Construction)
  | extend (before : Construction) (step : Step)

namespace Construction

def path : Construction → Path
  | default => Inhabited.default
  | trivial => .trivial
  | single step => .single step
  | ofSteps steps => .ofSteps steps
  | compose first second => first.path.compose second.path
  | extend before step => before.path.extend step

/-- The steps that are named on the way. -/
def named : Construction → List Step
  | default | trivial => []
  | single step => [step]
  | ofSteps steps => steps
  | compose first second => first.named ++ second.named
  | extend before step => before.named ++ [step]

/-- A path has the proper steps that were named when it was built, however that was. -/
theorem proper_path : ∀ c : Construction, c.path.proper = c.named.filter (· != .itself)
  | default | trivial => rfl
  | single _ | ofSteps _ => proper_ofSteps _
  | compose first second => by
    rw [path, proper_compose, proper_path first, proper_path second, named, List.filter_append]
  | extend before step => by
    rw [path, proper_extend_eq, proper_path before, named, List.filter_append]

/-- The lists that some path is written as. -/
theorem exists_steps_eq : (∃ c : Construction, c.path.steps = steps) ↔
    steps = [.itself] ∨ steps ≠ [] ∧ .itself ∉ steps := by
  constructor
  · rintro ⟨c, rfl⟩
    rw [steps_eq, proper_path]
    split_ifs with h
    · exact .inl rfl
    · refine .inr ⟨h, ?_⟩
      simp
  · rintro (rfl | ⟨hne, hproper⟩)
    · exact ⟨trivial, rfl⟩
    · refine ⟨ofSteps steps, ?_⟩
      rw [path, steps_eq, proper_ofSteps_eq_self hproper, if_neg hne]

end Construction

/-- A path is a word of steps that go somewhere. The trivial path, which is written as `itself`, is
the empty word, and composing is appending. -/
theorem paths_are_words :
    (∀ l, (∃ c : Construction, c.path.steps = l) ↔ l = [.itself] ∨ l ≠ [] ∧ .itself ∉ l)
      ∧ (∀ l, (ofSteps l).proper = l.filter (· != .itself))
      ∧ (∀ p q : Path, (p.compose q).proper = p.proper ++ q.proper)
      ∧ (∀ (p : Path) (step : Step), p.extend step = p.compose (single step))
      ∧ (∀ l l', ofSteps (l ++ l') = (ofSteps l).compose (ofSteps l'))
      ∧ (∀ p q : Path, p == q ↔ p.proper = q.proper)
      ∧ (∀ p q r : Path, (p.compose q).compose r = p.compose (q.compose r))
      ∧ (∀ p : Path, trivial.compose p = p ∧ p.compose trivial = p)
      ∧ ∃ e : Path ≃* FreeMonoid ProperStep, ∀ p, (e p).toList.map Subtype.val = p.proper := by
  refine ⟨fun _ => Construction.exists_steps_eq, proper_ofSteps, proper_compose, extend_eq_compose,
    ofSteps_append, fun p q => ?_, compose_assoc, fun p => ⟨trivial_compose p, compose_trivial p⟩,
    freeEquiv, map_word⟩
  rw [beq_iff_eq]
  exact ⟨fun h => by rw [h], eq_of_proper_eq⟩

end Testimony.Path
