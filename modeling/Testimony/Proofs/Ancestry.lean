import Mathlib.Logic.Relation
import Testimony.Page.Basic

/-!
# Ancestors in a page

An ancestor is reached by following parent links upwards, one or more of them. The list of the
elements above an element holds exactly its ancestors (`mem_ancestors`).
-/

namespace Testimony.Page

variable (p : Page)

/-- The first element is the parent of the second. -/
def IsParent (a x : Fin p.size) : Prop := p.parent? x = some a

/-- The first element is an ancestor of the second, reached by one or more parent links. -/
def IsAncestor : Fin p.size → Fin p.size → Prop := Relation.TransGen p.IsParent

variable {p} {a b x : Fin p.size}

theorem ancestors_of_root (h : p.parent? x = none) : p.ancestors x = [] := by
  rw [ancestors]
  split
  · rfl
  · rename_i hx
    rw [h] at hx
    cases hx

theorem IsParent.ancestors (h : p.IsParent a x) : p.ancestors x = a :: p.ancestors a := by
  unfold IsParent at h
  rw [Page.ancestors]
  split
  · rename_i hx
    rw [h] at hx
    cases hx
  · rename_i b hx
    rw [h] at hx
    cases hx
    rfl

/-- The ancestors of an element are its parent and the ancestors of that. -/
theorem IsParent.isAncestor_iff (h : p.IsParent a x) :
    p.IsAncestor b x ↔ b = a ∨ p.IsAncestor b a := by
  unfold IsAncestor
  rw [Relation.TransGen.tail'_iff]
  constructor
  · rintro ⟨a', hb, hx⟩
    unfold IsParent at h hx
    rw [h] at hx
    cases hx
    rcases Relation.reflTransGen_iff_eq_or_transGen.1 hb with rfl | hb
    · exact .inl rfl
    · exact .inr hb
  · rintro (rfl | hb)
    · exact ⟨b, .refl, h⟩
    · exact ⟨a, hb.to_reflTransGen, h⟩

theorem not_isAncestor_root (h : p.parent? x = none) : ¬ p.IsAncestor a x := by
  unfold IsAncestor
  rw [Relation.TransGen.tail'_iff]
  rintro ⟨b, -, hx⟩
  unfold IsParent at hx
  rw [h] at hx
  cases hx

/-- What holds of the root and passes from a parent to its children holds of every element. -/
theorem climb {motive : Fin p.size → Prop} (root : ∀ x, p.parent? x = none → motive x)
    (child : ∀ a x, p.IsParent a x → motive a → motive x) (x : Fin p.size) : motive x := by
  rcases hx : p.parent? x with _ | a
  · exact root x hx
  · have ha : a < x := lt_of_parent? hx
    exact child a x hx (climb root child a)
termination_by x.val

theorem mem_ancestors : a ∈ p.ancestors x ↔ p.IsAncestor a x := by
  induction x using climb with
  | root x hx => simp [ancestors_of_root hx, not_isAncestor_root hx]
  | child b x hb ih => rw [hb.ancestors, hb.isAncestor_iff, List.mem_cons, ih]

instance : DecidableRel p.IsAncestor := fun _ _ => decidable_of_iff _ mem_ancestors

end Testimony.Page
