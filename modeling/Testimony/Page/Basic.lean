import Testimony.Page.Element

/-!
# Pages

A page keeps its elements in one array, in document order, so that the elements below an element
stand right behind it, up to where its subtree stops. Each knows its parent, which stands before
it; that is why climbing from parent to parent ends.
-/

namespace Testimony

/-- An element at its place in a page. -/
structure Page.Entry where
  element : Element
  parent : Option Nat
  /-- The position after the last element below this one. -/
  stop : Nat

structure Page where
  id : Nat
  entries : Array Page.Entry
  parent_lt : ∀ (i : Nat) (h : i < entries.size) (j : Nat), entries[i].parent = some j → j < i

namespace Page

/-! ### Laying out markup -/

mutual

/-- The entries of an element and all below it, the first at position `start`. -/
def layOut : Markup → (parent : Option Nat) → (start : Nat) → List Entry
  | .node e cs, parent, start =>
    let below := layOutAll cs start (start + 1)
    ⟨e, parent, start + 1 + below.length⟩ :: below

/-- The entries of the children of the element at `parent`, one subtree after the other. -/
def layOutAll : List Markup → (parent start : Nat) → List Entry
  | [], _, _ => []
  | m :: ms, parent, start =>
    let first := layOut m (some parent) start
    first ++ layOutAll ms parent (start + first.length)

end

mutual

theorem parent_lt_of_layOut (m : Markup) (parent : Option Nat) (start : Nat)
    (hp : ∀ j, parent = some j → j < start) (k : Nat) (e : Entry)
    (hk : (layOut m parent start)[k]? = some e) (j : Nat) (hj : e.parent = some j) :
    j < start + k := by
  match m, k with
  | .node _ _, 0 =>
    simp only [layOut, List.getElem?_cons_zero, Option.some.injEq] at hk
    subst hk
    exact hp j hj
  | .node _ cs, k + 1 =>
    simp only [layOut, List.getElem?_cons_succ] at hk
    have := parent_lt_of_layOutAll cs start (start + 1) (Nat.lt_succ_self _) k e hk j hj
    omega

theorem parent_lt_of_layOutAll (ms : List Markup) (parent start : Nat) (hp : parent < start)
    (k : Nat) (e : Entry) (hk : (layOutAll ms parent start)[k]? = some e) (j : Nat)
    (hj : e.parent = some j) : j < start + k := by
  match ms with
  | [] => simp [layOutAll] at hk
  | m :: ms =>
    simp only [layOutAll, List.getElem?_append] at hk
    split at hk
    · refine parent_lt_of_layOut m (some parent) start ?_ k e hk j hj
      rintro _ ⟨⟩
      exact hp
    · have := parent_lt_of_layOutAll ms parent _ (Nat.lt_of_lt_of_le hp (Nat.le_add_right _ _))
        _ e hk j hj
      omega

end

/-- The page of a root element, known by the number `id`. -/
def ofMarkup (id : Nat) (root : Markup) : Page where
  id
  entries := (layOut root none 0).toArray
  parent_lt i h j hj := by
    have hi : (layOut root none 0)[i]? = some (layOut root none 0)[i] :=
      List.getElem?_eq_getElem (by simpa using h)
    simpa using parent_lt_of_layOut root none 0 (by simp) i _ hi j (by simpa using hj)

/-! ### Moving about -/

abbrev size (p : Page) : Nat := p.entries.size

def entry (p : Page) (i : Fin p.size) : Entry := p.entries[i]

def element (p : Page) (i : Fin p.size) : Element := (p.entry i).element

def parent? (p : Page) (i : Fin p.size) : Option (Fin p.size) :=
  match h : (p.entry i).parent with
  | none => none
  | some j => some ⟨j, Nat.lt_trans (p.parent_lt i.val i.isLt j h) i.isLt⟩

theorem lt_of_parent? {p : Page} {i j : Fin p.size} (h : p.parent? i = some j) : j < i := by
  unfold parent? at h
  split at h
  · simp at h
  · rename_i k hk
    simp only [Option.some.injEq] at h
    subst h
    exact p.parent_lt i.val i.isLt k hk

/-- The elements above an element, its parent first and the root last. -/
def ancestors (p : Page) (i : Fin p.size) : List (Fin p.size) :=
  match h : p.parent? i with
  | none => []
  | some j =>
    have := lt_of_parent? h
    j :: ancestors p j
termination_by i.val

end Page

end Testimony
