import Mathlib.Data.List.Induction
import Mathlib.Order.Interval.Set.Basic
import Testimony.Proofs.Addresses
import Testimony.Proofs.Ancestry

/-!
# How a page lays out markup

The entry of an element stands at the position of its address in document order, and what stands
below the element takes the positions right behind it. `Holds` says that a stretch of the entries
and a stretch of the addresses belong to one piece of the markup; the root has all of both
(`holds_root`), and if a piece has a stretch then each child has a stretch of that (`Holds.child`).
So every element has its own (`exists_holds`).

As the addresses in the stretch of an element are those that begin with its address
(`Holds.prefix_iff`), and the address of the parent is the one without the last number, ancestors
are the elements whose stretch a position lies in (`isAncestor_iff`). `laysOut_ofMarkup` puts this
together, and says that the entries come out the same if they are added one at a time and told
where they stop when all below them are there (`push`).
-/

namespace Testimony.Page

/-! ## Lengths -/

mutual

theorem length_layOut : ∀ (m : Markup) (parent : Option Nat) (start : Nat),
    (layOut m parent start).length = m.addresses.length
  | .node e cs, parent, start => by
    simp only [layOut, Markup.addresses, List.length_cons, length_layOutAll cs start (start + 1) 0]

theorem length_layOutAll : ∀ (ms : List Markup) (parent start k : Nat),
    (layOutAll ms parent start).length = (Markup.addressesAll ms k).length
  | [], _, _, _ => rfl
  | m :: ms, parent, start, k => by
    simp only [layOutAll, Markup.addressesAll, List.length_append, List.length_map,
      length_layOut m (some parent) start, length_layOutAll ms parent _ (k + 1)]

end

theorem layOutAll_append (ms ms' : List Markup) (parent start : Nat) :
    layOutAll (ms ++ ms') parent start = layOutAll ms parent start
      ++ layOutAll ms' parent (start + (layOutAll ms parent start).length) := by
  induction ms generalizing start with
  | nil => rfl
  | cons m ms ih =>
    simp only [List.cons_append, layOutAll, ih, List.append_assoc, List.length_append]
    rw [Nat.add_assoc]

theorem layOut_eq_cons (m : Markup) (parent : Option Nat) (start : Nat) :
    layOut m parent start
      = ⟨m.element, parent, start + m.addresses.length⟩
        :: layOutAll m.children start (start + 1) := by
  rcases m with ⟨e, cs⟩
  simp only [layOut, Markup.element, Markup.children, Markup.addresses, List.length_cons,
    length_layOutAll cs start (start + 1) 0]
  rw [Nat.add_right_comm, Nat.add_assoc]

/-! ## Stretches -/

/-- The first list stands in the second, from position `k` on. -/
def StandsAt {α : Type} (ys xs : List α) (k : Nat) : Prop :=
  ∃ before after, xs = before ++ (ys ++ after) ∧ before.length = k

section StandsAt

variable {α : Type} {x y : α} {xs ys zs before after : List α} {i k : Nat}

theorem standsAt_self (xs : List α) : StandsAt xs xs 0 := ⟨[], [], by simp, rfl⟩

theorem StandsAt.length_le (h : StandsAt ys xs k) : k + ys.length ≤ xs.length := by
  obtain ⟨before, after, rfl, rfl⟩ := h
  simp only [List.length_append]
  omega

theorem StandsAt.getElem? (h : StandsAt ys xs k) (hy : ys[i]? = some y) :
    xs[k + i]? = some y := by
  obtain ⟨before, after, rfl, rfl⟩ := h
  have hi : i < ys.length := (List.getElem?_eq_some_iff.1 hy).1
  rw [List.getElem?_append_right (Nat.le_add_right _ _), Nat.add_sub_cancel_left,
    List.getElem?_append_left hi, hy]

/-- Behind the first there is a part after `before`. -/
theorem StandsAt.behind (h : StandsAt (y :: (before ++ (zs ++ after))) xs k) :
    StandsAt zs xs (k + 1 + before.length) := by
  obtain ⟨front, back, rfl, rfl⟩ := h
  refine ⟨front ++ y :: before, after ++ back, by simp, ?_⟩
  rw [List.length_append, List.length_cons]
  omega

theorem exists_split_of_getElem? (h : xs[i]? = some x) :
    ∃ before after, xs = before ++ x :: after ∧ before.length = i := by
  obtain ⟨hi, rfl⟩ := List.getElem?_eq_some_iff.1 h
  refine ⟨xs.take i, xs.drop (i + 1), ?_, List.length_take_of_le (Nat.le_of_lt hi)⟩
  rw [← List.drop_eq_getElem_cons hi, List.take_append_drop]

end StandsAt

/-- What stands at the address has the entries from position `k` on, as many as it has addresses. -/
structure Holds (root : Markup) (a : List Nat) (m : Markup) (k : Nat) (parent : Option Nat) :
    Prop where
  here : root.at? a = some m
  addresses : StandsAt (m.addresses.map (a ++ ·)) root.addresses k
  entries : StandsAt (layOut m parent k) (layOut root none 0) k

variable {root m c : Markup} {a b : List Nat} {i j k : Nat} {parent : Option Nat}

theorem holds_root (root : Markup) : Holds root [] root 0 none where
  here := rfl
  addresses := by simpa using standsAt_self root.addresses
  entries := standsAt_self _

/-- A child has a part of the stretch, behind the element itself and the earlier children. -/
theorem Holds.child (h : Holds root a m k parent) (hc : m.children[i]? = some c) :
    ∃ l, k < l ∧ Holds root (a ++ [i]) c l (some k) := by
  have hhere : root.at? (a ++ [i]) = some c := Markup.at?_concat.2 ⟨m, h.here, hc⟩
  obtain ⟨cs, ds, hm, rfl⟩ := exists_split_of_getElem? hc
  refine ⟨k + 1 + (layOutAll cs k (k + 1)).length, by omega, hhere, ?_, ?_⟩
  · have haddresses := h.addresses
    rw [m.addresses_eq_cons, hm, Markup.addressesAll_append, Markup.addressesAll] at haddresses
    simp only [List.map_cons, List.map_append, List.map_map] at haddresses
    have hbehind := haddresses.behind
    rw [List.length_map, ← length_layOutAll cs k (k + 1) 0] at hbehind
    simpa [Function.comp_def] using hbehind
  · have hentries := h.entries
    rw [layOut_eq_cons, hm, layOutAll_append, layOutAll] at hentries
    exact hentries.behind

section Positions

variable (h : Holds root a m k parent)
include h

theorem Holds.getElem?_addresses (hb : m.addresses[j]? = some b) :
    root.addresses[k + j]? = some (a ++ b) := by
  refine h.addresses.getElem? ?_
  rw [List.getElem?_map, hb, Option.map_some]

theorem Holds.address : root.addresses[k]? = some a := by
  have hnil : m.addresses[0]? = some [] := by
    rw [m.addresses_eq_cons]
    rfl
  simpa using h.getElem?_addresses hnil

theorem Holds.entry :
    (layOut root none 0)[k]? = some ⟨m.element, parent, k + m.addresses.length⟩ := by
  refine h.entries.getElem? (i := 0) ?_
  rw [layOut_eq_cons, List.getElem?_cons_zero]

/-- The addresses in the stretch are those that begin with the address of the element. -/
theorem Holds.prefix_iff (hb : root.addresses[j]? = some b) :
    a <+: b ↔ k ≤ j ∧ j < k + m.addresses.length := by
  constructor
  · rintro ⟨b, rfl⟩
    obtain ⟨c, hc⟩ := (Markup.mem_addresses root (a ++ b)).1 (List.mem_of_getElem? hb)
    rw [Markup.at?_append, h.here, Option.bind_some] at hc
    obtain ⟨l, hl⟩ := List.getElem?_of_mem ((Markup.mem_addresses m b).2 ⟨c, hc⟩)
    have hlt : l < m.addresses.length := (List.getElem?_eq_some_iff.1 hl).1
    have hj : j < root.addresses.length := (List.getElem?_eq_some_iff.1 hb).1
    have hjl : j = k + l := by
      rw [← List.getElem?_inj hj root.nodup_addresses, hb, h.getElem?_addresses hl]
    omega
  · rintro ⟨hle, hlt⟩
    obtain ⟨l, rfl⟩ := Nat.exists_eq_add_of_le hle
    have hl : l < m.addresses.length := by omega
    rw [h.getElem?_addresses (List.getElem?_eq_getElem hl), Option.some.injEq] at hb
    exact ⟨_, hb⟩

end Positions

/-- What stands at an address has a stretch, and its parent is the element one number short. -/
theorem exists_holds (h : root.at? a = some m) :
    ∃ k parent, Holds root a m k parent ∧ (a = [] ∧ parent = none
      ∨ a ≠ [] ∧ ∃ j, parent = some j ∧ j < k ∧ root.addresses[j]? = some a.dropLast) := by
  induction a using List.reverseRecOn generalizing m with
  | nil =>
    cases h
    exact ⟨0, none, holds_root root, .inl ⟨rfl, rfl⟩⟩
  | append_singleton a i ih =>
    obtain ⟨p, hp, hc⟩ := Markup.at?_concat.1 h
    obtain ⟨k, parent, hk, -⟩ := ih hp
    obtain ⟨l, hl, hchild⟩ := hk.child hc
    refine ⟨l, some k, hchild, .inr ⟨by simp, k, rfl, hl, ?_⟩⟩
    rw [List.dropLast_concat]
    exact hk.address

/-! ## Pages -/

section Parents

variable {p : Page} {x y : Fin p.size}

theorem parent?_eq_none : p.parent? x = none ↔ (p.entry x).parent = none := by
  unfold parent?
  split <;> simp_all

theorem parent?_eq_some : p.parent? x = some y ↔ (p.entry x).parent = some y.val := by
  unfold parent?
  split <;> simp_all [Fin.ext_iff]

end Parents

section OfMarkup

variable {id : Nat} {x y : Fin (ofMarkup id root).size}

theorem size_ofMarkup : (ofMarkup id root).size = root.addresses.length := by
  simp [size, ofMarkup, length_layOut]

theorem getElem?_layOut (x : Fin (ofMarkup id root).size) :
    (layOut root none 0)[x.val]? = some ((ofMarkup id root).entry x) :=
  List.getElem?_eq_getElem (by simpa [size, ofMarkup] using x.isLt)

theorem eq_iff_of_addresses (hx : root.addresses[x.val]? = some a)
    (hy : root.addresses[y.val]? = some b) : x = y ↔ a = b := by
  have hlt : x.val < root.addresses.length := (List.getElem?_eq_some_iff.1 hx).1
  rw [Fin.ext_iff, ← List.getElem?_inj hlt root.nodup_addresses, hx, hy, Option.some.injEq]

/-- The element at a position, with its address and its parent. -/
theorem exists_holds_at (x : Fin (ofMarkup id root).size) :
    ∃ a m parent, Holds root a m x parent ∧
      (ofMarkup id root).entry x = ⟨m.element, parent, x + m.addresses.length⟩ ∧
      (a = [] ∧ parent = none
        ∨ a ≠ [] ∧ ∃ j, parent = some j ∧ j < x.val ∧ root.addresses[j]? = some a.dropLast) := by
  have hx : x.val < root.addresses.length := Nat.lt_of_lt_of_eq x.isLt size_ofMarkup
  obtain ⟨m, hm⟩ := (Markup.mem_addresses root _).1 (List.getElem_mem hx)
  obtain ⟨k, parent, hk, hparent⟩ := exists_holds hm
  obtain rfl : x.val = k := by
    rw [← List.getElem?_inj hx root.nodup_addresses, hk.address, List.getElem?_eq_getElem hx]
  refine ⟨_, m, parent, hk, ?_, hparent⟩
  have hentry := hk.entry
  rw [getElem?_layOut] at hentry
  exact Option.some.inj hentry

theorem element_ofMarkup (hx : root.addresses[x.val]? = some a) (hm : root.at? a = some m) :
    (ofMarkup id root).element x = m.element := by
  obtain ⟨a', m', parent, h, hentry, -⟩ := exists_holds_at x
  obtain rfl : a' = a := Option.some.inj (h.address.symm.trans hx)
  obtain rfl : m' = m := Option.some.inj (h.here.symm.trans hm)
  exact congrArg Entry.element hentry

/-- The root has no parent, and the parent of any other element is the one number short. -/
theorem parent?_ofMarkup (hx : root.addresses[x.val]? = some a) :
    a = [] ∧ (ofMarkup id root).parent? x = none
      ∨ a ≠ [] ∧ ∃ y, (ofMarkup id root).parent? x = some y
        ∧ root.addresses[y.val]? = some a.dropLast := by
  obtain ⟨a', m, parent, h, hentry, hparent⟩ := exists_holds_at x
  obtain rfl : a' = a := Option.some.inj (h.address.symm.trans hx)
  rcases hparent with ⟨ha, rfl⟩ | ⟨ha, j, rfl, hj, hdrop⟩
  · refine .inl ⟨ha, ?_⟩
    rw [parent?_eq_none, hentry]
  · refine .inr ⟨ha, ⟨j, hj.trans x.isLt⟩, ?_, hdrop⟩
    rw [parent?_eq_some, hentry]

theorem prefix_dropLast_iff {a b : List Nat} (hb : b ≠ []) :
    a <+: b.dropLast ↔ a ≠ b ∧ a <+: b := by
  obtain ⟨b, i, rfl⟩ := b.eq_nil_or_concat'.resolve_left hb
  rw [List.dropLast_concat, List.prefix_concat_iff]
  constructor
  · intro h
    refine ⟨?_, .inr h⟩
    rintro rfl
    have hle := h.length_le
    simp only [List.length_append, List.length_singleton] at hle
    omega
  · rintro ⟨hne, ha | h⟩
    · exact absurd ha hne
    · exact h

/-- The address of an ancestor begins the address of the element. -/
theorem isAncestor_iff_address (hx : root.addresses[x.val]? = some a)
    (hy : root.addresses[y.val]? = some b) :
    (ofMarkup id root).IsAncestor x y ↔ a ≠ b ∧ a <+: b := by
  induction y using climb generalizing b with
  | root y hroot =>
    rcases parent?_ofMarkup hy with ⟨rfl, -⟩ | ⟨-, z, hz, -⟩
    · simp [not_isAncestor_root hroot]
    · rw [hroot] at hz
      cases hz
  | child z y hz ih =>
    rcases parent?_ofMarkup hy with ⟨-, hroot⟩ | ⟨hb, z', hz', hdrop⟩
    · rw [IsParent, hroot] at hz
      cases hz
    · rw [IsParent, hz', Option.some.injEq] at hz
      subst hz
      have hparent : x = z' ↔ a = b.dropLast := eq_iff_of_addresses hx hdrop
      rw [IsParent.isAncestor_iff hz', ih hdrop, hparent, ← prefix_dropLast_iff hb]
      constructor
      · rintro (rfl | ⟨-, h⟩)
        · exact List.prefix_rfl
        · exact h
      · intro h
        by_cases ha : a = b.dropLast
        · exact .inl ha
        · exact .inr ⟨ha, h⟩

/-- The elements below an element are those in the rest of its stretch. -/
theorem isAncestor_iff :
    (ofMarkup id root).IsAncestor x y ↔ x < y ∧ y < ((ofMarkup id root).entry x).stop := by
  obtain ⟨a, m, parent, hx, hentry, -⟩ := exists_holds_at x
  obtain ⟨b, _, _, hy, -, -⟩ := exists_holds_at y
  have hne : x = y ↔ a = b := eq_iff_of_addresses hx.address hy.address
  rw [isAncestor_iff_address hx.address hy.address, hx.prefix_iff hy.address, hentry, ne_eq,
    ← hne]
  simp only [Fin.ext_iff, Fin.lt_def]
  omega

theorem stop_le_size : ((ofMarkup id root).entry x).stop ≤ (ofMarkup id root).size := by
  obtain ⟨a, m, parent, h, hentry, -⟩ := exists_holds_at x
  have hle := h.addresses.length_le
  rw [List.length_map] at hle
  rw [size_ofMarkup, hentry]
  exact hle

/-- The positions of an element and of all below it. -/
def span (p : Page) (x : Fin p.size) : Set Nat := Set.Ico x.val (p.entry x).stop

/-- A span that begins within another ends within it too. -/
theorem span_subset_span (hxy : x.val ≤ y.val) (hy : y < ((ofMarkup id root).entry x).stop) :
    (ofMarkup id root).span y ⊆ (ofMarkup id root).span x := by
  refine Set.Ico_subset_Ico hxy (Nat.le_of_not_lt fun hlt => ?_)
  -- the position where the outer span stops would lie in the inner one
  have hz : ((ofMarkup id root).entry x).stop < (ofMarkup id root).size :=
    Nat.lt_of_lt_of_le hlt stop_le_size
  have hyz : (ofMarkup id root).IsAncestor y ⟨_, hz⟩ := isAncestor_iff.2 ⟨hy, hlt⟩
  have hxz : (ofMarkup id root).IsAncestor x ⟨_, hz⟩ := by
    rcases Nat.eq_or_lt_of_le hxy with heq | hxy
    · obtain rfl : x = y := Fin.ext heq
      exact hyz
    · exact (isAncestor_iff.2 ⟨hxy, hy⟩).trans hyz
  exact absurd (isAncestor_iff.1 hxz).2 (Nat.lt_irrefl _)

theorem span_nested_or_disjoint (x y : Fin (ofMarkup id root).size) :
    (ofMarkup id root).span x ⊆ (ofMarkup id root).span y
      ∨ (ofMarkup id root).span y ⊆ (ofMarkup id root).span x
      ∨ (ofMarkup id root).span x ∩ (ofMarkup id root).span y = ∅ := by
  wlog hxy : x.val ≤ y.val generalizing x y
  · rcases this y x (Nat.le_of_not_le hxy) with h | h | h
    · exact .inr (.inl h)
    · exact .inl h
    · exact .inr (.inr ((Set.inter_comm _ _).trans h))
  by_cases hy : y < ((ofMarkup id root).entry x).stop
  · exact .inr (.inl (span_subset_span hxy hy))
  · refine .inr (.inr (Set.eq_empty_of_forall_notMem ?_))
    rintro z ⟨hzx, hzy⟩
    exact hy (Nat.lt_of_le_of_lt hzy.1 hzx.2)

end OfMarkup

/-! ## One entry at a time -/

mutual

/-- Adds the entry of an element, and all below it behind that. Where the element stops is known
only then and filled in. -/
def push : Array Entry → Markup → (parent : Option Nat) → Array Entry
  | es, .node e cs, parent =>
    let below := pushAll (es.push ⟨e, parent, es.size + 1⟩) cs es.size
    below.modify es.size fun entry => { entry with stop := below.size }

def pushAll : Array Entry → List Markup → (parent : Nat) → Array Entry
  | es, [], _ => es
  | es, m :: ms, parent => pushAll (push es m (some parent)) ms parent

end

theorem modify_append_cons {α : Type} (xs ys : List α) (x : α) (f : α → α) :
    (xs ++ x :: ys).modify xs.length f = xs ++ f x :: ys := by
  simp [List.modify_eq_take_cons_drop]

mutual

theorem toList_push : ∀ (m : Markup) (es : Array Entry) (parent : Option Nat),
    (push es m parent).toList = es.toList ++ layOut m parent es.size
  | .node e cs, es, parent => by
    have hbelow : (pushAll (es.push ⟨e, parent, es.size + 1⟩) cs es.size).toList
        = es.toList ++ ⟨e, parent, es.size + 1⟩ :: layOutAll cs es.size (es.size + 1) := by
      rw [toList_pushAll cs, Array.size_push, Array.toList_push, List.append_assoc]
      rfl
    have hsize : (pushAll (es.push ⟨e, parent, es.size + 1⟩) cs es.size).size
        = es.size + 1 + (layOutAll cs es.size (es.size + 1)).length := by
      rw [← Array.length_toList, hbelow, List.length_append, List.length_cons, Array.length_toList]
      omega
    rw [push, Array.toList_modify, hbelow, hsize, ← Array.length_toList, modify_append_cons, layOut]

theorem toList_pushAll : ∀ (ms : List Markup) (es : Array Entry) (parent : Nat),
    (pushAll es ms parent).toList = es.toList ++ layOutAll ms parent es.size
  | [], es, parent => by simp [pushAll, layOutAll]
  | m :: ms, es, parent => by
    have hm := toList_push m es (some parent)
    have hsize : (push es m (some parent)).size
        = es.size + (layOut m (some parent) es.size).length := by
      rw [← Array.length_toList, hm, List.length_append, Array.length_toList]
    rw [pushAll, toList_pushAll ms, hm, hsize, layOutAll, List.append_assoc]

end

/-! ## The layout as a whole -/

mutual

theorem map_element_layOut : ∀ (m : Markup) (parent : Option Nat) (start : Nat),
    (layOut m parent start).map Entry.element = m.preorder
  | .node e cs, parent, start => by
    rw [layOut, List.map_cons, map_element_layOutAll cs, Markup.preorder]

theorem map_element_layOutAll : ∀ (ms : List Markup) (parent start : Nat),
    (layOutAll ms parent start).map Entry.element = Markup.preorderAll ms
  | [], _, _ => rfl
  | m :: ms, parent, start => by
    rw [layOutAll, List.map_append, map_element_layOut m, map_element_layOutAll ms,
      Markup.preorderAll]

end

/-- The page is the markup in document order. -/
structure LaysOut (p : Page) (root : Markup) : Prop where
  /-- The entries come about one at a time. -/
  pushed : p.entries = push #[] root none
  elements : p.entries.toList.map Entry.element = root.preorder
  /-- Positions are numbers of addresses, of which there is one for everything that stands in the
  markup, in lexicographic order. -/
  size : p.size = root.addresses.length
  order : root.addresses.Pairwise (List.Lex (· < ·))
  addresses : ∀ a, a ∈ root.addresses ↔ ∃ m, root.at? a = some m
  element : ∀ (x : Fin p.size) a, root.addresses[x.val]? = some a →
    ∃ m, root.at? a = some m ∧ p.element x = m.element
  /-- The parent stands earlier, at the address without the last number. -/
  parent : ∀ (x : Fin p.size) a, root.addresses[x.val]? = some a →
    a = [] ∧ p.parent? x = none
      ∨ a ≠ [] ∧ ∃ y < x, p.parent? x = some y ∧ root.addresses[y.val]? = some a.dropLast
  ancestor : ∀ x y : Fin p.size, p.IsAncestor x y ↔ x < y ∧ y < (p.entry x).stop
  spans : ∀ x y : Fin p.size,
    p.span x ⊆ p.span y ∨ p.span y ⊆ p.span x ∨ p.span x ∩ p.span y = ∅

theorem laysOut_ofMarkup (id : Nat) (root : Markup) : (ofMarkup id root).LaysOut root where
  pushed := by
    rw [← Array.toList_inj, toList_push]
    rfl
  elements := map_element_layOut root none 0
  size := size_ofMarkup
  order := root.pairwise_addresses
  addresses := root.mem_addresses
  element x a hx := by
    obtain ⟨a', m, parent, h, hentry, -⟩ := exists_holds_at x
    obtain rfl : a' = a := Option.some.inj (h.address.symm.trans hx)
    exact ⟨m, h.here, congrArg Entry.element hentry⟩
  parent x a hx := by
    refine (parent?_ofMarkup hx).imp_right fun ⟨ha, y, hy, hdrop⟩ => ?_
    exact ⟨ha, y, lt_of_parent? hy, hy, hdrop⟩
  ancestor _ _ := isAncestor_iff
  spans := span_nested_or_disjoint

/-- The third element holds the two behind it, and the last is back at the root. -/
example :
    (layOut (.node (.ofTag "body") [.node (.ofTag "h1") [],
      .node (.ofTag "div") [.node (.ofTag "p") [], .node (.ofTag "p") []],
      .node (.ofTag "h2") []]) none 0).map (fun entry => (entry.parent, entry.stop))
      = [(none, 6), (some 0, 2), (some 0, 5), (some 2, 4), (some 2, 5), (some 0, 6)] := by
  rfl

end Testimony.Page
