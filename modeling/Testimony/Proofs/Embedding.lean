import Mathlib.Data.List.Sort
import Testimony.Proofs.ComputedStyle
import Testimony.Proofs.ScopedQuery

/-!
# A page within a page

Markup that stands in other markup is a page of its own, and its elements are elements of the larger
page, with the same parents except that the root may have one there (`Embeds`). An embedding keeps
ancestors (`Embeds.isAncestor`) and so keeps what a selector describes (`Embeds.describes`). The
larger page has more ancestors to offer, so it may describe more; it does not where no combinator
asks for them (`Embeds.describedAt_eq`). A computed style is kept where nothing is taken over from
above the root: `Embeds.style?_of_not_inherited`, `Embeds.style?_of_inherited`.

In document order the elements of the piece stand in a row behind its root. So `embeds_ofMarkup`
gives the embedding by adding positions, and it takes the elements below one root to those below
the other (`subtree_embeds`).
-/

namespace Testimony.Page

/-- Each element of the first page has a place in the second, where it states the same and has the
same parent. -/
structure Embeds (p q : Page) (place : Fin p.size → Fin q.size) : Prop where
  element : ∀ j, q.element (place j) = p.element j
  parent : ∀ a j, p.IsParent a j → q.IsParent (place a) (place j)

namespace Embeds

variable {p q : Page} {place : Fin p.size → Fin q.size} (h : p.Embeds q place)
include h

/-! ## What selectors describe -/

section Selectors

variable {a j : Fin p.size} {s : Selector}

theorem isAncestor (ha : p.IsAncestor a j) : q.IsAncestor (place a) (place j) :=
  Relation.TransGen.lift place h.parent _ _ ha

theorem joins {k : Combinator} (ha : k.Joins p a j) : k.Joins q (place a) (place j) := by
  cases k with
  | descendant => exact h.isAncestor ha
  | child => exact h.parent a j ha

/-- The elements for the compounds have their places in the larger page. -/
theorem describes {c : Complex} (hc : c.Describes p j) : c.Describes q (place j) := by
  obtain ⟨e, rfl, hcompounds, hjoins⟩ := hc
  refine ⟨fun i => place (e i), rfl, fun i c hi => ?_, fun i k hi => h.joins (hjoins i k hi)⟩
  rw [h.element]
  exact hcompounds i c hi

theorem describedAt (hs : p.describedAt s j = true) : q.describedAt s (place j) = true := by
  rw [describedAt_iff] at hs ⊢
  obtain ⟨c, hc, hj⟩ := hs
  exact ⟨c, hc, h.describes hj⟩

/-- A single compound does not look at other elements. -/
theorem describedAt_eq (hs : ∀ c ∈ s.alternatives, c.combinators = []) :
    q.describedAt s (place j) = p.describedAt s j := by
  rw [Bool.eq_iff_iff, describedAt_iff, describedAt_iff]
  refine exists_congr fun c => and_congr_right fun hc => ?_
  obtain ⟨head, tail⟩ := c
  obtain rfl : tail = [] := by simpa [Complex.combinators] using hs _ hc
  rw [Complex.describes_nil, Complex.describes_nil, h.element]

end Selectors

/-! ## Computed styles -/

section Styles

variable {j : Fin p.size} {property : String}

theorem style?_of_not_inherited (hi : Style.isInherited property.toLower = false) :
    q.style? (place j) property = p.style? j property := by
  have helement := h.element j
  rcases hj : (p.element j).inline? property.toLower with _ | value
  · rw [style?_of_initial hj (.inl hi), style?_of_initial (by rw [helement, hj]) (.inl hi)]
  · rw [style?_of_inline hj, style?_of_inline (by rw [helement, hj])]

/-- The search upwards meets the element that sets the property before it passes the root. -/
theorem style?_of_inherited {b : Fin p.size} (hi : Style.isInherited property.toLower = true)
    (hb : ((p.element b).inline? property.toLower).isSome) (hbj : b = j ∨ p.IsAncestor b j) :
    q.style? (place j) property = p.style? j property := by
  induction j using climb with
  | root j hroot =>
    obtain rfl : b = j := hbj.resolve_right (not_isAncestor_root hroot)
    obtain ⟨value, hvalue⟩ := Option.isSome_iff_exists.1 hb
    rw [style?_of_inline hvalue, style?_of_inline (by rw [h.element, hvalue])]
  | child a j ha ih =>
    rcases hj : (p.element j).inline? property.toLower with _ | value
    · have hne : b ≠ j := by
        intro heq
        rw [heq, hj] at hb
        simp at hb
      rw [style?_of_parent hj hi ha,
        style?_of_parent (by rw [h.element, hj]) hi (h.parent a j ha)]
      exact ih (ha.isAncestor_iff.1 (hbj.resolve_left hne))
    · rw [style?_of_inline hj, style?_of_inline (by rw [h.element, hj])]

end Styles

end Embeds

/-! ## A piece of the markup -/

section Subtree

/-- The markup stands in the larger one as the element at this position. -/
def OccursAt (m root : Markup) (k : Nat) : Prop :=
  ∃ a, root.addresses[k]? = some a ∧ root.at? a = some m

/-- The root of a page. -/
def top (id : Nat) (root : Markup) : Fin (ofMarkup id root).size :=
  ⟨0, by simp [size_ofMarkup, root.addresses_eq_cons]⟩

variable {id id' : Nat} {root m : Markup} {x : Fin (ofMarkup id root).size}

theorem OccursAt.exists_holds (h : OccursAt m root x) : ∃ a parent, Holds root a m x parent := by
  obtain ⟨a, ha, hm⟩ := h
  obtain ⟨a', m', parent, hx, -⟩ := exists_holds_at x
  obtain rfl : a' = a := Option.some.inj (hx.address.symm.trans ha)
  obtain rfl : m' = m := Option.some.inj (hx.here.symm.trans hm)
  exact ⟨a', parent, hx⟩

theorem OccursAt.stop_eq (h : OccursAt m root x) :
    ((ofMarkup id root).entry x).stop = x + m.addresses.length := by
  obtain ⟨a, parent, hx⟩ := h.exists_holds
  have hentry := hx.entry
  rw [getElem?_layOut, Option.some.injEq] at hentry
  rw [hentry]

theorem occursAt_top (id : Nat) (root : Markup) : OccursAt root root (top id root) :=
  ⟨[], by simp [top, root.addresses_eq_cons], rfl⟩

theorem OccursAt.add_lt (h : OccursAt m root x) (j : Fin (ofMarkup id' m).size) :
    x.val + j.val < (ofMarkup id root).size := by
  have hstop := stop_le_size (x := x)
  rw [h.stop_eq] at hstop
  have hj : j.val < m.addresses.length := Nat.lt_of_lt_of_eq j.isLt size_ofMarkup
  omega

/-- Where an element of the piece stands in the larger page. -/
def OccursAt.place (h : OccursAt m root x) (j : Fin (ofMarkup id' m).size) :
    Fin (ofMarkup id root).size :=
  ⟨x.val + j.val, h.add_lt j⟩

theorem embeds_ofMarkup (h : OccursAt m root x) :
    (ofMarkup id' m).Embeds (ofMarkup id root) h.place := by
  obtain ⟨a, parent, hx⟩ := h.exists_holds
  have haddress {j : Fin (ofMarkup id' m).size} {b : List Nat}
      (hj : m.addresses[j.val]? = some b) : root.addresses[(h.place j).val]? = some (a ++ b) :=
    hx.getElem?_addresses hj
  refine ⟨fun j => ?_, fun c j hc => ?_⟩
  · obtain ⟨b, m', _, hj, -, -⟩ := exists_holds_at j
    have hhere : root.at? (a ++ b) = some m' := by
      rw [Markup.at?_append, hx.here, Option.bind_some, hj.here]
    rw [element_ofMarkup (haddress hj.address) hhere, element_ofMarkup hj.address hj.here]
  · obtain ⟨b, _, _, hj, -, -⟩ := exists_holds_at j
    rcases parent?_ofMarkup hj.address with ⟨-, hroot⟩ | ⟨hb, c', hc', hdrop⟩
    · rw [IsParent, hroot] at hc
      cases hc
    obtain rfl : c' = c := Option.some.inj (hc'.symm.trans hc)
    -- the parent is one number short in both, as the address of the element is longer than `a`
    have hab : a ++ b ≠ [] := by simp [hb]
    obtain ⟨y, hy, hydrop⟩ :=
      ((parent?_ofMarkup (haddress hj.address)).resolve_left fun hnil => hab hnil.1).2
    rw [List.dropLast_append_of_ne_nil hb] at hydrop
    rw [IsParent, hy, (eq_iff_of_addresses hydrop (haddress hdrop)).2 rfl]

/-! ## Queries below the root of the piece -/

section Queries

variable {selector : String} {s : Selector}

/-- A query from an element finds what the selector describes behind the root of the piece. -/
theorem queryFrom_of_occursAt (id' : Nat) (h : OccursAt m root x)
    (hs : Selector.parse selector = .ok s) :
    ∃ found, (ofMarkup id root).queryFrom x selector = .ok found ∧
      ∀ y, y ∈ found ↔ (∃ j : Fin (ofMarkup id' m).size, 0 < j.val ∧ h.place j = y) ∧
        (ofMarkup id root).describedAt s y = true := by
  obtain ⟨found, hfound, hmem⟩ :=
    select_of_parse (ofMarkup id root) (x + 1) ((ofMarkup id root).entry x).stop hs
  refine ⟨found, hfound, fun y => (hmem y).trans (and_congr_left fun _ => ?_)⟩
  have hsize : (ofMarkup id' m).size = m.addresses.length := size_ofMarkup
  rw [h.stop_eq]
  constructor
  · intro hy
    refine ⟨⟨y.val - x.val, by omega⟩, Nat.sub_pos_of_lt hy.1, Fin.ext ?_⟩
    simp only [OccursAt.place]
    omega
  · intro hy
    obtain ⟨j, hj, rfl⟩ := hy
    have hlt : j.val < m.addresses.length := Nat.lt_of_lt_of_eq j.isLt hsize
    simp only [OccursAt.place]
    omega

theorem place_top (j : Fin (ofMarkup id root).size) : (occursAt_top id root).place j = j :=
  Fin.ext (Nat.zero_add _)

end Queries

/-- What a selector finds below the root of a piece of markup, it finds below the element that the
piece is in a larger page, and nothing else if it has no combinators. The computed styles are the
same there if the property is not inherited or set within the piece. -/
theorem subtree_embeds (id id' : Nat) {root m : Markup} {x : Fin (ofMarkup id root).size}
    (h : OccursAt m root x) :
    (∀ (selector : String) (s : Selector), Selector.parse selector = .ok s →
        ∃ inner outer, (ofMarkup id' m).queryFrom (top id' m) selector = .ok inner ∧
          (ofMarkup id root).queryFrom x selector = .ok outer ∧
          (∀ j ∈ inner, h.place j ∈ outer) ∧
          ((∀ c ∈ s.alternatives, c.combinators = []) → outer = inner.map h.place))
      ∧ ∀ (j : Fin (ofMarkup id' m).size) (property : String),
          (Style.isInherited property.toLower = false ∨
            ∃ b, (b = j ∨ (ofMarkup id' m).IsAncestor b j) ∧
              (((ofMarkup id' m).element b).inline? property.toLower).isSome) →
          (ofMarkup id root).style? (h.place j) property = (ofMarkup id' m).style? j property := by
  have hembeds : (ofMarkup id' m).Embeds (ofMarkup id root) h.place := embeds_ofMarkup h
  refine ⟨fun selector s hs => ?_, fun j property hset => ?_⟩
  · obtain ⟨inner, hinner, hin⟩ := queryFrom_of_occursAt id' (occursAt_top id' m) hs
    obtain ⟨outer, houter, hout⟩ := queryFrom_of_occursAt id' h hs
    simp only [place_top, exists_eq_right] at hin
    refine ⟨inner, outer, hinner, houter, fun j hj => ?_, fun hsingle => ?_⟩
    · obtain ⟨hpos, hdescribed⟩ := (hin j).1 hj
      exact (hout _).2 ⟨⟨j, hpos, rfl⟩, hembeds.describedAt hdescribed⟩
    · -- both lists are in document order, so it is enough that they have the same members
      have horder : (inner.map h.place).Pairwise (· < ·) :=
        (pairwise_of_select hinner).map _ fun i j hij => Nat.add_lt_add_left hij _
      refine (pairwise_of_select houter).eq_of_mem_iff horder fun y => ?_
      rw [hout, List.mem_map]
      constructor
      · intro hy
        obtain ⟨⟨j, hpos, rfl⟩, hdescribed⟩ := hy
        rw [hembeds.describedAt_eq hsingle] at hdescribed
        exact ⟨j, (hin j).2 ⟨hpos, hdescribed⟩, rfl⟩
      · intro hy
        obtain ⟨j, hj, rfl⟩ := hy
        obtain ⟨hpos, hdescribed⟩ := (hin j).1 hj
        exact ⟨⟨j, hpos, rfl⟩, hembeds.describedAt hdescribed⟩
  · by_cases hi : Style.isInherited property.toLower = true
    · obtain ⟨b, hbj, hb⟩ := hset.resolve_left (by simp [hi])
      exact hembeds.style?_of_inherited hi hb hbj
    · exact hembeds.style?_of_not_inherited (by simpa using hi)

section Sample

/-- A section that sets a color, with a paragraph in it. -/
def samplePiece : Markup :=
  .node ((Element.ofTag "section").setStyle "color" "red") [.node (.ofTag "p") []]

/-- The section stands in an article behind a heading. -/
def sampleArticle : Markup :=
  .node (.ofTag "body") [.node (.ofTag "h1") [], .node (.ofTag "article") [samplePiece]]

theorem occursAt_samplePiece : OccursAt samplePiece sampleArticle 3 := ⟨[1, 0], rfl, rfl⟩

theorem inline?_samplePiece :
    ((ofMarkup 1 samplePiece).element (top 1 samplePiece)).inline? "color".toLower
      = some "red" := by
  have htop : (ofMarkup 1 samplePiece).element (top 1 samplePiece)
      = (Element.ofTag "section").setStyle "color" "red" := rfl
  rw [htop, Element.inline?_setStyle, if_pos rfl]

theorem subtree_embeds_samplePiece :
    ∃ x : Fin (ofMarkup 0 sampleArticle).size, ∃ h : OccursAt samplePiece sampleArticle x,
      (∃ inner outer,
        (ofMarkup 1 samplePiece).queryFrom (top 1 samplePiece) "section>p" = .ok inner ∧
        (ofMarkup 0 sampleArticle).queryFrom x "section>p" = .ok outer ∧
        ∀ j ∈ inner, h.place j ∈ outer) ∧
      (∃ inner outer,
        (ofMarkup 1 samplePiece).queryFrom (top 1 samplePiece) "p" = .ok inner ∧
        (ofMarkup 0 sampleArticle).queryFrom x "p" = .ok outer ∧ outer = inner.map h.place) ∧
      ∀ j : Fin (ofMarkup 1 samplePiece).size,
        (ofMarkup 0 sampleArticle).style? (h.place j) "color"
          = (ofMarkup 1 samplePiece).style? j "color" := by
  have hx : 3 < (ofMarkup 0 sampleArticle).size := by decide
  have h : OccursAt samplePiece sampleArticle (⟨3, hx⟩ : Fin (ofMarkup 0 sampleArticle).size) :=
    occursAt_samplePiece
  have hchild : Selector.parse "section>p"
      = .ok ⟨"section>p", [⟨{ tag := "section" }, [(.child, { tag := "p" })]⟩]⟩ := by
    decide +kernel
  have htag : Selector.parse "p" = .ok ⟨"p", [⟨{ tag := "p" }, []⟩]⟩ := by
    decide +kernel
  have htop : ∀ j : Fin (ofMarkup 1 samplePiece).size,
      top 1 samplePiece = j ∨ (ofMarkup 1 samplePiece).IsAncestor (top 1 samplePiece) j := by
    decide +kernel
  obtain ⟨hqueries, hstyles⟩ := subtree_embeds 0 1 h
  obtain ⟨inner, outer, hinner, houter, hkept, -⟩ := hqueries _ _ hchild
  obtain ⟨inner', outer', hinner', houter', -, hsame⟩ := hqueries _ _ htag
  refine ⟨_, h, ⟨inner, outer, hinner, houter, hkept⟩, ⟨inner', outer', hinner', houter', ?_⟩,
    fun j => hstyles j "color" (.inr ⟨_, htop j, ?_⟩)⟩
  · exact hsame (by simp [Complex.combinators])
  · rw [inline?_samplePiece]
    rfl

/-- The larger page has the article to match, the piece by itself has not. -/
example :
    ((ofMarkup 0 sampleArticle).queryAll "article p").toOption.map (List.map Fin.val) = some [4]
      ∧ ((ofMarkup 1 samplePiece).queryAll "article p").toOption.map (List.map Fin.val)
        = some [] := by
  decide +kernel

end Sample

end Subtree

end Testimony.Page
