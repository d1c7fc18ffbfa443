import Testimony.Proofs.CompoundSpelling

/-!
# How selectors are spelled

A complex selector is spelled by its compounds with a combinator between each two, and a list by its
alternatives with a comma between each two. A greater-than sign may have blanks around it, blanks
alone stand for the descendant combinator, and blanks around an alternative say nothing.

`complexes_eq_ok` says that the reader of lists reads a text as the alternatives that it spells and
no others. The reader never goes back. That it reads all texts that spell a list is because what
ends an alternative, a comma or the end of the text behind blanks, neither goes on with a compound
nor begins a combinator (`Ends`).
-/

namespace Testimony.Selector

open Text

inductive SpellsCombinator : List Char → Combinator → Prop
  | child {b b' : List Char} : Blanks b → Blanks b' → SpellsCombinator (b ++ '>' :: b') .child
  | descendant {b : List Char} : Blanks b → b ≠ [] → SpellsCombinator b .descendant

/-- A combinator with the compound on its right. -/
inductive SpellsLink : List Char → Combinator × Compound → Prop
  | intro {u w : List Char} {k : Combinator} {c : Compound} : SpellsCombinator u k →
      SpellsCompound w c → SpellsLink (u ++ w) (k, c)

inductive SpellsComplex : List Char → Complex → Prop
  | intro {w v : List Char} {head : Compound} {tail : List (Combinator × Compound)} :
      SpellsCompound w head → SpellsEach SpellsLink v tail → SpellsComplex (w ++ v) ⟨head, tail⟩

inductive SpellsAlternative : List Char → Complex → Prop
  | intro {b w b' : List Char} {x : Complex} : Blanks b → SpellsComplex w x → Blanks b' →
      SpellsAlternative (b ++ w ++ b') x

/-- A comma with the alternative behind it. -/
inductive SpellsNext : List Char → Complex → Prop
  | intro {w : List Char} {x : Complex} : SpellsAlternative w x → SpellsNext (',' :: w) x

inductive SpellsList : List Char → List Complex → Prop
  | intro {w v : List Char} {x : Complex} {xs : List Complex} : SpellsAlternative w x →
      SpellsEach SpellsNext v xs → SpellsList (w ++ v) (x :: xs)

/-! ## Combinators -/

section Combinators

variable {s u w rest : List Char} {k : Combinator} {c : Compound}

theorem SpellsCompound.stops_isBlank (h : SpellsCompound w c) (s : List Char) :
    Stops isBlank (w ++ s) := by
  obtain ⟨d, v, rfl, hd⟩ := h.head
  exact stops_cons.2 (isBlank_of_startsCompound hd)

theorem combinator?_append (hu : SpellsCombinator u k) (hw : SpellsCompound w c)
    (s : List Char) : combinator? (u ++ (w ++ s)) = some (k, w ++ s) := by
  have hstop := hw.stops_isBlank s
  rcases hu with @⟨b, b', hb, hb'⟩ | ⟨hb, hne⟩
  · have hskip : skipBlank (b ++ '>' :: (b' ++ (w ++ s))) = '>' :: (b' ++ (w ++ s)) :=
      skipBlank_run hb (stops_cons.2 (by decide))
    simp only [List.append_assoc, List.cons_append, combinator?, hskip, skipBlank_run hb' hstop]
  · -- what stands behind the blanks begins a compound, so it is no greater-than sign
    obtain ⟨d, v, rfl, hd⟩ := hw.head
    obtain ⟨b₀, b, rfl⟩ := List.exists_cons_of_ne_nil hne
    have hblank : isBlank b₀ = true := hb b₀ List.mem_cons_self
    unfold combinator?
    rw [skipBlank_run hb hstop]
    split
    · rename_i hs
      cases hs
      exact absurd hd (by decide)
    · rename_i hs
      cases hs
      simp [hblank, hd]
    · rename_i hs
      cases hs

theorem spells_of_combinator? (h : combinator? s = some (k, rest)) :
    ∃ u, SpellsCombinator u k ∧ s = u ++ rest := by
  unfold combinator? at h
  split at h
  · rename_i r hs
    cases h
    obtain ⟨b, hb, rfl⟩ := exists_blanks hs
    obtain ⟨b', hb', hr⟩ := exists_blanks (rfl : skipBlank r = skipBlank r)
    exact ⟨b ++ '>' :: b', .child hb hb', by simp [← hr]⟩
  · rename_i d r _ hs
    split at h
    · rename_i hd
      cases h
      obtain ⟨b, hb, rfl⟩ := exists_blanks hs
      refine ⟨b, .descendant hb ?_, rfl⟩
      rintro rfl
      simp only [List.nil_append, List.head?_cons, Option.any_some, Bool.and_eq_true] at hd
      rw [isBlank_of_startsCompound hd.2] at hd
      cases hd.1
    · cases h
  · cases h

end Combinators

/-! ## Complex selectors -/

/-- The text goes on with a comma or ends, blanks aside. -/
def Ends (s : List Char) : Prop := Stops (· != ',') (skipBlank s)

section Complexes

variable {s u w v rest : List Char} {k : Combinator} {c : Compound}
  {cs : List (Combinator × Compound)} {x : Complex}

theorem Ends.eq_comma {d : Char} (h : Ends (d :: s)) (hd : isBlank d = false) : d = ',' := by
  rw [Ends, skipBlank_of_stops (stops_cons.2 hd), stops_cons] at h
  simpa using h

theorem Ends.stops_extendsCompound (h : Ends s) : Stops extendsCompound s := by
  rcases s with _ | ⟨d, s⟩
  · exact stops_nil
  · rw [stops_cons]
    rcases hd : isBlank d with _ | _
    · rw [h.eq_comma hd]
      decide
    · exact extendsCompound_of_isBlank hd

theorem combinator?_of_ends (h : Ends s) : combinator? s = none := by
  unfold combinator?
  unfold Ends at h
  split
  · rename_i hs
    rw [hs, stops_cons] at h
    exact absurd h (by decide)
  · rename_i d r _ hs
    rw [hs, stops_cons] at h
    obtain rfl : d = ',' := by simpa using h
    simp [startsCompound, isIdentStart]
  · rfl

theorem chain_of_none (h : combinator? s = none) : chain s = .ok ([], s) := by
  rw [chain]
  split <;> simp_all

theorem chain_of_some {r : List Char} (hk : combinator? s = some (k, r))
    (hc : compound r = .ok (c, rest)) :
    chain s = (chain rest).map fun (cs, rest) => ((k, c) :: cs, rest) := by
  rw [chain]
  split
  · simp_all
  · rename_i hk'
    rw [hk] at hk'
    cases hk'
    split
    · simp_all
    · simp_all

theorem stops_extendsCompound_of_links (h : SpellsEach SpellsLink v cs) (hrest : Ends rest) :
    Stops extendsCompound (v ++ rest) := by
  rcases h with _ | ⟨⟨hu, -⟩, -⟩
  · exact hrest.stops_extendsCompound
  · rcases hu with ⟨hb, -⟩ | ⟨hb, hne⟩
    · simp only [List.append_assoc, List.cons_append]
      exact .append (fun d hd => extendsCompound_of_isBlank (hb d hd)) (stops_cons.2 (by decide))
    · obtain ⟨d, b, rfl⟩ := List.exists_cons_of_ne_nil hne
      exact stops_cons.2 (extendsCompound_of_isBlank (hb d List.mem_cons_self))

theorem chain_append (hv : SpellsEach SpellsLink v cs) (h : Ends rest) :
    chain (v ++ rest) = .ok (cs, rest) := by
  induction hv with
  | nil => exact chain_of_none (combinator?_of_ends h)
  | cons hlink hv ih =>
    rcases hlink with ⟨hu, hw⟩
    have hcompound := compound_append hw (stops_extendsCompound_of_links hv h)
    simp only [List.append_assoc, chain_of_some (combinator?_append hu hw _) hcompound, ih,
      Except.map]

theorem spells_of_chain (h : chain s = .ok (cs, rest)) :
    ∃ v, SpellsEach SpellsLink v cs ∧ s = v ++ rest := by
  fun_induction chain s generalizing cs rest with
  | case1 s =>
    cases h
    exact ⟨[], .nil, rfl⟩
  | case2 => cases h
  | case3 s k r hk c r' hc _ _ ih =>
    simp only [map_eq_ok, Prod.mk.injEq] at h
    obtain ⟨⟨cs, rest⟩, hr, rfl, rfl⟩ := h
    obtain ⟨u, hu, rfl⟩ := spells_of_combinator? hk
    obtain ⟨w, hw, rfl⟩ := spells_of_compound hc
    obtain ⟨v, hv, rfl⟩ := ih hr
    exact ⟨u ++ w ++ v, .cons ⟨hu, hw⟩ hv, by simp⟩

theorem complex_append (hw : SpellsComplex w x) (h : Ends rest) :
    complex (w ++ rest) = .ok (x, rest) := by
  rcases hw with ⟨hw, hv⟩
  have hcompound := compound_append hw (stops_extendsCompound_of_links hv h)
  simp only [List.append_assoc, complex, hcompound, chain_append hv h, Except.map]

theorem spells_of_complex (h : complex s = .ok (x, rest)) :
    ∃ w, SpellsComplex w x ∧ s = w ++ rest := by
  unfold complex at h
  split at h
  · cases h
  · rename_i hhead
    obtain ⟨w, hw, rfl⟩ := spells_of_compound hhead
    simp only [map_eq_ok, Prod.mk.injEq] at h
    obtain ⟨⟨cs, r⟩, hcs, rfl, rfl⟩ := h
    obtain ⟨v, hv, rfl⟩ := spells_of_chain hcs
    exact ⟨w ++ v, ⟨hw, hv⟩, (List.append_assoc w v r).symm⟩

end Complexes

/-! ## Lists -/

section Lists

variable {s w b rest : List Char} {c : Complex} {cs : List Complex}

theorem SpellsComplex.stops_isBlank (h : SpellsComplex w c) (s : List Char) :
    Stops isBlank (w ++ s) := by
  rcases h with ⟨hw, -⟩
  rw [List.append_assoc]
  exact hw.stops_isBlank _

theorem ends_of_skipBlank {t : List Char} (h : skipBlank s = t) (ht : Stops (· != ',') t) :
    Ends s := by
  rw [Ends, h]
  exact ht

theorem complexes_of_complex (hc : complex (skipBlank s) = .ok (c, rest)) :
    complexes s = match skipBlank rest with
      | [] => .ok [c]
      | ',' :: r => (complexes r).map (c :: ·)
      | x :: _ => .error (.unexpected x) := by
  rw [complexes]
  split
  · simp_all
  · rename_i hc'
    rw [hc] at hc'
    cases hc'
    split <;> simp_all

theorem complexes_append {v : List Char} (hv : SpellsEach SpellsNext v cs) :
    ∀ {w : List Char} {c : Complex}, SpellsAlternative w c →
      complexes (w ++ v) = .ok (c :: cs) := by
  -- on the alternatives behind the first, which ends before the comma or the end of the text
  induction hv with
  | nil =>
    rintro _ c ⟨hb, hw, hb'⟩
    rename_i b w b'
    have hrest : skipBlank b' = [] := by simpa using skipBlank_run hb' stops_nil
    have hcomplex := complex_append hw (ends_of_skipBlank hrest stops_nil)
    rw [← skipBlank_run hb (hw.stops_isBlank _)] at hcomplex
    rw [List.append_nil, List.append_assoc, complexes_of_complex hcomplex, hrest]
  | @cons _ v x xs hnext hv ih =>
    rcases hnext with @⟨u, x, hu⟩
    rintro _ c ⟨hb, hw, hb'⟩
    rename_i b w b'
    have hrest : skipBlank (b' ++ ',' :: (u ++ v)) = ',' :: (u ++ v) :=
      skipBlank_run hb' (stops_cons.2 (by decide))
    have hcomplex := complex_append hw (ends_of_skipBlank hrest (stops_cons.2 (by decide)))
    rw [← skipBlank_run hb (hw.stops_isBlank _)] at hcomplex
    simp only [List.append_assoc, List.cons_append, complexes_of_complex hcomplex, hrest, ih hu,
      Except.map]

theorem spells_of_complexes (h : complexes s = .ok cs) : SpellsList s cs := by
  fun_induction complexes s generalizing cs with
  | case1 => cases h
  | case2 s c r hc hr =>
    cases h
    obtain ⟨w, hw, hs⟩ := spells_of_complex hc
    obtain ⟨b, hb, rfl⟩ := exists_blanks hs
    obtain ⟨b', hb', rfl⟩ := exists_blanks hr
    simpa using SpellsList.intro ⟨hb, hw, hb'⟩ .nil
  | case3 s c r hc r' hr _ ih =>
    obtain ⟨cs, hcs, rfl⟩ := map_eq_ok.1 h
    obtain ⟨w, hw, hs⟩ := spells_of_complex hc
    obtain ⟨b, hb, rfl⟩ := exists_blanks hs
    obtain ⟨b', hb', rfl⟩ := exists_blanks hr
    rcases ih hcs with ⟨hu, hv⟩
    simpa using SpellsList.intro ⟨hb, hw, hb'⟩ (.cons ⟨hu⟩ hv)
  | case4 => cases h

theorem complexes_eq_ok : complexes s = .ok cs ↔ SpellsList s cs :=
  ⟨spells_of_complexes, fun ⟨hw, hv⟩ => complexes_append hv hw⟩

theorem SpellsEach.append {α : Type} {spells : List Char → α → Prop} {v : List Char}
    {xs ys : List α} (hv : SpellsEach spells v xs) (hw : SpellsEach spells w ys) :
    SpellsEach spells (v ++ w) (xs ++ ys) := by
  induction hv with
  | nil => exact hw
  | cons hx _ ih =>
    rw [List.append_assoc]
    exact .cons hx ih

theorem SpellsList.append {v : List Char} {xs ys : List Complex} (hv : SpellsList v xs)
    (hw : SpellsList w ys) : SpellsList (v ++ ',' :: w) (xs ++ ys) := by
  rcases hv with ⟨hx, hxs⟩
  rcases hw with ⟨hy, hys⟩
  rw [List.append_assoc]
  exact .intro hx (hxs.append (.cons ⟨hy⟩ hys))

/-- What is read from a text is what it spells, along with the text. -/
theorem parse_eq_ok {s : String} {selector : Selector} :
    parse s = .ok selector ↔ SpellsList s.toList selector.alternatives ∧ selector.source = s := by
  rw [← complexes_eq_ok, parse]
  obtain ⟨source, cs⟩ := selector
  rcases complexes s.toList with m | cs'
  · simp
  · simp [and_comm, eq_comm]

/-- The alternatives of a joint text are those of its two parts. -/
theorem parse_append {s₁ s₂ : String} {x y : Selector} (hx : parse s₁ = .ok x)
    (hy : parse s₂ = .ok y) :
    parse (s₁ ++ "," ++ s₂) = .ok ⟨s₁ ++ "," ++ s₂, x.alternatives ++ y.alternatives⟩ := by
  refine parse_eq_ok.2 ⟨?_, rfl⟩
  simpa using (parse_eq_ok.1 hx).1.append (parse_eq_ok.1 hy).1

end Lists

end Testimony.Selector
