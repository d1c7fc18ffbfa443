import Testimony.Proofs.Matching
import Testimony.Proofs.SelectorSpelling

/-!
# The loops of reading

Selectors are read by three loops, one inside the other: over the alternatives of a list, the links
of a chain and the qualifiers of a compound. A loop has gathered something and has some text left,
and a round of it goes on, stops or fails (`Turn`).

A round that goes on leaves less text than it found (`Shortens`). So every loop ends, after at most
as many rounds as there are characters, and the outcome is what the reader of this part gives
(`Shortens.ends`). What every round that goes on keeps still holds where the last round begins
(`EndsAfter.last`).

The loop over links fills two columns, of compounds and of combinators. They are one apart from the
first round to the last (`EndsAfter.aligned`).
-/

namespace Testimony

/-! ## Columns -/

/-- A chain as two lists, both from left to right. A combinator stands between the compound of its
number and the next one. -/
structure Columns where
  compounds : List Compound
  combinators : List Combinator
deriving DecidableEq

namespace Columns

/-- There is one combinator fewer than there are compounds, so there is a compound. -/
def Aligned (c : Columns) : Prop := c.compounds.length = c.combinators.length + 1

/-- The columns with more links on the right. -/
def extend (c : Columns) (links : List (Combinator × Compound)) : Columns :=
  ⟨c.compounds ++ links.map Prod.snd, c.combinators ++ links.map Prod.fst⟩

variable {c : Columns} {links links' : List (Combinator × Compound)}

theorem extend_nil : c.extend [] = c := by
  simp [extend]

theorem extend_append : c.extend (links ++ links') = (c.extend links).extend links' := by
  simp [extend]

theorem aligned_extend : (c.extend links).Aligned ↔ c.Aligned := by
  simp only [Aligned, extend, List.length_append, List.length_map]
  omega

end Columns

def Complex.columns (s : Complex) : Columns := ⟨s.compounds, s.combinators⟩

theorem Complex.columns_eq_extend (head : Compound) (tail : List (Combinator × Compound)) :
    (⟨head, tail⟩ : Complex).columns = (⟨[head], []⟩ : Columns).extend tail :=
  rfl

theorem Complex.columns_append (head : Compound) (tail links : List (Combinator × Compound)) :
    (⟨head, tail ++ links⟩ : Complex).columns = (⟨head, tail⟩ : Complex).columns.extend links := by
  simp only [columns_eq_extend, Columns.extend_append]

namespace Selector

open Text

/-! ## Loops over a text -/

section Loops

variable {α : Type}

/-- What a loop has gathered, and the text that is left. -/
structure Reading (α : Type) where
  gathered : α
  rest : List Char

/-- What a round of a loop comes to. -/
inductive Turn (α : Type) where
  | next (s : Reading α)
  | stop (s : Reading α)
  | fail (m : Malformation)

/-- What the loop comes to, if going on comes to what `result` says. -/
def Turn.outcome (result : Reading α → Except Malformation (Reading α)) :
    Turn α → Except Malformation (Reading α)
  | next s => result s
  | stop s => .ok s
  | fail m => .error m

/-- The loop ends with this outcome, after this number of rounds that went on. -/
inductive EndsAfter (round : Reading α → Turn α) :
    Nat → Reading α → Except Malformation (Reading α) → Prop
  | stop {s t : Reading α} : round s = .stop t → EndsAfter round 0 s (.ok t)
  | fail {s : Reading α} {m : Malformation} : round s = .fail m → EndsAfter round 0 s (.error m)
  | next {n : Nat} {s t : Reading α} {x : Except Malformation (Reading α)} : round s = .next t →
      EndsAfter round n t x → EndsAfter round (n + 1) s x

/-- A round that goes on leaves a shorter text, the end of what was left before. -/
def Shortens (round : Reading α → Turn α) : Prop :=
  ∀ s t, round s = .next t → t.rest <:+ s.rest ∧ t.rest.length < s.rest.length

/-- Rounds that go on leave less text, and from everywhere the loop ends with the result, after at
most as many such rounds as there are characters. -/
structure LoopEnds (round : Reading α → Turn α)
    (result : Reading α → Except Malformation (Reading α)) : Prop where
  shortens : Shortens round
  ends : ∀ s, ∃ n ≤ s.rest.length, EndsAfter round n s (result s)

variable {round : Reading α → Turn α} {result : Reading α → Except Malformation (Reading α)}

theorem Shortens.ends (h : Shortens round) (hresult : ∀ s, result s = (round s).outcome result)
    (s : Reading α) : ∃ n ≤ s.rest.length, EndsAfter round n s (result s) := by
  rw [hresult s]
  rcases hs : round s with t | t | m
  · have hlt := (h s t hs).2
    obtain ⟨n, hn, ht⟩ := h.ends hresult t
    exact ⟨n + 1, by omega, .next hs ht⟩
  · exact ⟨0, Nat.zero_le _, .stop hs⟩
  · exact ⟨0, Nat.zero_le _, .fail hs⟩
termination_by s.rest.length

/-- Where a loop stops, its last round began with what all rounds before it had kept. -/
theorem EndsAfter.last {P : Reading α → Prop} (hnext : ∀ s t, round s = .next t → P s → P t)
    {n : Nat} {s t : Reading α} (h : EndsAfter round n s (.ok t)) (hs : P s) :
    ∃ s', P s' ∧ round s' = .stop t := by
  generalize hx : Except.ok t = x at h
  induction h with
  | stop hround =>
    cases hx
    exact ⟨_, hs, hround⟩
  | fail => cases hx
  | next hround _ ih => exact ih (hnext _ _ hround hs) hx

theorem shorter_append {w rest : List Char} (hw : w ≠ []) :
    rest <:+ w ++ rest ∧ rest.length < (w ++ rest).length := by
  have := List.length_pos_iff.2 hw
  refine ⟨List.suffix_append w rest, ?_⟩
  rw [List.length_append]
  omega

end Loops

/-! ## Qualifiers -/

/-- A round of the loop over the qualifiers of a compound. -/
def qualifierRound (s : Reading (List Qualifier)) : Turn (List Qualifier) :=
  match qualifier? s.rest with
  | none => .stop s
  | some (.error m) => .fail m
  | some (.ok (q, r)) => .next ⟨s.gathered ++ [q], r⟩

/-- All qualifiers at the front of the rest, behind those gathered. -/
def qualifiersFrom (s : Reading (List Qualifier)) :
    Except Malformation (Reading (List Qualifier)) :=
  (qualifiers s.rest).map fun (qs, rest) => ⟨s.gathered ++ qs, rest⟩

section Qualifiers

theorem qualifiers_of_error {s : List Char} {m : Malformation}
    (h : qualifier? s = some (.error m)) : qualifiers s = .error m := by
  rw [qualifiers]
  split <;> simp_all

theorem qualifiersFrom_eq (s : Reading (List Qualifier)) :
    qualifiersFrom s = (qualifierRound s).outcome qualifiersFrom := by
  unfold qualifierRound
  rcases h : qualifier? s.rest with _ | (m | ⟨q, r⟩)
  · simp [qualifiersFrom, qualifiers_of_none h, Turn.outcome, Except.map]
  · simp [qualifiersFrom, qualifiers_of_error h, Turn.outcome, Except.map]
  · rw [qualifiersFrom, qualifiers_of_some h, Turn.outcome, qualifiersFrom]
    rcases qualifiers r with m | ⟨qs, rest⟩
    · rfl
    · simp [Except.map]

theorem SpellsQualifier.ne_nil {w : List Char} {q : Qualifier} (h : SpellsQualifier w q) :
    w ≠ [] := by
  rcases h with _ | _ | _ <;> exact List.cons_ne_nil _ _

theorem shortens_qualifierRound : Shortens qualifierRound := by
  intro s t h
  unfold qualifierRound at h
  split at h
  · cases h
  · cases h
  · rename_i q r hq
    cases h
    obtain ⟨w, hw, hs⟩ := spells_of_qualifier? hq
    rw [hs]
    exact shorter_append hw.ne_nil

theorem loopEnds_qualifiers : LoopEnds qualifierRound qualifiersFrom where
  shortens := shortens_qualifierRound
  ends := shortens_qualifierRound.ends qualifiersFrom_eq

end Qualifiers

/-! ## Links -/

/-- A round of the loop over the links of a chain, each a combinator and a compound. -/
def linkRound (s : Reading Columns) : Turn Columns :=
  match combinator? s.rest with
  | none => .stop s
  | some (k, r) =>
    match compound r with
    | .error m => .fail m
    | .ok (c, r') =>
      .next ⟨⟨s.gathered.compounds ++ [c], s.gathered.combinators ++ [k]⟩, r'⟩

/-- All links at the front of the rest, behind those gathered. -/
def linksFrom (s : Reading Columns) : Except Malformation (Reading Columns) :=
  (chain s.rest).map fun (links, rest) => ⟨s.gathered.extend links, rest⟩

section Links

variable {s r : List Char} {k : Combinator} {m : Malformation}

theorem chain_of_error (hk : combinator? s = some (k, r)) (hc : compound r = .error m) :
    chain s = .error m := by
  rw [chain]
  split
  · simp_all
  · rename_i hk'
    rw [hk] at hk'
    cases hk'
    split <;> simp_all

theorem linksFrom_eq (s : Reading Columns) : linksFrom s = (linkRound s).outcome linksFrom := by
  unfold linkRound
  rcases hk : combinator? s.rest with _ | ⟨k, r⟩
  · simp [linksFrom, chain_of_none hk, Turn.outcome, Except.map, Columns.extend_nil]
  · rcases hc : compound r with m | ⟨c, r'⟩
    · simp [linksFrom, chain_of_error hk hc, hc, Turn.outcome, Except.map]
    · simp only [linksFrom, chain_of_some hk hc, hc, Turn.outcome]
      rcases chain r' with m | ⟨links, rest⟩
      · rfl
      · simp [Except.map, Columns.extend]

theorem linkRound_eq_next {s t : Reading Columns} (h : linkRound s = .next t) :
    ∃ k c r, combinator? s.rest = some (k, r) ∧ compound r = .ok (c, t.rest) ∧
      t.gathered = s.gathered.extend [(k, c)] := by
  unfold linkRound at h
  split at h
  · cases h
  · rename_i k r hk
    split at h
    · cases h
    · rename_i c r' hc
      cases h
      exact ⟨k, c, r, hk, hc, rfl⟩

theorem linkRound_eq_stop {s t : Reading Columns} (h : linkRound s = .stop t) : s = t := by
  unfold linkRound at h
  split at h
  · cases h
    rfl
  · split at h <;> cases h

theorem SpellsCompound.ne_nil {w : List Char} {c : Compound} (h : SpellsCompound w c) : w ≠ [] := by
  obtain ⟨d, v, rfl, -⟩ := h.head
  exact List.cons_ne_nil d v

theorem shortens_linkRound : Shortens linkRound := by
  intro s t h
  obtain ⟨k, c, r, hk, hc, -⟩ := linkRound_eq_next h
  obtain ⟨u, -, hs⟩ := spells_of_combinator? hk
  obtain ⟨w, hw, rfl⟩ := spells_of_compound hc
  rw [hs, ← List.append_assoc]
  exact shorter_append (List.append_ne_nil_of_right_ne_nil u hw.ne_nil)

theorem loopEnds_links : LoopEnds linkRound linksFrom where
  shortens := shortens_linkRound
  ends := shortens_linkRound.ends linksFrom_eq

theorem aligned_of_linkRound {s t : Reading Columns} (h : linkRound s = .next t)
    (hs : s.gathered.Aligned) : t.gathered.Aligned := by
  obtain ⟨k, c, r, -, -, ht⟩ := linkRound_eq_next h
  rw [ht]
  exact Columns.aligned_extend.2 hs

theorem EndsAfter.aligned {n : Nat} {s t : Reading Columns} (h : EndsAfter linkRound n s (.ok t))
    (hs : s.gathered.Aligned) : t.gathered.Aligned := by
  have hkeeps (s t : Reading Columns) : linkRound s = .next t → s.gathered.Aligned →
      t.gathered.Aligned := aligned_of_linkRound
  obtain ⟨s', hs', hstop⟩ := h.last hkeeps hs
  rwa [linkRound_eq_stop hstop] at hs'

/-- The loop begins with the first compound alone and ends with the columns of what is read. -/
theorem endsAfter_of_complex {x : Complex} {rest : List Char} (h : complex s = .ok (x, rest)) :
    ∃ r n, compound s = .ok (x.head, r) ∧
      EndsAfter linkRound n ⟨⟨[x.head], []⟩, r⟩ (.ok ⟨x.columns, rest⟩) := by
  unfold complex at h
  split at h
  · cases h
  · rename_i head r hc
    obtain ⟨⟨tail, rest⟩, hr, he⟩ := map_eq_ok.1 h
    cases he
    obtain ⟨n, -, hn⟩ := loopEnds_links.ends ⟨⟨[head], []⟩, r⟩
    rw [linksFrom, hr, Except.map] at hn
    exact ⟨r, n, hc, hn⟩

theorem aligned_of_complex {x : Complex} {rest : List Char} (h : complex s = .ok (x, rest)) :
    x.columns.Aligned := by
  obtain ⟨r, n, -, hn⟩ := endsAfter_of_complex h
  exact hn.aligned rfl

end Links

/-! ## Alternatives -/

/-- A round of the loop over the alternatives of a list. -/
def alternativeRound (s : Reading (List Complex)) : Turn (List Complex) :=
  match complex (skipBlank s.rest) with
  | .error m => .fail m
  | .ok (x, r) =>
    match skipBlank r with
    | [] => .stop ⟨s.gathered ++ [x], []⟩
    | ',' :: r' => .next ⟨s.gathered ++ [x], r'⟩
    | d :: _ => .fail (.unexpected d)

/-- All alternatives of the rest, behind those gathered. -/
def alternativesFrom (s : Reading (List Complex)) : Except Malformation (Reading (List Complex)) :=
  (complexes s.rest).map fun xs => ⟨s.gathered ++ xs, []⟩

section Alternatives

variable {s t : Reading (List Complex)}

theorem complexes_of_error {s : List Char} {m : Malformation}
    (h : complex (skipBlank s) = .error m) : complexes s = .error m := by
  rw [complexes]
  split <;> simp_all

theorem alternativesFrom_eq (s : Reading (List Complex)) :
    alternativesFrom s = (alternativeRound s).outcome alternativesFrom := by
  unfold alternativeRound
  rcases hx : complex (skipBlank s.rest) with m | ⟨x, r⟩
  · simp [alternativesFrom, complexes_of_error hx, Turn.outcome, Except.map]
  · rw [alternativesFrom, complexes_of_complex hx]
    dsimp only
    generalize skipBlank r = r'
    split
    · rfl
    · rename_i r'
      simp only [Turn.outcome, alternativesFrom]
      rcases complexes r' with m | xs
      · rfl
      · simp [Except.map]
    · simp_all [Turn.outcome, Except.map]

theorem alternativeRound_eq_next (h : alternativeRound s = .next t) :
    ∃ x r, complex (skipBlank s.rest) = .ok (x, r) ∧ skipBlank r = ',' :: t.rest ∧
      t.gathered = s.gathered ++ [x] := by
  unfold alternativeRound at h
  split at h
  · cases h
  · rename_i x r hx
    split at h
    · cases h
    · rename_i r' hr
      cases h
      exact ⟨x, r, hx, hr, rfl⟩
    · cases h

theorem alternativeRound_eq_stop (h : alternativeRound s = .stop t) :
    ∃ x r, complex (skipBlank s.rest) = .ok (x, r) ∧ t.gathered = s.gathered ++ [x] := by
  unfold alternativeRound at h
  split at h
  · cases h
  · rename_i x r hx
    split at h
    · cases h
      exact ⟨x, r, hx, rfl⟩
    · cases h
    · cases h

theorem shortens_alternativeRound : Shortens alternativeRound := by
  intro s t h
  obtain ⟨x, r, hx, hr, -⟩ := alternativeRound_eq_next h
  obtain ⟨w, -, hw⟩ := spells_of_complex hx
  obtain ⟨b, -, hb⟩ := exists_blanks hw
  obtain ⟨b', -, rfl⟩ := exists_blanks hr
  have hs : s.rest = (b ++ w ++ b' ++ [',']) ++ t.rest := by simp [hb]
  rw [hs]
  exact shorter_append (List.append_ne_nil_of_right_ne_nil _ (List.cons_ne_nil _ _))

theorem loopEnds_alternatives : LoopEnds alternativeRound alternativesFrom where
  shortens := shortens_alternativeRound
  ends := shortens_alternativeRound.ends alternativesFrom_eq

/-- A list that was read is not empty, and what holds of all chains that are read holds of the
alternatives. -/
theorem alternatives_of_complexes {P : Complex → Prop}
    (hP : ∀ {s x r}, complex s = .ok (x, r) → P x) {s : List Char} {xs : List Complex}
    (h : complexes s = .ok xs) : xs ≠ [] ∧ ∀ x ∈ xs, P x := by
  obtain ⟨n, -, hn⟩ := loopEnds_alternatives.ends ⟨[], s⟩
  rw [alternativesFrom, h, Except.map, List.nil_append] at hn
  have hadd {xs : List Complex} {x : Complex} (hxs : ∀ y ∈ xs, P y) (hx : P x) :
      ∀ y ∈ xs ++ [x], P y := by
    intro y hy
    rcases List.mem_append.1 hy with hy | hy
    · exact hxs y hy
    · rwa [List.mem_singleton.1 hy]
  have hkeeps (s t : Reading (List Complex)) (hround : alternativeRound s = .next t)
      (hs : ∀ x ∈ s.gathered, P x) : ∀ x ∈ t.gathered, P x := by
    obtain ⟨x, r, hx, -, ht⟩ := alternativeRound_eq_next hround
    rw [ht]
    exact hadd hs (hP hx)
  obtain ⟨s', hs', hstop⟩ := hn.last hkeeps (fun _ => (nomatch ·))
  obtain ⟨x, r, hx, rfl⟩ := alternativeRound_eq_stop hstop
  exact ⟨List.append_ne_nil_of_right_ne_nil _ (List.cons_ne_nil _ _), hadd hs' (hP hx)⟩

end Alternatives

end Selector

end Testimony
