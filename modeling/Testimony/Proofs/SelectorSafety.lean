import Testimony.Proofs.ReadingLoops
import Testimony.Proofs.SelectorGrammar
import Testimony.Proofs.SelectorRendering

/-!
# Selectors match without a miss

A chain in columns is matched from its last compound to the first by looking compounds and
combinators up by number. The last number is one less than there are compounds, and on every step to
the left a compound and a combinator must be there, so a look-up can miss (`Miss`).

With one combinator fewer than compounds none does, whatever the elements are (`fits_of_aligned`),
and the answer is that of the matcher that takes the chain link by link (`fits_columns`). Columns
that were read are like this, so a selector that was read can be matched by number on every element
(`parse_safe`). The names in it are identifiers as the grammar has them, those of tags and
attributes without capital letters (`Compound.WellNamed`).
-/

namespace Testimony

/-! ## Look-ups -/

/-- A number that was looked up in vain. -/
inductive Miss where
  | belowZero
  | compound (i : Nat)
  | combinator (i : Nat)
deriving DecidableEq

namespace Columns

/-- The number of the last compound. -/
def last (c : Columns) : Except Miss Nat :=
  match c.compounds.length with
  | 0 => .error .belowZero
  | n + 1 => .ok n

def compound (c : Columns) (i : Nat) : Except Miss Compound :=
  match c.compounds[i]? with
  | some d => .ok d
  | none => .error (.compound i)

def combinator (c : Columns) (i : Nat) : Except Miss Combinator :=
  match c.combinators[i]? with
  | some k => .ok k
  | none => .error (.combinator i)

/-- Whether an element of the list passes, together with the elements behind it. -/
def search (test : Element → List Element → Except Miss Bool) : List Element → Except Miss Bool
  | [] => .ok false
  | e :: above => do
    if ← test e above then return true
    search test above

/-- Whether the compounds before this number fit the elements above. -/
def fitsLeft (c : Columns) : Nat → List Element → Except Miss Bool
  | 0, _ => .ok true
  | i + 1, above => do
    let d ← c.compound i
    let fits (e : Element) (beyond : List Element) : Except Miss Bool :=
      if d.accepts e then c.fitsLeft i beyond else .ok false
    match ← c.combinator i, above with
    | .child, [] => .ok false
    | .child, parent :: beyond => fits parent beyond
    | .descendant, _ => search fits above

/-- Whether the columns describe an element with the elements above it, nearest first. -/
def fits (c : Columns) (e : Element) (above : List Element) : Except Miss Bool := do
  let i ← c.last
  let d ← c.compound i
  if d.accepts e then c.fitsLeft i above else .ok false

/-- What stands to the left of a number, from right to left, each compound with the combinator on
its right. -/
def leftOf (c : Columns) (i : Nat) : List (Combinator × Compound) :=
  ((c.combinators.take i).zip (c.compounds.take i)).reverse

variable {c : Columns} {i : Nat} {e : Element} {above : List Element}

theorem search_eq {test : Element → List Element → Except Miss Bool}
    {answer : Element → List Element → Bool} (h : ∀ e above, test e above = .ok (answer e above)) :
    search test above = .ok (Complex.anyBehind answer above) := by
  induction above with
  | nil => rfl
  | cons e above ih =>
    rw [search, h e above, Complex.anyBehind]
    rcases answer e above with _ | _
    · exact ih
    · rfl

theorem leftOf_succ {d : Compound} {k : Combinator} (hd : c.compounds[i]? = some d)
    (hk : c.combinators[i]? = some k) : c.leftOf (i + 1) = (k, d) :: c.leftOf i := by
  have hlen : (c.combinators.take i).length = (c.compounds.take i).length := by
    have hid := (List.getElem?_eq_some_iff.1 hd).1
    have hik := (List.getElem?_eq_some_iff.1 hk).1
    rw [List.length_take_of_le hid.le, List.length_take_of_le hik.le]
  simp [leftOf, List.take_add_one, hd, hk, List.zip_append hlen]

/-- On aligned columns all look-ups to the left of a number find something. -/
theorem fitsLeft_eq (h : c.Aligned) : ∀ {i : Nat} {above : List Element},
    i ≤ c.combinators.length →
      c.fitsLeft i above = .ok (Complex.acceptsLeft (c.leftOf i) above)
  | 0, above, _ => by
    simp [fitsLeft, leftOf, Complex.acceptsLeft]
  | i + 1, above, hi => by
    have hlen : i < c.compounds.length := by
      unfold Aligned at h
      omega
    have hd : c.compounds[i]? = some c.compounds[i] := List.getElem?_eq_getElem hlen
    have hk : c.combinators[i]? = some c.combinators[i] := List.getElem?_eq_getElem hi
    -- both combinators ask this of an element, one of the parent alone and one of all ancestors
    have hleft (e : Element) (beyond : List Element) :
        (if c.compounds[i].accepts e then c.fitsLeft i beyond else .ok false)
          = Except.ok (c.compounds[i].accepts e && Complex.acceptsLeft (c.leftOf i) beyond) := by
      rw [fitsLeft_eq h (Nat.le_of_succ_le hi)]
      split_ifs with he <;> simp [he]
    rw [leftOf_succ hd hk, fitsLeft, compound, hd, combinator, hk]
    simp only [bind, Except.bind]
    rcases c.combinators[i] with _ | _
    · rw [search_eq hleft, Complex.acceptsLeft]
    · rcases above with _ | ⟨parent, beyond⟩
      · rfl
      · rw [Complex.acceptsLeft]
        exact hleft parent beyond

theorem fits_of_aligned (h : c.Aligned) {d : Compound}
    (hd : c.compounds[c.combinators.length]? = some d) :
    c.fits e above
      = .ok (d.accepts e && Complex.acceptsLeft (c.leftOf c.combinators.length) above) := by
  have hlast : c.last = .ok c.combinators.length := by rw [last, h]
  have hleft : c.fitsLeft c.combinators.length above = _ := fitsLeft_eq h le_rfl
  rw [fits, hlast]
  simp only [bind, Except.bind, compound, hd, hleft]
  split_ifs with he <;> simp [he]

/-- Without a compound there is no last number, and two compounds need a combinator. -/
example : (⟨[], []⟩ : Columns).fits (.ofTag "p") [] = .error .belowZero ∧
    (⟨[{}, {}], []⟩ : Columns).fits (.ofTag "p") [] = .error (.combinator 0) :=
  ⟨rfl, rfl⟩

/-- A further link has the compound that was the last on its left. -/
theorem leftOf_extend {last d : Compound} {k : Combinator}
    (hlast : c.compounds[c.combinators.length]? = some last) :
    (c.extend [(k, d)]).leftOf (c.combinators.length + 1)
      = (k, last) :: c.leftOf c.combinators.length := by
  have hlen : c.combinators.length < c.compounds.length := (List.getElem?_eq_some_iff.1 hlast).1
  have hd : (c.extend [(k, d)]).compounds[c.combinators.length]? = some last := by
    rw [extend, List.getElem?_append_left hlen, hlast]
  have hk : (c.extend [(k, d)]).combinators[c.combinators.length]? = some k := by
    simp [extend]
  rw [leftOf_succ hd hk]
  simp only [leftOf, extend, List.take_append_of_le_length le_rfl,
    List.take_append_of_le_length hlen.le]

end Columns

/-- Whether one of the alternatives fits, each matched by number. -/
def Selector.fits (s : Selector) (e : Element) (above : List Element) : Except Miss Bool :=
  s.alternatives.anyM fun x => x.columns.fits e above

section Chains

variable {e : Element} {above : List Element}

/-- The matcher takes the last compound first and then what stands to its left. -/
theorem Complex.fromRight_columns {s : Complex} (h : s.columns.Aligned) :
    s.columns.compounds[s.columns.combinators.length]? = some s.fromRight.1 ∧
      s.columns.leftOf s.columns.combinators.length = s.fromRight.2 := by
  rcases s with ⟨head, tail⟩
  induction tail using List.reverseRecOn with
  | nil => exact ⟨rfl, rfl⟩
  | append_singleton tail link ih =>
    obtain ⟨k, d⟩ := link
    rw [columns_append, Columns.aligned_extend] at h
    obtain ⟨hlast, hleft⟩ := ih h
    have hcount : ((⟨head, tail⟩ : Complex).columns.extend [(k, d)]).combinators.length
        = (⟨head, tail⟩ : Complex).columns.combinators.length + 1 := by
      simp [Columns.extend]
    rw [columns_append, fromRight_append, hcount, Columns.leftOf_extend hlast, hleft, ← h]
    exact ⟨by simp [Columns.extend], rfl⟩

theorem Complex.fits_columns {s : Complex} (h : s.columns.Aligned) :
    s.columns.fits e above = .ok (s.accepts e above) := by
  obtain ⟨hlast, hleft⟩ := fromRight_columns h
  rw [Columns.fits_of_aligned h hlast, accepts, hleft]

theorem Selector.fits_eq {s : Selector} (h : ∀ x ∈ s.alternatives, x.columns.Aligned) :
    s.fits e above = .ok (s.accepts e above) := by
  rcases s with ⟨source, xs⟩
  simp only [fits, accepts]
  induction xs with
  | nil => rfl
  | cons x xs ih =>
    obtain ⟨hx, hxs⟩ := List.forall_mem_cons.1 h
    rw [List.anyM, Complex.fits_columns hx, List.any_cons]
    rcases x.accepts e above with _ | _
    · exact ih hxs
    · rfl

end Chains

/-! ## Names -/

def AttributeTest.name : AttributeTest → String
  | present name => name
  | equals name _ => name

/-- An identifier without capital letters. -/
structure IsSmallName (name : String) : Prop where
  ident : name.toList ∈ Selector.Grammar.ident
  small : ∀ c ∈ name.toList, ¬ ('A' ≤ c ∧ c ≤ 'Z')

/-- All names of a compound are identifiers, those of tags and attributes without capitals. -/
structure Compound.WellNamed (c : Compound) : Prop where
  tag : ∀ tag, c.tag = some tag → IsSmallName tag
  ids : ∀ id ∈ c.ids, id.toList ∈ Selector.Grammar.ident
  classes : ∀ name ∈ c.classes, name.toList ∈ Selector.Grammar.ident
  attributes : ∀ t ∈ c.attributes, IsSmallName t.name

namespace Selector

section Names

variable {w : List Char} {c : Compound} {x : Complex}

theorem IsIdent.mem_ident (h : IsIdent w) : (String.ofList w).toList ∈ Grammar.ident := by
  rw [String.toList_ofList]
  exact Grammar.mem_ident.2 h

theorem IsLowerName.isSmallName {name : String} (h : IsLowerName name) : IsSmallName name where
  ident := Grammar.mem_ident.2 h.ident
  small := by
    intro c hc
    rw [← h.lower, toList_toLower] at hc
    obtain ⟨d, -, rfl⟩ := List.mem_map.1 hc
    exact not_capital_toLower d

theorem SpellsTest.isLowerName {t : AttributeTest} (h : SpellsTest w t) : IsLowerName t.name := by
  rcases h with ⟨-, hw, -⟩ | ⟨-, hw, -, -, -, -⟩
  · exact hw.isLowerName
  · exact hw.isLowerName

theorem SpellsCompound.wellNamed (h : SpellsCompound w c) : c.WellNamed where
  tag tag htag := by
    obtain ⟨v, hv⟩ := h.tag_spelled htag
    exact hv.isLowerName.isSmallName
  ids id hid := by
    have hq : Qualifier.id id ∈ c.qualifiers := by simp [Compound.qualifiers, hid]
    obtain ⟨v, hv⟩ := h.qualifier_spelled hq
    rcases hv with hw | _ | _
    exact hw.mem_ident
  classes name hname := by
    have hq : Qualifier.class name ∈ c.qualifiers := by simp [Compound.qualifiers, hname]
    obtain ⟨v, hv⟩ := h.qualifier_spelled hq
    rcases hv with _ | hw | _
    exact hw.mem_ident
  attributes t ht := by
    have hq : Qualifier.attribute t ∈ c.qualifiers := by simp [Compound.qualifiers, ht]
    obtain ⟨v, hv⟩ := h.qualifier_spelled hq
    rcases hv with _ | _ | hw
    exact hw.isLowerName.isSmallName

theorem SpellsComplex.compound_spelled (h : SpellsComplex w x) (hc : c ∈ x.compounds) :
    ∃ v, SpellsCompound v c := by
  rcases h with ⟨hhead, htail⟩
  rcases List.mem_cons.1 hc with rfl | hc
  · exact ⟨_, hhead⟩
  · obtain ⟨link, hlink, rfl⟩ := List.mem_map.1 hc
    obtain ⟨v, ⟨-, hw⟩⟩ := htail.exists_of_mem link hlink
    exact ⟨_, hw⟩

end Names

/-- Reading ends on every text, as each round of its loops that goes on leaves less of it, and a
selector that was read is matched by number on every element without a miss. -/
theorem parse_safe :
    LoopEnds qualifierRound qualifiersFrom ∧ LoopEnds linkRound linksFrom ∧
      LoopEnds alternativeRound alternativesFrom ∧
      (∀ n s t, EndsAfter linkRound n s (.ok t) → s.gathered.Aligned → t.gathered.Aligned) ∧
      ∀ (source : String) (selector : Selector), parse source = .ok selector →
        selector.alternatives ≠ [] ∧
          (∀ x ∈ selector.alternatives, x.columns.Aligned ∧ ∀ c ∈ x.compounds, c.WellNamed) ∧
          ∀ e above, selector.fits e above = .ok (selector.accepts e above) := by
  refine ⟨loopEnds_qualifiers, loopEnds_links, loopEnds_alternatives,
    fun _ _ _ => EndsAfter.aligned, fun source selector h => ?_⟩
  have hread {s : List Char} {x : Complex} {r : List Char} (hx : complex s = .ok (x, r)) :
      x.columns.Aligned ∧ ∀ c ∈ x.compounds, c.WellNamed := by
    obtain ⟨w, hw, -⟩ := spells_of_complex hx
    refine ⟨aligned_of_complex hx, fun c hc => ?_⟩
    obtain ⟨v, hv⟩ := hw.compound_spelled hc
    exact hv.wellNamed
  obtain ⟨hne, hall⟩ := alternatives_of_complexes hread (complexes_eq_ok.2 (parse_eq_ok.1 h).1)
  exact ⟨hne, hall, fun e above => fits_eq fun x hx => (hall x hx).1⟩

def sampleLink : Element := (Element.ofTag "a").setAttribute "title" "say \"x, y] > z\""

def sampleNav : Element := (((Element.ofTag "nav").withId "top").addClass "wide").addClass "dark"

theorem parse_safe_sample :
    parse sampleSelector.source = .ok sampleSelector ∧
      (∀ x ∈ sampleSelector.alternatives, x.columns.Aligned ∧ ∀ c ∈ x.compounds, c.WellNamed) ∧
      sampleSelector.fits sampleLink [sampleNav] = .ok true := by
  have hread : parse sampleSelector.source = .ok sampleSelector := by decide +kernel
  obtain ⟨-, hall, hfits⟩ := parse_safe.2.2.2.2 _ _ hread
  have haccepts : sampleSelector.accepts sampleLink [sampleNav] = true := by decide +kernel
  exact ⟨hread, hall, haccepts ▸ hfits sampleLink [sampleNav]⟩

end Selector

end Testimony
