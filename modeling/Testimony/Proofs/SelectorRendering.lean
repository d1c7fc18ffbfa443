import Testimony.Proofs.SelectorSpelling

/-!
# Writing selectors

A compound is written as its tag, its ids, its classes and its tests of attributes, whatever the
order they were read in, and as a star if it has none of these. Combinators and commas have the
blanks around them that a reader expects, and values stand between quotes (`render`).

Not everything that the data types admit could be read back, only what was read before: names are
identifiers, those of tags and attributes in lower case, and a value lacks the double or the single
quote, so that it can be put between these. With this, what is written spells what was read. It is
shown for each part in turn, from `SpellsValue.betweenQuotes_self` to `SpellsList.render_self`. So
reading gives the same selector again (`parse_render`).
-/

namespace Testimony

/-! ## Rendering -/

/-- A value between double quotes, or between single ones if it has a double quote in it. -/
def betweenQuotes (value : String) : List Char :=
  let quote := if '"' ∈ value.toList then '\'' else '"'
  quote :: (value.toList ++ [quote])

def AttributeTest.render : AttributeTest → List Char
  | present name => '[' :: (name.toList ++ [']'])
  | equals name value => '[' :: (name.toList ++ ['='] ++ betweenQuotes value ++ [']'])

def Selector.Qualifier.render : Qualifier → List Char
  | .id name => '#' :: name.toList
  | .class name => '.' :: name.toList
  | .attribute test => test.render

namespace Compound

/-- The ids, the classes and the tests of attributes. -/
def qualifiers (c : Compound) : List Selector.Qualifier :=
  c.ids.map .id ++ c.classes.map .class ++ c.attributes.map .attribute

/-- The tag, or a star if there is nothing else to write. -/
def renderTag (c : Compound) : List Char :=
  match c.tag with
  | some tag => tag.toList
  | none => if c.qualifiers.isEmpty then ['*'] else []

def render (c : Compound) : List Char :=
  c.renderTag ++ c.qualifiers.flatMap Selector.Qualifier.render

end Compound

def Combinator.render : Combinator → List Char
  | descendant => [' ']
  | child => [' ', '>', ' ']

def Complex.render (s : Complex) : List Char :=
  s.head.render ++ s.tail.flatMap fun (k, c) => k.render ++ c.render

namespace Selector

open Text

/-- The text of some alternatives. -/
def render (cs : List Complex) : String :=
  String.ofList ([',', ' '].intercalate (cs.map Complex.render))

/-! ## Names and values -/

section Names

variable {w : List Char}

/-- A capital letter becomes a small one, and any other character stays as it is. -/
theorem toLower_cases (c : Char) :
    (('A' ≤ c ∧ c ≤ 'Z') ∧ 'a' ≤ c.toLower ∧ c.toLower ≤ 'z')
      ∨ ¬ ('A' ≤ c ∧ c ≤ 'Z') ∧ c.toLower = c := by
  unfold Char.toLower
  split
  · rename_i h
    refine .inl ⟨h, ?_⟩
    simp only [ge_iff_le, Char.le_def, UInt32.le_iff_toNat_le, UInt32.toNat_add, Char.reduceVal,
      UInt32.reduceSub, UInt32.reduceToNat] at h ⊢
    omega
  · rename_i h
    exact .inr ⟨h, rfl⟩

theorem not_capital_toLower (c : Char) : ¬ ('A' ≤ c.toLower ∧ c.toLower ≤ 'Z') := by
  rcases toLower_cases c with ⟨-, hsmall, -⟩ | ⟨hc, hstays⟩
  · intro h
    exact absurd (Char.le_trans hsmall h.2) (by decide)
  · rwa [hstays]

theorem toList_toLower (s : String) : s.toLower.toList = s.toList.map Char.toLower :=
  String.toList_map

theorem toLower_toLower (s : String) : s.toLower.toLower = s.toLower := by
  have hchar (c : Char) : c.toLower.toLower = c.toLower :=
    ((toLower_cases c.toLower).resolve_left fun h => not_capital_toLower c h.1).2
  rw [← String.toList_inj]
  simp [toList_toLower, hchar]

theorem isIdentStart_toLower {c : Char} (h : isIdentStart c = true) :
    isIdentStart c.toLower = true := by
  rcases toLower_cases c with ⟨-, hsmall⟩ | ⟨-, hstays⟩
  · exact isIdentStart_iff.2 (.inr (.inl hsmall))
  · rwa [hstays]

theorem isIdentChar_toLower {c : Char} (h : isIdentChar c = true) :
    isIdentChar c.toLower = true := by
  rcases toLower_cases c with ⟨-, hsmall⟩ | ⟨-, hstays⟩
  · exact isIdentChar_of_start (isIdentStart_iff.2 (.inr (.inl hsmall)))
  · rwa [hstays]

theorem IsIdent.toLower (h : IsIdent w) : IsIdent (w.map Char.toLower) := by
  have hchars {r : List Char} (hr : ∀ d ∈ r, isIdentChar d = true) :
      ∀ d ∈ r.map Char.toLower, isIdentChar d = true := by
    intro d hd
    obtain ⟨c, hc, rfl⟩ := List.mem_map.1 hd
    exact isIdentChar_toLower (hr c hc)
  rcases h with ⟨hc, hr⟩ | ⟨hc, hr⟩
  · exact .plain (isIdentStart_toLower hc) (hchars hr)
  · exact .hyphen (isIdentStart_toLower hc) (hchars hr)

/-- An identifier in lower case, as the names of tags and attributes are kept. -/
structure IsLowerName (name : String) : Prop where
  ident : IsIdent name.toList
  lower : name.toLower = name

theorem IsIdent.isLowerName (h : IsIdent w) : IsLowerName (String.ofList w).toLower where
  ident := by
    rw [toList_toLower, String.toList_ofList]
    exact h.toLower
  lower := toLower_toLower _

theorem SpellsValue.lacks_quote {value : String} (h : SpellsValue w value) :
    '"' ∉ value.toList ∨ '\'' ∉ value.toList := by
  rcases h with hw | ⟨rfl | rfl, hw⟩
  · rw [String.toList_ofList]
    exact .inl fun hmem => absurd (hw.all_identChar _ hmem) (by decide)
  · rw [String.toList_ofList]
    exact .inl fun hmem => hw _ hmem rfl
  · rw [String.toList_ofList]
    exact .inr fun hmem => hw _ hmem rfl

theorem SpellsValue.betweenQuotes_self {value : String} (h : SpellsValue w value) :
    SpellsValue (betweenQuotes value) value := by
  have hspells {quote : Char} (hq : quote = '"' ∨ quote = '\'') (hmem : quote ∉ value.toList) :
      SpellsValue (quote :: (value.toList ++ [quote])) value := by
    have := SpellsValue.quoted hq fun c hc => ne_of_mem_of_not_mem hc hmem
    rwa [String.ofList_toList] at this
  unfold betweenQuotes
  dsimp only
  split_ifs with hdouble
  · exact hspells (.inr rfl) (h.lacks_quote.resolve_left (not_not_intro hdouble))
  · exact hspells (.inl rfl) hdouble

end Names

/-! ## Compounds -/

section Qualifiers

variable {w : List Char} {q : Qualifier}

theorem spellsTag_name {name : String} (h : IsLowerName name) :
    SpellsTag name.toList (some name) := by
  have hspells := SpellsTag.name h.ident
  rwa [String.ofList_toList, h.lower] at hspells

theorem spellsTest_present {name : String} (h : IsLowerName name) :
    SpellsTest (name.toList ++ [']']) (.present name) := by
  have hspells := SpellsTest.present blanks_nil h.ident blanks_nil
  rw [String.ofList_toList, h.lower] at hspells
  simpa using hspells

theorem spellsTest_equals {name value : String} {v : List Char} (h : IsLowerName name)
    (hv : SpellsValue v value) :
    SpellsTest (name.toList ++ ['='] ++ v ++ [']']) (.equals name value) := by
  have hspells := SpellsTest.equals blanks_nil h.ident blanks_nil blanks_nil hv blanks_nil
  rw [String.ofList_toList, h.lower] at hspells
  simpa using hspells

theorem SpellsQualifier.render_self (h : SpellsQualifier w q) : SpellsQualifier q.render q := by
  rcases h with hw | hw | ⟨-, hw, -⟩ | ⟨-, hw, -, -, hv, -⟩
  · simpa [Qualifier.render] using SpellsQualifier.id hw
  · simpa [Qualifier.render] using SpellsQualifier.class hw
  · exact .attribute (spellsTest_present hw.isLowerName)
  · exact .attribute (spellsTest_equals hw.isLowerName hv.betweenQuotes_self)

end Qualifiers

section Each

variable {α : Type} {spells : List Char → α → Prop} {w : List Char} {xs : List α}

theorem SpellsEach.exists_of_mem (h : SpellsEach spells w xs) : ∀ x ∈ xs, ∃ v, spells v x := by
  induction h with
  | nil => simp
  | cons hx _ ih => exact List.forall_mem_cons.2 ⟨⟨_, hx⟩, ih⟩

theorem spellsEach_flatMap {f : α → List Char} (h : ∀ x ∈ xs, spells (f x) x) :
    SpellsEach spells (xs.flatMap f) xs := by
  induction xs with
  | nil => exact .nil
  | cons x xs ih =>
    obtain ⟨hx, hxs⟩ := List.forall_mem_cons.1 h
    exact .cons hx (ih hxs)

end Each

section Compounds

variable {w : List Char} {c : Compound} {tag : Option String} {q q' : Qualifier}
  {qs : List Qualifier}

theorem tag_compoundOf : (compoundOf tag qs).tag = tag := by
  induction qs with
  | nil => rfl
  | cons q qs ih => cases q <;> exact ih

theorem mem_qualifiers_addTo : q ∈ (q'.addTo c).qualifiers ↔ q = q' ∨ q ∈ c.qualifiers := by
  cases q' <;> simp [Qualifier.addTo, Compound.qualifiers, eq_comm, or_left_comm]

theorem mem_qualifiers_compoundOf : q ∈ (compoundOf tag qs).qualifiers ↔ q ∈ qs := by
  induction qs with
  | nil => simp [compoundOf, Compound.qualifiers]
  | cons q' qs ih =>
    have hcons : compoundOf tag (q' :: qs) = q'.addTo (compoundOf tag qs) := rfl
    rw [hcons, mem_qualifiers_addTo, ih, List.mem_cons]

/-- A compound is put together again from what is written of it. -/
theorem compoundOf_qualifiers (c : Compound) : compoundOf c.tag c.qualifiers = c := by
  rcases c with ⟨tag, ids, classes, attributes⟩
  -- the first id was added last; once there are none it was the first class, then the first test
  induction ids with
  | cons id ids ih => exact congrArg (Qualifier.addTo · (.id id)) ih
  | nil =>
    induction classes with
    | cons name classes ih => exact congrArg (Qualifier.addTo · (.class name)) ih
    | nil =>
      induction attributes with
      | cons t attributes ih => exact congrArg (Qualifier.addTo · (.attribute t)) ih
      | nil => rfl

theorem spellsCompound_render (htag : ∀ tag, c.tag = some tag → SpellsTag tag.toList (some tag))
    (hqualifiers : ∀ q ∈ c.qualifiers, SpellsQualifier q.render q) :
    SpellsCompound c.render c := by
  have heach := spellsEach_flatMap hqualifiers
  have hself := compoundOf_qualifiers c
  rw [Compound.render, Compound.renderTag]
  rcases hc : c.tag with _ | tag
  · rw [hc] at hself
    rcases hq : c.qualifiers with _ | ⟨q, qs⟩
    · rw [hq] at hself heach
      exact hself ▸ SpellsCompound.tagged .star heach
    · rw [hq] at hself heach
      exact hself ▸ SpellsCompound.untagged heach
  · rw [hc] at hself
    have := SpellsCompound.tagged (htag tag hc) heach
    rwa [hself] at this

theorem SpellsCompound.tag_spelled {name : String} (h : SpellsCompound w c)
    (htag : c.tag = some name) : ∃ v, SpellsTag v (some name) := by
  rcases h with ⟨hu, -⟩ | -
  · rw [tag_compoundOf] at htag
    exact ⟨_, htag ▸ hu⟩
  · rw [tag_compoundOf] at htag
    cases htag

theorem SpellsCompound.qualifier_spelled (h : SpellsCompound w c) (hq : q ∈ c.qualifiers) :
    ∃ v, SpellsQualifier v q := by
  rcases h with ⟨-, hv⟩ | hv
  all_goals exact hv.exists_of_mem q (mem_qualifiers_compoundOf.1 hq)

theorem SpellsTag.isLowerName {name : String} (h : SpellsTag w (some name)) : IsLowerName name := by
  rcases h with _ | hw
  exact hw.isLowerName

theorem SpellsCompound.render_self (h : SpellsCompound w c) : SpellsCompound c.render c := by
  refine spellsCompound_render (fun tag htag => ?_) fun q hq => ?_
  · obtain ⟨v, hv⟩ := h.tag_spelled htag
    exact spellsTag_name hv.isLowerName
  · obtain ⟨v, hv⟩ := h.qualifier_spelled hq
    exact hv.render_self

end Compounds

/-! ## Lists -/

section Lists

variable {w : List Char} {x : Complex} {xs : List Complex}

theorem spellsCombinator_render (k : Combinator) : SpellsCombinator k.render k := by
  cases k with
  | descendant => exact .descendant blanks_space (List.cons_ne_nil _ _)
  | child => exact .child blanks_space blanks_space

theorem SpellsComplex.render_self (h : SpellsComplex w x) : SpellsComplex x.render x := by
  rcases h with ⟨hhead, htail⟩
  refine .intro hhead.render_self (spellsEach_flatMap fun link hlink => ?_)
  obtain ⟨v, ⟨-, hw⟩⟩ := htail.exists_of_mem link hlink
  exact .intro (spellsCombinator_render _) hw.render_self

theorem SpellsAlternative.render_self {b : List Char} (hb : Blanks b)
    (h : SpellsAlternative w x) : SpellsAlternative (b ++ x.render) x := by
  rcases h with ⟨-, hw, -⟩
  simpa using SpellsAlternative.intro hb hw.render_self blanks_nil

/-- The alternatives behind the first have a comma and a blank before them. -/
theorem toList_render_cons (x : Complex) (xs : List Complex) :
    (render (x :: xs)).toList = x.render ++ xs.flatMap fun y => ',' :: ([' '] ++ y.render) := by
  induction xs generalizing x with
  | nil => simp [render]
  | cons y ys ih =>
    have hcons : (render (x :: y :: ys)).toList =
        x.render ++ [',', ' '] ++ (render (y :: ys)).toList := by
      simp [render, List.intercalate_cons_cons]
    simp [hcons, ih]

theorem SpellsList.render_self (h : SpellsList w xs) : SpellsList (render xs).toList xs := by
  rcases h with ⟨hw, hv⟩
  rw [toList_render_cons]
  refine .intro (hw.render_self blanks_nil) (spellsEach_flatMap fun y hy => ?_)
  obtain ⟨v, ⟨hw⟩⟩ := hv.exists_of_mem y hy
  exact .intro (hw.render_self blanks_space)

end Lists

def sampleSelector : Selector where
  source := "NAV.wide#top.dark > a[Title = 'say \"x, y] > z\"' ],*"
  alternatives :=
    [⟨{ tag := some "nav", ids := ["top"], classes := ["wide", "dark"] },
      [(.child, { tag := some "a", attributes := [.equals "title" "say \"x, y] > z\""] })]⟩,
    ⟨{}, []⟩]

/-- What was read from a text is read again from its rendering. -/
theorem parse_render (s : String) {selector : Selector} (h : parse s = .ok selector) :
    parse (render selector.alternatives) =
      .ok ⟨render selector.alternatives, selector.alternatives⟩ :=
  parse_eq_ok.2 ⟨(parse_eq_ok.1 h).1.render_self, rfl⟩

theorem parse_render_sample :
    parse "NAV.wide#top.dark > a[Title = 'say \"x, y] > z\"' ],*" = .ok sampleSelector ∧
      render sampleSelector.alternatives =
        "nav#top.wide.dark > a[title='say \"x, y] > z\"'], *" ∧
      parse (render sampleSelector.alternatives) =
        .ok ⟨render sampleSelector.alternatives, sampleSelector.alternatives⟩ := by
  have hread : parse sampleSelector.source = .ok sampleSelector := by decide +kernel
  exact ⟨hread, by decide +kernel, parse_render _ hread⟩

end Selector

end Testimony
