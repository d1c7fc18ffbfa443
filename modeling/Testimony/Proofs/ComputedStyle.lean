import Testimony.Page.Node
import Testimony.Proofs.Ancestry

/-!
# Computed styles

The style of an element is found by going up: an element that sets the property itself ends the
search, a property that is not inherited ends it too, and otherwise the search goes on at the parent
(`ascend`). A parent stands before its children, so the search from position `x` is over within
`x + 1` rounds, and what it finds is the computed style (`ascend_eq_style?`).

So the computed style obeys the law of the style sheets, by which an element that sets nothing takes
over the computed value of its parent: `style?_of_inline`, `style?_of_parent` and
`style?_of_initial`. `inline?_setStyles` says which value an element sets, as later settings hide
earlier ones and letter case does not count.
-/

namespace Testimony

/-! ## What an element sets -/

namespace Element

/-- The element with these properties set, one after the other. -/
def setStyles (e : Element) (settings : List (String × String)) : Element :=
  settings.foldl (fun e setting => e.setStyle setting.1 setting.2) e

variable {e : Element} {settings : List (String × String)} {property : String}

theorem inline?_setStyle {name value : String} :
    (e.setStyle name value).inline? property.toLower
      = if name.toLower = property.toLower then some value
        else e.inline? property.toLower := by
  unfold inline? setStyle
  rw [List.lookup_cons]
  by_cases h : name.toLower = property.toLower
  · simp [h]
  · have hne : (property.toLower == name.toLower) = false := by
      simpa using fun heq => h heq.symm
    simp [h, hne]

/-- The value of a property is the one set last under this name in any letter case. -/
theorem inline?_setStyles :
    (e.setStyles settings).inline? property.toLower
      = match settings.reverse.find? (·.1.toLower == property.toLower) with
        | some setting => some setting.2
        | none => e.inline? property.toLower := by
  induction settings generalizing e with
  | nil => rfl
  | cons setting settings ih =>
    have hstep : e.setStyles (setting :: settings)
        = (e.setStyle setting.1 setting.2).setStyles settings := rfl
    rw [hstep, ih, inline?_setStyle, List.reverse_cons, List.find?_append]
    rcases hs : settings.reverse.find? (·.1.toLower == property.toLower) with _ | later
    · by_cases h : setting.1.toLower = property.toLower <;> simp [hs, h]
    · simp [hs]

end Element

/-! ## Going up -/

namespace Page

/-- The search for a property from an element upwards, if it is over within these rounds. It may
find no value, but past the root there is the initial value to take. -/
def ascend (p : Page) (name : String) : (rounds : Nat) → Option (Fin p.size) →
    Option (Option String)
  | _, none => some (Style.initialValue? name)
  | 0, some _ => none
  | rounds + 1, some x =>
    match (p.element x).inline? name with
    | some value => some (some value)
    | none =>
      if Style.isInherited name then p.ascend name rounds (p.parent? x)
      else some (Style.initialValue? name)

variable {p : Page} {a x : Fin p.size} {property value : String}

theorem style?_of_inline (h : (p.element x).inline? property.toLower = some value) :
    p.style? x property = some value := by
  unfold style?
  by_cases hi : Style.isInherited property.toLower <;> simp [hi, h]

theorem style?_of_parent (h : (p.element x).inline? property.toLower = none)
    (hi : Style.isInherited property.toLower = true) (ha : p.IsParent a x) :
    p.style? x property = p.style? a property := by
  unfold style?
  simp [hi, h, ha.ancestors]

/-- Where nothing is set and there is nothing to take over, the initial value stands. -/
theorem style?_of_initial (h : (p.element x).inline? property.toLower = none)
    (hi : Style.isInherited property.toLower = false ∨ p.parent? x = none) :
    p.style? x property = Style.initialValue? property.toLower := by
  unfold style?
  by_cases hinherited : Style.isInherited property.toLower
  · have hroot : p.parent? x = none := by simpa [hinherited] using hi
    simp [hinherited, h, ancestors_of_root hroot]
  · simp [hinherited, h]

theorem ascend_eq_style? : ∀ (rounds : Nat) (x : Fin p.size), x < rounds →
    p.ascend property.toLower rounds (some x) = some (p.style? x property)
  | 0, x, h => by omega
  | rounds + 1, x, h => by
    rcases hx : (p.element x).inline? property.toLower with _ | value
    · by_cases hi : Style.isInherited property.toLower
      · simp only [ascend, hx, hi, if_true]
        rcases ha : p.parent? x with _ | a
        · rw [style?_of_initial hx (.inr ha)]
          simp [ascend]
        · have hlt : a < x := lt_of_parent? ha
          rw [style?_of_parent hx hi ha]
          exact ascend_eq_style? rounds a (by omega)
      · simp [ascend, hx, hi, style?_of_initial hx (.inl (by simpa using hi))]
    · simp [ascend, hx, style?_of_inline hx]

/-- The search upwards is over within as many rounds as there are positions up to the element. It
finds the element's own value, or the computed value of the parent if the property is inherited, or
the initial value. The own value is what was set last, in any letter case. -/
theorem style?_recursion (p : Page) (x : Fin p.size) (property : String) :
    p.ascend property.toLower (x + 1) (some x) = some (p.style? x property)
      ∧ p.style? x property
        = (match (p.element x).inline? property.toLower with
          | some value => some value
          | none =>
            if Style.isInherited property.toLower then
              match p.parent? x with
              | some a => p.style? a property
              | none => Style.initialValue? property.toLower
            else Style.initialValue? property.toLower)
      ∧ ∀ (e : Element) (settings : List (String × String)),
          (e.setStyles settings).inline? property.toLower
            = match settings.reverse.find? (·.1.toLower == property.toLower) with
              | some s => some s.2
              | none => e.inline? property.toLower := by
  refine ⟨ascend_eq_style? _ x (Nat.lt_succ_self _), ?_,
    fun e settings => Element.inline?_setStyles⟩
  rcases hx : (p.element x).inline? property.toLower with _ | value
  · by_cases hi : Style.isInherited property.toLower
    · rcases ha : p.parent? x with _ | a
      · simp [hi, style?_of_initial hx (.inr ha)]
      · simp [hi, style?_of_parent hx hi ha]
    · simp [hi, style?_of_initial hx (.inl (by simpa using hi))]
  · simp [style?_of_inline hx]

end Page

end Testimony
