import Testimony.Node
import Testimony.Page.Basic
import Testimony.Selector.Match
import Testimony.Selector.Reader

/-!
# Elements of pages as nodes

What can be asked of a page: elements by selector, in document order, or by id, and the style of an
element. A query from an element searches below it, but a selector may still speak of elements
further up. The style tables say which properties pass from an element to its children, and the
value of a property that nothing sets; names are in lower case. An element of a page answers
through its page, and so it is a node.
-/

namespace Testimony

/-! ### Style properties -/

namespace Style

def inheritedProperties : List String :=
  ["color", "cursor", "font-family", "font-size", "font-style", "font-weight", "letter-spacing",
    "line-height", "text-align", "visibility", "white-space"]

def isInherited (property : String) : Bool :=
  inheritedProperties.contains property

def initialValues : List (String × String) :=
  [("background-color", "rgba(0, 0, 0, 0)"), ("color", "rgb(0, 0, 0)"), ("display", "inline"),
    ("font-size", "16px"), ("font-style", "normal"), ("font-weight", "400"), ("height", "auto"),
    ("opacity", "1"), ("position", "static"), ("visibility", "visible"), ("width", "auto"),
    ("z-index", "auto")]

def initialValue? (property : String) : Option String :=
  initialValues.lookup property

end Style

/-! ### Questions to a page -/

namespace Page

/-- The positions from `start` to before `stop` whose elements a selector describes. -/
def select (p : Page) (start stop : Nat) (selector : String) :
    Except QueryFailure (List (Fin p.size)) := do
  let s ← Selector.parse selector
  return (List.finRange p.size).filter fun i =>
    start ≤ i && i < stop && s.accepts (p.element i) ((p.ancestors i).map p.element)

/-- All elements that a selector describes. -/
def queryAll (p : Page) (selector : String) : Except QueryFailure (List (Fin p.size)) :=
  p.select 0 p.size selector

/-- The elements below `i` that a selector describes. -/
def queryFrom (p : Page) (i : Fin p.size) (selector : String) :
    Except QueryFailure (List (Fin p.size)) :=
  p.select (i + 1) (p.entry i).stop selector

/-- The first element with an id. -/
def byId? (p : Page) (id : String) : Option (Fin p.size) :=
  (List.finRange p.size).find? fun i => (p.element i).id == some id

/-- The value of a style property: the nearest inline value, of the element alone or, if the
property is inherited, of the elements above it too, and otherwise the initial value. -/
def style? (p : Page) (i : Fin p.size) (property : String) : Option String :=
  let name := property.toLower
  let sources := if Style.isInherited name then i :: p.ancestors i else [i]
  (sources.findSome? fun j => (p.element j).inline? name) <|> Style.initialValue? name

end Page

/-! ### Nodes -/

/-- An element at a position of a page. -/
structure PageElement where
  page : Page
  index : Fin page.size

namespace PageElement

def identity (e : PageElement) : Identity := ⟨e.page.id, e.index⟩

def describe (e : PageElement) : String := (e.page.element e.index).describe

def query (e : PageElement) (selector : String) : Except QueryFailure (List PageElement) :=
  (e.page.queryFrom e.index selector).map (List.map fun i => ⟨e.page, i⟩)

def style (e : PageElement) (property : String) : Option String :=
  e.page.style? e.index property

instance : Node PageElement := ⟨identity, describe, query, style⟩

end PageElement

end Testimony
