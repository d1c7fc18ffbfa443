/-!
# Elements and markup

What one element of a page states about itself: its tag, id, classes, attributes and inline style.
Tag, attribute and property names are kept in lower case. A later setting of an attribute or a
property hides the earlier one.

Markup is an element with its children, as a page is written down. `preorder` lists the elements in
document order: each before its children, and the children in turn.
-/

namespace Testimony

structure Element where
  tag : String
  id : Option String := none
  classes : List String := []
  /-- Names and values, the latest first. -/
  attributes : List (String × String) := []
  /-- Properties and values, the latest first. -/
  style : List (String × String) := []
deriving DecidableEq

namespace Element

def ofTag (tag : String) : Element := { tag := tag.toLower }

def withId (e : Element) (id : String) : Element := { e with id := some id }

def addClass (e : Element) (name : String) : Element := { e with classes := e.classes ++ [name] }

def setAttribute (e : Element) (name value : String) : Element :=
  { e with attributes := (name.toLower, value) :: e.attributes }

def setStyle (e : Element) (property value : String) : Element :=
  { e with style := (property.toLower, value) :: e.style }

/-- The classes as one text. -/
def classText (e : Element) : String := " ".intercalate e.classes

/-- The value of an attribute. An id or classes take the place of attributes of those names. -/
def attribute? (e : Element) (name : String) : Option String :=
  if name = "id" then e.id <|> e.attributes.lookup name
  else if name = "class" && !e.classes.isEmpty then some e.classText
  else e.attributes.lookup name

/-- The inline value of a property. -/
def inline? (e : Element) (property : String) : Option String :=
  e.style.lookup property

/-- The opening tag with id and classes. -/
def describe (e : Element) : String :=
  let idText := e.id.elim "" fun id => s!" id=\"{id}\""
  let classes := if e.classes.isEmpty then "" else s!" class=\"{e.classText}\""
  s!"<{e.tag}{idText}{classes}>"

end Element

/-! ### Markup -/

inductive Markup where
  | node (element : Element) (children : List Markup)

namespace Markup

mutual

def preorder : Markup → List Element
  | node e cs => e :: preorderAll cs

def preorderAll : List Markup → List Element
  | [] => []
  | m :: ms => m.preorder ++ preorderAll ms

end

end Markup

end Testimony
