import Testimony.Page.Element
import Testimony.Selector.Basic

/-!
# Matching selectors

A chain is matched from its last compound, which must fit the element itself, to the left among
the elements above it, nearest first. A child step has only the parent to try; a descendant step
tries every ancestor and, if the compounds further left do not fit above one, goes on to the next.
-/

namespace Testimony

def AttributeTest.accepts (t : AttributeTest) (e : Element) : Bool :=
  match t with
  | .present name => (e.attribute? name).isSome
  | .equals name value => e.attribute? name == some value

def Compound.accepts (c : Compound) (e : Element) : Bool :=
  c.tag.all (e.tag == ·) &&
    c.ids.all (fun id => e.id == some id) &&
    c.classes.all (fun name => e.classes.contains name) &&
    c.attributes.all (fun t => t.accepts e)

namespace Complex

/-- Whether the test accepts an element of the list together with the elements behind it. -/
def anyBehind (test : Element → List Element → Bool) : List Element → Bool
  | [] => false
  | e :: above => test e above || anyBehind test above

/-- Whether the compounds on the left, from right to left, fit the elements above. -/
def acceptsLeft : List (Combinator × Compound) → List Element → Bool
  | [], _ => true
  | (.child, _) :: _, [] => false
  | (.child, c) :: left, parent :: above => c.accepts parent && acceptsLeft left above
  | (.descendant, c) :: left, above =>
    anyBehind (fun e beyond => c.accepts e && acceptsLeft left beyond) above

/-- The last compound, and what stands to its left, from right to left, each compound with the
combinator on its right. -/
def fromRight (s : Complex) : Compound × List (Combinator × Compound) :=
  s.tail.foldl (fun (last, left) (k, c) => (c, (k, last) :: left)) (s.head, [])

/-- Whether the chain describes an element with the elements above it, nearest first. -/
def accepts (s : Complex) (e : Element) (above : List Element) : Bool :=
  s.fromRight.1.accepts e && acceptsLeft s.fromRight.2 above

end Complex

def Selector.accepts (s : Selector) (e : Element) (above : List Element) : Bool :=
  s.alternatives.any fun c => c.accepts e above

end Testimony
