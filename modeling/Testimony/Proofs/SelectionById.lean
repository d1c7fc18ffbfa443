import Testimony.Proofs.SelectorGrammar
import Testimony.Proofs.SelectorJoining

/-!
# Selectors of a single qualifier

An id, a class or a test of an attribute is a selector by itself, and a query with it finds the
elements that have the id, the class or the attribute, whatever stands above them
(`select_qualifier`).

For an id a page can also be asked directly. Both go through the elements in document order, so the
element with the id is the first of those that the query finds (`byId?_head_queryAll`).
-/

namespace Testimony

namespace Selector

open Text

variable {source : String} {q : Qualifier}

theorem parse_qualifier (h : SpellsQualifier source.toList q) :
    parse source = .ok ⟨source, [⟨compoundOf none [q], []⟩]⟩ := by
  have hcompound : SpellsCompound source.toList (compoundOf none [q]) :=
    .untagged (by simpa using SpellsEach.cons h .nil)
  have hcomplex : SpellsComplex source.toList ⟨compoundOf none [q], []⟩ := by
    simpa using SpellsComplex.intro hcompound .nil
  refine parse_eq_ok.2 ⟨spellsList_singleton.2 ?_, rfl⟩
  simpa using SpellsAlternative.intro blanks_nil hcomplex blanks_nil

/-- Whether the qualifier holds of an element. -/
def Qualifier.accepts (e : Element) : Qualifier → Bool
  | .id name => e.id == some name
  | .class name => e.classes.contains name
  | .attribute test => test.accepts e

theorem accepts_compoundOf (q : Qualifier) (e : Element) :
    (compoundOf none [q]).accepts e = q.accepts e := by
  cases q <;> simp [compoundOf, Qualifier.addTo, Compound.accepts, Qualifier.accepts]

variable {name : String}

theorem spellsQualifier_id (h : IsIdent name.toList) :
    SpellsQualifier ("#" ++ name).toList (.id name) := by
  simpa using SpellsQualifier.id h

theorem spellsQualifier_class (h : IsIdent name.toList) :
    SpellsQualifier ("." ++ name).toList (.class name) := by
  simpa using SpellsQualifier.class h

theorem spellsQualifier_attribute (h : IsIdent name.toList) :
    SpellsQualifier ("[id=" ++ name ++ "]").toList (.attribute (.equals "id" name)) := by
  have hid : IsIdent ['i', 'd'] := .plain (by decide) (List.forall_mem_singleton.2 (by decide))
  have hlower : (String.ofList ['i', 'd']).toLower = "id" := by decide +kernel
  have htest := SpellsTest.equals blanks_nil hid blanks_nil blanks_nil (.bare h) blanks_nil
  rw [hlower] at htest
  simpa using SpellsQualifier.attribute htest

end Selector

namespace Page

open Selector

variable {p : Page}

theorem describedAt_qualifier (source : String) (q : Qualifier) (i : Fin p.size) :
    p.describedAt ⟨source, [⟨compoundOf none [q], []⟩]⟩ i = q.accepts (p.element i) := by
  simp [describedAt, Selector.accepts, Complex.accepts, Complex.fromRight, Complex.acceptsLeft,
    accepts_compoundOf]

/-- A query with a single qualifier finds the elements of its range that the qualifier holds of. -/
theorem select_qualifier (p : Page) (start stop : Nat) {source : String} {q : Qualifier}
    (h : SpellsQualifier source.toList q) :
    p.select start stop source = .ok ((List.finRange p.size).filter fun i =>
      start ≤ i.val && i.val < stop && q.accepts (p.element i)) := by
  rw [select_eq, parse_qualifier h]
  simp only [Except.map, describedAt_qualifier]

theorem queryAll_qualifier (p : Page) {source : String} {q : Qualifier}
    (h : SpellsQualifier source.toList q) :
    p.queryAll source = .ok ((List.finRange p.size).filter fun i => q.accepts (p.element i)) := by
  rw [queryAll, select_qualifier p 0 p.size h]
  simp

/-- The element with an id is the first of those that the selector of this id describes, and there
is none if the selector describes none. -/
theorem byId?_head_queryAll (p : Page) {name : String} (h : name.toList ∈ Grammar.ident) :
    ∃ found, p.queryAll ("#" ++ name) = .ok found ∧ p.byId? name = found.head? ∧
      found.Pairwise (· < ·) ∧ ∀ i, i ∈ found ↔ (p.element i).id = some name := by
  have hquery := queryAll_qualifier p (spellsQualifier_id (Grammar.mem_ident.1 h))
  refine ⟨_, hquery, ?_, pairwise_of_select hquery, fun i => ?_⟩
  · rw [List.head?_filter]
    rfl
  · simp [Qualifier.accepts]

section Sample

/-- The root and an element below it share an id. -/
def sampleShared : Page :=
  .ofMarkup 0 (.node ((Element.ofTag "body").withId "-x")
    [.node (.ofTag "p") [], .node ((Element.ofTag "p").withId "-x") []])

theorem byId?_head_queryAll_sampleShared :
    "-x".toList ∈ Grammar.ident ∧
      ∃ found, sampleShared.queryAll "#-x" = .ok found ∧
        sampleShared.byId? "-x" = found.head? ∧ found.length = 2 := by
  have hname : "-x".toList ∈ Grammar.ident :=
    Grammar.mem_ident.2 (.hyphen (by decide) (List.forall_mem_nil _))
  have hboth : sampleShared.queryAll "#-x" = .ok [⟨0, by decide⟩, ⟨2, by decide⟩] := by
    decide +kernel
  obtain ⟨found, hfound, hhead, -⟩ := byId?_head_queryAll sampleShared hname
  obtain rfl := Except.ok.inj (hfound.symm.trans hboth)
  exact ⟨hname, _, hfound, hhead, rfl⟩

end Sample

end Page

end Testimony
