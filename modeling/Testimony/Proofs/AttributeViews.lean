import Mathlib.Data.List.Induction
import Mathlib.Data.List.Sort
import Testimony.Proofs.SelectionById

/-!
# Ids and classes as attributes

The id and the classes of an element can be asked for in two ways: by their own marks in a selector,
and as the attributes `id` and `class`, whose text has the classes for its words. What is set as id
or as class shows in both (`attribute?_id_of_id`, `hasClassWord_of_class`). What is set as an
attribute of one of these names shows in the attribute alone, and so does a word that is only part
of a class. `build` makes an element by one setting after the other, and `Setting.IdsAgree` and
`Setting.ClassesAgree` say of the settings that they leave no such difference
(`id_of_attribute?_iff`, `class_of_hasClassWord_iff`).

`marks_agree_iff` says what this means for queries: the marks never find too much, and they find
what the attributes say just when the settings of the elements below leave no difference.
-/

namespace Testimony

/-! ## Words -/

namespace Text

/-- The parts of a text between its blanks. -/
def words (s : List Char) : List (List Char) := (s.splitOnP isBlank).filter (!·.isEmpty)

variable {c : Char} {w : List Char}

theorem words_append_blank (hc : isBlank c = true) (s t : List Char) :
    words (s ++ c :: t) = words s ++ words t := by
  rw [words, List.splitOnP_append_cons s t hc, List.filter_append]
  rfl

theorem words_of_solid (hne : w ≠ []) (hw : ∀ c ∈ w, isBlank c = false) : words w = [w] := by
  rw [words, List.splitOnP_eq_singleton hw]
  simp [hne]

theorem words_intercalate : ∀ ws : List (List Char), words ([' '].intercalate ws) = ws.flatMap words
  | [] => rfl
  | [w] => by simp
  | w :: w' :: ws => by
    have hblank : isBlank ' ' = true := by decide
    rw [List.intercalate_cons_cons, List.append_assoc, List.singleton_append,
      words_append_blank hblank, words_intercalate (w' :: ws)]
    rfl

end Text

theorem Selector.IsIdent.words {w : List Char} (h : Selector.IsIdent w) : Text.words w = [w] := by
  refine Text.words_of_solid ?_ fun c hc => Selector.isBlank_of_identChar (h.all_identChar c hc)
  rintro rfl
  cases h

namespace Element

/-! ## Building elements -/

/-- One step of building an element. -/
inductive Setting where
  | id (value : String)
  | class (name : String)
  | attribute (name value : String)
  | style (property value : String)

def set (e : Element) : Setting → Element
  | .id value => e.withId value
  | .class name => e.addClass name
  | .attribute name value => e.setAttribute name value
  | .style property value => e.setStyle property value

/-- The element with these settings made, one after the other. -/
def build (tag : String) (settings : List Setting) : Element := settings.foldl set (ofTag tag)

namespace Setting

def id? : Setting → Option String
  | .id value => some value
  | _ => none

def class? : Setting → Option String
  | .class name => some name
  | _ => none

/-- The value for an attribute, by its name in lower case. -/
def attribute? (name : String) : Setting → Option String
  | .attribute written value => if written.toLower = name then some value else none
  | _ => none

/-- The id that was set last. -/
def lastId? (settings : List Setting) : Option String := settings.reverse.findSome? id?

def classes (settings : List Setting) : List String := settings.filterMap class?

/-- The value that was set last for an attribute. -/
def lastAttribute? (name : String) (settings : List Setting) : Option String :=
  settings.reverse.findSome? (attribute? name)

end Setting

section Build

variable (e : Element) (s : Setting) (tag name : String)

theorem id_set : (e.set s).id = (s.id? <|> e.id) := by
  cases s <;> rfl

theorem classes_set : (e.set s).classes = e.classes ++ s.class?.toList := by
  cases s <;> simp [set, addClass, withId, setAttribute, setStyle, Setting.class?]

theorem lookup_attributes_set :
    (e.set s).attributes.lookup name = (s.attribute? name <|> e.attributes.lookup name) := by
  rcases s with _ | _ | ⟨written, value⟩ | _
  · rfl
  · rfl
  · by_cases h : written.toLower = name
    · simp [set, setAttribute, Setting.attribute?, h]
    · have hne : (name == written.toLower) = false := by simpa using fun heq => h heq.symm
      simp [set, setAttribute, Setting.attribute?, h, List.lookup_cons, hne]
  · rfl

theorem build_append (settings : List Setting) :
    build tag (settings ++ [s]) = (build tag settings).set s := by
  rw [build, List.foldl_append]
  rfl

/-- A part of the element that each setting either sets or leaves alone is in the end as it was set
last. -/
theorem last_build {α : Type} (field : Element → Option α) {f : Setting → Option α}
    (hset : ∀ e s, field (set e s) = (f s <|> field e)) (htag : field (ofTag tag) = none)
    (settings : List Setting) : field (build tag settings) = settings.reverse.findSome? f := by
  induction settings using List.reverseRecOn with
  | nil => exact htag
  | append_singleton settings s ih =>
    rw [build_append, hset, ih, List.reverse_append, List.reverse_singleton, List.singleton_append,
      List.findSome?_cons]
    cases f s <;> rfl

theorem id_build (settings : List Setting) :
    (build tag settings).id = Setting.lastId? settings :=
  last_build tag Element.id id_set rfl settings

theorem classes_build (settings : List Setting) :
    (build tag settings).classes = Setting.classes settings := by
  induction settings using List.reverseRecOn with
  | nil => rfl
  | append_singleton settings s ih =>
    rw [build_append, classes_set, ih, Setting.classes, Setting.classes, List.filterMap_append]
    cases h : s.class? <;> simp [h]

theorem lookup_attributes_build (settings : List Setting) :
    (build tag settings).attributes.lookup name = Setting.lastAttribute? name settings :=
  last_build tag (·.attributes.lookup name) (lookup_attributes_set · · name) rfl settings

end Build

/-! ## Two views of an element -/

/-- The name is among the words of the attribute `class`. -/
def HasClassWord (e : Element) (name : String) : Prop :=
  ∃ text, e.attribute? "class" = some text ∧ name.toList ∈ Text.words text.toList

/-- The attribute `id` does not give the name to an element that has no id. -/
def Setting.IdsAgree (name : String) (settings : List Setting) : Prop :=
  lastId? settings = none → lastAttribute? "id" settings ≠ some name

/-- The name is not in the attribute `class` of an element without classes, and is not a word inside
a class without being a class too. -/
structure Setting.ClassesAgree (name : String) (settings : List Setting) : Prop where
  unset : classes settings = [] → ∀ text, lastAttribute? "class" settings = some text →
    name.toList ∉ Text.words text.toList
  inside : ∀ c ∈ classes settings, name.toList ∈ Text.words c.toList → name ∈ classes settings

section Views

variable {e : Element} {tag name : String} {settings : List Setting}

theorem attribute?_id_of_id (h : e.id = some name) : e.attribute? "id" = some name := by
  rw [attribute?, if_pos rfl, h]
  rfl

theorem attribute?_class :
    e.attribute? "class" = if e.classes = [] then e.attributes.lookup "class"
      else some e.classText := by
  have hne : ("class" : String) ≠ "id" := by decide
  rw [attribute?, if_neg hne]
  cases e.classes <;> rfl

theorem words_classText :
    Text.words e.classText.toList = e.classes.flatMap fun c => Text.words c.toList := by
  have hblank : " ".toList = [' '] := rfl
  rw [classText, String.toList_intercalate, hblank, Text.words_intercalate, List.flatMap_map]

theorem hasClassWord_of_class {c : String} (hc : c ∈ e.classes)
    (h : name.toList ∈ Text.words c.toList) : e.HasClassWord name := by
  refine ⟨e.classText, ?_, ?_⟩
  · rw [attribute?_class, if_neg (List.ne_nil_of_mem hc)]
  · rw [words_classText]
    exact List.mem_flatMap.2 ⟨c, hc, h⟩

theorem id_of_attribute?_iff :
    ((build tag settings).attribute? "id" = some name → (build tag settings).id = some name)
      ↔ Setting.IdsAgree name settings := by
  rw [attribute?, if_pos rfl, lookup_attributes_build, id_build, Setting.IdsAgree]
  cases Setting.lastId? settings <;> simp

theorem class_of_hasClassWord_iff :
    ((build tag settings).HasClassWord name → name ∈ (build tag settings).classes)
      ↔ Setting.ClassesAgree name settings := by
  rw [classes_build]
  constructor
  · intro h
    refine ⟨fun hnil text htext hword => ?_, fun c hc hword => h ?_⟩
    · have hattribute : (build tag settings).attribute? "class" = some text := by
        rw [attribute?_class, classes_build, if_pos hnil, lookup_attributes_build, htext]
      have hmem := h ⟨text, hattribute, hword⟩
      rw [hnil] at hmem
      cases hmem
    · rw [← classes_build tag] at hc
      exact hasClassWord_of_class hc hword
  · rintro h ⟨text, hattribute, hword⟩
    rw [attribute?_class, classes_build, lookup_attributes_build] at hattribute
    split_ifs at hattribute with hnil
    · exact absurd hword (h.unset hnil text hattribute)
    · cases hattribute
      rw [words_classText, classes_build] at hword
      obtain ⟨c, hc, hword⟩ := List.mem_flatMap.1 hword
      exact h.inside c hc hword

end Views

end Element

/-! ## Queries -/

namespace Page

open Selector

variable {id : Nat} {root : Markup} {x y : Fin (ofMarkup id root).size} {name : String}

theorem queryFrom_qualifier (x : Fin (ofMarkup id root).size) {source : String} {q : Qualifier}
    (h : SpellsQualifier source.toList q) :
    ∃ found, (ofMarkup id root).queryFrom x source = .ok found ∧ found.Pairwise (· < ·) ∧
      ∀ y, y ∈ found ↔
        (ofMarkup id root).IsAncestor x y ∧ q.accepts ((ofMarkup id root).element y) = true := by
  have hquery := queryFrom_ofMarkup x source
  rw [queryAll_qualifier _ h] at hquery
  exact ⟨_, hquery, pairwise_of_select hquery, fun y => by simp⟩

/-- Elements selected by a property are those selected by a weaker one just when the two agree on
the elements to select from. -/
theorem mem_iff_weaker {α : Type} {l : List α} {B P Q : α → Prop} (hl : ∀ y, y ∈ l ↔ B y ∧ P y)
    (hPQ : ∀ y, P y → Q y) : (∀ y, y ∈ l ↔ B y ∧ Q y) ↔ ∀ y, B y → Q y → P y := by
  constructor
  · intro h y hb hq
    exact ((hl y).1 ((h y).2 ⟨hb, hq⟩)).2
  · intro h y
    rw [hl]
    exact ⟨fun hy => ⟨hy.1, hPQ y hy.2⟩, fun hy => ⟨hy.1, h y hy.1 hy.2⟩⟩

/-- The elements below `x` with the id are those whose attribute `id` is this name, and those with
the class are those that have it among the words of their attribute `class`, unless an element below
`x` got the one without the other. -/
theorem marks_agree_iff (settings : Fin (ofMarkup id root).size → List Element.Setting)
    (hbuilt : ∀ y, ∃ tag, (ofMarkup id root).element y = .build tag (settings y))
    (x : Fin (ofMarkup id root).size) {name : String} (hname : name.toList ∈ Grammar.ident) :
    ∃ byId byAttribute byClass,
      (ofMarkup id root).queryFrom x ("#" ++ name) = .ok byId ∧
      (ofMarkup id root).queryFrom x ("[id=" ++ name ++ "]") = .ok byAttribute ∧
      (ofMarkup id root).queryFrom x ("." ++ name) = .ok byClass ∧
      byId ⊆ byAttribute ∧
      (byId = byAttribute ↔
        ∀ y, (ofMarkup id root).IsAncestor x y → Element.Setting.IdsAgree name (settings y)) ∧
      (∀ y ∈ byClass, ((ofMarkup id root).element y).HasClassWord name) ∧
      ((∀ y, y ∈ byClass ↔ (ofMarkup id root).IsAncestor x y ∧
          ((ofMarkup id root).element y).HasClassWord name) ↔
        ∀ y, (ofMarkup id root).IsAncestor x y →
          Element.Setting.ClassesAgree name (settings y)) := by
  have hident := Grammar.mem_ident.1 hname
  obtain ⟨byId, hid, hidOrder, hidMem⟩ := queryFrom_qualifier x (spellsQualifier_id hident)
  obtain ⟨byAttribute, hattribute, hattributeOrder, hattributeMem⟩ :=
    queryFrom_qualifier x (spellsQualifier_attribute hident)
  obtain ⟨byClass, hclass, -, hclassMem⟩ :=
    queryFrom_qualifier x (spellsQualifier_class hident)
  simp only [Qualifier.accepts, AttributeTest.accepts, beq_iff_eq, List.contains_iff_mem]
    at hidMem hattributeMem hclassMem
  have hword (e : Element) (h : name ∈ e.classes) : e.HasClassWord name :=
    Element.hasClassWord_of_class h (by simp [hident.words])
  have hids (y) : (((ofMarkup id root).element y).attribute? "id" = some name →
      ((ofMarkup id root).element y).id = some name)
        ↔ Element.Setting.IdsAgree name (settings y) := by
    obtain ⟨tag, hy⟩ := hbuilt y
    rw [hy, Element.id_of_attribute?_iff]
  have hclasses (y) : (((ofMarkup id root).element y).HasClassWord name →
      name ∈ ((ofMarkup id root).element y).classes)
        ↔ Element.Setting.ClassesAgree name (settings y) := by
    obtain ⟨tag, hy⟩ := hbuilt y
    rw [hy, Element.class_of_hasClassWord_iff]
  have heq : byId = byAttribute ↔ ∀ y, y ∈ byId ↔ (ofMarkup id root).IsAncestor x y ∧
      ((ofMarkup id root).element y).attribute? "id" = some name :=
    ⟨fun h y => h ▸ hattributeMem y, fun h => hidOrder.eq_of_mem_iff hattributeOrder fun y =>
      (h y).trans (hattributeMem y).symm⟩
  refine ⟨byId, byAttribute, byClass, hid, hattribute, hclass, fun y hy => ?_, ?_,
    fun y hy => hword _ ((hclassMem y).1 hy).2, ?_⟩
  · exact (hattributeMem y).2 (((hidMem y).1 hy).imp_right Element.attribute?_id_of_id)
  · rw [heq, mem_iff_weaker hidMem fun _ => Element.attribute?_id_of_id]
    simp only [hids]
  · rw [mem_iff_weaker hclassMem fun y => hword _]
    simp only [hclasses]

section Sample

/-- What is set on an element with an id and a class, and on one with attributes of these names. -/
def sampleSettings : Nat → List Element.Setting
  | 1 => [.id "x", .class "big"]
  | 2 => [.attribute "id" "x", .attribute "class" "big x"]
  | _ => []

def sampleMarks : Markup :=
  .node (.build "body" (sampleSettings 0))
    [.node (.build "p" (sampleSettings 1)) [], .node (.build "p" (sampleSettings 2)) []]

theorem marks_agree_iff_sampleMarks :
    (∀ y, ∃ tag, (ofMarkup 0 sampleMarks).element y = .build tag (sampleSettings y)) ∧
      "x".toList ∈ Grammar.ident ∧
      ∃ byId byAttribute, (ofMarkup 0 sampleMarks).queryFrom ⟨0, by decide⟩ "#x" = .ok byId ∧
        (ofMarkup 0 sampleMarks).queryFrom ⟨0, by decide⟩ "[id=x]" = .ok byAttribute ∧
        byId ⊆ byAttribute ∧ byId ≠ byAttribute := by
  have hbuilt (y) : ∃ tag, (ofMarkup 0 sampleMarks).element y = .build tag (sampleSettings y) := by
    obtain ⟨i, hi⟩ := y
    have hlt : i < 3 := hi
    rcases i with _ | _ | _ | i
    · exact ⟨"body", rfl⟩
    · exact ⟨"p", rfl⟩
    · exact ⟨"p", rfl⟩
    · omega
  have hname : "x".toList ∈ Grammar.ident :=
    Grammar.mem_ident.2 (.plain (by decide) (List.forall_mem_nil _))
  obtain ⟨byId, byAttribute, -, hid, hattribute, -, hsubset, hagree, -⟩ :=
    marks_agree_iff (sampleSettings ·) hbuilt ⟨0, by decide⟩ hname
  refine ⟨hbuilt, hname, byId, byAttribute, hid, hattribute, hsubset, fun heq => ?_⟩
  exact hagree.1 heq ⟨2, by decide⟩ (by decide +kernel) rfl (by decide +kernel)

/-- The paragraph with the attributes is found by these, but not by the marks of id and class. -/
theorem marks_disagree :
    (ofMarkup 0 sampleMarks).queryFrom ⟨0, by decide⟩ "#x" = .ok [⟨1, by decide⟩]
      ∧ (ofMarkup 0 sampleMarks).queryFrom ⟨0, by decide⟩ "[id=x]"
        = .ok [⟨1, by decide⟩, ⟨2, by decide⟩]
      ∧ (ofMarkup 0 sampleMarks).queryFrom ⟨0, by decide⟩ ".big" = .ok [⟨1, by decide⟩]
      ∧ ((ofMarkup 0 sampleMarks).element ⟨2, by decide⟩).HasClassWord "big" := by
  refine ⟨by decide +kernel, by decide +kernel, by decide +kernel, "big x", ?_, ?_⟩
  · decide +kernel
  · decide +kernel

end Sample

end Page

end Testimony
