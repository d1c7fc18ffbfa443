import Testimony.Proofs.Duality
import Testimony.Proofs.Parallel

/-!
# Renaming a variable

The variable of a quantifier can be called by another name if the body does not know that name. Then
the quantifier has the same outcome, and its witness differs in nothing but the name that the paths
give to the variable (`quantify_rename`).

To compare witnesses the names in paths are mapped to others (`mapName`), two of them to one name.
Evaluations of an expression and of the renamed one are alike up to such a mapping if what each
reference stands for in the first context is, up to the mapping, what the reference in its place
stands for in the second, and no quantifier captures what has been put in (`Renaming.Carries`). A
quantifier keeps this up in its body (`Renaming.Carries.extend`): its own variable is not renamed
there, and its candidates are the same up to the mapping.
-/

namespace Testimony

variable {ν : Type}

/-! ## Names in paths -/

section Names

variable (f : String → String)

/-- The step with another name for the variable, if it leads into one. -/
def Step.mapName : Step → Step
  | .bound name => .bound (f name)
  | step => step

theorem Step.mapName_eq_itself {step : Step} : step.mapName f = .itself ↔ step = .itself := by
  cases step <;> simp [mapName]

def Path.mapName (p : Path) : Path where
  steps := p.steps.map (Step.mapName f)
  canonical := by
    rcases p.canonical with h | ⟨hne, hitself⟩
    · exact .inl (by rw [h]; rfl)
    · refine .inr ⟨by simpa using hne, fun h => ?_⟩
      obtain ⟨step, hstep, he⟩ := List.mem_map.1 h
      rw [Step.mapName_eq_itself] at he
      exact hitself (he ▸ hstep)

def Leaf.mapName (l : Leaf ν) : Leaf ν := ⟨l.object, l.path.mapName f⟩

def Binding.mapName (b : Binding ν) : Binding ν := ⟨b.value, b.leaf.mapName f⟩

def Finding.mapName (g : Finding ν) : Finding ν :=
  ⟨g.output, g.path.mapName f, g.witness.map (Leaf.mapName f)⟩

theorem Path.proper_mapName (p : Path) :
    (p.mapName f).proper = p.proper.map (Step.mapName f) := by
  rw [proper, proper, mapName, List.filter_map]
  refine congrArg _ (List.filter_congr fun step _ => ?_)
  rw [Bool.eq_iff_iff, Function.comp_apply, bne_iff_ne, bne_iff_ne, Ne, Step.mapName_eq_itself]

theorem Path.mapName_compose (p p' : Path) :
    (p.compose p').mapName f = (p.mapName f).compose (p'.mapName f) := by
  apply eq_of_proper_eq
  rw [proper_mapName, proper_compose, proper_compose, proper_mapName, proper_mapName,
    List.map_append]

theorem Path.mapName_extend (p : Path) (step : Step) :
    (p.extend step).mapName f = (p.mapName f).extend (step.mapName f) := by
  by_cases h : step = .itself
  · subst h
    have h' : Step.itself.mapName f = .itself := rfl
    rw [h', extend_itself, extend_itself]
  · have h' : step.mapName f ≠ .itself := (Step.mapName_eq_itself f).not.2 h
    apply eq_of_proper_eq
    rw [proper_mapName, proper_extend h, proper_extend h', proper_mapName, List.map_append]
    rfl

variable {f} {g g' : Finding ν} {b b' : Binding ν} {l l' : Leaf ν}

theorem Leaf.mapName_eq :
    l.mapName f = l'.mapName f ↔ l.object = l'.object ∧ l.path.mapName f = l'.path.mapName f := by
  simp only [mapName, mk.injEq]

theorem Binding.mapName_eq :
    b.mapName f = b'.mapName f ↔ b.value = b'.value ∧ b.leaf.mapName f = b'.leaf.mapName f := by
  simp only [mapName, mk.injEq]

theorem Finding.mapName_eq :
    g.mapName f = g'.mapName f ↔ g.output = g'.output ∧ g.path.mapName f = g'.path.mapName f ∧
      g.witness.map (Leaf.mapName f) = g'.witness.map (Leaf.mapName f) := by
  simp only [mapName, mk.injEq]

end Names

/-! ## Outcomes up to names -/

theorem Parallel.alike {α β : Type} {R : α → β → Prop} {x : Except Fault α} {y : Except Fault β}
    (h : Parallel R x y) : Alike R x y := by
  cases h with
  | ok hab => exact .ok hab
  | error => exact .error rfl

section Visits

variable {f : String → String}

/-- Equal up to the names in paths. -/
def Renamed (f : String → String) (r r' : Bool × Witness ν) : Prop :=
  r.1 = r'.1 ∧ r.2.map (Leaf.mapName f) = r'.2.map (Leaf.mapName f)

theorem keep_map {p : WitnessPolicy} (g : Witness ν → Witness ν) (kept : Option (Witness ν))
    (w : Witness ν) : (p.keep kept w).map g = p.keep (kept.map g) (g w) := by
  rcases p with _ | _
  · rcases kept with _ | k <;> rfl
  · rfl

theorem alike_visit_renamed {q : Quantifier} {p : WitnessPolicy}
    {test test' : Binding ν → Except Fault (Bool × Witness ν)} {bs bs' : List (Binding ν)}
    (h : List.Forall₂ (fun b b' => Alike (Renamed f) (test b) (test' b')) bs bs') :
    ∀ {kept kept' : Option (Witness ν)},
      kept.map (List.map (Leaf.mapName f)) = kept'.map (List.map (Leaf.mapName f)) →
      Alike (Renamed f) (q.visit p test bs kept) (q.visit p test' bs' kept') := by
  induction h with
  | nil =>
    intro kept kept' hkept
    refine .ok ⟨rfl, ?_⟩
    rcases kept with _ | w <;> rcases kept' with _ | w' <;> simp_all
  | cons hb _ ih =>
    intro kept kept' hkept
    simp only [Quantifier.visit]
    refine hb.bind ?_
    rintro ⟨outcome, w⟩ ⟨_, w'⟩ ⟨rfl, hw⟩
    dsimp only at hw ⊢
    split_ifs
    · exact .ok ⟨rfl, hw⟩
    · exact ih (by rw [keep_map, keep_map, hkept, hw])

/-- Candidates are the same up to names if the domains and the variables are. -/
theorem candidate_mapName {d d' : Finding ν} {name name' : String}
    (hd : d.mapName f = d'.mapName f) (hname : f name = f name') (m : Member ν) :
    (d.candidate name m).mapName f = (d'.candidate name' m).mapName f := by
  obtain ⟨-, hpath, hwitness⟩ := Finding.mapName_eq.1 hd
  have hobject : d.witness.head?.map Leaf.object = d'.witness.head?.map Leaf.object := by
    have hhead := congrArg (fun w => w.head?.map Leaf.object) hwitness
    simpa [List.head?_map, Function.comp_def, Leaf.mapName] using hhead
  simp only [Binding.mapName, Finding.candidate, Leaf.mapName, Path.mapName_extend, hpath, hobject,
    Step.mapName, hname]

end Visits

/-! ## Renaming in expressions -/

/-- Another reference in the place of each. -/
abbrev Renaming := Reference → Reference

namespace Renaming

/-- One variable in the place of another. -/
def single (x y : String) : Renaming := fun r => if r = .named x then .named y else r

/-- What is left to be renamed where this variable is bound. -/
def hide (ρ : Renaming) (name : String) : Renaming := fun r => if r = .named name then r else ρ r

end Renaming

namespace Expr

mutual

/-- The expression with others in the place of its free references. A quantifier hides its variable
in the body and not in the domain. -/
def rename (ρ : Renaming) : Expr ν → Expr ν
  | constant v => constant v
  | reference r => reference (ρ r)
  | apply op es => apply op (renameAll ρ es)
  | quantify q name domain body =>
    quantify q name (domain.rename ρ) (body.rename (ρ.hide name))

def renameAll (ρ : Renaming) : List (Expr ν) → List (Expr ν)
  | [] => []
  | e :: es => e.rename ρ :: renameAll ρ es

end

end Expr

/-- What references stand for in the first context is, up to names in paths, what those in their
place stand for in the second, and none of these is captured. -/
structure Renaming.Carries (ρ : Renaming) (f : String → String) (c c' : Context ν)
    (rs : List Reference) (names : List String) : Prop where
  lookup : ∀ r ∈ rs,
    (c.lookup? r).map (Binding.mapName f) = (c'.lookup? (ρ r)).map (Binding.mapName f)
  free : ∀ r ∈ rs, ∀ name ∈ names, ρ r = .named name → r = .named name

section Carries

variable {ρ : Renaming} {f : String → String} {c c' : Context ν}

theorem Renaming.Carries.mono {rs rs' : List Reference} {names names' : List String}
    (h : ρ.Carries f c c' rs names) (hrs : rs' ⊆ rs) (hnames : names' ⊆ names) :
    ρ.Carries f c c' rs' names' where
  lookup r hr := h.lookup r (hrs hr)
  free r hr name hname := h.free r (hrs hr) name (hnames hname)

theorem Renaming.Carries.extend {q : Quantifier} {name : String} {domain body : Expr ν}
    {b b' : Binding ν}
    (h : ρ.Carries f c c' (Expr.quantify q name domain body).freeReferences
      (Expr.quantify q name domain body).boundNames) (hb : b.mapName f = b'.mapName f) :
    (ρ.hide name).Carries f (c.extend name b) (c'.extend name b') body.freeReferences
      body.boundNames where
  lookup r hr := by
    simp only [hide, Context.lookup?_extend]
    by_cases hname : r = .named name
    · simp only [if_pos hname, Option.map_some, hb]
    · have hfree : r ∈ (Expr.quantify q name domain body).freeReferences :=
        Expr.mem_freeReferences_quantify.2 (.inr ⟨hr, hname⟩)
      have hcapture : ρ r ≠ .named name := fun hρ =>
        hname (h.free r hfree name List.mem_cons_self hρ)
      simp only [if_neg hname, if_neg hcapture]
      exact h.lookup r hfree
  free r hr z hz hρ := by
    by_cases hname : r = .named name
    · rwa [hide, if_pos hname] at hρ
    · rw [hide, if_neg hname] at hρ
      exact h.free r (Expr.mem_freeReferences_quantify.2 (.inr ⟨hr, hname⟩)) z
        (List.mem_cons_of_mem _ (List.mem_append_right _ hz)) hρ

end Carries

/-! ## Evaluation -/

namespace Expr

variable [Node ν] {f : String → String} {s : Settings}

omit [Node ν] in
theorem alike_resolve {c c' : Context ν} {r r' : Reference}
    (h : (c.lookup? r).map (Binding.mapName f) = (c'.lookup? r').map (Binding.mapName f)) :
    Alike (fun b b' => b.mapName f = b'.mapName f) (c.resolve r) (c'.resolve r') := by
  unfold Context.resolve
  rcases hb : c.lookup? r with _ | b <;> rcases hb' : c'.lookup? r' with _ | b' <;>
    rw [hb, hb'] at h
  · exact .error rfl
  · cases h
  · cases h
  · exact .ok (Option.some.inj h)

/-- Quantifiers whose domains are alike, and whose bodies are for like candidates, decide alike. -/
theorem alike_quantify_renamed {q : Quantifier} {name name' : String}
    {domain domain' body body' : Expr ν} {level : Nat} {c c' : Context ν}
    (hname : f name = f name')
    (hdomain : Alike (fun d d' => d.mapName f = d'.mapName f) (domain.evaluateAt s (level + 1) c)
      (domain'.evaluateAt s (level + 1) c'))
    (hbody : ∀ b b' : Binding ν, b.mapName f = b'.mapName f →
      Alike (fun g g' => g.mapName f = g'.mapName f)
        (body.evaluateAt s (level + 1) (c.extend name b))
        (body'.evaluateAt s (level + 1) (c'.extend name' b'))) :
    Alike (fun g g' => ∃ holds w w', g = .decided holds w ∧ g' = .decided holds w' ∧
        w.map (Leaf.mapName f) = w'.map (Leaf.mapName f))
      ((quantify q name domain body).evaluateAt s level c)
      ((quantify q name' domain' body').evaluateAt s level c') := by
  rw [evaluateAt_quantify, evaluateAt_quantify]
  refine (Alike.refl (s.allowLevel level)).bind fun _ _ _ => ?_
  refine hdomain.bind fun d d' hd => ?_
  obtain ⟨houtput, -, -⟩ := Finding.mapName_eq.1 hd
  refine (parallel_members q.name houtput).alike.bind ?_
  rintro ms _ rfl
  dsimp only
  split_ifs
  · exact .error rfl
  · refine (alike_visit_renamed (f := f) ?_ rfl).bind ?_
    · rw [List.forall₂_map_left_iff, List.forall₂_map_right_iff, List.forall₂_same]
      intro m _
      refine (hbody _ _ (candidate_mapName hd hname m)).bind fun g g' hg => ?_
      obtain ⟨hgoutput, -, hgwitness⟩ := Finding.mapName_eq.1 hg
      refine (parallel_boolean q.name hgoutput).alike.bind ?_
      rintro holds _ rfl
      exact .ok ⟨rfl, hgwitness⟩
    · rintro ⟨holds, w⟩ ⟨_, w'⟩ ⟨rfl, hw⟩
      exact .ok ⟨holds, w, w', rfl, rfl, hw⟩

mutual

theorem alike_rename :
    ∀ (e : Expr ν) {ρ : Renaming} (level : Nat) {c c' : Context ν},
      ρ.Carries f c c' e.freeReferences e.boundNames →
      Alike (fun g g' => g.mapName f = g'.mapName f) (e.evaluateAt s level c)
        ((e.rename ρ).evaluateAt s level c')
  | constant v, ρ, level, c, c', _ => by
    simp only [rename, evaluateAt]
    exact (Alike.refl (s.allowLevel level)).bind fun _ _ _ => .ok rfl
  | reference r, ρ, level, c, c', h => by
    simp only [rename, evaluateAt]
    refine (Alike.refl (s.allowLevel level)).bind fun _ _ _ => ?_
    refine (alike_resolve (h.lookup r (List.mem_singleton.2 rfl))).bind fun b b' hb => .ok ?_
    obtain ⟨hvalue, hleaf⟩ := Binding.mapName_eq.1 hb
    simp only [Finding.mapName, Finding.ofLeaf, List.map_cons, List.map_nil, hvalue, hleaf,
      (Leaf.mapName_eq.1 hleaf).2]
  | apply op es, ρ, level, c, c', h => by
    simp only [rename, evaluateAt]
    refine (Alike.refl (s.allowLevel level)).bind fun _ _ _ => ?_
    refine (alike_renameAll op es 0 (level + 1) h).bind ?_
    rintro ⟨values, path, w⟩ ⟨_, path', w'⟩ ⟨rfl, hpath, hw⟩
    refine (Alike.refl _).bind ?_
    rintro out _ rfl
    refine .ok ?_
    dsimp only at hpath hw
    simp only [Finding.mapName, hpath, hw]
  | quantify q name domain body, ρ, level, c, c', h => by
    have hdomain := alike_rename domain (level + 1)
      (h.mono (List.subset_append_left _ _)
        (List.subset_cons_of_subset _ (List.subset_append_left _ _)))
    have hquantify := alike_quantify_renamed (q := q) rfl hdomain fun b b' hb =>
      alike_rename body (level + 1) (h.extend hb)
    rw [rename]
    refine hquantify.mono ?_
    rintro _ _ ⟨holds, w, w', rfl, rfl, hw⟩
    simp only [Finding.mapName, Finding.decided, hw]

theorem alike_renameAll (op : Operator) :
    ∀ (es : List (Expr ν)) {ρ : Renaming} (index level : Nat) {c c' : Context ν},
      ρ.Carries f c c' (freeReferencesAll es) (boundNamesAll es) →
      Alike (fun a a' => a.values = a'.values ∧ a.path.mapName f = a'.path.mapName f ∧
          a.witness.map (Leaf.mapName f) = a'.witness.map (Leaf.mapName f))
        (evaluateOperands s op es index level c)
        (evaluateOperands s op (renameAll ρ es) index level c')
  | [], _, _, _, _, _, _ => .ok ⟨rfl, rfl, rfl⟩
  | e :: es, ρ, index, level, c, c', h => by
    simp only [renameAll, evaluateOperands]
    have he := alike_rename e level
      (h.mono (List.subset_append_left _ _) (List.subset_append_left _ _))
    have hes := alike_renameAll op es (index + 1) level
      (h.mono (List.subset_append_right _ _) (List.subset_append_right _ _))
    refine he.bind fun g g' hg => ?_
    obtain ⟨hgoutput, hgpath, hgwitness⟩ := Finding.mapName_eq.1 hg
    refine (parallel_scalar op.name hgoutput).alike.bind ?_
    rintro v _ rfl
    refine hes.bind ?_
    rintro ⟨values, path, w⟩ ⟨_, path', w'⟩ ⟨rfl, hpath, hw⟩
    refine .ok ⟨rfl, ?_, ?_⟩
    · dsimp only at hpath
      simp only [Path.mapName_compose, Path.mapName_extend, hgpath, hpath]
    · dsimp only at hw
      simp only [List.map_append, hgwitness, hw]

end

/-! ## The variable of a quantifier -/

omit [Node ν] in
theorem carries_single {x y : String} {body : Expr ν} (c : Context ν) {b b' : Binding ν}
    (hfree : .named y ∉ body.freeReferences) (hbound : y ∉ body.boundNames)
    (hb : b.mapName f = b'.mapName f) :
    (Renaming.single x y).Carries f (c.extend x b) (c.extend y b') body.freeReferences
      body.boundNames where
  lookup r hr := by
    simp only [Renaming.single, Context.lookup?_extend]
    by_cases hx : r = .named x
    · simp only [if_pos hx, if_true, Option.map_some, hb]
    · have hy : r ≠ .named y := fun hy => hfree (hy ▸ hr)
      simp only [if_neg hx, if_neg hy]
  free r hr z hz hρ := by
    by_cases hx : r = .named x
    · rw [Renaming.single, if_pos hx] at hρ
      cases hρ
      exact absurd hz hbound
    · rwa [Renaming.single, if_neg hx] at hρ

/-- Calls both variables by the first name. -/
def oneName (x y : String) : String → String := fun z => if z = y then x else z

/-- With a name for its variable that the body does not know, a quantifier fails with the same code,
or decides the same and has the same witness up to the name. -/
theorem quantify_rename (q : Quantifier) (x y : String) (domain body : Expr ν) (s : Settings)
    (c : Context ν) (hfree : .named y ∉ body.freeReferences) (hbound : y ∉ body.boundNames) :
    Alike (fun g g' => ∃ holds w w', g = .decided holds w ∧ g' = .decided holds w' ∧
        w.map (Leaf.mapName (oneName x y)) = w'.map (Leaf.mapName (oneName x y)))
      ((quantify q x domain body).evaluate s c)
      ((quantify q y domain (body.rename (.single x y))).evaluate s c) := by
  have hname : oneName x y x = oneName x y y := by simp [oneName]
  have hdomain : Alike (fun d d' => d.mapName (oneName x y) = d'.mapName (oneName x y))
      (domain.evaluateAt s 1 c) (domain.evaluateAt s 1 c) :=
    (Alike.refl _).mono fun _ _ hd => congrArg (Finding.mapName (oneName x y)) hd
  exact alike_quantify_renamed hname hdomain fun b b' hb =>
    alike_rename body 1 (carries_single c hfree hbound hb)

section Sample

/-- Below the element of a variable there is a red paragraph. -/
def sampleBelow (name : String) : Expr PageElement :=
  quantify .existential "$x" (apply (.findBySelector "p") [var name]) sampleBody

/-- The inner quantifier has a variable of the same name, and outside there is one of the other. -/
theorem quantify_rename_sample :
    let sections : Expr PageElement := apply (.findBySelector "section") [input 0]
    let c := (Context.ofInputs sampleInputs).extend "$y" (.input .null)
    .named "$y" ∉ (sampleBelow "$x").freeReferences ∧ "$y" ∉ (sampleBelow "$x").boundNames
      ∧ (sampleBelow "$x").rename (.single "$x" "$y") = sampleBelow "$y"
      ∧ ∃ holds w w',
          (quantify .universal "$x" sections (sampleBelow "$x")).evaluate {} c
            = .ok (.decided holds w)
          ∧ (quantify .universal "$y" sections (sampleBelow "$y")).evaluate {} c
            = .ok (.decided holds w')
          ∧ w.map (Leaf.mapName (oneName "$x" "$y"))
            = w'.map (Leaf.mapName (oneName "$x" "$y")) := by
  intro sections c
  have hfree : .named "$y" ∉ (sampleBelow "$x").freeReferences := by decide
  have hbound : "$y" ∉ (sampleBelow "$x").boundNames := by decide
  have hrename : (sampleBelow "$x").rename (.single "$x" "$y") = sampleBelow "$y" := rfl
  obtain ⟨g, hg⟩ : ∃ g, (quantify .universal "$x" sections (sampleBelow "$x")).evaluate {} c
      = .ok g := exists_of_isOk (by decide +kernel)
  have halike := quantify_rename .universal "$x" "$y" sections (sampleBelow "$x") {} c hfree hbound
  rw [hg, hrename] at halike
  rcases hg' : (quantify .universal "$y" sections (sampleBelow "$y")).evaluate {} c with fault | g'
  · rw [hg'] at halike
    cases halike
  · rw [hg'] at halike
    cases halike with
    | ok h =>
      obtain ⟨holds, w, w', rfl, rfl, hw⟩ := h
      exact ⟨hfree, hbound, hrename, holds, w, w', hg, rfl, hw⟩

end Sample

end Expr

end Testimony
