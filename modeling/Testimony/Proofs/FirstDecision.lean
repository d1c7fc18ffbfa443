import Testimony.Proofs.DepthLimit
import Testimony.Proofs.Duality

/-!
# The first decision

What a quantifier makes of the results of its body, one for each member in order
(`Quantifier.Settles`). A result is open if it is the outcome that settles nothing. The first one
that is not open makes the whole result: its fault, a complaint about its form, or its outcome with
its witness. If all are open, that is the outcome, with the witness that the policy picks.

So a visit comes down to its first candidate that is not open (`visit_settled`), and what stands
behind this one does not matter. `quantify_first_decision` says this of a quantifier at any level
over any members.
-/

namespace Testimony

variable {ν : Type}

/-- The item that a policy picks from some. -/
def WitnessPolicy.pick {α : Type} (p : WitnessPolicy) (xs : List α) (h : xs ≠ []) : α :=
  match p with
  | first => xs.head h
  | last => xs.getLast h

theorem WitnessPolicy.pick_mem {α : Type} (p : WitnessPolicy) {xs : List α} (h : xs ≠ []) :
    p.pick xs h ∈ xs := by
  rcases p with _ | _
  · exact List.head_mem h
  · exact List.getLast_mem h

theorem WitnessPolicy.pick_map {α β : Type} (p : WitnessPolicy) (f : α → β) {xs : List α}
    (h : xs ≠ []) (h' : xs.map f ≠ []) : p.pick (xs.map f) h' = f (p.pick xs h) := by
  rcases p with _ | _
  · exact List.head_map ..
  · exact List.getLast_map ..

/-- The complaint of a consumer that needs a truth value, about an output of another form. -/
def Output.refusal (consumer : String) : Output ν → Fault
  | .scalar v => .typeMismatch consumer "boolean" v.kind
  | .members _ => .typeMismatch consumer "a single value" "a sequence"

theorem boolean_of_ne {f : Finding ν} {consumer : String}
    (h : ∀ b, f.output ≠ .scalar (.boolean b)) :
    f.boolean consumer = .error (f.output.refusal consumer) := by
  rcases f with ⟨v | ms, path, w⟩
  · cases v
    case boolean b => exact absurd rfl (h b)
    all_goals rfl
  · rfl

namespace Quantifier

/-- The body has succeeded with the outcome that settles nothing. -/
def LeavesOpen (q : Quantifier) (x : Except Fault (Finding ν)) : Prop :=
  ∃ f, x = .ok f ∧ f.output = .scalar (.boolean !q.deciding)

/-- The result of a quantifier whose body has these results for the members, in order. -/
structure Settles (q : Quantifier) (p : WitnessPolicy) (results : List (Except Fault (Finding ν)))
    (result : Except Fault (Finding ν)) : Prop where
  fails : ∀ pre fault post, results = pre ++ .error fault :: post →
    (∀ x ∈ pre, q.LeavesOpen x) → result = .error fault
  refuses : ∀ pre f post, results = pre ++ .ok f :: post → (∀ x ∈ pre, q.LeavesOpen x) →
    (∀ b, f.output ≠ .scalar (.boolean b)) → result = .error (f.output.refusal q.name)
  decides : ∀ pre f post, results = pre ++ .ok f :: post → (∀ x ∈ pre, q.LeavesOpen x) →
    f.output = .scalar (.boolean q.deciding) → result = .ok (.decided q.deciding f.witness)
  stays : ∀ h : results ≠ [], (∀ x ∈ results, q.LeavesOpen x) →
    ∃ f, p.pick results h = .ok f ∧ result = .ok (.decided (!q.deciding) f.witness)

/-- What a quantifier takes from a result of the body. -/
def ask (q : Quantifier) (x : Except Fault (Finding ν)) : Except Fault (Bool × Witness ν) := do
  let f ← x
  return (← f.boolean q.name, f.witness)

/-! ## Visits -/

section Visits

variable {q : Quantifier} {p : WitnessPolicy} {test : Binding ν → Except Fault (Bool × Witness ν)}
  {b : Binding ν} {w : Witness ν}

theorem visit_cons_open (hb : test b = .ok (!q.deciding, w)) (bs : List (Binding ν))
    (kept : Option (Witness ν)) :
    q.visit p test (b :: bs) kept = q.visit p test bs (p.keep kept w) := by
  have hne : (!q.deciding) ≠ q.deciding := by cases q <;> decide
  simp only [visit, hb, bind, Except.bind, if_neg hne]

/-- A visit comes down to the first candidate that is not left open. -/
theorem visit_settled (hb : ∀ w, test b ≠ .ok (!q.deciding, w)) (post : List (Binding ν)) :
    ∀ {pre : List (Binding ν)} (kept : Option (Witness ν)),
      (∀ b' ∈ pre, ∃ w, test b' = .ok (!q.deciding, w)) →
      q.visit p test (pre ++ b :: post) kept = test b
  | [], kept, _ => by
    rcases h : test b with fault | ⟨outcome, w⟩
    · simp only [List.nil_append, visit, h]
      rfl
    · have houtcome : outcome = q.deciding := by
        have hopen := hb w
        rw [h] at hopen
        cases outcome <;> cases hd : q.deciding <;> simp_all
      simp only [List.nil_append, visit, h, bind, Except.bind, if_pos houtcome]
      rfl
  | b' :: pre, kept, hpre => by
    obtain ⟨w, hw⟩ := hpre b' List.mem_cons_self
    rw [List.cons_append, visit_cons_open hw]
    exact visit_settled hb post _ fun a ha => hpre a (List.mem_cons_of_mem _ ha)

theorem visit_first_open : ∀ {bs : List (Binding ν)},
    (∀ b ∈ bs, ∃ w, test b = .ok (!q.deciding, w)) →
      q.visit .first test bs (some w) = .ok (!q.deciding, w)
  | [], _ => rfl
  | b :: bs, h => by
    obtain ⟨w', hb⟩ := h b List.mem_cons_self
    rw [visit_cons_open hb]
    exact visit_first_open fun a ha => h a (List.mem_cons_of_mem _ ha)

theorem visit_last_open : ∀ {bs : List (Binding ν)} (hbs : bs ≠ []) (kept : Option (Witness ν)),
    (∀ b ∈ bs, ∃ w, test b = .ok (!q.deciding, w)) → test (bs.getLast hbs) = .ok (!q.deciding, w) →
      q.visit .last test bs kept = .ok (!q.deciding, w)
  | [b], _, kept, _, hlast => by
    rw [List.getLast_singleton] at hlast
    rw [visit_cons_open hlast]
    rfl
  | b :: b' :: bs, _, kept, h, hlast => by
    obtain ⟨w', hb⟩ := h b List.mem_cons_self
    rw [visit_cons_open hb]
    rw [List.getLast_cons (List.cons_ne_nil b' bs)] at hlast
    exact visit_last_open _ _ (fun a ha => h a (List.mem_cons_of_mem _ ha)) hlast

/-- A visit that leaves everything open has the witness that the policy picks. -/
theorem visit_open {bs : List (Binding ν)} (hbs : bs ≠ [])
    (h : ∀ b ∈ bs, ∃ w, test b = .ok (!q.deciding, w))
    (hpick : test (p.pick bs hbs) = .ok (!q.deciding, w)) :
    q.visit p test bs none = .ok (!q.deciding, w) := by
  rcases p with _ | _
  · rcases bs with _ | ⟨b, bs⟩
    · exact absurd rfl hbs
    · have hb : test b = .ok (!q.deciding, w) := hpick
      rw [visit_cons_open hb]
      exact visit_first_open fun a ha => h a (List.mem_cons_of_mem _ ha)
  · exact visit_last_open hbs none h hpick

end Visits

/-! ## Results of the body -/

section Results

variable {q : Quantifier} {p : WitnessPolicy} {x : Except Fault (Finding ν)}

theorem ask_eq_ok {holds : Bool} {w : Witness ν} :
    q.ask x = .ok (holds, w) ↔ ∃ f, x = .ok f ∧ f.output = .scalar (.boolean holds) ∧
      f.witness = w := by
  simp only [ask, bind_eq_ok, boolean_eq_ok, pure, Except.pure, Except.ok.injEq, Prod.mk.injEq]
  constructor
  · rintro ⟨f, hf, _, ho, rfl, rfl⟩
    exact ⟨f, hf, ho, rfl⟩
  · rintro ⟨f, hf, ho, rfl⟩
    exact ⟨f, hf, holds, ho, rfl, rfl⟩

theorem leavesOpen_iff : q.LeavesOpen x ↔ ∃ w, q.ask x = .ok (!q.deciding, w) := by
  simp only [ask_eq_ok]
  constructor
  · rintro ⟨f, hf, ho⟩
    exact ⟨f.witness, f, hf, ho, rfl⟩
  · rintro ⟨w, f, hf, ho, -⟩
    exact ⟨f, hf, ho⟩

theorem visit_ask_settled {body : Binding ν → Except Fault (Finding ν)}
    {pre post : List (Binding ν)} {b : Binding ν}
    (hpre : ∀ b' ∈ pre, q.LeavesOpen (body b')) (hb : ¬ q.LeavesOpen (body b)) :
    q.visit p (fun b => q.ask (body b)) (pre ++ b :: post) none = q.ask (body b) := by
  refine visit_settled (fun w hw => ?_) post none fun b' hb' => leavesOpen_iff.1 (hpre b' hb')
  exact hb (leavesOpen_iff.2 ⟨w, hw⟩)

theorem settles_visit (body : Binding ν → Except Fault (Finding ν)) (bs : List (Binding ν)) :
    q.Settles p (bs.map body) (do
      let (holds, w) ← q.visit p (fun b => q.ask (body b)) bs none
      return .decided holds w) := by
  -- the first result that is not open is the one that the visit comes down to
  have hsettled : ∀ pre x post, bs.map body = pre ++ x :: post → (∀ x ∈ pre, q.LeavesOpen x) →
      ¬ q.LeavesOpen x → q.visit p (fun b => q.ask (body b)) bs none = q.ask x := by
    intro pre x post h hpre hx
    obtain ⟨bpre, brest, rfl, rfl, hrest⟩ := List.map_eq_append_iff.1 h
    obtain ⟨b, bpost, rfl, rfl, -⟩ := List.map_eq_cons_iff.1 hrest
    exact visit_ask_settled (fun b' hb' => hpre _ (List.mem_map_of_mem hb')) hx
  refine ⟨fun pre fault post h hpre => ?_, fun pre f post h hpre hf => ?_,
    fun pre f post h hpre hf => ?_, fun hne hopen => ?_⟩
  · rw [hsettled pre _ post h hpre (by rintro ⟨f, hf, -⟩; cases hf)]
    rfl
  · rw [hsettled pre _ post h hpre (by rintro ⟨g, hg, ho⟩; cases hg; exact hf _ ho)]
    simp only [ask, boolean_of_ne hf, bind, Except.bind]
  · have hne : q.deciding ≠ !q.deciding := by cases q <;> decide
    rw [hsettled pre _ post h hpre (by rintro ⟨g, hg, ho⟩; cases hg; simp_all)]
    rw [ask_eq_ok.2 ⟨f, rfl, hf, rfl⟩]
    rfl
  · have hbs : bs ≠ [] := by rintro rfl; exact hne rfl
    obtain ⟨f, hf, ho⟩ := hopen _ (List.mem_map_of_mem (p.pick_mem hbs))
    refine ⟨f, by rw [p.pick_map body hbs, hf], ?_⟩
    rw [visit_open hbs (fun b hb => leavesOpen_iff.1 (hopen _ (List.mem_map_of_mem hb)))
      (ask_eq_ok.2 ⟨f, hf, ho, rfl⟩)]
    rfl

end Results

end Quantifier

/-! ## Quantifiers -/

namespace Expr

variable [Node ν] {q : Quantifier} {name : String} {domain body : Expr ν} {s : Settings}
  {level : Nat} {c : Context ν} {d : Finding ν} {ms : List (Member ν)}

/-- The result of the body for a member: the variable has the value of the member, and its leaf goes
from the object along the path of the domain and the step of the member. -/
def resultAt (body : Expr ν) (name : String) (s : Settings) (level : Nat) (c : Context ν)
    (object : Value ν) (path : Path) (m : Member ν) : Except Fault (Finding ν) :=
  body.evaluateAt s level
    (c.extend name ⟨m.value, ⟨object, (path.extend m.step).extend (.bound name)⟩⟩)

theorem level_lt_of_ok {e : Expr ν} {f : Finding ν} (h : e.evaluateAt s level c = .ok f) :
    level < s.maxDepth := by
  by_contra hl
  rw [evaluateAt_of_maxDepth_le e c (Nat.le_of_not_lt hl)] at h
  cases h

theorem evaluateAt_quantify_members (hd : domain.evaluateAt s (level + 1) c = .ok d)
    (hms : d.output = .members ms) (hne : ms ≠ []) :
    (quantify q name domain body).evaluateAt s level c = (do
      let (holds, w) ← q.visit s.witnessPolicy (testBody q name body s (level + 1) c)
        (ms.map (d.candidate name)) none
      return .decided holds w) := by
  have hl : level < s.maxDepth := Nat.lt_of_succ_lt (level_lt_of_ok hd)
  have hempty : ms.isEmpty = false := by simpa using hne
  rw [evaluateAt_quantify, allowLevel_of_lt hl, hd]
  simp only [bind, Except.bind, members_eq_ok.2 hms, hempty, Bool.false_and, Bool.false_eq_true,
    if_false]

theorem evaluateAt_candidate {first : Leaf ν} {rest : Witness ν} (hw : d.witness = first :: rest) :
    (fun m => body.evaluateAt s level (c.extend name (d.candidate name m)))
      = body.resultAt name s level c first.object d.path := by
  funext m
  simp only [resultAt, Finding.candidate, hw, List.head?_cons, Option.map_some, Option.getD_some]

/-- Members behind the first one whose result is not open make no difference. -/
theorem evaluateAt_quantify_settled {first : Leaf ν} {rest : Witness ν} {pre post : List (Member ν)}
    {m : Member ν} (hd : domain.evaluateAt s (level + 1) c = .ok d)
    (hms : d.output = .members (pre ++ m :: post)) (hw : d.witness = first :: rest)
    (hpre : ∀ m' ∈ pre, q.LeavesOpen (body.resultAt name s (level + 1) c first.object d.path m'))
    (hm : ¬ q.LeavesOpen (body.resultAt name s (level + 1) c first.object d.path m)) :
    (quantify q name domain body).evaluateAt s level c = (do
      let (holds, w) ← q.ask (body.resultAt name s (level + 1) c first.object d.path m)
      return .decided holds w) := by
  rw [evaluateAt_quantify_members hd hms (by simp), List.map_append, List.map_cons]
  rw [← evaluateAt_candidate hw] at hpre hm ⊢
  have hvisit : q.visit s.witnessPolicy (testBody q name body s (level + 1) c)
      (pre.map (d.candidate name) ++ d.candidate name m :: post.map (d.candidate name)) none
        = q.ask (body.evaluateAt s (level + 1) (c.extend name (d.candidate name m))) :=
    Quantifier.visit_ask_settled (List.forall_mem_map.2 hpre) hm
  rw [hvisit]

/-- A quantifier over members does what the first result that is not open makes of it. Any domain
that starts from the same place and has the same members up to there leads to the same result. -/
theorem quantify_first_decision (q : Quantifier) (name : String) (domain body : Expr ν)
    (s : Settings) (level : Nat) (c : Context ν) {d : Finding ν} {ms : List (Member ν)}
    (hd : domain.evaluateAt s (level + 1) c = .ok d) (hms : d.output = .members ms)
    (hne : ms ≠ []) :
    ∃ first rest, d.witness = first :: rest ∧
      let result := body.resultAt name s (level + 1) c first.object d.path
      q.Settles s.witnessPolicy (ms.map result)
          ((quantify q name domain body).evaluateAt s level c)
        ∧ ∀ pre m post, ms = pre ++ m :: post → (∀ m' ∈ pre, q.LeavesOpen (result m')) →
            ¬ q.LeavesOpen (result m) → ∀ (domain' : Expr ν) (post' : List (Member ν)),
            domain'.evaluateAt s (level + 1) c
                = .ok { d with output := .members (pre ++ m :: post') } →
              (quantify q name domain' body).evaluateAt s level c
                = (quantify q name domain body).evaluateAt s level c := by
  obtain ⟨_, _, b, _, _, -, -, -, -, -, -, hw⟩ := exists_query_of_members hd hms
  refine ⟨b.leaf, [], hw, ?_, fun pre m post hsplit hpre hm domain' post' hd' => ?_⟩
  · rw [evaluateAt_quantify_members hd hms hne, ← evaluateAt_candidate hw]
    have hsettles := q.settles_visit (p := s.witnessPolicy)
      (fun b => body.evaluateAt s (level + 1) (c.extend name b)) (ms.map (d.candidate name))
    rwa [List.map_map] at hsettles
  · rw [hsplit] at hms
    rw [evaluateAt_quantify_settled hd hms hw hpre hm]
    exact evaluateAt_quantify_settled (d := { d with output := .members (pre ++ m :: post') })
      hd' rfl hw hpre hm

section Sample

/-- The body of the page as what leads to it or to its first section. -/
def sampleStart : Leaf PageElement := .plain (.element ⟨samplePage, 0, samplePage_pos⟩)

/-- Two variables with one leaf, the body of the page and its first section. -/
def sampleScopes : Context PageElement :=
  ((Context.ofInputs []).extend "$whole" ⟨sampleStart.object, sampleStart⟩).extend "$part"
    ⟨.element ⟨samplePage, 1, by decide⟩, sampleStart⟩

/-- The paragraphs below the element of a variable. -/
def sampleParagraphs (name : String) : Expr PageElement :=
  apply (.findBySelector "p") [var name]

/-- An element as the paragraph with this number. -/
def sampleMember (i : Fin samplePage.size) (index : Nat) : Member PageElement :=
  ⟨.element ⟨samplePage, i⟩, .selectorMatch "p" index⟩

def sampleFound : List (Member PageElement) :=
  [sampleMember ⟨2, by decide⟩ 0, sampleMember ⟨3, by decide⟩ 1, sampleMember ⟨5, by decide⟩ 2]

/-- The second of three paragraphs decides, so it makes no difference that the first section has
only two. -/
theorem quantify_first_decision_sample :
    (sampleParagraphs "$whole").evaluateAt {} 1 sampleScopes
        = .ok ⟨.members sampleFound, .trivial, [sampleStart]⟩
      ∧ (∃ w, (quantify .existential "$x" (sampleParagraphs "$whole") sampleBody).evaluateAt {} 0
          sampleScopes = .ok (.decided true w))
      ∧ (quantify .existential "$x" (sampleParagraphs "$part") sampleBody).evaluateAt {} 0
          sampleScopes
        = (quantify .existential "$x" (sampleParagraphs "$whole") sampleBody).evaluateAt {} 0
          sampleScopes := by
  have hwhole : (sampleParagraphs "$whole").evaluateAt {} 1 sampleScopes
      = .ok ⟨.members sampleFound, .trivial, [sampleStart]⟩ := by with_unfolding_all rfl
  have hpart : (sampleParagraphs "$part").evaluateAt {} 1 sampleScopes
      = .ok ⟨.members (sampleFound.take 2), .trivial, [sampleStart]⟩ := by with_unfolding_all rfl
  let result := sampleBody.resultAt "$x" {} 1 sampleScopes sampleStart.object .trivial
  obtain ⟨f, hf, hplain⟩ : ∃ f, result (sampleMember ⟨2, by decide⟩ 0) = .ok f ∧
      f.output = .scalar (.boolean false) :=
    ⟨_, by with_unfolding_all rfl, by with_unfolding_all rfl⟩
  obtain ⟨g, hg, hred⟩ : ∃ g, result (sampleMember ⟨3, by decide⟩ 1) = .ok g ∧
      g.output = .scalar (.boolean true) :=
    ⟨_, by with_unfolding_all rfl, by with_unfolding_all rfl⟩
  obtain ⟨first, rest, hw, hsettles, hsame⟩ := quantify_first_decision .existential "$x"
    (sampleParagraphs "$whole") sampleBody {} 0 sampleScopes hwhole rfl (by simp [sampleFound])
  cases hw
  refine ⟨hwhole, ⟨g.witness, ?_⟩, ?_⟩
  · refine hsettles.decides [.ok f] g [result (sampleMember ⟨5, by decide⟩ 2)] ?_ ?_ hred
    · rw [← hf, ← hg]
      rfl
    · exact List.forall_mem_singleton.2 ⟨f, rfl, hplain⟩
  · refine hsame [sampleMember ⟨2, by decide⟩ 0] (sampleMember ⟨3, by decide⟩ 1)
      [sampleMember ⟨5, by decide⟩ 2] rfl (List.forall_mem_singleton.2 ⟨f, hf, hplain⟩) ?_
      (sampleParagraphs "$part") [] hpart
    rintro ⟨h, hh, ho⟩
    cases hg.symm.trans hh
    cases hred.symm.trans ho

end Sample

end Expr

end Testimony
