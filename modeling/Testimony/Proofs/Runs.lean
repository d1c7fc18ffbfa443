import Mathlib.Data.List.TakeWhile
import Testimony.Text

/-!
# Runs of characters of a class

A reader that takes all characters of a class at the front of a text stops where the next one is
not of the class (`Stops`), or at the end. So it takes a run of the class whole, and nothing else,
if the class stops behind it: `takeWhile_run`, `dropWhile_run`, and for blanks `skipBlank_run`.
-/

namespace Testimony.Text

/-- The text does not begin with a character of the class. -/
def Stops (p : Char → Bool) (s : List Char) : Prop := ∀ c ∈ s.head?, p c = false

variable {p : Char → Bool} {c : Char} {s w : List Char}

theorem stops_nil : Stops p [] := by
  simp [Stops]

theorem stops_cons : Stops p (c :: s) ↔ p c = false := by
  simp [Stops]

/-- A class stops at other characters, and if there are none where it stops behind them. -/
theorem Stops.append (hw : ∀ c ∈ w, p c = false) (h : Stops p s) : Stops p (w ++ s) := by
  rcases w with _ | ⟨c, w⟩
  · exact h
  · exact stops_cons.2 (hw c List.mem_cons_self)

theorem stops_dropWhile (p : Char → Bool) (s : List Char) : Stops p (s.dropWhile p) := by
  intro c hc
  have hhead := List.head?_dropWhile_not p s
  rw [Option.mem_def.1 hc] at hhead
  exact hhead

theorem dropWhile_of_stops (h : Stops p s) : s.dropWhile p = s := by
  rcases s with _ | ⟨c, s⟩
  · rfl
  · rw [List.dropWhile_cons, stops_cons.1 h]
    rfl

theorem takeWhile_of_stops (h : Stops p s) : s.takeWhile p = [] := by
  rcases s with _ | ⟨c, s⟩
  · rfl
  · rw [List.takeWhile_cons, stops_cons.1 h]
    rfl

theorem takeWhile_run (hw : ∀ c ∈ w, p c = true) (h : Stops p s) : (w ++ s).takeWhile p = w := by
  rw [List.takeWhile_append_of_pos hw, takeWhile_of_stops h, List.append_nil]

theorem dropWhile_run (hw : ∀ c ∈ w, p c = true) (h : Stops p s) : (w ++ s).dropWhile p = s := by
  rw [List.dropWhile_append_of_pos hw, dropWhile_of_stops h]

/-! ## Blanks -/

/-- The text is blank, or empty. -/
def Blanks (b : List Char) : Prop := ∀ c ∈ b, isBlank c = true

section Blanks

variable {b : List Char}

theorem blanks_nil : Blanks [] := fun _ => (nomatch ·)

theorem blanks_space : Blanks [' '] := List.forall_mem_singleton.2 (by decide)

theorem skipBlank_of_stops (h : Stops isBlank s) : skipBlank s = s :=
  dropWhile_of_stops h

theorem skipBlank_append (hb : Blanks b) (s : List Char) : skipBlank (b ++ s) = skipBlank s :=
  List.dropWhile_append_of_pos hb

theorem skipBlank_run (hb : Blanks b) (h : Stops isBlank s) : skipBlank (b ++ s) = s := by
  rw [skipBlank_append hb, skipBlank_of_stops h]

theorem exists_blanks {t : List Char} (h : skipBlank s = t) : ∃ b, Blanks b ∧ s = b ++ t :=
  ⟨s.takeWhile isBlank, fun _ => List.mem_takeWhile_imp, by
    rw [← h]
    exact List.takeWhile_append_dropWhile.symm⟩

/-- The visible characters of ASCII are not blank. -/
theorem isBlank_of_ascii (h : 0x20 < c.toNat) (h' : c.toNat < 0x80) : isBlank c = false := by
  rw [Bool.eq_false_iff]
  intro hc
  simp only [isBlank, blankRanges, List.any_cons, List.any_nil, Bool.or_eq_true, Bool.and_eq_true,
    decide_eq_true_eq, Bool.false_eq_true, or_false] at hc
  omega

end Blanks

end Testimony.Text
