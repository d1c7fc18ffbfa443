import Mathlib.Tactic.IntervalCases
import Testimony.Json.Reader
import Testimony.Proofs.Runs

/-!
# What is written in JSON reads back

The compact form of a value is cut into tokens where the writer put them together
(`split?_writeCompact`), and these read as the value (`readValue?_writeTokens`). So reading the text
of a value gives the value again (`ofText?_compact`), and two values with one text are equal
(`eq_of_compact_eq`).

Only the numbers have to be ones: a literal is read whole if nothing behind it goes on with it
(`IsLiteral`), and of that kind are the decimal forms of natural numbers (`isLiteral_repr`).
-/

namespace Testimony.Json

open Text

/-! ## Strings -/

theorem hexValue?_digitChar : ∀ n < 16, hexValue? (Nat.digitChar n) = some n := by decide

theorem codeUnit?_digits {n : Nat} (h : n < 0x10000) :
    codeUnit? (Nat.digitChar (n / 4096 % 16)) (Nat.digitChar (n / 256 % 16))
      (Nat.digitChar (n / 16 % 16)) (Nat.digitChar (n % 16)) = some n := by
  have hdigit (m : Nat) : hexValue? (Nat.digitChar (m % 16)) = some (m % 16) :=
    hexValue?_digitChar _ (Nat.mod_lt _ (by decide))
  have hsum : 4096 * (n / 4096 % 16) + 256 * (n / 256 % 16) + 16 * (n / 16 % 16) + n % 16 = n := by
    omega
  simp only [codeUnit?, hdigit, Option.bind_eq_bind, Option.bind_some, hsum]

theorem stringBody?_escape (c : Char) (r : List Char) :
    stringBody? (escape c ++ r) = (stringBody? r).map fun (us, rest) => (c.toNat :: us, rest) := by
  unfold escape
  split
  case h_8 =>
    rename_i hquote hbackslash _ _ _ _ _
    split_ifs with hcontrol
    · have hcode := codeUnit?_digits (n := c.toNat) (by omega)
      simp only [hexDigits, List.map_cons, List.map_nil, List.cons_append, List.nil_append,
        stringBody?, hcode]
      rcases stringBody? r with _ | ⟨us, rest⟩ <;> rfl
    · have hne : c ≠ '\\' := hbackslash
      have hplain : ¬ (c.toNat < 0x20 || c = '\\') = true := by simp [hcontrol, hne]
      rw [List.singleton_append, stringBody?.eq_5 _ _ hquote fun _ _ _ _ _ hc _ => hbackslash hc]
      · rw [if_neg hplain]
        rcases stringBody? r with _ | ⟨us, rest⟩ <;> rfl
      · exact fun _ _ hc _ => hbackslash hc
  all_goals
    rcases h : stringBody? r with _ | ⟨us, rest⟩ <;>
      simp [stringBody?, shortEscape?, h]

theorem stringBody?_quoted (s rest : List Char) :
    stringBody? (s.flatMap escape ++ '"' :: rest) = some (s.map Char.toNat, rest) := by
  induction s with
  | nil => rfl
  | cons c s ih =>
    rw [List.flatMap_cons, List.append_assoc, stringBody?_escape, ih]
    rfl

theorem surrogate_toNat (c : Char) :
    isHighSurrogate c.toNat = false ∧ isLowSurrogate c.toNat = false := by
  have h : c.toNat < 0xD800 ∨ 0xDFFF < c.toNat ∧ c.toNat < 0x110000 := c.valid
  simp only [isHighSurrogate, isLowSurrogate, Bool.and_eq_false_iff, decide_eq_false_iff_not]
  omega

theorem textOfUnits?_map : ∀ s : List Char, textOfUnits? (s.map Char.toNat) = some s
  | [] => rfl
  | [c] => by simp [textOfUnits?, surrogate_toNat c]
  | c :: d :: s => by
    have ih := textOfUnits?_map (d :: s)
    rw [List.map_cons] at ih
    simp [textOfUnits?, surrogate_toNat c, ih]

/-! ## Numbers -/

/-- The character can stand in a number behind a digit. -/
def extendsNumber (c : Char) : Bool :=
  c.isDigit || c == '.' || c == 'e' || c == 'E'

/-- A number as JSON writes it, which is read whole wherever it stands. -/
def IsLiteral (literal : String) : Prop :=
  ∀ rest, Stops extendsNumber rest →
    numberLiteral? (literal.toList ++ rest) = some (literal.toList, rest)

section Numbers

variable {rest : List Char}

theorem stops_of_extendsNumber {p : Char → Bool} (h : Stops extendsNumber rest)
    (hp : ∀ c, p c = true → extendsNumber c = true) : Stops p rest := fun c hc => by
  have hstop := h c hc
  by_contra hpc
  rw [hp c (by simpa using hpc)] at hstop
  cases hstop

theorem someDigits?_run {ds : List Char} (hne : ds ≠ []) (hds : ∀ c ∈ ds, c.isDigit = true)
    (h : Stops Char.isDigit rest) : someDigits? (ds ++ rest) = some (ds, rest) := by
  rcases ds with _ | ⟨d, ds⟩
  · exact absurd rfl hne
  · rw [someDigits?, takeWhile_run hds h, dropWhile_run hds h]

theorem fractionPart?_of_stops (h : Stops extendsNumber rest) :
    fractionPart? rest = some ([], rest) := by
  unfold fractionPart?
  split
  · exact absurd (h '.' rfl) (by decide)
  · rfl

theorem powerPart?_of_stops (h : Stops extendsNumber rest) :
    powerPart? rest = some ([], rest) := by
  rcases rest with _ | ⟨c, r⟩
  · rfl
  · have hc : ¬ (c = 'e' || c = 'E') = true := by
      have hstop := stops_cons.1 h
      simp only [extendsNumber, Bool.or_eq_false_iff, beq_eq_false_iff_ne] at hstop
      simp [hstop]
    rw [powerPart?, if_neg hc]

theorem head?_toDigits_ne_zero {n : Nat} (h : 0 < n) : (Nat.toDigits 10 n).head? ≠ some '0' := by
  induction n using Nat.strongRecOn with
  | _ n ih =>
    by_cases hn : n < 10
    · rw [Nat.toDigits_of_lt_base hn]
      interval_cases n <;> decide
    · have hne : Nat.toDigits 10 (n / 10) ≠ [] := Nat.toDigits_ne_nil
      obtain ⟨d, ds, hds⟩ := List.exists_cons_of_ne_nil hne
      have hhead := ih (n / 10) (by omega) (by omega)
      rw [hds] at hhead
      rwa [Nat.toDigits_of_base_le (by decide) (by omega), hds]

theorem wholePart?_toDigits (n : Nat) (h : Stops Char.isDigit rest) :
    wholePart? (Nat.toDigits 10 n ++ rest) = some (Nat.toDigits 10 n, rest) := by
  have hdigits : ∀ c ∈ Nat.toDigits 10 n, c.isDigit = true := fun c hc =>
    Nat.isDigit_of_mem_toDigits (by decide) (by decide) hc
  have hne : Nat.toDigits 10 n ≠ [] := Nat.toDigits_ne_nil
  rcases Nat.eq_zero_or_pos n with rfl | hn
  · rfl
  · have hrun := someDigits?_run hne hdigits h
    have hzero := head?_toDigits_ne_zero hn
    obtain ⟨d, ds, hds⟩ := List.exists_cons_of_ne_nil hne
    rw [hds] at hrun hzero ⊢
    have hd : d ≠ '0' := by simpa using hzero
    rw [List.cons_append, wholePart?.eq_2]
    · exact hrun
    · rintro _ hc
      cases hc
      exact hd rfl

theorem isLiteral_repr (n : Nat) : IsLiteral n.repr := by
  intro rest h
  have hdigit : Stops Char.isDigit rest :=
    stops_of_extendsNumber h fun c hc => by simp [extendsNumber, hc]
  have hrepr : n.repr.toList = Nat.toDigits 10 n := by simp [Nat.repr]
  have hunsigned :
      unsignedNumber? (Nat.toDigits 10 n ++ rest) = some (Nat.toDigits 10 n, rest) := by
    simp only [unsignedNumber?, wholePart?_toDigits n hdigit, fractionPart?_of_stops h,
      powerPart?_of_stops h, Option.bind_eq_bind, Option.bind_some, List.append_nil]
  obtain ⟨d, ds, hds⟩ := List.exists_cons_of_ne_nil (Nat.toDigits_ne_nil (n := n) (b := 10))
  have hd : d ≠ '-' := by
    have hisDigit := Nat.isDigit_of_mem_toDigits (b := 10) (n := n) (c := d) (by decide) (by decide)
      (hds ▸ List.mem_cons_self)
    rintro rfl
    cases hisDigit
  rw [hds] at hunsigned
  rw [hrepr, hds, List.cons_append, numberLiteral?.eq_2]
  · exact hunsigned
  · rintro _ hc
    cases hc
    exact hd rfl

end Numbers

/-! ## Tokens -/

namespace Token

/-- A number stands where nothing else can. -/
theorem first?_of_numberLiteral? {s ds rest : List Char} (h : numberLiteral? s = some (ds, rest)) :
    first? s = some (.number (String.ofList ds), rest) := by
  unfold first?
  split
  case h_12 => rw [h]; rfl
  all_goals cases h

theorem first?_quoted (s : String) (rest : List Char) :
    first? (quoted s ++ rest) = some (.string (some s), rest) := by
  have hbody := stringBody?_quoted s.toList rest
  have htext := textOfUnits?_map s.toList
  simp only [quoted, List.cons_append, List.append_assoc, List.nil_append, first?, hbody, htext,
    Option.map_some, String.ofList_toList]

theorem split?_of_first? {s rest : List Char} {t : Token} {ts : List Token}
    (h : first? s = some (t, rest)) (hrest : split? rest = some ts) :
    split? s = some (t :: ts) := by
  rcases s with _ | ⟨c, r⟩
  · cases h
  · have hspace : ¬ isSpace c = true := by
      intro hc
      simp only [isSpace, Bool.or_eq_true, decide_eq_true_eq, or_assoc] at hc
      rcases hc with rfl | rfl | rfl | rfl <;> cases h
    rw [split?, if_neg hspace]
    split
    · rename_i hnone
      rw [h] at hnone
      cases hnone
    · rename_i t' rest' hsome
      rw [h] at hsome
      cases hsome
      rw [hrest]
      rfl

end Token

mutual

/-- Puts the tokens of a value in front of others. -/
def writeTokens : Json String → (rest : List Token) → List Token
  | .null, rest => .null :: rest
  | .bool b, rest => .bool b :: rest
  | .number literal, rest => .number literal :: rest
  | .string s, rest => .string (some s) :: rest
  | .array [], rest => .openArray :: .closeArray :: rest
  | .array (j :: js), rest => .openArray :: j.writeTokens (writeItemTokens js rest)
  | .object [], rest => .openObject :: .closeObject :: rest
  | .object ((k, j) :: ms), rest =>
    .openObject :: .string (some k) :: .colon :: j.writeTokens (writeMemberTokens ms rest)

def writeItemTokens : List (Json String) → (rest : List Token) → List Token
  | [], rest => .closeArray :: rest
  | j :: js, rest => .comma :: j.writeTokens (writeItemTokens js rest)

def writeMemberTokens : List (String × Json String) → (rest : List Token) → List Token
  | [], rest => .closeObject :: rest
  | (k, j) :: ms, rest =>
    .comma :: .string (some k) :: .colon :: j.writeTokens (writeMemberTokens ms rest)

end

mutual

/-- The numbers in the value are ones that JSON knows. -/
def WellWritten : Json String → Prop
  | .null | .bool _ | .string _ => True
  | .number literal => IsLiteral literal
  | .array js => WellWrittenItems js
  | .object ms => WellWrittenMembers ms

def WellWrittenItems : List (Json String) → Prop
  | [] => True
  | j :: js => j.WellWritten ∧ WellWrittenItems js

def WellWrittenMembers : List (String × Json String) → Prop
  | [] => True
  | (_, j) :: ms => j.WellWritten ∧ WellWrittenMembers ms

end

section Tokens

open Token

theorem stops_writeItems (js : List (Json String)) (rest : List Char) :
    Stops extendsNumber (writeItems js rest) := by
  rcases js with _ | ⟨j, js⟩ <;> exact stops_cons.2 (by decide)

theorem stops_writeMembers (ms : List (String × Json String)) (rest : List Char) :
    Stops extendsNumber (writeMembers ms rest) := by
  rcases ms with _ | ⟨⟨k, j⟩, ms⟩ <;> exact stops_cons.2 (by decide)

/-- The tokens of a member up to its value. -/
theorem split?_key {k : String} {s : List Char} {ts : List Token} (h : split? s = some ts) :
    split? (quoted k ++ ':' :: s) = some (.string (some k) :: .colon :: ts) := by
  have hcolon : split? (':' :: s) = some (.colon :: ts) := split?_of_first? rfl h
  exact split?_of_first? (first?_quoted k _) hcolon

mutual

theorem split?_writeCompact :
    ∀ (j : Json String) {rest : List Char} {ts : List Token}, j.WellWritten →
      Stops extendsNumber rest → split? rest = some ts →
      split? (j.writeCompact rest) = some (j.writeTokens ts)
  | .null, rest, ts, _, _, h => by
    rw [writeCompact, writeTokens]
    exact split?_of_first? rfl h
  | .bool b, rest, ts, _, _, h => by
    have hfirst : first? (boolLiteral b ++ rest) = some (.bool b, rest) := by cases b <;> rfl
    rw [writeCompact, writeTokens]
    exact split?_of_first? hfirst h
  | .number literal, rest, ts, hj, hrest, h => by
    have hfirst := first?_of_numberLiteral? (hj rest hrest)
    rw [String.ofList_toList] at hfirst
    rw [writeCompact, writeTokens]
    exact split?_of_first? hfirst h
  | .string s, rest, ts, _, _, h => by
    rw [writeCompact, writeTokens]
    exact split?_of_first? (first?_quoted s rest) h
  | .array [], rest, ts, _, _, h => by
    have hclose : split? (']' :: rest) = some (.closeArray :: ts) := split?_of_first? rfl h
    rw [writeCompact, writeTokens]
    exact split?_of_first? rfl hclose
  | .array (j :: js), rest, ts, hj, _, h => by
    have hitems := split?_writeItems js hj.2 h
    have hvalue := split?_writeCompact j hj.1 (stops_writeItems js rest) hitems
    rw [writeCompact, writeTokens]
    exact split?_of_first? rfl hvalue
  | .object [], rest, ts, _, _, h => by
    have hclose : split? ('\x7d' :: rest) = some (.closeObject :: ts) := split?_of_first? rfl h
    rw [writeCompact, writeTokens]
    exact split?_of_first? rfl hclose
  | .object ((k, j) :: ms), rest, ts, hj, _, h => by
    have hmembers := split?_writeMembers ms hj.2 h
    have hvalue := split?_writeCompact j hj.1 (stops_writeMembers ms rest) hmembers
    rw [writeCompact, writeTokens]
    exact split?_of_first? rfl (split?_key hvalue)

theorem split?_writeItems :
    ∀ (js : List (Json String)) {rest : List Char} {ts : List Token}, WellWrittenItems js →
      split? rest = some ts → split? (writeItems js rest) = some (writeItemTokens js ts)
  | [], rest, ts, _, h => by
    rw [writeItems, writeItemTokens]
    exact split?_of_first? rfl h
  | j :: js, rest, ts, hjs, h => by
    have hitems := split?_writeItems js hjs.2 h
    have hvalue := split?_writeCompact j hjs.1 (stops_writeItems js rest) hitems
    rw [writeItems, writeItemTokens]
    exact split?_of_first? rfl hvalue

theorem split?_writeMembers :
    ∀ (ms : List (String × Json String)) {rest : List Char} {ts : List Token},
      WellWrittenMembers ms → split? rest = some ts →
      split? (writeMembers ms rest) = some (writeMemberTokens ms ts)
  | [], rest, ts, _, h => by
    rw [writeMembers, writeMemberTokens]
    exact split?_of_first? rfl h
  | (k, j) :: ms, rest, ts, hms, h => by
    have hmembers := split?_writeMembers ms hms.2 h
    have hvalue := split?_writeCompact j hms.1 (stops_writeMembers ms rest) hmembers
    rw [writeMembers, writeMemberTokens]
    exact split?_of_first? rfl (split?_key hvalue)

end

end Tokens

/-! ## Values -/

mutual

/-- The value as it is read again: every string names its text. -/
def reading : Json String → Reading
  | .null => .null
  | .bool b => .bool b
  | .number literal => .number literal
  | .string s => .string (some s)
  | .array js => .array (readings js)
  | .object ms => .object (memberReadings ms)

def readings : List (Json String) → List Reading
  | [] => []
  | j :: js => j.reading :: readings js

def memberReadings : List (String × Json String) → List (Option String × Reading)
  | [] => []
  | (k, j) :: ms => (some k, j.reading) :: memberReadings ms

end

theorem writeTokens_ne_close (j : Json String) (ts ts' : List Token) :
    j.writeTokens ts ≠ .closeArray :: ts' := by
  rcases j with _ | _ | _ | _ | (_ | _) | (_ | _) <;> simp [writeTokens]

mutual

theorem readValue?_writeTokens :
    ∀ (j : Json String) (ts : List Token) (outer : List Frame),
      readValue? (j.writeTokens ts) outer = readAfter? ts j.reading outer
  | .null, _, _ => rfl
  | .bool _, _, _ => rfl
  | .number _, _, _ => rfl
  | .string _, _, _ => rfl
  | .array [], _, _ => rfl
  | .array (j :: js), ts, outer => by
    rw [writeTokens, readValue?, readValue?_writeTokens j, readAfter?_writeItemTokens js]
    · rfl
    · exact writeTokens_ne_close j _
  | .object [], _, _ => rfl
  | .object ((k, j) :: ms), ts, outer => by
    rw [writeTokens, readValue?, readValue?_writeTokens j, readAfter?_writeMemberTokens ms]
    rfl

theorem readAfter?_writeItemTokens :
    ∀ (js : List (Json String)) (j : Reading) (done : List Reading) (ts : List Token)
      (outer : List Frame), readAfter? (writeItemTokens js ts) j (.array done :: outer)
        = readAfter? ts (.array (done.reverse ++ j :: readings js)) outer
  | [], j, done, ts, outer => by
    rw [writeItemTokens, readAfter?, List.reverse_cons]
    rfl
  | j' :: js, j, done, ts, outer => by
    rw [writeItemTokens, readAfter?, readValue?_writeTokens j', readAfter?_writeItemTokens js,
      List.reverse_cons, List.append_assoc]
    rfl

theorem readAfter?_writeMemberTokens :
    ∀ (ms : List (String × Json String)) (k : Option String) (j : Reading)
      (done : List (Option String × Reading)) (ts : List Token) (outer : List Frame),
      readAfter? (writeMemberTokens ms ts) j (.object done k :: outer)
        = readAfter? ts (.object (done.reverse ++ (k, j) :: memberReadings ms)) outer
  | [], k, j, done, ts, outer => by
    rw [writeMemberTokens, readAfter?, List.reverse_cons]
    rfl
  | (k', j') :: ms, k, j, done, ts, outer => by
    rw [writeMemberTokens, readAfter?, readValue?_writeTokens j', readAfter?_writeMemberTokens ms,
      List.reverse_cons, List.append_assoc]
    rfl

end

mutual

theorem reading_injective : ∀ {j j' : Json String}, j.reading = j'.reading → j = j'
  | .null, j', h => by cases j' <;> cases h; rfl
  | .bool b, j', h => by cases j' <;> cases h; rfl
  | .number literal, j', h => by cases j' <;> cases h; rfl
  | .string s, j', h => by cases j' <;> cases h; rfl
  | .array js, j', h => by
    rcases j' with _ | _ | _ | _ | js' | _ <;> simp only [reading, reduceCtorEq, array.injEq] at h
    rw [readings_injective h]
  | .object ms, j', h => by
    rcases j' with _ | _ | _ | _ | _ | ms' <;> simp only [reading, reduceCtorEq, object.injEq] at h
    rw [memberReadings_injective h]

theorem readings_injective : ∀ {js js' : List (Json String)}, readings js = readings js' → js = js'
  | [], [], _ => rfl
  | j :: js, j' :: js', h => by
    simp only [readings, List.cons.injEq] at h
    rw [reading_injective h.1, readings_injective h.2]

theorem memberReadings_injective :
    ∀ {ms ms' : List (String × Json String)}, memberReadings ms = memberReadings ms' → ms = ms'
  | [], [], _ => rfl
  | (k, j) :: ms, (k', j') :: ms', h => by
    simp only [memberReadings, List.cons.injEq, Prod.mk.injEq, Option.some.injEq] at h
    rw [h.1.1, reading_injective h.1.2, memberReadings_injective h.2]

end

/-! ## Texts -/

/-- The compact text of a value reads as the value. -/
theorem ofText?_compact {j : Json String} (h : j.WellWritten) :
    ofText? j.compact = some j.reading := by
  have hsplit := split?_writeCompact j h stops_nil Token.split?.eq_1
  rw [ofText?, compact, String.toList_ofList, hsplit]
  exact readValue?_writeTokens j [] []

theorem eq_of_compact_eq {j j' : Json String} (h : j.WellWritten) (h' : j'.WellWritten)
    (htext : j.compact = j'.compact) : j = j' := by
  have hread := ofText?_compact h
  rw [htext, ofText?_compact h'] at hread
  exact (reading_injective (Option.some.inj hread)).symm

end Testimony.Json
