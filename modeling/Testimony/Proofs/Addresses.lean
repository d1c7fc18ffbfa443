import Mathlib.Data.List.Basic
import Testimony.Page.Element

/-!
# Where an element stands in markup

The address of an element says which way leads to it from the root: the number of a child, then the
number of a child of that, and so on. `at?` goes there. It tells elements apart that state the same
things, and the address of the parent is the one without the last number.

`addresses` lists the addresses in document order, each element's before those of its children and
the children in turn. They are the addresses at which something stands (`mem_addresses`), in
lexicographic order (`pairwise_addresses`), so each of them once (`nodup_addresses`).
-/

namespace Testimony.Markup

def element : Markup → Element
  | node e _ => e

def children : Markup → List Markup
  | node _ cs => cs

/-- What stands at an address, if anything does. -/
def at? (m : Markup) : List Nat → Option Markup
  | [] => some m
  | k :: a => m.children[k]?.bind fun c => c.at? a

mutual

/-- The addresses of all elements, in document order. -/
def addresses : Markup → List (List Nat)
  | node _ cs => [] :: addressesAll cs 0

/-- The addresses of children and of all below them, where the first child has this number. -/
def addressesAll : List Markup → (number : Nat) → List (List Nat)
  | [], _ => []
  | m :: ms, k => m.addresses.map (k :: ·) ++ addressesAll ms (k + 1)

end

variable {m c : Markup} {a b : List Nat} {k : Nat}

theorem at?_append (m : Markup) (a b : List Nat) : m.at? (a ++ b) = (m.at? a).bind (·.at? b) := by
  induction a generalizing m with
  | nil => rfl
  | cons k a ih =>
    simp only [List.cons_append, at?]
    rcases m.children[k]? with _ | c
    · rfl
    · exact ih c

theorem at?_concat :
    m.at? (a ++ [k]) = some c ↔ ∃ p, m.at? a = some p ∧ p.children[k]? = some c := by
  rw [at?_append, Option.bind_eq_some_iff]
  simp only [at?, Option.bind_eq_some_iff]
  constructor
  · rintro ⟨p, hp, c', hc, ⟨⟩⟩
    exact ⟨p, hp, hc⟩
  · rintro ⟨p, hp, hc⟩
    exact ⟨p, hp, c, hc, rfl⟩

theorem addresses_eq_cons (m : Markup) : m.addresses = [] :: addressesAll m.children 0 := by
  rcases m with ⟨e, cs⟩
  rfl

theorem addressesAll_append (ms ms' : List Markup) (k : Nat) :
    addressesAll (ms ++ ms') k = addressesAll ms k ++ addressesAll ms' (k + ms.length) := by
  induction ms generalizing k with
  | nil => rfl
  | cons m ms ih =>
    simp only [List.cons_append, addressesAll, ih, List.append_assoc, List.length_cons]
    rw [Nat.add_right_comm, Nat.add_assoc]

/-! ## What has an address -/

mutual

theorem mem_addresses : ∀ (m : Markup) (a : List Nat), a ∈ m.addresses ↔ ∃ c, m.at? a = some c
  | node e cs, [] => by simp [addresses, at?]
  | node e cs, k :: a => by
    simp only [addresses, List.mem_cons, reduceCtorEq, false_or, mem_addressesAll, Nat.zero_add,
      at?, children, Option.bind_eq_some_iff]
    grind

theorem mem_addressesAll : ∀ (ms : List Markup) (k : Nat) (a : List Nat),
    a ∈ addressesAll ms k ↔
      ∃ i b m c, a = (k + i) :: b ∧ ms[i]? = some m ∧ m.at? b = some c
  | [], _, _ => by simp [addressesAll]
  | m :: ms, k, a => by
    simp only [addressesAll, List.mem_append, List.mem_map, mem_addresses m,
      mem_addressesAll ms (k + 1)]
    constructor
    · rintro (⟨b, ⟨c, hc⟩, rfl⟩ | ⟨i, b, m', c, rfl, hm', hc⟩)
      · exact ⟨0, b, m, c, rfl, rfl, hc⟩
      · exact ⟨i + 1, b, m', c, by rw [Nat.add_right_comm, Nat.add_assoc], hm', hc⟩
    · rintro ⟨_ | i, b, m', c, rfl, hm', hc⟩
      · cases hm'
        exact .inl ⟨b, ⟨c, hc⟩, rfl⟩
      · exact .inr ⟨i, b, m', c, by rw [Nat.add_right_comm, Nat.add_assoc], hm', hc⟩

end

/-! ## Their order -/

mutual

theorem pairwise_addresses : ∀ m : Markup, m.addresses.Pairwise (List.Lex (· < ·))
  | node e cs => by
    refine List.pairwise_cons.2 ⟨fun a ha => ?_, pairwise_addressesAll cs 0⟩
    obtain ⟨i, b, m, c, rfl, -, -⟩ := (mem_addressesAll cs 0 a).1 ha
    exact .nil

theorem pairwise_addressesAll :
    ∀ (ms : List Markup) (k : Nat), (addressesAll ms k).Pairwise (List.Lex (· < ·))
  | [], _ => .nil
  | m :: ms, k => by
    refine List.pairwise_append.2 ⟨?_, pairwise_addressesAll ms (k + 1), ?_⟩
    · exact List.pairwise_map.2 ((pairwise_addresses m).imp .cons)
    · rintro a ha b hb
      obtain ⟨a', -, rfl⟩ := List.mem_map.1 ha
      obtain ⟨i, b', _, _, rfl, -, -⟩ := (mem_addressesAll ms (k + 1) b).1 hb
      exact .rel (by omega)

end

theorem nodup_addresses (m : Markup) : m.addresses.Nodup := by
  refine (pairwise_addresses m).imp ?_
  rintro a _ h rfl
  exact List.lex_irrefl Nat.lt_irrefl a h

end Testimony.Markup
