import Testimony.Selector.Basic

/-!
# Nodes

What an evaluation asks of the elements it is handed: who they are, how to name them to a reader,
which elements below them a selector describes, and the style they have. Every type that answers
these questions can stand for the elements; two nodes are the same if their identities are.
-/

namespace Testimony

/-- A document and a position in it. -/
structure Identity where
  document : Nat
  position : Nat
deriving DecidableEq, Hashable

class Node (ν : Type) where
  identity : ν → Identity
  describe : ν → String
  /-- The elements below that a selector describes, in document order. -/
  query : ν → String → Except QueryFailure (List ν)
  /-- The value of a style property, if the node has one. -/
  style : ν → String → Option String

/-- Nodes of two kinds side by side. -/
instance {ν μ : Type} [Node ν] [Node μ] : Node (ν ⊕ μ) where
  identity := Sum.elim Node.identity Node.identity
  describe := Sum.elim Node.describe Node.describe
  query
    | .inl n, s => (Node.query n s).map (List.map .inl)
    | .inr n, s => (Node.query n s).map (List.map .inr)
  style := Sum.elim Node.style Node.style

end Testimony
