import Testimony.Context
import Testimony.Evaluation
import Testimony.Event
import Testimony.Expr.Basic
import Testimony.Fault
import Testimony.Finding
import Testimony.Json.Basic
import Testimony.Json.Reader
import Testimony.Json.Token
import Testimony.Leaf
import Testimony.Node
import Testimony.Number.Basic
import Testimony.Number.Shortest
import Testimony.Number.Text
import Testimony.Operator.Apply
import Testimony.Operator.Basic
import Testimony.Page.Basic
import Testimony.Page.Element
import Testimony.Page.Node
import Testimony.Path
import Testimony.Proofs.Addresses
import Testimony.Proofs.Agreement
import Testimony.Proofs.Ancestry
import Testimony.Proofs.AttributeViews
import Testimony.Proofs.Complaints
import Testimony.Proofs.CompoundSpelling
import Testimony.Proofs.ComputedStyle
import Testimony.Proofs.DepthLimit
import Testimony.Proofs.Duality
import Testimony.Proofs.Embedding
import Testimony.Proofs.Evaluation
import Testimony.Proofs.ExprText
import Testimony.Proofs.FirstDecision
import Testimony.Proofs.FreeReferences
import Testimony.Proofs.Grounding
import Testimony.Proofs.Height
import Testimony.Proofs.JsonRoundTrip
import Testimony.Proofs.Kinds
import Testimony.Proofs.Layout
import Testimony.Proofs.Lineage
import Testimony.Proofs.Matching
import Testimony.Proofs.OpacityStyle
import Testimony.Proofs.OutcomeText
import Testimony.Proofs.Parallel
import Testimony.Proofs.Path
import Testimony.Proofs.PathMonoid
import Testimony.Proofs.Policies
import Testimony.Proofs.PostOrder
import Testimony.Proofs.ReadingLoops
import Testimony.Proofs.Rederivation
import Testimony.Proofs.ReferenceTokens
import Testimony.Proofs.Renaming
import Testimony.Proofs.Replay
import Testimony.Proofs.Runs
import Testimony.Proofs.ScopedQuery
import Testimony.Proofs.Searches
import Testimony.Proofs.SelectionById
import Testimony.Proofs.SelectorGrammar
import Testimony.Proofs.SelectorJoining
import Testimony.Proofs.SelectorRendering
import Testimony.Proofs.SelectorSafety
import Testimony.Proofs.SelectorSpelling
import Testimony.Proofs.SelectorUnion
import Testimony.Proofs.SettingsText
import Testimony.Proofs.Strictness
import Testimony.Proofs.SuiteRuns
import Testimony.Proofs.Terms
import Testimony.Proofs.ValueEquality
import Testimony.Proofs.WitnessLength
import Testimony.Reference
import Testimony.Report
import Testimony.Selector.Basic
import Testimony.Selector.Match
import Testimony.Selector.Reader
import Testimony.Settings.Basic
import Testimony.Settings.Reader
import Testimony.Suite
import Testimony.Text
import Testimony.Value
import Testimony.Verdict
