import FormulaOutline.Config.Reading
import FormulaOutline.Document.Encoding
import FormulaOutline.Function.Scripted
import FormulaOutline.Main
import FormulaOutline.Pattern.Apply
import FormulaOutline.Provider.Fixed
import FormulaOutline.Session.Run
import FormulaOutline.Suggestion.Encoding
import FormulaOutline.Suggestion.Nearby
import FormulaOutline.Trial.Check
import FormulaOutline.Trial.Trip
import FormulaOutline.View.Config
import FormulaOutline.View.Document
import FormulaOutline.View.Formula
import FormulaOutline.View.Provider
import FormulaOutline.View.Scope
import FormulaOutline.View.Suggestion
import FormulaOutline.Proofs.Scope.Arena
import FormulaOutline.Proofs.Scope.Links
import FormulaOutline.Proofs.Scope.Planting
import FormulaOutline.Proofs.Scope.Ownership
import FormulaOutline.Proofs.Scope.Rebuilding
import FormulaOutline.Proofs.Scope.WellFormed
import FormulaOutline.Proofs.Session.Operations
import FormulaOutline.Proofs.Scope.Aging
import FormulaOutline.Proofs.Session.History
import FormulaOutline.Proofs.Session.OutdatedRuns
import FormulaOutline.Proofs.Scope.Layout
import FormulaOutline.Proofs.Scope.NaturalPlace
import FormulaOutline.Proofs.Document.Operations
import FormulaOutline.Proofs.Document.Outlines
import FormulaOutline.Proofs.Number.Rounding
import FormulaOutline.Proofs.Number.Shortest
import FormulaOutline.Proofs.Number.Text
import FormulaOutline.Proofs.Formula.Grammar
import FormulaOutline.Proofs.Formula.Parsing
import FormulaOutline.Proofs.Formula.Lexing
import FormulaOutline.Proofs.Formula.Names
import FormulaOutline.Proofs.Formula.Writing
import FormulaOutline.Proofs.Formula.Braces
import FormulaOutline.Proofs.Formula.RoundTrip
import FormulaOutline.Proofs.Formula.Acceptance
import FormulaOutline.Proofs.Formula.Reformatting
import FormulaOutline.Proofs.Formula.Stopping
import FormulaOutline.Proofs.Formula.Slices
import FormulaOutline.Proofs.Formula.Rows
import FormulaOutline.Proofs.Formula.Rereading
import FormulaOutline.Proofs.Formula.Comparing
import FormulaOutline.Proofs.Formula.Pieces
import FormulaOutline.Proofs.Formula.Anchors
import FormulaOutline.Proofs.Formula.Tiling
import FormulaOutline.Proofs.Document.Editing
import FormulaOutline.Proofs.Document.Linked
import FormulaOutline.Proofs.Evaluation.Expressions
import FormulaOutline.Proofs.Session.Polling
import FormulaOutline.Proofs.Session.Schedules
import FormulaOutline.Proofs.Document.Growth
import FormulaOutline.Proofs.Pattern.Applying
import FormulaOutline.Proofs.Pattern.Embedding
import FormulaOutline.Proofs.Pattern.Rebuilt
import FormulaOutline.Proofs.Pattern.Repeating
import FormulaOutline.Proofs.Scope.Spelling
import FormulaOutline.Proofs.Scope.Unchanged
import FormulaOutline.Proofs.Session.Disabled
import FormulaOutline.Proofs.Document.Roots
import FormulaOutline.Proofs.Cache.Queue
import FormulaOutline.Proofs.Cache.Stores
import FormulaOutline.Proofs.Session.Progress
import FormulaOutline.Proofs.Session.Quiescence
import FormulaOutline.Proofs.Session.Frozen
import FormulaOutline.Proofs.Scope.Handles
import FormulaOutline.Proofs.Scope.CycleCut
import FormulaOutline.Proofs.Session.Delivery
import FormulaOutline.Proofs.Session.Publications
import FormulaOutline.Proofs.Session.Walks
import FormulaOutline.Proofs.Cache.Keys
import FormulaOutline.Proofs.Calendar.Writing
import FormulaOutline.Proofs.Value.Recognition
import FormulaOutline.Proofs.Provider.Caching
import FormulaOutline.Proofs.Document.Indentation
import FormulaOutline.Proofs.Evaluation.Following
import FormulaOutline.Proofs.Pattern.Replaying
import FormulaOutline.Proofs.Scope.Lookup
import FormulaOutline.Proofs.Suggestion.Nearest
import FormulaOutline.Proofs.Suggestion.Pairs
import FormulaOutline.Proofs.Suggestion.Sums
import FormulaOutline.Proofs.Scope.Preorder
import FormulaOutline.Proofs.Pattern.Adding
import FormulaOutline.Proofs.Pattern.Passes
import FormulaOutline.Proofs.Formula.Positions
import FormulaOutline.Proofs.Pattern.Filling
import FormulaOutline.Proofs.Evaluation.Constants
import FormulaOutline.Proofs.Pattern.Twice
import FormulaOutline.Proofs.Pattern.Equivalence
import FormulaOutline.Proofs.Cache.Counts
import FormulaOutline.Proofs.Session.Registrations
import FormulaOutline.Proofs.Session.Deeds
import FormulaOutline.Proofs.Session.Annotations
import FormulaOutline.Proofs.Http.Retrying
import FormulaOutline.Proofs.Http.Spacing
import FormulaOutline.Proofs.Http.Below
import FormulaOutline.Proofs.Http.Naming
import FormulaOutline.Proofs.Text.Percent
