import EntitySearch.Criterion.Check
import EntitySearch.Criterion.Wire
import EntitySearch.Http.Route
import EntitySearch.Proofs.Composition
import EntitySearch.Schema.ColumnType
import EntitySearch.Proofs.Placeholders
import EntitySearch.Proofs.Planning
import EntitySearch.Proofs.OperandFlow
import EntitySearch.Proofs.Route
import EntitySearch.Proofs.OwnTest
import EntitySearch.Proofs.Meaning
import EntitySearch.Proofs.ForestLaws
import EntitySearch.Proofs.Address
import EntitySearch.Proofs.Scoping
import EntitySearch.Proofs.Exclusion
import EntitySearch.Proofs.Legality
import EntitySearch.Proofs.FirstFailure
import EntitySearch.Proofs.Independence
import EntitySearch.Proofs.Shuffle
import EntitySearch.Proofs.Reordering
import EntitySearch.Proofs.WireForm
import EntitySearch.Proofs.Execution
import EntitySearch.Proofs.Answers
import EntitySearch.Proofs.Statements
import EntitySearch.Proofs.StatementText
import EntitySearch.Proofs.Counting
import EntitySearch.Proofs.Path
import EntitySearch.Proofs.Problems
import EntitySearch.Proofs.LetterCase
import EntitySearch.Proofs.DocumentPath
import EntitySearch.Proofs.Patterns
import EntitySearch.Proofs.TypedOperands
import EntitySearch.Proofs.ElementTests
import EntitySearch.Proofs.ListOperands
import EntitySearch.Proofs.Opposites
import EntitySearch.Proofs.Splitting
import EntitySearch.Proofs.KeyGrammar
import EntitySearch.Proofs.Resolution
import EntitySearch.Proofs.LastHop
import EntitySearch.Proofs.OwnedCollection
import EntitySearch.Proofs.Paging
import EntitySearch.Proofs.StringArrays
import EntitySearch.Proofs.SortText
import EntitySearch.Proofs.RowOrder
import EntitySearch.Proofs.InstantOperands
import EntitySearch.Proofs.IntegerRange
import EntitySearch.Proofs.RootName
import EntitySearch.Proofs.JoinRecords
