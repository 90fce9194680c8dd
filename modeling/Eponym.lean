import Eponym.Main
import Eponym.Proofs.Candidates.Memoization
import Eponym.Proofs.Schema.Record
import Eponym.Proofs.Schema.SubjectFile
import Eponym.Proofs.TypeExpression.Ambiguity
import Eponym.Proofs.TypeModel.Reachability
import Eponym.Proofs.TypeModel.Supertypes
import Eponym.Proofs.TypeModel.Registration
import Eponym.Proofs.TypeModel.Cycle
import Eponym.Proofs.Lineage
import Eponym.Proofs.Candidates.InterfaceNames
import Eponym.Proofs.Candidates.Bookkeeping
import Eponym.Proofs.Candidates.Spelling
import Eponym.Proofs.Candidates.EmptyName
import Eponym.Proofs.Convention.TypedName
import Eponym.Proofs.Convention.CollectionName
import Eponym.Proofs.Convention.MapSegment
import Eponym.Proofs.Convention.ElementName
import Eponym.Proofs.Convention.BareName
import Eponym.Proofs.Convention.UnionLayout
import Eponym.Proofs.Lint.Batch
import Eponym.Proofs.Lint.Toggles
import Eponym.Proofs.Candidates.Denial
import Eponym.Proofs.Candidates.Union
import Eponym.Proofs.Lint.Family
import Eponym.Proofs.BaseName.Ending
import Eponym.Proofs.Identifier.Plural
import Eponym.Proofs.Identifier.Conformance
import Eponym.Proofs.Identifier.Boundary
import Eponym.Proofs.Identifier.Stability
import Eponym.Proofs.Denied
import Eponym.Proofs.Text.Offset
import Eponym.Proofs.TypeExpression.Agreement
import Eponym.Proofs.Identifier.Inflection
import Eponym.Proofs.Bytewise.Word
import Eponym.Proofs.Bytewise.Inflection
import Eponym.Proofs.BaseName.Usable
import Eponym.Proofs.Bytewise.BaseName
