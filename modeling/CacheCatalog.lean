import CacheCatalog.Text.Characters
import CacheCatalog.Text.Numeral
import CacheCatalog.Text.Encoding
import CacheCatalog.Keyed
import CacheCatalog.Diagnostic
import CacheCatalog.FieldType.Descriptor
import CacheCatalog.Attribute
import CacheCatalog.Pattern
import CacheCatalog.Cell
import CacheCatalog.Cursor
import CacheCatalog.Layout
import CacheCatalog.Store
import CacheCatalog.Search
import CacheCatalog.Query
import CacheCatalog.Statement
import CacheCatalog.Proofs.Calls
import CacheCatalog.Proofs.Delivery
import CacheCatalog.Proofs.Lifecycle
import CacheCatalog.Proofs.Pieces
import CacheCatalog.Proofs.Reading
import CacheCatalog.Proofs.Reassembly
import CacheCatalog.Proofs.Conformance
import CacheCatalog.Proofs.Numbering
import CacheCatalog.Proofs.Buffers
import CacheCatalog.Proofs.Answers
import CacheCatalog.Proofs.Patterns
import CacheCatalog.Proofs.Agreement
import CacheCatalog.Proofs.Requests
import CacheCatalog.Proofs.Failures
import CacheCatalog.Proofs.Reports
import CacheCatalog.Proofs.ResultColumns
import CacheCatalog.Proofs.Boundaries
import CacheCatalog.Proofs.Histories
import CacheCatalog.Proofs.Quotation
import CacheCatalog.Proofs.RoundTrip
import CacheCatalog.Proofs.Denotation
import CacheCatalog.Proofs.Grammar
import CacheCatalog.Proofs.Defaults
import CacheCatalog.Proofs.Refusals
import CacheCatalog.Proofs.Literals
import CacheCatalog.Proofs.Overrides
import CacheCatalog.Proofs.ColumnHits
import CacheCatalog.Proofs.TableListings
import CacheCatalog.Proofs.LiveTables
import CacheCatalog.Proofs.Projections
import CacheCatalog.Proofs.Refreshment
import CacheCatalog.Proofs.Conversions
import CacheCatalog.Proofs.Decoding
import CacheCatalog.Proofs.BoundCells
import CacheCatalog.Proofs.LongestFits
import CacheCatalog.Proofs.IntegerReadings
import CacheCatalog.Proofs.Sizes
import CacheCatalog.Proofs.Wildcards
