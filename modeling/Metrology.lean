import Metrology.Config.Basic
import Metrology.Config.Startup
import Metrology.Constants.Basic
import Metrology.Decimal.Basic
import Metrology.Decimal.Integer
import Metrology.Decimal.Numeral
import Metrology.Decimal.Shortest
import Metrology.Decimal.Style
import Metrology.Dimension.Basic
import Metrology.Dimension.Expression
import Metrology.Expression.Evaluation
import Metrology.Expression.Token
import Metrology.Main
import Metrology.Program.LogFilter
import Metrology.Program.Transcript
import Metrology.Quantity.Basic
import Metrology.Quantity.Construction
import Metrology.Quantity.Kind
import Metrology.Quantity.Literal
import Metrology.Quantity.Reading
import Metrology.Scalar
import Metrology.Session.Basic
import Metrology.Session.Command
import Metrology.Session.Help
import Metrology.Settings.Document
import Metrology.Settings.Lexeme
import Metrology.Settings.Number
import Metrology.Settings.Value
import Metrology.Store.Basic
import Metrology.Store.Name
import Metrology.Table.Cell
import Metrology.Table.Constants
import Metrology.Table.Fault
import Metrology.Table.Record
import Metrology.Table.Units
import Metrology.Text.Alphanumeric
import Metrology.Text.Blank
import Metrology.Text.Column
import Metrology.Text.Escape
import Metrology.UnitOfMeasure
import Metrology.UnitSystem.Basic
import Metrology.UnitSystem.Builtin
import Metrology.UnitSystem.Literal
import Metrology.UnitSystem.Segmentation
import Metrology.Proofs.BaseText.Literal
import Metrology.Proofs.BaseText.Product
import Metrology.Proofs.BaseText.Reread
import Metrology.Proofs.BaseText.Run
import Metrology.Proofs.BaseText.Scale
import Metrology.Proofs.BaseText.Segmentation
import Metrology.Proofs.BaseText.Symbol
import Metrology.Proofs.Binary64.Arithmetic
import Metrology.Proofs.Binary64.Encoding
import Metrology.Proofs.Binary64.Nearest
import Metrology.Proofs.Binary64.Positive
import Metrology.Proofs.Binary64.Power
import Metrology.Proofs.Binary64.Quotient
import Metrology.Proofs.Binary64.Rounding
import Metrology.Proofs.Binary64.Sign
import Metrology.Proofs.Binary64.Whole
import Metrology.Proofs.Constants.Insertion
import Metrology.Proofs.Constants.Lookup
import Metrology.Proofs.Decimal.Layout
import Metrology.Proofs.Decimal.Rounding
import Metrology.Proofs.Decimal.Shortest
import Metrology.Proofs.Dimension.Algebra
import Metrology.Proofs.Dimension.Exact
import Metrology.Proofs.Expression.Caching
import Metrology.Proofs.Expression.Cycle
import Metrology.Proofs.Expression.Dependence
import Metrology.Proofs.Expression.Dimension
import Metrology.Proofs.Expression.Expansion
import Metrology.Proofs.Expression.Inlining
import Metrology.Proofs.Expression.Invariant
import Metrology.Proofs.Expression.Postfix
import Metrology.Proofs.Expression.Reduction
import Metrology.Proofs.Expression.Resolution
import Metrology.Proofs.Program.InputLines
import Metrology.Proofs.Program.Transcript
import Metrology.Proofs.Quantity.Base
import Metrology.Proofs.Quantity.Dimension
import Metrology.Proofs.Quantity.Grammar
import Metrology.Proofs.Quantity.Invariant
import Metrology.Proofs.Quantity.Literal
import Metrology.Proofs.Quantity.Pattern
import Metrology.Proofs.Quantity.Reader
import Metrology.Proofs.Quantity.Reading
import Metrology.Proofs.Quantity.Uncertainty
import Metrology.Proofs.Segmentation.Candidate
import Metrology.Proofs.Segmentation.Cut
import Metrology.Proofs.Segmentation.Exponent
import Metrology.Proofs.Segmentation.Filling
import Metrology.Proofs.Segmentation.Hop
import Metrology.Proofs.Segmentation.Optimality
import Metrology.Proofs.Segmentation.Search
import Metrology.Proofs.Session.Command
import Metrology.Proofs.Session.History
import Metrology.Proofs.Session.Invariant
import Metrology.Proofs.Session.Locks
import Metrology.Proofs.Session.Names
import Metrology.Proofs.Session.Shown
import Metrology.Proofs.Session.Step
import Metrology.Proofs.Store.Calls
import Metrology.Proofs.Store.Entry
import Metrology.Proofs.Store.Name
import Metrology.Proofs.Table.Constants
import Metrology.Proofs.Table.Loading
import Metrology.Proofs.Table.Rows
import Metrology.Proofs.Text.Blank
import Metrology.Proofs.Text.Offset
import Metrology.Proofs.Text.Pattern
import Metrology.Proofs.Text.Words
import Metrology.Proofs.UnitSystem.Abbreviation
import Metrology.Proofs.UnitSystem.Duplicates
import Metrology.Proofs.UnitSystem.Grammar
import Metrology.Proofs.UnitSystem.Literal
import Metrology.Proofs.UnitSystem.Positive
import Metrology.Proofs.UnitSystem.Product
import Metrology.Proofs.UnitSystem.Scale
