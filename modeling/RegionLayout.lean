import RegionLayout.Attribute
import RegionLayout.Container
import RegionLayout.Digest.Blake3
import RegionLayout.Error
import RegionLayout.Geometry
import RegionLayout.Json
import RegionLayout.Json.Reader
import RegionLayout.Log
import RegionLayout.Log.Event
import RegionLayout.Log.File
import RegionLayout.Metrics
import RegionLayout.Model
import RegionLayout.Model.Demand
import RegionLayout.Model.Region
import RegionLayout.NameTable
import RegionLayout.Number.Binary64
import RegionLayout.Number.Decimal
import RegionLayout.Number.Scalar
import RegionLayout.Relation
import RegionLayout.Settings
import RegionLayout.Setups
import RegionLayout.Setups.Observer
import RegionLayout.Setups.Queue
import RegionLayout.Sizing.ByRatio
import RegionLayout.Sizing.Content
import RegionLayout.Sizing.MeasureSpec
import RegionLayout.Sizing.Pass
import RegionLayout.Solver
import RegionLayout.Solver.Constraint
import RegionLayout.Solver.Fault
import RegionLayout.Solver.Ratio
import RegionLayout.Solver.Row
import RegionLayout.Solver.Weight
import RegionLayout.SortedMap
import RegionLayout.Source
import RegionLayout.Statement
import RegionLayout.Statement.Parser
import RegionLayout.Telemetry
import RegionLayout.Text.Blank
import RegionLayout.Text.EmojiTable
import RegionLayout.Text.Escape
import RegionLayout.Text.Width
import RegionLayout.Text.WidthTable
import RegionLayout.Text.Wrap
import RegionLayout.Proofs.Tableau.Rows
import RegionLayout.Proofs.Tableau.Solutions
import RegionLayout.Proofs.Tableau.Ratios
import RegionLayout.Proofs.Tableau.Primal
import RegionLayout.Proofs.Tableau.Termination
import RegionLayout.Proofs.Tableau.Dual
import RegionLayout.Proofs.Tableau.Circling
import RegionLayout.Proofs.Solver.Books
import RegionLayout.Proofs.Solver.Drafting
import RegionLayout.Proofs.Solver.Entering
import RegionLayout.Proofs.Solver.Adding
import RegionLayout.Proofs.Solver.Removing
import RegionLayout.Proofs.Solver.Register
import RegionLayout.Proofs.Solver.Editing
import RegionLayout.Proofs.Solver.Runs
import RegionLayout.Proofs.Solver.Refusing
import RegionLayout.Proofs.Solver.Suggesting
import RegionLayout.Proofs.Model.Changes
import RegionLayout.Proofs.Model.Demands
import RegionLayout.Proofs.Model.Charts
import RegionLayout.Proofs.Model.Making
import RegionLayout.Proofs.Model.Courses
import RegionLayout.Proofs.Model.Filing
import RegionLayout.Proofs.Model.Grounds
import RegionLayout.Proofs.Model.Bindings
import RegionLayout.Proofs.Model.Holdings
import RegionLayout.Proofs.Model.Mentions
import RegionLayout.Proofs.Model.Setbacks
import RegionLayout.Proofs.Model.Layouts
import RegionLayout.Proofs.Model.Calls
import RegionLayout.Proofs.Model.Regions
import RegionLayout.Proofs.Model.Batches
import RegionLayout.Proofs.Model.Reachable
import RegionLayout.Proofs.Model.Ledger
import RegionLayout.Proofs.Model.Ties
import RegionLayout.Proofs.Model.Granted
import RegionLayout.Proofs.Model.Measuring
import RegionLayout.Proofs.Number.Rounding
import RegionLayout.Proofs.Number.Doubles
import RegionLayout.Proofs.Number.Reading
import RegionLayout.Proofs.Number.Writing
import RegionLayout.Proofs.Statement.Reading
import RegionLayout.Proofs.Statement.Tokens
import RegionLayout.Proofs.Statement.Grammar
import RegionLayout.Proofs.Statement.Linear
import RegionLayout.Proofs.Statement.Lowering
import RegionLayout.Proofs.Statement.Canonical
import RegionLayout.Proofs.Setups.Steps
import RegionLayout.Proofs.Setups.Publishing
import RegionLayout.Proofs.Sizing.Passes
import RegionLayout.Proofs.Sizing.Yielding
import RegionLayout.Proofs.Setups.Calling
import RegionLayout.Proofs.Setups.Counting
import RegionLayout.Proofs.Model.Building
import RegionLayout.Proofs.Model.Orders
import RegionLayout.Proofs.Solver.Breakdowns
import RegionLayout.Proofs.Solver.Optimising
import RegionLayout.Proofs.Model.Turns
import RegionLayout.Proofs.Model.Standing
import RegionLayout.Proofs.Sizing.Repeating
import RegionLayout.Proofs.Setups.Interleaving
import RegionLayout.Proofs.Text.Words
import RegionLayout.Proofs.Text.Filling
import RegionLayout.Proofs.Text.Spacing
import RegionLayout.Proofs.Text.Cells
import RegionLayout.Proofs.Text.Widths
import RegionLayout.Proofs.Text.Limits
import RegionLayout.Proofs.Sizing.Unread
import RegionLayout.Proofs.Statement.Stopping
import RegionLayout.Proofs.Model.Journals
import RegionLayout.Proofs.Number.Pixels
import RegionLayout.Proofs.Sizing.Placing
import RegionLayout.Proofs.Names.Pairs
import RegionLayout.Proofs.Log.Lines
import RegionLayout.Proofs.Log.Rotating
import RegionLayout.Proofs.Setups.Draining
import RegionLayout.Proofs.Solver.Representing
import RegionLayout.Proofs.Solver.Turning
import RegionLayout.Proofs.Solver.Symbols
import RegionLayout.Proofs.Solver.SolvedForm
