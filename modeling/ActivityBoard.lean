import ActivityBoard.Binary64.Arithmetic
import ActivityBoard.Binary64.Basic
import ActivityBoard.Binary64.FixedPlaces
import ActivityBoard.Binary64.Reading
import ActivityBoard.Binary64.Shortest
import ActivityBoard.Board.Basic
import ActivityBoard.Board.Capacity
import ActivityBoard.Board.Machine
import ActivityBoard.Calendar
import ActivityBoard.CommandLine.Arguments
import ActivityBoard.CommandLine.Run
import ActivityBoard.Config
import ActivityBoard.Dashboard
import ActivityBoard.Display.Annotate
import ActivityBoard.Display.Field
import ActivityBoard.Display.Units
import ActivityBoard.Figure
import ActivityBoard.Gate
import ActivityBoard.Json.Basic
import ActivityBoard.Json.Printer
import ActivityBoard.Json.Reader
import ActivityBoard.Json.Scalar
import ActivityBoard.Json.Shape
import ActivityBoard.Main
import ActivityBoard.Metric
import ActivityBoard.Process.Join
import ActivityBoard.Process.Record
import ActivityBoard.Process.Summary
import ActivityBoard.Rows
import ActivityBoard.Sample.Basic
import ActivityBoard.Sample.Fields
import ActivityBoard.Sample.Machine
import ActivityBoard.Sample.Process
import ActivityBoard.Settings
import ActivityBoard.Text
import ActivityBoard.Toml.Basic
import ActivityBoard.Toml.Document
import ActivityBoard.Toml.Moment
import ActivityBoard.Toml.Number
import ActivityBoard.Toml.Text
import ActivityBoard.Toml.Value
import ActivityBoard.Watch
import ActivityBoard.Proofs.Json.Fields
import ActivityBoard.Proofs.Json.Canonical
import ActivityBoard.Proofs.Json.WellFormed
import ActivityBoard.Proofs.Json.Overlay
import ActivityBoard.Proofs.Json.Split
import ActivityBoard.Proofs.Text.Digits
import ActivityBoard.Proofs.Binary64.Rounding
import ActivityBoard.Proofs.Binary64.Shortest
import ActivityBoard.Proofs.Binary64.Integers
import ActivityBoard.Proofs.Json.Numeral
import ActivityBoard.Proofs.Json.Quoted
import ActivityBoard.Proofs.Json.Roundtrip
import ActivityBoard.Proofs.Json.Literal
import ActivityBoard.Proofs.Json.Scalar
import ActivityBoard.Proofs.Metric
import ActivityBoard.Proofs.Gate.View
import ActivityBoard.Proofs.Gate.Links
import ActivityBoard.Proofs.Gate.Slot
import ActivityBoard.Proofs.Gate.History
import ActivityBoard.Proofs.Gate.Conservation
import ActivityBoard.Proofs.Gate.Frame
import ActivityBoard.Proofs.Gate.Order
import ActivityBoard.Proofs.Dashboard.View
import ActivityBoard.Proofs.Dashboard.Consistency
import ActivityBoard.Proofs.Dashboard.History
import ActivityBoard.Proofs.Dashboard.Grants
import ActivityBoard.Proofs.Dashboard.Order
import ActivityBoard.Proofs.Dashboard.Serial
import ActivityBoard.Proofs.Dashboard.Latest
import ActivityBoard.Proofs.Ranking
import ActivityBoard.Proofs.Process.Table
import ActivityBoard.Proofs.Process.Lookup
import ActivityBoard.Proofs.Process.Join
import ActivityBoard.Proofs.Process.LastRows
import ActivityBoard.Proofs.Process.Completion
import ActivityBoard.Proofs.Process.Summary
import ActivityBoard.Proofs.Process.Threads
import ActivityBoard.Proofs.Sample.Reading
import ActivityBoard.Proofs.Sample.Shape
import ActivityBoard.Proofs.Sample.Replacement
import ActivityBoard.Proofs.Sample.Sections
import ActivityBoard.Proofs.Sample.Roundtrip
import ActivityBoard.Proofs.Board.Sample
import ActivityBoard.Proofs.Board.Ranking
import ActivityBoard.Proofs.Board.Limits
import ActivityBoard.Proofs.Board.Failure
import ActivityBoard.Proofs.Board.Records
import ActivityBoard.Proofs.Board.Reading
import ActivityBoard.Proofs.Board.Document
import ActivityBoard.Proofs.Board.Objects
import ActivityBoard.Proofs.Board.Passing
import ActivityBoard.Proofs.Board.Precedence
import ActivityBoard.Proofs.Display.Units
import ActivityBoard.Proofs.Display.Nodes
import ActivityBoard.Proofs.Display.Positions
import ActivityBoard.Proofs.Display.Annotation
import ActivityBoard.Proofs.Board.WellFormed
import ActivityBoard.Proofs.Board.Rereading
import ActivityBoard.Proofs.Display.Errors
import ActivityBoard.Proofs.Board.Malformed
import ActivityBoard.Proofs.Binary64.FixedPlaces
import ActivityBoard.Proofs.Binary64.Magnitude
import ActivityBoard.Proofs.Board.Bounds
import ActivityBoard.Proofs.Board.Defined
import ActivityBoard.Proofs.Binary64.Sign
import ActivityBoard.Proofs.Binary64.Closest
import ActivityBoard.Proofs.Figure
import ActivityBoard.Proofs.Binary64.Nudge
import ActivityBoard.Proofs.Display.Numbers
import ActivityBoard.Proofs.Board.Shares
import ActivityBoard.Proofs.Binary64.Ties
import ActivityBoard.Proofs.Binary64.Nearest
import ActivityBoard.Proofs.Board.Percent
import ActivityBoard.Proofs.Board.CacheRanking
import ActivityBoard.Proofs.Board.DiskShares
import ActivityBoard.Proofs.Dashboard.Alike
import ActivityBoard.Proofs.Dashboard.Anchor
import ActivityBoard.Proofs.Config.Limits
import ActivityBoard.Proofs.Binary64.Monotone
import ActivityBoard.Proofs.Binary64.Shown
import ActivityBoard.Proofs.Display.Quantity
import ActivityBoard.Proofs.Display.Elapsed
import ActivityBoard.Proofs.Binary64.Exact
import ActivityBoard.Proofs.Display.WholePercent
import ActivityBoard.Proofs.Figure.Capped
import ActivityBoard.Proofs.Board.Pressure
import ActivityBoard.Proofs.Board.Idle
import ActivityBoard.Proofs.Display.Signs
import ActivityBoard.Proofs.Dashboard.Undisturbed
import ActivityBoard.Proofs.Watch
