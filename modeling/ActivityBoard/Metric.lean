import ActivityBoard.Json.Shape
import ActivityBoard.Text

/-!
Metrics, which arrive as numbers or as texts of numbers. A text that is no number is kept as it is,
so that only the use of that one field is affected; a counter reads such a text as zero.

A counter is held within its 32 or 64 bits when it is read. What is computed of counters afterwards
(ticks, pages and sectors added up or scaled, times rounded to a unit) is computed without bounds: a
sum or product that 64 bits do not hold is outside of what is described here.
-/
namespace ActivityBoard

inductive Metric where
  | number (value : Binary64)
  | malformed (text : String)
deriving DecidableEq, Inhabited

namespace Metric

def value? : Metric → Option Binary64
  | .number x => some x
  | .malformed _ => none

/-- A text of blanks counts as zero; blanks around a number are ignored. -/
def ofText (text : String) : Metric :=
  match Text.trim text.toList with
  | [] => .number 0
  | cs => match Binary64.ofText? cs with
    | some x => .number x
    | none => .malformed text

/-- The place in a ranking: what is not a number stands below every number. -/
def sortKey : Metric → Binary64
  | .number .nan => .infinity true
  | .number x => x
  | .malformed _ => .infinity true

def shown : Metric → String
  | .number x => x.shown
  | .malformed text => text

def toJson : Metric → Json
  | .number x => Json.ofMetric x
  | .malformed text => .str text

/-- Every scalar is a metric: a missing value is zero, and the truth values are one and zero. -/
def ofJson? : Json → Option Metric
  | .null => some (.number 0)
  | .bool b => some (.number (if b then 1 else 0))
  | .int n => some (.number (Binary64.ofInt n))
  | .float x => some (.number x)
  | .str s => some (ofText s)
  | .arr _ => none
  | .obj _ => none

def reader : Json.Reader Metric := Json.scalarValue.decode ofJson?

end Metric

namespace Json

def reading? (v : Json) : Option Binary64 := (Metric.ofJson? v).bind Metric.value?

/-- A counter held within `low` and `high`; zero where there is no number. -/
def counter (low high : Int) (v : Json) : Int :=
  match reading? v with
  | some x => x.toIntWithin low high
  | none => 0

def count32 (v : Json) : Nat := (counter 0 4294967295 v).toNat

def count64 (v : Json) : Nat := (counter 0 18446744073709551615 v).toNat

def int32 (v : Json) : Int := counter (-2147483648) 2147483647 v

def int64 (v : Json) : Int := counter (-9223372036854775808) 9223372036854775807 v

def real (v : Json) : Binary64 := (reading? v).getD 0

end Json

end ActivityBoard
