import ActivityBoard.Binary64.Reading
import ActivityBoard.Json.Basic

namespace ActivityBoard

structure Figure where
  value : Binary64
  places : Nat
deriving DecidableEq

namespace Figure

def text (f : Figure) : String := f.value.toFixed f.places

/-- The value as it reads once rounded; the words for infinities read as such. -/
def reading (f : Figure) : Binary64 := (Binary64.ofText? f.text.toList).getD f.value

/-- A percentage; one that reads above 100 becomes 100 without places. -/
def cappedPercent (value : Binary64) (places : Nat) : Figure :=
  let f : Figure := ⟨value, places⟩
  if 100 < f.reading then ⟨100, 0⟩ else f

def toJson (f : Figure) : Json := .str f.text

end Figure

end ActivityBoard
