import ActivityBoard.Binary64.Arithmetic

/-!
Numbers with a fixed count of digits after the point. The text is the multiple of `10^-places`
nearest to the exact value, and an exact tie is moved away from zero where the arithmetic sees it.
-/
namespace ActivityBoard

namespace Decimal

def padded (width n : Nat) : List Char :=
  let digits := Nat.toDigits 10 n
  List.replicate (width - digits.length) '0' ++ digits

def scale (places : Nat) : Nat := Nat.pow 10 places

def placed (places n : Nat) : List Char :=
  if places = 0 then Nat.toDigits 10 n
  else Nat.toDigits 10 (n / scale places) ++ '.' :: padded places (n % scale places)

def signed (negative : Bool) (magnitude : List Char) : List Char :=
  if negative then '-' :: magnitude else magnitude

end Decimal

namespace Binary64

def inPlaces (x : Binary64) (places : Nat) : Rat := x.abs.value * Decimal.scale places

/-- The exact value to the nearest unit of the last place, ties to even, under the stored sign. -/
def nearestPlaces (x : Binary64) (places : Nat) : String :=
  let units := nearestEven (x.inPlaces places)
  String.ofList (Decimal.signed x.negative (Decimal.placed places units))

def isTie (x : Binary64) (places : Nat) : Bool :=
  let units := x.inPlaces places
  units - units.floor = 1 / 2

/-- A tie is looked for only where the product with `10^places`, rounded, ends within `2^-52` of a
half. -/
def nearHalf (x : Binary64) (places : Nat) : Bool :=
  let scaled := x * ofNat (Decimal.scale places)
  let rest := scaled.abs.value - scaled.abs.value.floor
  scaled.isFinite && decide ((rest - 1 / 2).abs < (2 : Rat) ^ (-52 : Int))

/-- A tenth of a unit of the last place, away from zero. -/
def nudge (x : Binary64) (places : Nat) : Binary64 :=
  (if x.negative then -1 else 1) * 0.1 / ofNat (Decimal.scale places)

def toFixed (x : Binary64) (places : Nat) : String :=
  match x with
  | .nan => "NaN"
  | .infinity false => "Infinity"
  | .infinity true => "-Infinity"
  | .finite .. =>
    let x := if x.isZero then 0 else x
    if x.nearHalf places && x.isTie places then (x + x.nudge places).nearestPlaces places
    else x.nearestPlaces places

end Binary64

end ActivityBoard
