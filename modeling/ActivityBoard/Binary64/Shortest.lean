import ActivityBoard.Binary64.FixedPlaces

/-!
The fewest decimal digits that read back as the same number, and the layouts in which they are
written: `Layout.shown` for text that people read, `Layout.json` for documents. The two also differ
in the digits of a number half way between the nearest decimals.
-/
namespace ActivityBoard

structure Decimal where
  coefficient : Nat
  exponent : Int
deriving DecidableEq

namespace Decimal

/-- How many digits a positive `q` has before the point; below 1, minus the zeros after it.
No positive number of binary64 is under `10^-324`. -/
def pointPlace (q : Rat) : Int :=
  ((Nat.toDigits 10 (q * (10 : Rat) ^ (324 : Int)).floor.toNat).length : Int) - 324

inductive Tie where
  | up
  | even
deriving DecidableEq

def Tie.staysBelow (tie : Tie) (below : Nat) (rest : Rat) : Bool :=
  decide (rest < 1 / 2) ||
    (tie == .even && decide (rest = 1 / 2) && decide (below % 2 = 0))

/-- The two neighbours of `q` among the decimals of `count` digits, the nearer one first. -/
def neighbours (tie : Tie) (q : Rat) (count : Nat) : List Decimal :=
  let exponent := pointPlace q - count
  let scaled := q * (10 : Rat) ^ (-exponent)
  let below := scaled.floor.toNat
  if tie.staysBelow below (scaled - below) then [⟨below, exponent⟩, ⟨below + 1, exponent⟩]
  else [⟨below + 1, exponent⟩, ⟨below, exponent⟩]

def ofBinary (significand : Nat) (exponent : Int) : Decimal :=
  if 0 ≤ exponent then ⟨significand * Nat.pow 2 exponent.toNat, 0⟩
  else ⟨significand * Nat.pow 5 (-exponent).toNat, exponent⟩

end Decimal

namespace Binary64

def readsBack (x : Binary64) (d : Decimal) : Bool :=
  ofDecimal d.coefficient d.exponent = x.abs

/-- The decimal of fewest digits that reads back as the magnitude of `x`, the nearest of those. -/
def shortest (tie : Decimal.Tie) (x : Binary64) : Decimal :=
  match x with
  | .finite _ 0 _ _ => ⟨0, 0⟩
  | .finite _ m e _ =>
    let counts := (List.range 17).map (· + 1)
    let fewest := counts.findSome? fun count =>
      (Decimal.neighbours tie x.abs.value count).find? (readsBack x)
    fewest.getD (Decimal.ofBinary m e)
  | _ => ⟨0, 0⟩

end Binary64

structure Layout where
  tie : Decimal.Tie
  /-- Whether a number whose first digit counts `10^e` is written without an exponent. -/
  positional : Int → Bool
  integerTail : List Char

namespace Layout

def shown : Layout := ⟨.up, fun _ => true, []⟩

/-- No exponent from `10^-5` up to `10^16`, and a fractional digit always. -/
def json : Layout := ⟨.even, fun e => decide (-5 ≤ e) && decide (e < 16), ['.', '0']⟩

def positionalText (layout : Layout) (digits : List Char) (point : Int) : List Char :=
  if point ≤ 0 then '0' :: '.' :: List.replicate (-point).toNat '0' ++ digits
  else if digits.length ≤ point.toNat then
    digits ++ List.replicate (point.toNat - digits.length) '0' ++ layout.integerTail
  else digits.take point.toNat ++ '.' :: digits.drop point.toNat

def exponentText (digits : List Char) (exponent : Int) : List Char :=
  let fraction := digits.drop 1
  let sign := if exponent < 0 then '-' else '+'
  digits.take 1 ++ (if fraction.isEmpty then [] else '.' :: fraction) ++
    'e' :: sign :: Nat.toDigits 10 exponent.natAbs

def write (layout : Layout) (d : Decimal) : List Char :=
  if d.coefficient = 0 then '0' :: layout.integerTail
  else
    let all := Nat.toDigits 10 d.coefficient
    let digits := (all.reverse.dropWhile (· = '0')).reverse
    let point := all.length + d.exponent
    if layout.positional (point - 1) then layout.positionalText digits point
    else exponentText digits (point - 1)

end Layout

namespace Binary64

def text (layout : Layout) (x : Binary64) : String :=
  String.ofList (Decimal.signed x.negative (layout.write (x.shortest layout.tie)))

def shown : Binary64 → String
  | .nan => "NaN"
  | .infinity false => "inf"
  | .infinity true => "-inf"
  | x@(.finite ..) => x.text Layout.shown

end Binary64

end ActivityBoard
