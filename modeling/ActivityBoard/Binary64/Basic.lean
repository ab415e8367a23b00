/-!
Binary64 numbers held as what they denote: a sign and a significand times a power of two. Every
finite number has one representation, so equality of terms is equality of stored numbers, and
`round` is the only place where a rational loses digits.
-/
namespace ActivityBoard

/-- The leading bit of a full significand, `2^52`. -/
abbrev Binary64.leadingBit : Nat := 4503599627370496

/-- The significand fills 53 bits unless the exponent is already the least one. -/
def Binary64.Canonical (significand : Nat) (exponent : Int) : Prop :=
  significand < 2 * leadingBit ∧ -1074 ≤ exponent ∧ exponent ≤ 971 ∧
    (leadingBit ≤ significand ∨ exponent = -1074)

instance (m : Nat) (e : Int) : Decidable (Binary64.Canonical m e) :=
  inferInstanceAs (Decidable (_ ∧ _ ∧ _ ∧ (_ ∨ _)))

/-- A binary64 number; `finite` denotes `±significand · 2^exponent`, and zero keeps its sign. -/
inductive Binary64 where
  | nan
  | infinity (negative : Bool)
  | finite (negative : Bool) (significand : Nat) (exponent : Int)
      (canonical : Binary64.Canonical significand exponent)
deriving DecidableEq

namespace Binary64

def value : Binary64 → Rat
  | .nan => 0
  | .infinity _ => 0
  | .finite true m e _ => -(m * (2 : Rat) ^ e)
  | .finite false m e _ => m * (2 : Rat) ^ e

def negative : Binary64 → Bool
  | .nan => false
  | .infinity s => s
  | .finite s _ _ _ => s

def isFinite : Binary64 → Bool
  | .finite .. => true
  | _ => false

def isZero : Binary64 → Bool
  | .finite _ m _ _ => m == 0
  | _ => false

/-- The integer nearest to a non-negative rational; a half goes to the even neighbour. -/
def nearestEven (q : Rat) : Nat :=
  let below := q.floor.toNat
  let rest := q - below
  if rest < 1 / 2 then below
  else if 1 / 2 < rest then below + 1
  else below + below % 2

/-- The exponent of the greatest power of two that a positive rational reaches. -/
def log2 (q : Rat) : Int :=
  let guess := (q.num.toNat.log2 : Int) - q.den.log2
  if q < (2 : Rat) ^ guess then guess - 1 else guess

def lastPlace (q : Rat) : Int := max (-1074) (log2 q - 52)

def assemble (negative : Bool) (significand : Nat) (exponent : Int) : Binary64 :=
  if h : Canonical significand exponent then .finite negative significand exponent h
  else .infinity negative

def roundMagnitude (negative : Bool) (q : Rat) : Binary64 :=
  let e := lastPlace q
  let m := nearestEven (q * (2 : Rat) ^ (-e))
  if m = 2 * leadingBit then assemble negative leadingBit (e + 1) else assemble negative m e

def zero (negative : Bool) : Binary64 := assemble negative 0 (-1074)

/-- The number nearest to `q`; `negativeZero` is the sign of the result when `q` is zero. -/
def round (q : Rat) (negativeZero : Bool) : Binary64 :=
  if q = 0 then zero negativeZero
  else if q < 0 then roundMagnitude true (-q)
  else roundMagnitude false q

def ofInt (n : Int) : Binary64 := round n false

def ofNat (n : Nat) : Binary64 := ofInt n

/-- `coefficient · 10^exponent`, rounded once to the nearest number; that documents are read with
this rounding is an assumption on their reader. The two guards only spare the power of ten: past
them the result is an infinity or zero whatever the coefficient. -/
def ofDecimal (coefficient : Nat) (exponent : Int) : Binary64 :=
  if coefficient = 0 then zero false
  else if 310 < exponent then .infinity false
  else if exponent < -(325 + coefficient.log2 : Int) then zero false
  else round (coefficient * (10 : Rat) ^ exponent) false

instance (n : Nat) : OfNat Binary64 n := ⟨ofNat n⟩

instance : OfScientific Binary64 where
  ofScientific m down e := ofDecimal m (if down then -e else e)

instance : Inhabited Binary64 := ⟨0⟩

end Binary64

end ActivityBoard
