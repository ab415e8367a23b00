import ActivityBoard.Binary64.Basic

/-!
Arithmetic on binary64 numbers: each operation is the exact rational operation, rounded once.
Order is that of the denoted values with the infinities at the ends; `nan` is not comparable.
-/
namespace ActivityBoard.Binary64

def neg : Binary64 → Binary64
  | .nan => .nan
  | .infinity s => .infinity !s
  | .finite s m e h => .finite (!s) m e h

def abs : Binary64 → Binary64
  | .nan => .nan
  | .infinity _ => .infinity false
  | .finite _ m e h => .finite false m e h

/-- A sum that is exactly zero is negative only when both terms are. -/
def add : Binary64 → Binary64 → Binary64
  | .nan, _ => .nan
  | _, .nan => .nan
  | .infinity s, .infinity t => if s = t then .infinity s else .nan
  | .infinity s, .finite .. => .infinity s
  | .finite .., .infinity t => .infinity t
  | x@(.finite ..), y@(.finite ..) => round (x.value + y.value) (x.negative && y.negative)

def sub (x y : Binary64) : Binary64 := add x (neg y)

def mul : Binary64 → Binary64 → Binary64
  | .nan, _ => .nan
  | _, .nan => .nan
  | .infinity s, .infinity t => .infinity (s ^^ t)
  | .infinity s, y@(.finite t ..) => if y.isZero then .nan else .infinity (s ^^ t)
  | x@(.finite s ..), .infinity t => if x.isZero then .nan else .infinity (s ^^ t)
  | x@(.finite ..), y@(.finite ..) => round (x.value * y.value) (x.negative ^^ y.negative)

def div : Binary64 → Binary64 → Binary64
  | .nan, _ => .nan
  | _, .nan => .nan
  | .infinity _, .infinity _ => .nan
  | .infinity s, .finite t .. => .infinity (s ^^ t)
  | .finite s .., .infinity t => zero (s ^^ t)
  | x@(.finite ..), y@(.finite ..) =>
    if y.isZero then
      if x.isZero then .nan else .infinity (x.negative ^^ y.negative)
    else round (x.value / y.value) (x.negative ^^ y.negative)

instance : Neg Binary64 := ⟨neg⟩

instance : Add Binary64 := ⟨add⟩

instance : Sub Binary64 := ⟨sub⟩

instance : Mul Binary64 := ⟨mul⟩

instance : Div Binary64 := ⟨div⟩

def lt : Binary64 → Binary64 → Bool
  | .nan, _ => false
  | _, .nan => false
  | .infinity s, .infinity t => s && !t
  | .infinity s, .finite .. => s
  | .finite .., .infinity t => !t
  | x@(.finite ..), y@(.finite ..) => decide (x.value < y.value)

def le : Binary64 → Binary64 → Bool
  | .nan, _ => false
  | _, .nan => false
  | .infinity s, .infinity t => s || !t
  | .infinity s, .finite .. => s
  | .finite .., .infinity t => !t
  | x@(.finite ..), y@(.finite ..) => decide (x.value ≤ y.value)

instance : LT Binary64 := ⟨fun x y => lt x y = true⟩

instance : LE Binary64 := ⟨fun x y => le x y = true⟩

instance (x y : Binary64) : Decidable (x < y) := inferInstanceAs (Decidable (lt x y = true))

instance (x y : Binary64) : Decidable (x ≤ y) := inferInstanceAs (Decidable (le x y = true))

/-- The order in which numbers other than `nan` are ranked: `≤`, and `-0` comes before `0`. -/
def rankLe (x y : Binary64) : Bool :=
  lt x y || (le x y && (x.negative || !y.negative))

def floor : Binary64 → Binary64
  | .nan => .nan
  | .infinity s => .infinity s
  | x@(.finite s ..) => round x.value.floor s

def integerPart (q : Rat) : Int := if q < 0 then -(-q).floor else q.floor

def isInteger (x : Binary64) : Bool := x.isFinite && x.value.den == 1

def toIntWithin (low high : Int) : Binary64 → Int
  | .nan => 0
  | .infinity true => low
  | .infinity false => high
  | x@(.finite ..) => max low (min high (integerPart x.value))

end ActivityBoard.Binary64
