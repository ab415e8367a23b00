import ActivityBoard.Binary64.Shortest

/-!
Reading a number from text: an optional sign, then a decimal numeral or one of the words `inf`,
`infinity` and `nan` in any case.
-/
namespace ActivityBoard

namespace Decimal

def signedInt? (cs : List Char) : Option Int :=
  let (negative, digits) := match cs with
    | '-' :: rest => (true, rest)
    | '+' :: rest => (false, rest)
    | _ => (false, cs)
  if digits.isEmpty || !digits.all Char.isDigit then none
  else
    let n : Int := Nat.ofDigitChars 10 digits 0
    some (if negative then -n else n)

def exponent? : List Char → Option Int
  | [] => some 0
  | c :: rest => if c = 'e' ∨ c = 'E' then signedInt? rest else none

/-- Digits with at most one point among, before or after them, then an optional exponent. -/
def ofText? (cs : List Char) : Option Decimal :=
  let whole := cs.takeWhile Char.isDigit
  let rest := cs.dropWhile Char.isDigit
  let (fraction, tail) := match rest with
    | '.' :: r => (r.takeWhile Char.isDigit, r.dropWhile Char.isDigit)
    | _ => ([], rest)
  if (whole ++ fraction).isEmpty then none
  else (exponent? tail).map fun e =>
    ⟨Nat.ofDigitChars 10 (whole ++ fraction) 0, e - fraction.length⟩

end Decimal

namespace Binary64

def ofDecimalText? (cs : List Char) : Option Binary64 :=
  (Decimal.ofText? cs).map fun d => ofDecimal d.coefficient d.exponent

def magnitude? (cs : List Char) : Option Binary64 :=
  let word := cs.map Char.toLower
  if word = ['i', 'n', 'f'] ∨ word = ['i', 'n', 'f', 'i', 'n', 'i', 't', 'y'] then
    some (.infinity false)
  else if word = ['n', 'a', 'n'] then some .nan
  else ofDecimalText? cs

def ofText? : List Char → Option Binary64
  | '-' :: cs => (magnitude? cs).map neg
  | '+' :: cs => magnitude? cs
  | cs => magnitude? cs

end Binary64

end ActivityBoard
