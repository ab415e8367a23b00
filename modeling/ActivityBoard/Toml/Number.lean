import ActivityBoard.Toml.Basic
import ActivityBoard.Binary64.Reading
import ActivityBoard.Text

/-!
TOML numbers. An underscore may stand between two digits, and a decimal numeral does not begin with
a zero unless that is its only digit before the point. Some spellings pass for integers and yet have
no value, which is a fault only where their value is asked for.
-/
namespace ActivityBoard.Toml

def ungroup? : List Char → Option (List Char)
  | [] => none
  | [c] => if c = '_' then none else some [c]
  | '_' :: _ => none
  | c :: '_' :: cs => (ungroup? cs).map (c :: ·)
  | c :: cs => (ungroup? cs).map (c :: ·)

/-- A number in a radix other than ten. Without digits it only passes for a number. -/
def inRadix? (radix : Nat) (cs : List Char) : Option Toml :=
  if cs.isEmpty then some .unreadable
  else do
    let digits ← ungroup? cs
    let n ← Text.ofDigits? radix digits
    pure (.integer n)

def decimal? (cs : List Char) : Option (List Char) := do
  let digits ← ungroup? cs
  if digits.all Char.isDigit then pure digits else none

def whole? (cs : List Char) : Option (List Char) := do
  let digits ← decimal? cs
  if digits.head? = some '0' ∧ digits.length ≠ 1 then none else pure digits

def isGrouped (c : Char) : Bool := c.isDigit || c = '_'

def isExponent : List Char → Bool
  | '-' :: cs => (decimal? cs).isSome
  | '+' :: cs => (decimal? cs).isSome
  | cs => (decimal? cs).isSome

def isFloatTail : List Char → Bool
  | '.' :: cs =>
    (decimal? (cs.takeWhile isGrouped)).isSome &&
      match cs.dropWhile isGrouped with
      | [] => true
      | 'e' :: rest => isExponent rest
      | 'E' :: rest => isExponent rest
      | _ => false
  | 'e' :: cs => isExponent cs
  | 'E' :: cs => isExponent cs
  | _ => false

def float? (cs : List Char) : Option Toml := do
  let x ← Binary64.ofText? (cs.filter (· ≠ '_'))
  pure (if x.isFinite then .float x else .unreadable)

def isGrouping : List Char → Bool
  | [] => true
  | [c] => c ≠ '_'
  | '_' :: _ => false
  | c :: '_' :: d :: cs =>
    (Text.hexDigit? c).isSome && (Text.hexDigit? d).isSome && isGrouping (d :: cs)
  | _ :: cs => isGrouping cs

/-- Whether a spelling passes for a decimal integer: digits, the first of them no zero, then an
underscore, and behind it anything that the underscores allow, without the marks of a float and
without a space; a tab may stand there. -/
def passesForInteger (cs : List Char) : Bool :=
  let tail := cs.dropWhile Char.isDigit
  cs.head?.any (fun c => c.isDigit && c ≠ '0') && tail.head? == some '_' &&
    !(tail.any fun c => c = '.' || c = 'e' || c = 'E' || c = ' ') && isGrouping cs

def valued? (negative : Bool) (cs : List Char) : Option Toml :=
  match cs with
  | ['i', 'n', 'f'] => some (.float (.infinity negative))
  | ['n', 'a', 'n'] => some (.float .nan)
  | _ => do
    let digits ← whole? (cs.takeWhile isGrouped)
    let tail := cs.dropWhile isGrouped
    if tail.isEmpty then
      let n : Int := Nat.ofDigitChars 10 digits 0
      pure (.integer (if negative then -n else n))
    else if isFloatTail tail then float? (if negative then '-' :: cs else cs)
    else none

def unsigned? (negative : Bool) (cs : List Char) : Option Toml :=
  match valued? negative cs with
  | some v => some v
  | none => if passesForInteger cs then some .unreadable else none

def number? : List Char → Option Toml
  | '0' :: 'x' :: cs => inRadix? 16 cs
  | '0' :: 'o' :: cs => inRadix? 8 cs
  | '0' :: 'b' :: cs => inRadix? 2 cs
  | '-' :: cs => unsigned? true cs
  | '+' :: cs => unsigned? false cs
  | cs => unsigned? false cs

end ActivityBoard.Toml
