import ActivityBoard.Json.Basic
import ActivityBoard.Binary64.Reading
import ActivityBoard.Text

/-!
JSON scalars: how they are written, and which value that is. A string with half a surrogate pair is
written like one, and so is a number beyond the range of binary64, but neither has a value.
-/
namespace ActivityBoard.Json

/-- A piece of a string: a character, or a code unit by its number. -/
inductive Piece where
  | char (c : Char)
  | unit (number : Nat)

structure Numeral where
  negative : Bool
  whole : List Char
  fraction : List Char
  exponent : Option Int

inductive Scalar where
  | null
  | bool (value : Bool)
  | number (numeral : Numeral)
  | str (pieces : List Piece)

def escaped? : Char → Option Char
  | '"' => some '"'
  | '\\' => some '\\'
  | '/' => some '/'
  | 'b' => some '\x08'
  | 'f' => some '\x0c'
  | 'n' => some '\n'
  | 'r' => some '\r'
  | 't' => some '\t'
  | _ => none

def codeUnit? (a b c d : Char) : Option Nat := Text.ofDigits? 16 [a, b, c, d]

def readPieces : List Char → Option (List Piece × List Char)
  | [] => none
  | '"' :: rest => some ([], rest)
  | '\\' :: 'u' :: a :: b :: c :: d :: rest => do
    let u ← codeUnit? a b c d
    let (pieces, rest) ← readPieces rest
    pure (.unit u :: pieces, rest)
  | '\\' :: c :: rest => do
    let e ← escaped? c
    let (pieces, rest) ← readPieces rest
    pure (.char e :: pieces, rest)
  | c :: rest =>
    if c.toNat < 0x20 ∨ c = '\\' then none
    else do
      let (pieces, rest) ← readPieces rest
      pure (.char c :: pieces, rest)

def isLeading (u : Nat) : Bool := 0xd800 ≤ u && u < 0xdc00

def isTrailing (u : Nat) : Bool := 0xdc00 ≤ u && u < 0xe000

def ofSurrogates (leading trailing : Nat) : Char :=
  Char.ofNat (0x10000 + (leading - 0xd800) * 0x400 + (trailing - 0xdc00))

/-- The characters of a string; a surrogate stands only in a pair. -/
def characters? : List Piece → Option (List Char)
  | [] => some []
  | .char c :: rest => (characters? rest).map (c :: ·)
  | .unit u :: rest =>
    if isTrailing u then none
    else if isLeading u then
      match rest with
      | .unit v :: rest =>
        if isTrailing v then (characters? rest).map (ofSurrogates u v :: ·) else none
      | _ => none
    else (characters? rest).map (Char.ofNat u :: ·)

def text? (pieces : List Piece) : Option String := (characters? pieces).map String.ofList

def readDigits (cs : List Char) : Option (List Char × List Char) :=
  let digits := cs.takeWhile Char.isDigit
  if digits.isEmpty then none else some (digits, cs.dropWhile Char.isDigit)

def readWhole (cs : List Char) : Option (List Char × List Char) :=
  match readDigits cs with
  | some (digits, rest) =>
    if digits.head? = some '0' ∧ digits.length ≠ 1 then none else some (digits, rest)
  | none => none

def readFraction : List Char → Option (List Char × List Char)
  | '.' :: rest => readDigits rest
  | rest => some ([], rest)

def readExponent (cs : List Char) : Option (Option Int × List Char) :=
  match cs with
  | [] => some (none, [])
  | c :: rest =>
    if c = 'e' ∨ c = 'E' then
      let (negative, rest) := match rest with
        | '-' :: r => (true, r)
        | '+' :: r => (false, r)
        | _ => (false, rest)
      match readDigits rest with
      | none => none
      | some (digits, rest) =>
        let n : Int := Nat.ofDigitChars 10 digits 0
        some (some (if negative then -n else n), rest)
    else some (none, cs)

def readNumeral (negative : Bool) (cs : List Char) : Option (Numeral × List Char) := do
  let (whole, rest) ← readWhole cs
  let (fraction, rest) ← readFraction rest
  let (exponent, rest) ← readExponent rest
  pure (⟨negative, whole, fraction, exponent⟩, rest)

/-- The integer `±n`, which is a float where 64 bits do not hold it, and for `-0`. -/
def ofInteger (negative : Bool) (n : Nat) : Json :=
  let value : Int := if negative then -n else n
  if leastInt ≤ value ∧ value ≤ greatestInt ∧ (negative = true → n ≠ 0) then .int value
  else
    let x := Binary64.ofDecimal n 0
    ofFloat (if negative then x.neg else x)

/-- The value of a numeral; beyond the range of binary64 there is none. It is assumed that decimals
of any length are read with correct rounding, as `Binary64.ofDecimal` has it. -/
def Numeral.value? (numeral : Numeral) : Option Json :=
  let n := Nat.ofDigitChars 10 (numeral.whole ++ numeral.fraction) 0
  let number := match numeral.fraction, numeral.exponent with
    | [], none => ofInteger numeral.negative n
    | fraction, exponent =>
      let x := Binary64.ofDecimal n (exponent.getD 0 - fraction.length)
      ofFloat (if numeral.negative then x.neg else x)
  match number with
  | .null => none
  | number => some number

def Scalar.value? : Scalar → Option Json
  | .null => some .null
  | .bool b => some (.bool b)
  | .number numeral => numeral.value?
  | .str pieces => (text? pieces).map .str

def readScalar : List Char → Option (Scalar × List Char)
  | 'n' :: 'u' :: 'l' :: 'l' :: rest => some (.null, rest)
  | 't' :: 'r' :: 'u' :: 'e' :: rest => some (.bool true, rest)
  | 'f' :: 'a' :: 'l' :: 's' :: 'e' :: rest => some (.bool false, rest)
  | '"' :: rest => (readPieces rest).map fun (pieces, rest) => (.str pieces, rest)
  | '-' :: rest => (readNumeral true rest).map fun (n, rest) => (.number n, rest)
  | rest => (readNumeral false rest).map fun (n, rest) => (.number n, rest)

end ActivityBoard.Json
