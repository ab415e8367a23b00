namespace ActivityBoard.Text

/-- The characters of the Unicode property `White_Space`. -/
def isBlank (c : Char) : Bool :=
  let n := c.toNat
  (0x9 ≤ n && n ≤ 0xd) || n == 0x20 || n == 0x85 || n == 0xa0 || n == 0x1680 ||
    (0x2000 ≤ n && n ≤ 0x200a) || n == 0x2028 || n == 0x2029 || n == 0x202f || n == 0x205f ||
    n == 0x3000

def trim (cs : List Char) : List Char :=
  ((cs.dropWhile isBlank).reverse.dropWhile isBlank).reverse

/-- The lower case of a character where that is ASCII: capitals, and the Kelvin sign, the only
other character whose lower case is one ASCII letter. -/
def lowerAscii (c : Char) : Char := if c.toNat = 0x212a then 'k' else c.toLower

def sameWord (word keyword : String) : Bool := word.toList.map lowerAscii == keyword.toList

def first (count : Nat) (s : String) : String := String.ofList (s.toList.take count)

def last (count : Nat) (s : String) : String :=
  String.ofList (s.toList.drop (s.toList.length - count))

def hexDigit? (c : Char) : Option Nat :=
  if c.isDigit then some (c.toNat - '0'.toNat)
  else if 'a' ≤ c ∧ c ≤ 'f' then some (c.toNat - 'a'.toNat + 10)
  else if 'A' ≤ c ∧ c ≤ 'F' then some (c.toNat - 'A'.toNat + 10)
  else none

def ofDigits? (radix : Nat) (digits : List Char) : Option Nat :=
  digits.foldlM (fun value c => do
    let d ← hexDigit? c
    if d < radix then pure (value * radix + d) else none) 0

end ActivityBoard.Text
