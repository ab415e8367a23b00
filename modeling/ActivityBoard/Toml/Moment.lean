/-!
TOML dates and times: `2024-02-29`, `12:30`, `12:30:05.25`, and a date and a time with a `T` or a
blank between them, then perhaps an offset from UTC.
-/
namespace ActivityBoard.Toml

def pair? (least most : Nat) : List Char → Option (Nat × List Char)
  | a :: b :: rest =>
    if a.isDigit ∧ b.isDigit then
      let n := Nat.ofDigitChars 10 [a, b] 0
      if least ≤ n ∧ n ≤ most then some (n, rest) else none
    else none
  | _ => none

def isLeapYear (year : Nat) : Bool := year % 4 == 0 && (year % 100 != 0 || year % 400 == 0)

def daysIn (year month : Nat) : Nat :=
  if month = 2 then (if isLeapYear year then 29 else 28)
  else if month = 4 ∨ month = 6 ∨ month = 9 ∨ month = 11 then 30
  else 31

def after? (c : Char) : List Char → Option (List Char)
  | d :: rest => if d = c then some rest else none
  | [] => none

def afterDate? (cs : List Char) : Option (List Char) := do
  let (century, rest) ← pair? 0 99 cs
  let (year, rest) ← pair? 0 99 rest
  let rest ← after? '-' rest
  let (month, rest) ← pair? 1 12 rest
  let rest ← after? '-' rest
  let (_, rest) ← pair? 1 (daysIn (century * 100 + year) month) rest
  pure rest

def afterFraction? : List Char → Option (List Char)
  | '.' :: cs =>
    if (cs.takeWhile Char.isDigit).isEmpty then none else some (cs.dropWhile Char.isDigit)
  | cs => some cs

/-- The rest after the seconds of a time, which may be left out; a leap second is one of them. -/
def afterSeconds? : List Char → Option (List Char)
  | ':' :: cs => do
    let (_, rest) ← pair? 0 60 cs
    afterFraction? rest
  | cs => some cs

def afterTime? (cs : List Char) : Option (List Char) := do
  let (_, rest) ← pair? 0 23 cs
  let rest ← after? ':' rest
  let (_, rest) ← pair? 0 59 rest
  afterSeconds? rest

def isOffset : List Char → Bool
  | ['Z'] => true
  | ['z'] => true
  | c :: cs =>
    (c = '+' || c = '-') &&
      (do
        let (_, rest) ← pair? 0 23 cs
        let rest ← after? ':' rest
        let (_, rest) ← pair? 0 59 rest
        pure rest) == some []
  | [] => false

def isMoment (cs : List Char) : Bool :=
  match afterDate? cs with
  | some [] => true
  | some (c :: rest) =>
    (c = 'T' || c = 't' || c = ' ') &&
      match afterTime? rest with
      | some [] => true
      | some rest => isOffset rest
      | none => false
  | none => afterTime? cs == some []

end ActivityBoard.Toml
