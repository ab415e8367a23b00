import ActivityBoard.Text

/-!
TOML strings: between one or three quotes, double ones with escapes or single ones without. Three
quotes let line ends in.
-/
namespace ActivityBoard.Toml

def isBlank (c : Char) : Bool := c = ' ' || c = '\t'

def skipBlanks (cs : List Char) : List Char := cs.dropWhile isBlank

/-- The characters that stand for themselves in strings and comments: the tab, and all that are no
control characters. -/
def isPlain (c : Char) : Bool := c = '\t' || (decide (0x20 ≤ c.toNat) && decide (c.toNat ≠ 0x7f))

def afterBreak? : List Char → Option (List Char)
  | '\n' :: rest => some rest
  | '\r' :: '\n' :: rest => some rest
  | _ => none

def skipSpace : List Char → List Char
  | '\n' :: cs => skipSpace cs
  | '\r' :: '\n' :: cs => skipSpace cs
  | c :: cs => if isBlank c then skipSpace cs else c :: cs
  | [] => []

/-- What some first characters stand for, and the rest. -/
abbrev Piece := List Char → Option (List Char × List Char)

def readNumbered (count : Nat) : Piece := fun cs => do
  let n ← if (cs.take count).length = count then Text.ofDigits? 16 (cs.take count) else none
  if n.isValidChar then pure ([Char.ofNat n], cs.drop count) else none

def readEscape : Piece
  | 'b' :: rest => some (['\x08'], rest)
  | 't' :: rest => some (['\t'], rest)
  | 'n' :: rest => some (['\n'], rest)
  | 'f' :: rest => some (['\x0c'], rest)
  | 'r' :: rest => some (['\r'], rest)
  | 'e' :: rest => some (['\x1b'], rest)
  | '"' :: rest => some (['"'], rest)
  | '\\' :: rest => some (['\\'], rest)
  | 'x' :: rest => readNumbered 2 rest
  | 'u' :: rest => readNumbered 4 rest
  | 'U' :: rest => readNumbered 8 rest
  | _ => none

def readPlain : Piece
  | c :: rest => if isPlain c then some ([c], rest) else none
  | [] => none

def readEscaped : Piece
  | '\\' :: rest => readEscape rest
  | cs => readPlain cs

def readLine (piece : Piece) : Piece
  | '\n' :: rest => some (['\n'], rest)
  | '\r' :: '\n' :: rest => some (['\r', '\n'], rest)
  | cs => piece cs

/-- A piece of a string between three double quotes. A backslash at the end of a line takes the
space behind it away. -/
def readFolded : Piece
  | '\\' :: rest =>
    match afterBreak? (skipBlanks rest) with
    | some rest => some ([], skipSpace rest)
    | none => readEscape rest
  | cs => readLine readPlain cs

def closeShort (quote : Char) : Piece
  | c :: rest => if c = quote then some ([], rest) else none
  | [] => none

/-- Three closing quotes. Up to two more of them are the end of the string itself. -/
def closeLong (quote : Char) : Piece
  | a :: b :: c :: rest =>
    if a = quote ∧ b = quote ∧ c = quote then
      let more := (rest.takeWhile (· = quote)).take 2
      some (more, rest.drop more.length)
    else none
  | _ => none

def readPieces (close piece : Piece) : Nat → Piece
  | 0, _ => none
  | fuel + 1, cs =>
    match close cs with
    | some result => some result
    | none => do
      let (s, rest) ← piece cs
      let (t, rest) ← readPieces close piece fuel rest
      pure (s ++ t, rest)

def readTextWith (close piece : Piece) (cs : List Char) : Option (String × List Char) :=
  (readPieces close piece (cs.length + 1) cs).map fun (s, rest) => (String.ofList s, rest)

def readShort (quote : Char) (cs : List Char) : Option (String × List Char) :=
  readTextWith (closeShort quote) (if quote = '"' then readEscaped else readPlain) cs

/-- A string between three quotes, the opening ones already read. A line end right behind them is
not part of it. -/
def readLong (quote : Char) (cs : List Char) : Option (String × List Char) :=
  readTextWith (closeLong quote) (if quote = '"' then readFolded else readLine readPlain)
    ((afterBreak? cs).getD cs)

end ActivityBoard.Toml
