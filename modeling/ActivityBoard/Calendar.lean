/-!
Dates of the proleptic Gregorian calendar, counted from 1970-01-01. Years are counted from March, so
that a leap day is the last day of its year.
-/
namespace ActivityBoard.Calendar

structure Date where
  year : Int
  month : Int
  day : Int
deriving DecidableEq

/-- The seconds that a clock is ahead of UTC: `first`, and others from each change on, the changes
being in the order of their times. -/
structure Zone where
  first : Int := 0
  changes : List (Int × Int) := []
deriving DecidableEq

def Zone.offset (z : Zone) (timestamp : Int) : Int :=
  z.changes.foldl (fun ahead change => if change.1 ≤ timestamp then change.2 else ahead) z.first

/-- The date of a day. An era is 400 years of 146097 days, and day 0 of era 0 is 0000-03-01. -/
def ofDay (day : Int) : Date :=
  let shifted := day + 719468
  let era := shifted / 146097
  let dayOfEra := shifted % 146097
  let yearOfEra :=
    (dayOfEra - dayOfEra / 1460 + dayOfEra / 36524 - dayOfEra / 146096) / 365
  let dayOfYear := dayOfEra - (365 * yearOfEra + yearOfEra / 4 - yearOfEra / 100)
  let marchMonth := (5 * dayOfYear + 2) / 153
  let day := dayOfYear - (153 * marchMonth + 2) / 5 + 1
  let month := if marchMonth < 10 then marchMonth + 3 else marchMonth - 9
  let year := yearOfEra + era * 400
  ⟨if month ≤ 2 then year + 1 else year, month, day⟩

def padded (width n : Nat) : String :=
  let digits := Nat.toDigits 10 n
  String.ofList (List.replicate (width - digits.length) '0' ++ digits)

/-- A year in four digits; one before year 0 or after 9999 has its sign. -/
def yearText (year : Int) : String :=
  if year < 0 then "-" ++ padded 4 year.natAbs
  else if 9999 < year then "+" ++ padded 4 year.natAbs
  else padded 4 year.natAbs

/-- The first second of -262143-01-01 and the last one of 262142-12-31, in UTC. -/
def firstSecond : Int := -8334601228800

def lastSecond : Int := 8210266876799

/-- The date and time of a timestamp `offset` seconds east of UTC; empty outside the calendar. -/
def dateText (timestamp offset : Int) : String :=
  if timestamp < firstSecond ∨ lastSecond < timestamp then ""
  else
    let seconds := timestamp + offset
    let date := ofDay (seconds / 86400)
    let time := (seconds % 86400).toNat
    yearText date.year ++ "-" ++ padded 2 date.month.toNat ++ "-" ++ padded 2 date.day.toNat ++
      " " ++ padded 2 (time / 3600) ++ ":" ++ padded 2 (time / 60 % 60) ++ ":" ++
      padded 2 (time % 60)

end ActivityBoard.Calendar
