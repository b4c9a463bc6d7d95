namespace AddonWatch

/-- A moment in whole seconds since the start of 1970 in UTC, `leap` if it is the second that was
put in behind it. -/
structure Stamp where
  seconds : Int
  leap : Bool := false
deriving DecidableEq, Repr, Inhabited

namespace Stamp

/-- Days from the start of 1970 to a date, with years that begin in March. -/
def daysFromDate (year : Int) (month day : Nat) : Int :=
  let y := if month ≤ 2 then year - 1 else year
  let era := Int.fdiv y 400
  let yearOfEra := y - era * 400
  let shifted : Int := if month ≤ 2 then month + 9 else month - 3
  let dayOfYear := Int.fdiv (153 * shifted + 2) 5 + day - 1
  let dayOfEra := yearOfEra * 365 + Int.fdiv yearOfEra 4 - Int.fdiv yearOfEra 100 + dayOfYear
  era * 146097 + dayOfEra - 719468

/-- The date so many days from the start of 1970. -/
def dateFromDays (days : Int) : Int × Nat × Nat :=
  let z := days + 719468
  let era := Int.fdiv z 146097
  let dayOfEra := z - era * 146097
  let yearOfEra := Int.fdiv
    (dayOfEra - Int.fdiv dayOfEra 1460 + Int.fdiv dayOfEra 36524 - Int.fdiv dayOfEra 146096) 365
  let dayOfYear :=
    dayOfEra - (365 * yearOfEra + Int.fdiv yearOfEra 4 - Int.fdiv yearOfEra 100)
  let shifted := Int.fdiv (5 * dayOfYear + 2) 153
  let day := dayOfYear - Int.fdiv (153 * shifted + 2) 5 + 1
  let month := if shifted < 10 then shifted + 3 else shifted - 9
  let year := yearOfEra + era * 400
  (if month ≤ 2 then year + 1 else year, month.toNat, day.toNat)

def isLeapYear (year : Int) : Bool :=
  Int.fmod year 4 = 0 && (Int.fmod year 100 ≠ 0 || Int.fmod year 400 = 0)

def daysInMonth (year : Int) (month : Nat) : Nat :=
  match month with
  | 2 => if isLeapYear year then 29 else 28
  | 4 | 6 | 9 | 11 => 30
  | _ => 31

def padded (width n : Nat) : String :=
  let digits := Nat.toDigits 10 n
  String.ofList (List.replicate (width - digits.length) '0' ++ digits)

/-- Years of four digits stand as they are, all others have a sign. -/
def yearText (year : Int) : String :=
  if 0 ≤ year ∧ year ≤ 9999 then padded 4 year.toNat
  else (if year < 0 then "-" else "+") ++ padded 4 year.natAbs

/-- The moment in UTC. -/
def text (stamp : Stamp) : String :=
  let days := Int.fdiv stamp.seconds 86400
  let rest := (stamp.seconds - days * 86400).toNat
  let (year, month, day) := dateFromDays days
  let second := rest % 60 + if stamp.leap then 1 else 0
  yearText year ++ "-" ++ padded 2 month ++ "-" ++ padded 2 day ++ "T" ++
    padded 2 (rest / 3600) ++ ":" ++ padded 2 (rest / 60 % 60) ++ ":" ++ padded 2 second ++ "Z"

def isSpace (c : Char) : Bool :=
  let n := c.toNat
  (9 ≤ n && n ≤ 13) || n = 0x20 || n = 0x85 || n = 0xa0 || n = 0x1680 ||
    (0x2000 ≤ n && n ≤ 0x200a) || n = 0x2028 || n = 0x2029 || n = 0x202f || n = 0x205f ||
    n = 0x3000

def trim (s : List Char) : List Char :=
  s.dropWhile isSpace

def value (digits : List Char) : Nat :=
  digits.foldl (fun n c => n * 10 + (c.toNat - '0'.toNat)) 0

/-- A number of one to `width` digits, behind blanks. -/
def number (width : Nat) (s : List Char) : Option (Nat × List Char) :=
  let s := trim s
  let digits := (s.take width).takeWhile Char.isDigit
  if digits.isEmpty then none else some (value digits, s.drop digits.length)

/-- A year of up to four digits, or of any length behind a sign. -/
def year (s : List Char) : Option (Int × List Char) :=
  match trim s with
  | '-' :: rest => signed rest fun n => -(n : Int)
  | '+' :: rest => signed rest fun n => n
  | s => (number 4 s).map fun (n, rest) => ((n : Int), rest)
where
  signed (rest : List Char) (sign : Nat → Int) : Option (Int × List Char) :=
    let digits := rest.takeWhile Char.isDigit
    if digits.isEmpty then none else some (sign (value digits), rest.drop digits.length)

def expect (c : Char) (s : List Char) : Option (List Char) :=
  match trim s with
  | d :: rest => if d = c then some rest else none
  | [] => none

/-- A fraction of a second is read and dropped. -/
def dropFraction (s : List Char) : Option (List Char) :=
  match s with
  | '.' :: rest =>
    match rest with
    | d :: _ => if d.isDigit then some (rest.dropWhile Char.isDigit) else none
    | [] => none
  | _ => some s

def pair (s : List Char) : Option (Nat × List Char) :=
  match s with
  | a :: b :: rest => if a.isDigit && b.isDigit then some (value [a, b], rest) else none
  | _ => none

/-- The distance from UTC in minutes. -/
def offset (s : List Char) : Option (Int × List Char) :=
  match s with
  | [] => none
  | c :: rest =>
    if c = 'Z' || c = 'z' then some (0, rest)
    else if (s.take 3).map Char.toUpper = ['U', 'T', 'C'] then some (0, s.drop 3)
    else if c = '+' || c = '-' || c = '−' then do
      let (hours, rest) ← pair rest
      let (minutes, rest) ← pair (rest.dropWhile fun d => d = ':' || isSpace d)
      if minutes ≥ 60 then none
      else
        let size : Int := hours * 60 + minutes
        some (if c = '+' then size else -size, rest)
    else none

/-- The first year that there is. -/
def firstYear : Int := -262143

/-- The last year that there is. -/
def lastYear : Int := 262142

/-- Whether the moment lies in one of the years that there are, in UTC. -/
def isInRange (seconds : Int) : Bool :=
  daysFromDate firstYear 1 1 * 86400 ≤ seconds &&
    seconds < daysFromDate (lastYear + 1) 1 1 * 86400

/-- Reads a date, a time of day and a distance from UTC, with blanks between the parts. Both the
date as it stands and the moment in UTC lie in the years that there are. -/
def parse? (s : String) : Option Stamp := do
  let (year, s) ← year s.toList
  let s ← expect '-' s
  let (month, s) ← number 2 s
  let s ← expect '-' s
  let (day, s) ← number 2 s
  let s ← match s with
    | c :: rest => if c = 't' || c = 'T' || c = ' ' then some rest else none
    | [] => none
  let (hour, s) ← number 2 s
  let s ← expect ':' s
  let (minute, s) ← number 2 s
  let s ← expect ':' s
  let (second, s) ← number 2 s
  let s ← dropFraction s
  let (minutes, s) ← offset (trim s)
  if !(trim s).isEmpty then none
  if year < firstYear || lastYear < year || month < 1 || 12 < month then none
  if day < 1 || daysInMonth year month < day then none
  if 23 < hour || 59 < minute || 60 < second || minutes.natAbs ≥ 1440 then none
  let days := daysFromDate year month day
  let clock : Int := hour * 3600 + minute * 60 + (if second = 60 then 59 else second : Nat)
  let seconds := days * 86400 + clock - minutes * 60
  if !isInRange seconds then none
  return ⟨seconds, second = 60⟩

end Stamp

end AddonWatch
