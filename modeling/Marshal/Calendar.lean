import Marshal.Text.Digit

namespace Marshal.Calendar

/-- Milliseconds from 1970 beyond which no date exists. -/
def limit : Nat := 8640000000000000

def inRange (ms : Int) : Bool := ms.natAbs ≤ limit

/-- Days from 1970-01-01 to a day of the proleptic calendar, counting years from March. -/
def daysOfDate (year month day : Int) : Int :=
  let y := if month ≤ 2 then year - 1 else year
  let era := Int.fdiv y 400
  let yearOfEra := y - era * 400
  let shifted := if month > 2 then month - 3 else month + 9
  let dayOfYear := Int.fdiv (153 * shifted + 2) 5 + day - 1
  let dayOfEra := yearOfEra * 365 + Int.fdiv yearOfEra 4 - Int.fdiv yearOfEra 100 + dayOfYear
  era * 146097 + dayOfEra - 719468

/-- Year, month and day of a day counted from 1970-01-01. -/
def dateOfDays (days : Int) : Int × Int × Int :=
  let z := days + 719468
  let era := Int.fdiv z 146097
  let dayOfEra := z - era * 146097
  let yearOfEra := Int.fdiv (dayOfEra - Int.fdiv dayOfEra 1460 + Int.fdiv dayOfEra 36524 -
    Int.fdiv dayOfEra 146096) 365
  let dayOfYear := dayOfEra - (365 * yearOfEra + Int.fdiv yearOfEra 4 - Int.fdiv yearOfEra 100)
  let shifted := Int.fdiv (5 * dayOfYear + 2) 153
  let day := dayOfYear - Int.fdiv (153 * shifted + 2) 5 + 1
  let month := if shifted < 10 then shifted + 3 else shifted - 9
  let year := yearOfEra + era * 400 + (if month ≤ 2 then 1 else 0)
  (year, month, day)

structure Clock where
  year : Int
  month : Int
  day : Int
  hour : Int
  minute : Int
  second : Int
  millisecond : Int
  /-- Sunday is 0. -/
  weekday : Int

def clockOf (ms : Int) : Clock :=
  let days := Int.fdiv ms 86400000
  let rest := ms - days * 86400000
  let (year, month, day) := dateOfDays days
  { year, month, day
    hour := rest / 3600000
    minute := rest / 60000 % 60
    second := rest / 1000 % 60
    millisecond := rest % 1000
    weekday := (days + 4) % 7 }

/-- Decimal digits of a magnitude, padded with zeros. -/
def padded (width : Nat) (n : Int) : String :=
  let ds := toString n.natAbs
  String.ofList (List.replicate (width - ds.length) '0') ++ ds

def yearText (year : Int) : String :=
  if 0 ≤ year ∧ year ≤ 9999 then padded 4 year
  else (if year < 0 then "-" else "+") ++ padded 6 year

/-- Date and time in UTC to the millisecond. -/
def isoText (ms : Int) : String :=
  let c := clockOf ms
  yearText c.year ++ "-" ++ padded 2 c.month ++ "-" ++ padded 2 c.day ++ "T" ++
    padded 2 c.hour ++ ":" ++ padded 2 c.minute ++ ":" ++ padded 2 c.second ++ "." ++
    padded 3 c.millisecond ++ "Z"

def weekdayNames : List String := ["Sun", "Mon", "Tue", "Wed", "Thu", "Fri", "Sat"]

def monthNames : List String :=
  ["Jan", "Feb", "Mar", "Apr", "May", "Jun", "Jul", "Aug", "Sep", "Oct", "Nov", "Dec"]

/-- Date and time in words, to the second. -/
def longText (ms : Int) : String :=
  let c := clockOf ms
  let weekday := (weekdayNames[c.weekday.toNat]?).getD ""
  let month := (monthNames[(c.month - 1).toNat]?).getD ""
  let year := (if c.year < 0 then "-" else "") ++ padded (if c.year < 0 then 6 else 4) c.year
  weekday ++ " " ++ month ++ " " ++ padded 2 c.day ++ " " ++ year ++ " " ++
    padded 2 c.hour ++ ":" ++ padded 2 c.minute ++ ":" ++ padded 2 c.second ++
    " GMT+0000 (Coordinated Universal Time)"

/-- Reads exactly `count` digits. -/
def digits? (count : Nat) (cs : List Char) : Option (Nat × List Char) :=
  let ds := cs.take count
  if ds.length = count ∧ ds.all Char.isDigit then
    some (Text.natOfDigits ds, cs.drop count)
  else none

def year? : List Char → Option (Int × List Char)
  | '+' :: cs => (digits? 6 cs).map fun (n, rest) => (Int.ofNat n, rest)
  | '-' :: cs =>
    match digits? 6 cs with
    | some (n, rest) => if n = 0 then none else some (-Int.ofNat n, rest)
    | none => none
  | cs => (digits? 4 cs).map fun (n, rest) => (Int.ofNat n, rest)

/-- A part led by a mark, or its default when the mark is not there. -/
def part? (mark : Char) (default : Nat) : List Char → Option (Nat × List Char)
  | c :: cs => if c = mark then digits? 2 cs else some (default, c :: cs)
  | [] => some (default, [])

/-- Digits after a decimal point, cut off after the third. -/
def fraction? : List Char → Option (Nat × List Char)
  | '.' :: cs =>
    let ds := cs.takeWhile Char.isDigit
    if ds.isEmpty then none
    else
      let three := (ds ++ ['0', '0']).take 3
      some (Text.natOfDigits three, cs.dropWhile Char.isDigit)
  | cs => some (0, cs)

/-- Minutes east of UTC; none given means UTC. -/
def zone? : List Char → Option Int
  | [] => some 0
  | ['Z'] | ['z'] => some 0
  | sign :: cs => do
    let factor : Int ← if sign = '+' then some 1 else if sign = '-' then some (-1) else none
    let (hours, cs) ← digits? 2 cs
    let (minutes, cs) ← match cs with
      | ':' :: rest => digits? 2 rest
      | rest => digits? 2 rest
    if cs.isEmpty ∧ hours ≤ 23 ∧ minutes ≤ 59 then some (factor * (60 * hours + minutes)) else none

/-- Milliseconds of the time after the date; an hour of 24 stands only for the end of the day. -/
def time? (cs : List Char) : Option (Int × Int) := do
  let (hour, cs) ← digits? 2 cs
  let (minute, cs) ← match cs with
    | ':' :: rest => digits? 2 rest
    | _ => none
  let (second, rest) ← part? ':' 0 cs
  let (milli, rest) ← match cs with
    | ':' :: _ => fraction? rest
    | _ => some (0, rest)
  let zone ← zone? rest
  let inDay := hour ≤ 23 ∨ (hour = 24 ∧ minute = 0 ∧ second = 0 ∧ milli = 0)
  if inDay ∧ minute ≤ 59 ∧ second ≤ 59 then
    some (((hour * 60 + minute) * 60 + second) * 1000 + milli, zone)
  else none

/-- Reads a date, with or without a time, in the international form. -/
def parse? (s : String) : Option Int := do
  let (year, cs) ← year? s.toList
  let (month, afterMonth) ← part? '-' 1 cs
  let (day, rest) ← match cs with
    | '-' :: _ => part? '-' 1 afterMonth
    | _ => some (1, afterMonth)
  let (time, zone) ← match rest with
    | [] => some (0, 0)
    | 'T' :: cs | 't' :: cs => time? cs
    | _ => none
  if 1 ≤ month ∧ month ≤ 12 ∧ 1 ≤ day ∧ day ≤ 31 then
    let ms := daysOfDate year month day * 86400000 + time - zone * 60000
    if inRange ms then some ms else none
  else none

end Marshal.Calendar
