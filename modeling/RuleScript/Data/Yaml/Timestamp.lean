/-
# Timestamps

A date, or a date with a time of day and perhaps an offset from universal
time. `Timestamp.read?` takes the written form apart, `Timestamp.check` says
whether the parts make a date.

Key definitions: `Timestamp`, `Timestamp.read?`, `Timestamp.isPlain`,
`Timestamp.check`, `Timestamp.same`, `Timestamp.text`,
`Timestamp.described`.
-/
import RuleScript.Number.Layout

namespace RuleScript.Yaml

/-- A time of day; the offset is in minutes. -/
structure TimeOfDay where
  hour : Nat
  minute : Nat
  second : Nat
  microsecond : Nat
  offset : Option Int
deriving Repr, DecidableEq

/-- A date and perhaps a time of day. -/
structure Timestamp where
  year : Nat
  month : Nat
  day : Nat
  time : Option TimeOfDay
deriving Repr, DecidableEq

namespace Timestamp

/-- The value of decimal digits. -/
def number (cs : List Char) : Nat := cs.foldl (fun n c => n * 10 + (c.toNat - '0'.toNat)) 0

/-- Between `lo` and `hi` digits at the front, as many as there are. -/
def digits? (lo hi : Nat) (cs : List Char) : Option (Nat × List Char) :=
  let ds := (cs.take hi).takeWhile Char.isDigit
  if lo ≤ ds.length then some (number ds, cs.drop ds.length) else none

/-- A character at the front. -/
def char? (c : Char) : List Char → Option (List Char)
  | d :: cs => if d = c then some cs else none
  | [] => none

/-- A blank between the parts of a timestamp. -/
def isGap (c : Char) : Bool := c = ' ' || c = '\t'

/-- What divides the date from the time. -/
def divider? (cs : List Char) : Option (List Char) :=
  match cs with
  | 'T' :: cs => some cs
  | 't' :: cs => some cs
  | c :: _ => if isGap c then some (cs.dropWhile isGap) else none
  | [] => none

/-- The fraction of a second in microseconds; further digits are cut off. -/
def fraction (cs : List Char) : Nat × List Char :=
  match cs with
  | '.' :: cs =>
    let ds := cs.takeWhile Char.isDigit
    (number ((ds ++ List.replicate 6 '0').take 6), cs.drop ds.length)
  | cs => (0, cs)

/-- The offset at the end, of which there may be none. -/
def offset? (cs : List Char) : Option (Option Int) :=
  match cs with
  | [] => some none
  | _ =>
    match cs.dropWhile isGap with
    | ['Z'] => some (some 0)
    | sign :: cs =>
      if sign = '+' || sign = '-' then do
        let (hours, cs) ← digits? 1 2 cs
        let minutes ← match cs with
          | [] => some 0
          | ':' :: cs => do
            let (minutes, cs) ← digits? 2 2 cs
            if cs.isEmpty then some minutes else none
          | _ => none
        let total : Int := hours * 60 + minutes
        return some (if sign = '-' then -total else total)
      else none
    | [] => none

/-- The time of day at the end. -/
def time? (cs : List Char) : Option TimeOfDay := do
  let (hour, cs) ← digits? 1 2 (← divider? cs)
  let (minute, cs) ← digits? 2 2 (← char? ':' cs)
  let (second, cs) ← digits? 2 2 (← char? ':' cs)
  let (microsecond, cs) := fraction cs
  return ⟨hour, minute, second, microsecond, ← offset? cs⟩

/-- The parts of a timestamp. -/
def read? (cs : List Char) : Option Timestamp := do
  let (year, cs) ← digits? 4 4 cs
  let (month, cs) ← digits? 1 2 (← char? '-' cs)
  let (day, cs) ← digits? 1 2 (← char? '-' cs)
  if cs.isEmpty then return ⟨year, month, day, none⟩
  else return ⟨year, month, day, some (← time? cs)⟩

/-- Whether a text is a timestamp without being tagged as one: a date alone
has two digits for month and day. -/
def isPlain (cs : List Char) : Bool :=
  match read? cs with
  | some t => t.time.isSome || cs.length = 10
  | none => false

/-! ### Dates that exist -/

/-- Whether a year has a leap day. -/
def isLeap (year : Nat) : Bool := year % 4 = 0 && (year % 100 ≠ 0 || year % 400 = 0)

/-- The days of a month. -/
def daysIn (year month : Nat) : Nat :=
  if month = 2 then if isLeap year then 29 else 28
  else if month = 4 || month = 6 || month = 9 || month = 11 then 30
  else 31

/-- A span of time in minutes as it shows in diagnostics. -/
def span (minutes : Int) : String :=
  let days := minutes / 1440
  let seconds := minutes % 1440 * 60
  let parts :=
    (if days = 0 then [] else ["days=" ++ Number.integerText days])
      ++ (if seconds = 0 then [] else ["seconds=" ++ Number.integerText seconds])
  "datetime.timedelta("
    ++ (if parts.isEmpty then "0" else String.intercalate ", " parts) ++ ")"

/-- What is wrong with an offset. -/
def offsetFault? (minutes : Int) : Option String :=
  if -1440 < minutes ∧ minutes < 1440 then none
  else
    some ("offset must be a timedelta strictly between -timedelta(hours=24) and "
      ++ "timedelta(hours=24), not " ++ span minutes ++ ".")

/-- What is wrong with a time of day. -/
def TimeOfDay.fault? (t : TimeOfDay) : Option String :=
  if 23 < t.hour then some "hour must be in 0..23"
  else if 59 < t.minute then some "minute must be in 0..59"
  else if 59 < t.second then some "second must be in 0..59"
  else none

/-- What is wrong with a date. -/
def dateFault? (t : Timestamp) : Option String :=
  if t.year = 0 then some "year 0 is out of range"
  else if t.month < 1 ∨ 12 < t.month then some "month must be in 1..12"
  else if t.day < 1 ∨ daysIn t.year t.month < t.day then some "day is out of range for month"
  else none

/-- The timestamp, if there is such a time. -/
def check (t : Timestamp) : Except String Timestamp :=
  let offset := (t.time.bind (·.offset)).bind offsetFault?
  match (offset.or t.dateFault?).or (t.time.bind TimeOfDay.fault?) with
  | some message => .error message
  | none => .ok t

/-- The days from the start of the calendar to a date. -/
def dayNumber (t : Timestamp) : Nat :=
  let past := t.year - 1
  365 * past + past / 4 - past / 100 + past / 400
    + ((List.range' 1 (t.month - 1)).map (daysIn t.year)).foldl (· + ·) 0 + t.day

/-- The microseconds from the start of the calendar in universal time, for a
timestamp with an offset. -/
def instant? (t : Timestamp) : Option Int := do
  let c ← t.time
  let offset ← c.offset
  let minutes : Int := (t.dayNumber * 24 + c.hour) * 60 + c.minute - offset
  return (minutes * 60 + c.second) * 1000000 + c.microsecond

/-- Whether two timestamps are the same: the same instant if both have an
offset, else equal in all parts. -/
def same (s t : Timestamp) : Bool :=
  match s.instant?, t.instant? with
  | some a, some b => a == b
  | _, _ => s == t

/-! ### Text -/

/-- A number with leading zeros. -/
def padded (width n : Nat) : String :=
  let ds := (Number.integerText n).toList
  String.ofList (List.replicate (width - ds.length) '0' ++ ds)

/-- An offset as hours and minutes. -/
def offsetText (minutes : Int) : String :=
  let n := minutes.natAbs
  (if minutes < 0 then "-" else "+") ++ padded 2 (n / 60) ++ ":" ++ padded 2 (n % 60)

/-- A timestamp in digits, with a text between date and time. -/
def text (divider : String) (t : Timestamp) : String :=
  let date := padded 4 t.year ++ "-" ++ padded 2 t.month ++ "-" ++ padded 2 t.day
  match t.time with
  | none => date
  | some c =>
    date ++ divider ++ padded 2 c.hour ++ ":" ++ padded 2 c.minute ++ ":" ++ padded 2 c.second
      ++ (if c.microsecond = 0 then "" else "." ++ padded 6 c.microsecond)
      ++ (match c.offset with | some m => offsetText m | none => "")

/-- A timestamp as it shows in diagnostics. -/
def described (t : Timestamp) : String :=
  let shown (n : Nat) : String := Number.integerText n
  let date := [t.year, t.month, t.day]
  match t.time with
  | none => "datetime.date(" ++ String.intercalate ", " (date.map shown) ++ ")"
  | some c =>
    let clock :=
      if c.microsecond ≠ 0 then [c.hour, c.minute, c.second, c.microsecond]
      else if c.second ≠ 0 then [c.hour, c.minute, c.second]
      else [c.hour, c.minute]
    let zone := match c.offset with
      | none => []
      | some 0 => ["tzinfo=datetime.timezone.utc"]
      | some m => ["tzinfo=datetime.timezone(" ++ span m ++ ")"]
    "datetime.datetime("
      ++ String.intercalate ", " ((date ++ clock).map shown ++ zone) ++ ")"

end Timestamp

end RuleScript.Yaml
