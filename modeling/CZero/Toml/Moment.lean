import CZero.Toml.Text

/-!
# Points in time

A day is written `1979-05-27`, a time `07:32`, `07:32:00` or `07:32:00.25`, and the
two together have a `T` or a space between them. An offset from universal time may
follow: `Z`, or hours and minutes with a sign. Letters may be small.
-/

namespace CZero.Toml

/-- Whether the year has 366 days. -/
def isLeap (year : Nat) : Bool :=
  year % 4 == 0 && (year % 100 != 0 || year % 400 == 0)

/-- The number of days of a month. -/
def daysIn (year month : Nat) : Nat :=
  if month == 2 then (if isLeap year then 29 else 28)
  else if [4, 6, 9, 11].contains month then 30
  else 31

/-- Whether there is such a day. -/
def Date.isValid (d : Date) : Bool :=
  1 ≤ d.month && d.month ≤ 12 && 1 ≤ d.day && d.day ≤ daysIn d.year d.month

/-- Whether there is such a time. -/
def Time.isValid (t : Time) : Bool :=
  t.hour ≤ 23 && t.minute ≤ 59 && t.second ≤ 59

/-- A day. -/
def date? : Reader Date := fun cs => do
  let (year, cs) ← field? 10 4 cs
  let cs ← symbol? '-' cs
  let (month, cs) ← field? 10 2 cs
  let cs ← symbol? '-' cs
  let (day, cs) ← field? 10 2 cs
  let d : Date := ⟨year, month, day⟩
  if d.isValid then return (d, cs) else none

/-- The digits of a fraction of a second, if there is one. -/
def secondFraction (cs : List Char) : List Nat × List Char :=
  match cs with
  | '.' :: rest =>
    let ds := rest.takeWhile (isDigit 10)
    if ds.isEmpty then ([], cs) else (ds.filterMap (digit? 10), rest.drop ds.length)
  | _ => ([], cs)

/-- A time of day. -/
def time? : Reader Time := fun cs => do
  let (hour, cs) ← field? 10 2 cs
  let cs ← symbol? ':' cs
  let (minute, cs) ← field? 10 2 cs
  let (t, cs) ← match cs with
    | ':' :: cs => do
      let (second, cs) ← field? 10 2 cs
      let (fraction, cs) := secondFraction cs
      pure (({ hour, minute, second, fraction } : Time), cs)
    | cs => pure (({ hour, minute } : Time), cs)
  if t.isValid then return (t, cs) else none

/-- An offset from universal time, in minutes. -/
def offset? : Reader Int
  | 'Z' :: cs => some (0, cs)
  | c :: cs =>
    if c == '+' || c == '-' then do
      let (hours, cs) ← field? 10 2 cs
      let cs ← symbol? ':' cs
      let (minutes, cs) ← field? 10 2 cs
      if hours ≤ 24 && minutes ≤ 60 then
        let n : Int := hours * 60 + minutes
        return (if c == '-' then -n else n, cs)
      else none
    else none
  | [] => none

/-- The point in time that a whole text gives. -/
def Moment.ofChars? (cs : List Char) : Option Moment :=
  match date? cs with
  | some (d, []) => some (.date d)
  | some (d, 'T' :: cs) => match time? cs with
    | some (t, []) => some (.dateTime d t none)
    | some (t, cs) => match offset? cs with
      | some (n, []) => some (.dateTime d t (some n))
      | _ => none
    | none => none
  | some _ => none
  | none => match time? cs with
    | some (t, []) => some (.time t)
    | _ => none

/-- The characters of points in time. -/
def isMomentChar (c : Char) : Bool :=
  isDigit 10 c || ['-', ':', 'T', 't', ' ', '.', 'Z', 'z', '+'].contains c

/-- The letter that a character of a point in time stands for. -/
def momentLetter (c : Char) : Char :=
  if c == 't' || c == ' ' then 'T' else if c == 'z' then 'Z' else c

/-- A point in time, and the spaces after it. -/
def moment? : Reader Scalar := fun cs =>
  let run := cs.takeWhile isMomentChar
  let word := (run.reverse.dropWhile (· == ' ')).reverse
  (Moment.ofChars? (word.map momentLetter)).map fun m => (.moment m, cs.drop run.length)

end CZero.Toml
