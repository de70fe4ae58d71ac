import IntScript.Text.Decimal

/-!
# Points in time

A point in time is a day, with or without a time of the day. The day is a year of four digits, a month
and a day of the month between dashes. The time of the day follows either a letter, and then ends with
the distance from universal time, or spaces, and then ends without it.
-/

namespace IntScript.Yaml.Timestamp

open Text.Decimal (isDigit)

/-- A number of one or two digits in front, and what follows. -/
def number? : List Char → Option (Nat × List Char)
  | a :: b :: rest =>
    if isDigit a then
      if isDigit b then some (Text.Decimal.value [a, b], rest)
      else some (Text.Decimal.value [a], b :: rest)
    else none
  | [a] => if isDigit a then some (Text.Decimal.value [a], []) else none
  | [] => none

/-- What follows a character in front. -/
def after? (c : Char) : List Char → Option (List Char)
  | d :: rest => if d = c then some rest else none
  | [] => none

def isLeap (year : Nat) : Bool := year % 4 = 0 && (year % 100 ≠ 0 || year % 400 = 0)

def daysIn (month year : Nat) : Nat :=
  if month = 2 then if isLeap year then 29 else 28
  else if month = 4 ∨ month = 6 ∨ month = 9 ∨ month = 11 then 30
  else 31

/-- What follows a day in front. -/
def afterDate? (cs : List Char) : Option (List Char) := do
  let digits := cs.takeWhile isDigit
  guard (digits.length = 4)
  let year := Text.Decimal.value digits
  let (month, cs) ← number? (← after? '-' (cs.dropWhile isDigit))
  guard (1 ≤ month ∧ month ≤ 12)
  let (day, cs) ← number? (← after? '-' cs)
  guard (1 ≤ day ∧ day ≤ daysIn month year)
  return cs

/-- What follows a fraction of a second in front, which may be left out. -/
def afterFraction : List Char → List Char
  | c :: d :: rest =>
    if (c = '.' ∨ c = ',') ∧ isDigit d then rest.dropWhile isDigit else c :: d :: rest
  | cs => cs

/-- What follows a time of the day in front. -/
def afterTime? (cs : List Char) : Option (List Char) := do
  let (hour, cs) ← number? cs
  guard (hour < 24)
  let (minute, cs) ← number? (← after? ':' cs)
  guard (minute < 60)
  let (second, cs) ← number? (← after? ':' cs)
  guard (second < 60)
  return afterFraction cs

/-- Is this a distance from universal time and nothing else? -/
def isZone : List Char → Bool
  | ['Z'] => true
  | [sign, a, b, ':', c, d] =>
    (sign = '+' || sign = '-') && [a, b, c, d].all isDigit && Text.Decimal.value [a, b] ≤ 24 &&
      Text.Decimal.value [c, d] ≤ 60
  | _ => false

def isTimestamp (cs : List Char) : Bool :=
  match afterDate? cs with
  | none => false
  | some [] => true
  | some (c :: rest) =>
    if c = 'T' ∨ c = 't' then (afterTime? rest).any isZone
    else c = ' ' && (afterTime? (rest.dropWhile (· = ' '))).any (·.isEmpty)

end IntScript.Yaml.Timestamp
