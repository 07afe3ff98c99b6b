import HdlExpr.Numeral

/-!
# Timestamps

Texts that a reader of YAML may take for a time: a date, a date with a time of day, or hours and
minutes.
-/

namespace HdlExpr.Yaml.Timestamp

/-- Takes a number of exactly two digits from the front, or of one digit where that may be. -/
def number? (short : Bool) : List Char → Option (Nat × List Char)
  | a :: rest =>
    if !Numeral.isDigit a then none
    else match rest with
      | b :: tail =>
        if Numeral.isDigit b then
          some (10 * Numeral.digitValue a + Numeral.digitValue b, tail)
        else if short then some (Numeral.digitValue a, rest) else none
      | [] => if short then some (Numeral.digitValue a, []) else none
  | [] => none

def mark? (c : Char) : List Char → Option (List Char)
  | d :: rest => if c == d then some rest else none
  | [] => none

def isLeap (year : Nat) : Bool := year % 4 == 0 && (year % 100 != 0 || year % 400 == 0)

def daysIn (year month : Nat) : Nat :=
  if month = 2 then (if isLeap year then 29 else 28)
  else if [4, 6, 9, 11].contains month then 30
  else 31

def date? (cs : List Char) : Option (List Char) := do
  let year := cs.take 4
  if year.length < 4 || !year.all Numeral.isDigit then failure
  let (month, cs) ← number? false (← mark? '-' (cs.drop 4))
  let (day, cs) ← number? false (← mark? '-' cs)
  if month = 0 || 12 < month || day = 0 || daysIn (Numeral.ofDigits year) month < day then failure
  return cs

/-- Takes a part of a second from the front, if there is one. -/
def dropFraction : List Char → List Char
  | c :: d :: rest =>
    if (c == '.' || c == ',') && Numeral.isDigit d then rest.dropWhile Numeral.isDigit
    else c :: d :: rest
  | cs => cs

/-- Takes a time of day from the front. -/
def clock? (cs : List Char) : Option (List Char) := do
  let (hour, cs) ← number? true cs
  let (minute, cs) ← number? false (← mark? ':' cs)
  let (second, cs) ← number? false (← mark? ':' cs)
  if 24 ≤ hour || 60 ≤ minute || 60 ≤ second then failure
  return dropFraction cs

/-- Takes the distance to universal time from the front. -/
def zone? (cs : List Char) : Option (List Char) :=
  match cs with
  | 'Z' :: rest => some rest
  | sign :: rest => do
    if sign != '+' && sign != '-' then failure
    let (hour, cs) ← number? false rest
    let (minute, cs) ← number? false (← mark? ':' cs)
    if 24 < hour || 60 < minute then failure
    return cs
  | [] => none

def hours? (cs : List Char) : Option (List Char) := do
  let (hour, cs) ← number? true cs
  let (minute, cs) ← number? true (← mark? ':' cs)
  if 24 ≤ hour || 60 ≤ minute then failure
  return cs

/-- What follows the date of a timestamp: nothing, or a time of day. -/
def afterDate? (cs : List Char) : Option (List Char) :=
  match cs with
  | [] => some []
  | 'T' :: rest | 't' :: rest => (clock? rest).bind zone?
  | ' ' :: rest => clock? (rest.dropWhile (· == ' '))
  | _ => none

def isTimestamp (cs : List Char) : Bool :=
  (date? cs).bind afterDate? == some [] || hours? cs == some []

end HdlExpr.Yaml.Timestamp
