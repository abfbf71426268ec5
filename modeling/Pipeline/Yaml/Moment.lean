import Pipeline.Calendar
import Pipeline.Value.Basic
import Pipeline.Number.Read

namespace Pipeline.Yaml.Moment

open Number.Read Text.Blank

structure Clock where
  hour : Nat
  minute : Nat
  second : Nat
  fraction : List Char
  /-- Minutes ahead of universal time, if a sign tells. -/
  ahead : Option Int

structure Spelled where
  year : Nat
  month : Nat
  day : Nat
  /-- Month and day have two digits each. -/
  full : Bool
  clock : Option Clock

def exactly (width : Nat) (cs : List Char) : Option (Nat × List Char) :=
  let ds := cs.take width
  if ds.length = width ∧ ds.all Char.isDigit then some (natOf 10 ds, cs.drop width) else none

def short (cs : List Char) : Option (Nat × Bool × List Char) :=
  match exactly 2 cs with
  | some (n, rest) => some (n, true, rest)
  | none => (exactly 1 cs).map fun r => (r.1, false, r.2)

def behind (c : Char) (cs : List Char) : Option (List Char) :=
  match cs with
  | d :: rest => if d = c then some rest else none
  | [] => none

def zone (cs : List Char) : Option (Option Int) :=
  match cs.dropWhile isGap with
  | [] => if cs.isEmpty then some none else none
  | ['Z'] => some none
  | c :: rest => do
    if c ≠ '+' ∧ c ≠ '-' then none
    let (hours, _, rest) ← short rest
    let minutes ← match rest with
      | [] => some 0
      | ':' :: rest => match exactly 2 rest with
        | some (n, []) => some n
        | _ => none
      | _ => none
    return some (intOf (c == '-') (hours * 60 + minutes))

def clock (cs : List Char) : Option Clock := do
  let (hour, _, rest) ← short cs
  let (minute, rest) ← exactly 2 (← behind ':' rest)
  let (second, rest) ← exactly 2 (← behind ':' rest)
  let (fraction, rest) := match rest with
    | '.' :: rest => (rest.takeWhile Char.isDigit, rest.dropWhile Char.isDigit)
    | _ => ([], rest)
  return ⟨hour, minute, second, fraction, ← zone rest⟩

def clockBehind (cs : List Char) : Option (Option Clock) :=
  match cs with
  | [] => some none
  | c :: rest =>
    if c = 'T' ∨ c = 't' then (clock rest).map some
    else if isGap c then (clock (rest.dropWhile isGap)).map some
    else none

def read (cs : List Char) : Option Spelled := do
  let (year, rest) ← exactly 4 cs
  let (month, fullMonth, rest) ← short (← behind '-' rest)
  let (day, fullDay, rest) ← short (← behind '-' rest)
  return ⟨year, month, day, fullMonth && fullDay, ← clockBehind rest⟩

/-- Millionths of a second; the seventh digit rounds, the digits behind it do not count. -/
def microsecond (fraction : List Char) : Nat :=
  let ds := fraction.take 6
  natOf 10 (ds ++ List.replicate (6 - ds.length) '0') +
    if '4' < (fraction.drop 6).headD '0' then 1 else 0

def Spelled.value (s : Spelled) : Except Calendar.Fault Value := do
  Calendar.checkDate s.year s.month s.day
  match s.clock with
  | none => return .foreign .date
  | some t =>
    Calendar.checkTime t.hour t.minute t.second (microsecond t.fraction)
    Calendar.checkShift (Calendar.dayNumber s.year s.month s.day) (t.hour * 60 + t.minute)
      (t.ahead.getD 0)
    return .foreign .moment

end Pipeline.Yaml.Moment
