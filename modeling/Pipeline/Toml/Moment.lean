import Pipeline.Calendar
import Pipeline.Toml.Basic
import Pipeline.Value.Basic

namespace Pipeline.Toml.Moment

open Number.Read

def field (width low high : Nat) (cs : List Char) : Option (Nat × List Char) :=
  let ds := cs.take width
  let n := natOf 10 ds
  if ds.length = width ∧ ds.all Char.isDigit ∧ low ≤ n ∧ n ≤ high then some (n, cs.drop width)
  else none

def after (c : Char) (cs : List Char) : Option (List Char) :=
  match cs with
  | d :: rest => if d = c then some rest else none
  | [] => none

def date (cs : List Char) : Option (List Char) := do
  let (year, cs) ← field 4 1 9999 cs
  let (month, cs) ← field 2 1 12 (← after '-' cs)
  let (_, cs) ← field 2 1 (Calendar.daysIn year month) (← after '-' cs)
  return cs

def time (cs : List Char) : Option (List Char) := do
  let (_, cs) ← field 2 0 23 cs
  let (_, cs) ← field 2 0 59 (← after ':' cs)
  let (_, cs) ← field 2 0 59 (← after ':' cs)
  match cs with
  | '.' :: d :: rest => if d.isDigit then return rest.dropWhile Char.isDigit else return cs
  | _ => return cs

def hourAndMinute (cs : List Char) : Option (List Char) := do
  let (_, cs) ← field 2 0 23 cs
  let (_, cs) ← field 2 0 59 (← after ':' cs)
  return cs

def offset (cs : List Char) : List Char :=
  match cs with
  | 'Z' :: rest | 'z' :: rest => rest
  | c :: rest => if c = '+' ∨ c = '-' then (hourAndMinute rest).getD cs else cs
  | [] => []

def read (cs : List Char) : Option (Foreign × List Char) :=
  match date cs with
  | some [] => some (.date, [])
  | some (c :: rest) =>
    if c = 'T' ∨ c = 't' ∨ c = ' ' then
      match time rest with
      | some rest => some (.moment, offset rest)
      | none => some (.date, c :: rest)
    else some (.date, c :: rest)
  | none => (time cs).map (.timeOfDay, ·)

end Pipeline.Toml.Moment
