import Pipeline.Toml.Basic
import Pipeline.Value.Basic

namespace Pipeline.Toml

open Number Number.Read

/-- A digit with the digits of a base behind it, single underscores between them, and the rest. -/
def moreDigits (base : Nat) (c : Char) : List Char → List Char × List Char
  | '_' :: d :: rest =>
    if isDigit base d then
      let more := moreDigits base d rest
      (c :: more.1, more.2)
    else ([c], '_' :: d :: rest)
  | d :: rest =>
    if isDigit base d then
      let more := moreDigits base d rest
      (c :: more.1, more.2)
    else ([c], d :: rest)
  | [] => ([c], [])

def groupedDigits (base : Nat) (cs : List Char) : List Char × List Char :=
  match cs with
  | c :: rest => if isDigit base c then moreDigits base c rest else ([], cs)
  | [] => ([], [])

def marked (base : Nat) (cs : List Char) : Except Fault (Value × List Char) :=
  let (ds, rest) := groupedDigits base cs
  if ds.isEmpty then .error .malformed else .ok (.int (natOf base ds), rest)

def fractionOf (cs : List Char) : List Char × List Char :=
  match cs with
  | '.' :: rest =>
    let (ds, after) := groupedDigits 10 rest
    if ds.isEmpty then ([], cs) else (ds, after)
  | _ => ([], cs)

def powerOf (cs : List Char) : Option Int × List Char :=
  match cs with
  | c :: rest =>
    if c = 'e' ∨ c = 'E' then
      let (negative, after) := signOf rest
      let (ds, after) := groupedDigits 10 after
      if ds.isEmpty then (none, cs) else (some (intOf negative (natOf 10 ds)), after)
    else (none, cs)
  | [] => (none, [])

def decimalNumber (cs : List Char) : Except Fault (Value × List Char) :=
  let (negative, after) := signOf cs
  let (whole, after) := match after with
    | '0' :: rest => (['0'], rest)
    | _ => groupedDigits 10 after
  if whole.isEmpty then .error .malformed
  else
    let (part, after) := fractionOf after
    let (power, after) := powerOf after
    if part.isEmpty && power.isNone then
      if digitLimit < whole.length then .error (.tooLong whole.length)
      else .ok (.int (intOf negative (natOf 10 whole)), after)
    else
      .ok (.float (Binary64.ofScientific negative (natOf 10 (whole ++ part))
        (power.getD 0 - part.length)), after)

def number (cs : List Char) : Except Fault (Value × List Char) :=
  let (negative, after) := signOf cs
  match after with
  | 'i' :: 'n' :: 'f' :: rest => .ok (.float (Binary64.infinity negative), rest)
  | 'n' :: 'a' :: 'n' :: rest => .ok (.float Binary64.nan, rest)
  | _ =>
    match cs with
    | '0' :: 'x' :: rest => marked 16 rest
    | '0' :: 'b' :: rest => marked 2 rest
    | '0' :: 'o' :: rest => marked 8 rest
    | _ => decimalNumber cs

end Pipeline.Toml
