import Pipeline.Number.Binary64
import Pipeline.Text.Blank
import Pipeline.Text.Digit

namespace Pipeline.Number.Read

def digit? (base : Nat) (c : Char) : Option Nat :=
  let n :=
    if '0' ≤ c ∧ c ≤ '9' then c.toNat - 48
    else if 'a' ≤ c ∧ c ≤ 'f' then c.toNat - 87
    else if 'A' ≤ c ∧ c ≤ 'F' then c.toNat - 55
    else 16
  if n < base then some n else none

def isDigit (base : Nat) (c : Char) : Bool := (digit? base c).isSome

def natOf (base : Nat) (cs : List Char) : Nat :=
  cs.foldl (fun n c => match digit? base c with | some d => base * n + d | none => n) 0

def signOf (cs : List Char) : Bool × List Char :=
  match cs with
  | '-' :: rest => (true, rest)
  | '+' :: rest => (false, rest)
  | _ => (false, cs)

def digitsOf (base : Nat) (cs : List Char) : List Char × List Char :=
  (cs.takeWhile (isDigit base), cs.dropWhile (isDigit base))

def intOf (negative : Bool) (n : Nat) : Int := if negative then -(n : Int) else n

def exponentOf (cs : List Char) : Option (Int × List Char) :=
  match cs with
  | c :: rest =>
    if c = 'e' ∨ c = 'E' then
      let (negative, rest) := signOf rest
      let (ds, rest) := digitsOf 10 rest
      if ds.isEmpty then none else some (intOf negative (natOf 10 ds), rest)
    else some (0, cs)
  | [] => some (0, [])

def decimal? (cs : List Char) : Option Binary64 := do
  let (negative, cs) := signOf cs
  let (whole, cs) := digitsOf 10 cs
  let (part, cs) := match cs with
    | '.' :: rest => digitsOf 10 rest
    | _ => ([], cs)
  if whole.isEmpty && part.isEmpty then none
  let (e, rest) ← exponentOf cs
  if rest.isEmpty then
    some (Binary64.ofScientific negative (natOf 10 (whole ++ part)) (e - part.length))
  else none

/-- White space around a number. Of ASCII the separators U+001C to U+001F do not belong to it. -/
def isMargin (c : Char) : Bool :=
  if c.toNat < 128 then c == ' ' || (9 ≤ c.toNat && c.toNat ≤ 13) else Text.Blank.isBlank c

def numeral (s : String) : List Char :=
  let front := s.toList.dropWhile isMargin
  ((front.reverse.dropWhile isMargin).reverse).map Text.Digit.toAscii

inductive IntegerFault where
  | malformed
  | tooLong (digits : Nat)
deriving DecidableEq

def digitLimit : Nat := 4300

def limitMessage (found : String) : String :=
  "Exceeds the limit (" ++ toString digitLimit ++ " digits) for integer string conversion" ++
    found ++ "; use sys.set_int_max_str_digits() to increase the limit"

def IntegerFault.limitMessage (digits : Nat) : String :=
  Read.limitMessage (": value has " ++ toString digits ++ " digits")

/-- A mark of the base in front of digits means nothing. -/
def unmarked (base : Nat) (cs : List Char) : List Char :=
  match cs with
  | '0' :: c :: rest =>
    if (base = 2 ∧ (c = 'b' ∨ c = 'B')) ∨ (base = 8 ∧ (c = 'o' ∨ c = 'O')) ∨
        (base = 16 ∧ (c = 'x' ∨ c = 'X')) then rest
    else cs
  | _ => cs

/-- The whole number of a base that a text holds. Whether it is too long is decided by the digits in
front, whatever follows them. -/
def integer (base : Nat) (s : String) : Except IntegerFault Int :=
  let (negative, cs) := signOf (numeral s)
  let (ds, rest) := digitsOf base (unmarked base cs)
  if base = 10 ∧ digitLimit < ds.length then .error (.tooLong ds.length)
  else if ds.isEmpty ∨ rest ≠ [] then .error .malformed
  else .ok (intOf negative (natOf base ds))

def infinityNames : List String := ["inf", "infinity"]

def named? (cs : List Char) : Option Binary64 :=
  let (negative, cs) := signOf cs
  let name := String.ofList (cs.map Char.toLower)
  if infinityNames.contains name then some (Binary64.infinity negative)
  else if name = "nan" then some Binary64.nan
  else none

def real? (s : String) : Option Binary64 := (decimal? (numeral s)).or (named? (numeral s))

end Pipeline.Number.Read
