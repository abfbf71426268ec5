import Pipeline.Yaml.Moment
import Pipeline.Yaml.Scalar
import Pipeline.Text.Base64
import Pipeline.Text.Case

namespace Pipeline.Yaml

inductive Tag where
  | null
  | bool
  | int
  | float
  | text
  | bytes
  | moment
  | merge
  | value
  | sequence
  | mapping
  | set
  | orderedMapping
  | pairs
  | unknown
deriving DecidableEq

namespace Tag

open Number Number.Read

def stem : String := "tag:yaml.org,2002:"

def names : List (String × Tag) :=
  [("null", null), ("bool", bool), ("int", int), ("float", float), ("str", text),
   ("binary", bytes), ("timestamp", moment), ("merge", merge), ("value", value),
   ("seq", sequence), ("map", mapping), ("set", set), ("omap", orderedMapping), ("pairs", pairs)]

def ofUri (s : String) : Tag :=
  match names.find? fun e => stem ++ e.1 == s with
  | some e => e.2
  | none => unknown

def isDigitOr (base : Nat) (c : Char) : Bool := isDigit base c || c == '_'

def allOf (p : Char → Bool) (cs : List Char) : Bool := !cs.isEmpty && cs.all p

def isGrouped (cs : List Char) : Bool :=
  match cs with
  | c :: rest => c.isDigit && rest.all (isDigitOr 10)
  | [] => false

def isSixtieth (cs : List Char) : Bool :=
  match cs with
  | [c] => c.isDigit
  | [a, b] => '0' ≤ a && a ≤ '5' && b.isDigit
  | _ => false

def colonParts (cs : List Char) : List (List Char) := cs.splitOn ':'

/-- A number to the base sixty: `lead` tells about its first part, `last` about its last one. -/
def isSexagesimal (lead last : List Char → Bool) (cs : List Char) : Bool :=
  match colonParts cs with
  | first :: second :: more =>
    lead first && ((second :: more).dropLast.all isSixtieth) &&
      last ((second :: more).getLastD [])
  | _ => false

def isMarked (mark : Char) (base : Nat) (cs : List Char) : Bool :=
  match cs with
  | '0' :: c :: rest => c == mark && allOf (isDigitOr base) rest
  | _ => false

def isInt (old : Bool) (cs : List Char) : Bool :=
  let ds := (signOf cs).2
  cs.headD ' ' != '_' &&
    (isMarked 'b' 2 ds || isMarked 'x' 16 ds ||
      if old then
        allOf (isDigitOr 8) ds || ds == ['0'] || (isGrouped ds && ds.headD '0' != '0') ||
          isSexagesimal (fun p => isGrouped p && p.headD '0' != '0') isSixtieth ds
      else isMarked 'o' 8 ds || allOf (isDigitOr 10) ds)

def isExponent (signed : Bool) (cs : List Char) : Bool :=
  match cs with
  | e :: rest =>
    (e == 'e' || e == 'E') && allOf Char.isDigit (signOf rest).2 &&
      (!signed || (signOf rest).2.length != rest.length)
  | [] => false

def isReal (old : Bool) (cs : List Char) : Bool :=
  let ds := (signOf cs).2
  let whole := ds.takeWhile (isDigitOr 10)
  match ds.dropWhile (isDigitOr 10) with
  | '.' :: rest =>
    let power := rest.dropWhile (isDigitOr 10)
    if whole.isEmpty then
      !(rest.takeWhile (isDigitOr 10)).isEmpty && (power.isEmpty || isExponent true power) &&
        (!old || ds.length == cs.length)
    else isGrouped whole && (power.isEmpty || isExponent false power)
  | rest => isGrouped whole && isExponent false rest

def infinityNames : List String := [".inf", ".Inf", ".INF"]

def nanNames : List String := [".nan", ".NaN", ".NAN"]

def isNamedFloat (cs : List Char) : Bool :=
  infinityNames.contains (String.ofList (signOf cs).2) || nanNames.contains (String.ofList cs)

def isSixtiethReal (cs : List Char) : Bool :=
  isSixtieth (cs.takeWhile (· != '.')) &&
    match cs.dropWhile (· != '.') with
    | '.' :: rest => rest.all (isDigitOr 10)
    | _ => false

def isFloat (old : Bool) (cs : List Char) : Bool :=
  isReal old cs || isNamedFloat cs ||
    (old && isSexagesimal isGrouped isSixtiethReal (signOf cs).2)

def nullWords : List String := ["", "~", "null", "Null", "NULL"]

def boolWords : List String := ["true", "True", "TRUE", "false", "False", "FALSE"]

def oldBoolWords : List String :=
  ["y", "Y", "yes", "Yes", "YES", "n", "N", "no", "No", "NO", "on", "On", "ON", "off", "Off", "OFF"]

def isMoment (cs : List Char) : Bool :=
  match Moment.read cs with
  | some m => m.full || m.clock.isSome
  | none => false

/-- One line feed at the end of a text does not matter for its kind. -/
def spelling (cs : List Char) : List Char :=
  if 1 < cs.length ∧ cs.getLastD ' ' = '\n' then cs.dropLast else cs

def ofPlain (version : Nat × Nat) (text : List Char) : Except Fault Tag :=
  let old := version == (1, 1)
  let cs := spelling text
  let s := String.ofList cs
  if version.1 ≠ 1 ∨ (version.2 ≠ 1 ∧ version.2 ≠ 2) then
    .error (.unknownVersion version.1 version.2)
  else if boolWords.contains s ∨ (old ∧ oldBoolWords.contains s) then .ok bool
  else if isFloat old cs then .ok float
  else if isInt old cs then .ok int
  else if s = "<<" then .ok merge
  else if nullWords.contains s then .ok null
  else if isMoment cs then .ok moment
  else if s = "=" then .ok value
  else .ok Tag.text

def truthWords : List (String × Bool) :=
  [("yes", true), ("no", false), ("y", true), ("n", false), ("true", true), ("false", false),
   ("on", true), ("off", false)]

def boolOf (s : String) : Except Fault Bool :=
  let word := Text.Case.lower s
  match truthWords.lookup word with
  | some b => .ok b
  | none => .error (.unknownWord word)

def ungrouped (s : String) : String := String.ofList (s.toList.filter (· ≠ '_'))

def integerOf (base : Nat) (s : String) : Except Fault Int :=
  (integer base s).mapError fun
    | .malformed => .badInteger base s
    | .tooLong n => .tooLong n

def sexagesimal (parts : List Int) : Int := parts.foldl (fun n d => 60 * n + d) 0

/-- The sign of a number is its own; without one a number cannot be empty. -/
def signed (s : String) : Except Fault (Bool × String) :=
  if s = "" then .error .emptyNumber
  else
    let (negative, cs) := signOf s.toList
    .ok (negative, String.ofList cs)

def intOf (version : Nat × Nat) (s : String) : Except Fault Int := do
  let (negative, digits) ← signed (ungrouped s)
  let old := version == (1, 1)
  let n ← match digits.toList with
    | ['0'] => pure 0
    | '0' :: 'b' :: rest => integerOf 2 (String.ofList rest)
    | '0' :: 'x' :: rest => integerOf 16 (String.ofList rest)
    | '0' :: 'o' :: rest => integerOf 8 (String.ofList rest)
    | cs =>
      if old ∧ cs.isEmpty then throw .emptyNumber
      else if old ∧ cs.headD ' ' = '0' then integerOf 8 digits
      else if old ∧ cs.contains ':' then
        return sexagesimal (← (colonParts cs).mapM fun p => integerOf 10 (String.ofList p)) *
          if negative then -1 else 1
      else integerOf 10 digits
  return if negative then -n else n

def realOf (s : String) : Except Fault Binary64 :=
  match real? s with
  | some x => .ok x
  | none => .error (.badReal s)

/-- The value of parts to the base sixty. Each step is rounded as sums and products of binary
numbers are. -/
def sexagesimalReal (parts : List Binary64) : Binary64 :=
  (parts.reverse.foldl (fun (acc : Float × Float) x =>
    (acc.1 + Float.ofBits x.bits * acc.2, acc.2 * 60)) (0, 1)).1.toBits |> Binary64.mk

def floatOf (version : Nat × Nat) (s : String) : Except Fault Binary64 := do
  let (negative, digits) ← signed (Text.Case.lower (ungrouped s))
  let old := version != (1, 2)
  let cs := digits.toList
  let x ←
    if digits = ".inf" then pure (Binary64.infinity false)
    else if digits = ".nan" then pure Binary64.nan
    else if old ∧ cs.contains ':' then
      pure (sexagesimalReal (← (colonParts cs).mapM fun p => realOf (String.ofList p)))
    else if old ∧ 1 < cs.count 'e' then throw .secondExponent
    else realOf digits
  return if negative then x.negated else x

def read (version : Nat × Nat) (t : Tag) (s : String) : Except Fault Value :=
  match t with
  | null => .ok .null
  | bool => (boolOf s).map .bool
  | int => (intOf version s).map .int
  | float => (floatOf version s).map .float
  | text => .ok (.text s)
  | bytes =>
    match Text.Base64.bytes? s.toList with
    | some content => if s.toList.all (·.toNat < 128) then .ok (.foreign (.bytes content))
      else .error .malformed
    | none => .error .malformed
  | moment =>
    match Moment.read (spelling s.toList) with
    | some m => m.value.mapError .moment
    | none => .error .malformed
  | value | merge | sequence | mapping | set | orderedMapping | pairs | unknown =>
    .error .malformed

/-- Kinds whose members are read later than the scalars beside them. -/
def isCollection (t : Tag) : Bool :=
  t == sequence || t == mapping || t == set || t == orderedMapping || t == pairs

end Tag

end Pipeline.Yaml
