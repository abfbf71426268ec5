import Pipeline.Template.Basic
import Pipeline.Value.Literal

namespace Pipeline.Template

open Number Number.Decimal

inductive Fault where
  | incomplete
  | incompleteKey
  | needsMapping
  /-- A list serves no keys. -/
  | keyOfList
  | missingKey (key : String)
  | tooFew
  | leftOver
  | starNeedsInt
  | starWidthTooBig
  | starPrecisionTooBig
  | widthTooBig
  | precisionTooBig
  | notNumber (letter : Char) (kind : String)
  | notInteger (letter : Char) (kind : String)
  | notReal (kind : String)
  | infiniteToInt
  | nanToInt
  | intTooLarge
  | notCharacter
  | characterRange
  | unknownLetter (letter : Char) (place : Nat)
  | unshown (f : Value.Fault)
deriving DecidableEq

namespace Fault

def hexText (n : Nat) : String := String.ofList (Nat.toDigits 16 n)

def shown (c : Char) : Char := if 31 ≤ c.toNat ∧ c.toNat ≤ 126 then c else '?'

def message : Fault → String
  | incomplete => "incomplete format"
  | incompleteKey => "incomplete format key"
  | needsMapping => "format requires a mapping"
  | keyOfList => "list indices must be integers or slices, not str"
  | missingKey k => Text.Quoted.quoted k
  | tooFew => "not enough arguments for format string"
  | leftOver => "not all arguments converted during string formatting"
  | starNeedsInt => "* wants int"
  | starWidthTooBig => "Python int too large to convert to C ssize_t"
  | starPrecisionTooBig => "Python int too large to convert to C int"
  | widthTooBig => "width too big"
  | precisionTooBig => "precision too big"
  | notNumber c k => "%" ++ c.toString ++ " format: a real number is required, not " ++ k
  | notInteger c k => "%" ++ c.toString ++ " format: an integer is required, not " ++ k
  | notReal k => "must be real number, not " ++ k
  | infiniteToInt => "cannot convert float infinity to integer"
  | nanToInt => "cannot convert float NaN to integer"
  | intTooLarge => "int too large to convert to float"
  | notCharacter => "%c requires int or char"
  | characterRange => "%c arg not in range(0x110000)"
  | unknownLetter c i =>
    "unsupported format character '" ++ (shown c).toString ++ "' (0x" ++ hexText c.toNat ++
      ") at index " ++ toString i
  | unshown f => f.message

end Fault

/-- Values not used yet: a row of them, one alone, or none because the one was used. -/
inductive Pending where
  | row (values : List Value)
  | alone (v : Value)
  | used

inductive Source where
  | none
  | entries (es : List (String × Value))
  | list

def Source.isSome : Source → Bool
  | none => false
  | entries _ | list => true

structure Arguments where
  source : Source
  pending : Pending

namespace Arguments

/-- Keys of a template are texts, so other entries are never looked up. -/
def named? : Value × Value → Option (String × Value)
  | (.text k, v) => some (k, v)
  | _ => none

def ofValue (v : Value) : Arguments :=
  match v with
  | .tuple values => ⟨.none, .row values⟩
  | .dict es => ⟨.entries es, .alone v⟩
  | .mapping es => ⟨.entries (es.filterMap named?), .alone v⟩
  | .list _ => ⟨.list, .alone v⟩
  | _ => ⟨.none, .alone v⟩

def next (a : Arguments) : Except Fault (Value × Arguments) :=
  match a.pending with
  | .row (v :: rest) => .ok (v, { a with pending := .row rest })
  | .alone v => .ok (v, { a with pending := .used })
  | .row [] | .used => .error .tooFew

def select (a : Arguments) (key : Key) : Except Fault Arguments :=
  match key with
  | .absent => .ok a
  | .unclosed => if a.source.isSome then .error .incompleteKey else .error .needsMapping
  | .named k =>
    match a.source with
    | .none => .error .needsMapping
    | .list => .error .keyOfList
    | .entries es =>
      match es.lookup k with
      | none => .error (.missingKey k)
      | some v => .ok { a with pending := .alone v }

def isUsed (a : Arguments) : Bool :=
  match a.pending with
  | .row values => values.isEmpty
  | .alone _ => false
  | .used => true

end Arguments

structure Layout where
  leftAlign : Bool
  showSign : Bool
  spaceSign : Bool
  alternate : Bool
  zeroFill : Bool
  width : Nat
  precision : Option Nat

/-- A shown value: sign and mark of the base come before the zeros that fill its width. -/
structure Shown where
  lead : List Char
  body : List Char
  numeric : Bool

def padded (l : Layout) (s : Shown) : List Char :=
  let missing := l.width - (s.lead.length + s.body.length)
  if l.leftAlign then s.lead ++ s.body ++ List.replicate missing ' '
  else if l.zeroFill && s.numeric then s.lead ++ List.replicate missing '0' ++ s.body
  else List.replicate missing ' ' ++ s.lead ++ s.body

def signOf (l : Layout) (negative : Bool) : List Char :=
  if negative then ['-'] else if l.showSign then ['+'] else if l.spaceSign then [' '] else []

def showText (l : Layout) (s : String) : Shown :=
  let cs := s.toList
  ⟨[], match l.precision with | some n => cs.take n | none => cs, false⟩

def wholeOf (letter : Char) (v : Value) : Except Fault Int :=
  match v with
  | .float x =>
    if x.isNaN then .error .nanToInt
    else if x.isInfinite then .error .infiniteToInt
    else .ok x.truncate
  | _ => match v.int? with
    | some n => .ok n
    | none => .error (.notNumber letter v.kind)

def showInt (l : Layout) (letter : Char) (n : Int) : Shown :=
  let base := if letter = 'o' then 8 else if letter = 'x' ∨ letter = 'X' then 16 else 10
  let digits := Nat.toDigits base n.natAbs
  let digits := if letter = 'X' then digits.map Char.toUpper else digits
  let digits := zeros (l.precision.getD 1 - digits.length) ++ digits
  let mark := if l.alternate && base != 10 then ['0', letter] else []
  ⟨signOf l (n < 0) ++ mark, digits, true⟩

def realOf (v : Value) : Except Fault Binary64 :=
  match v with
  | .float x => .ok x
  | _ => match v.int? with
    | some n =>
      let x := Binary64.ofInt n
      if x.isFinite then .ok x else .error .intTooLarge
    | none => .error (.notReal v.kind)

def showReal (l : Layout) (letter : Char) (x : Binary64) : Shown :=
  let places := l.precision.getD 6
  let lower := letter.toLower
  let magnitude :=
    if x.isNaN then ['n', 'a', 'n']
    else if x.isInfinite then ['i', 'n', 'f']
    else if lower = 'f' then fixed x places l.alternate
    else if lower = 'e' then scientific x places l.alternate 'e'
    else general x places l.alternate 'e'
  let magnitude := if letter = lower then magnitude else magnitude.map Char.toUpper
  ⟨signOf l (x.isNegative && !x.isNaN), magnitude, true⟩

def characterOf (v : Value) : Except Fault Char :=
  match v with
  | .text s => match s.toList with
    | [c] => .ok c
    | _ => .error .notCharacter
  | _ => match v.int? with
    | some n => if 0 ≤ n ∧ n < 0x110000 then .ok (Char.ofNat n.toNat) else .error .characterRange
    | none => .error .notCharacter

def asciiOf (s : String) : String :=
  String.ofList (s.toList.flatMap fun c => if c.toNat < 128 then [c] else Text.Quoted.escaped c)

def showMade (l : Layout) (s : Except Value.Fault String) : Except Fault Shown :=
  (s.mapError .unshown).map (showText l)

def shownBy (l : Layout) (letter : Char) (place : Nat) (v : Value) : Except Fault Shown :=
  if letter = 's' then showMade l (v.plain none)
  else if letter = 'r' then showMade l (v.literal none)
  else if letter = 'a' then showMade l ((v.literal none).map asciiOf)
  else if letter = 'd' ∨ letter = 'i' ∨ letter = 'u' then do
    let n ← wholeOf letter v
    let _ ← (Value.digits n).mapError .unshown
    return showInt l letter n
  else if letter = 'o' ∨ letter = 'x' ∨ letter = 'X' then
    match v.int? with
    | some n => .ok (showInt l letter n)
    | none => .error (.notInteger letter v.kind)
  else if "eEfFgG".toList.contains letter then (realOf v).map (showReal l letter)
  else if letter = 'c' then (characterOf v).map fun c => ⟨[], [c], false⟩
  else .error (.unknownLetter letter place)

def widthLimit : Nat := 0x7fffffffffffffff

def precisionLimit : Nat := 0x7fffffff

def starOf (a : Arguments) : Except Fault (Int × Arguments) := do
  let (v, a) ← a.next
  match v.int? with
  | some n => return (n, a)
  | none => throw .starNeedsInt

def widthOf (w : Amount) (a : Arguments) : Except Fault (Int × Arguments) :=
  match w with
  | .absent => .ok (0, a)
  | .given n => if widthLimit < n then .error .widthTooBig else .ok (n, a)
  | .star => do
    let (n, a) ← starOf a
    if widthLimit < n.natAbs then throw .starWidthTooBig
    return (n, a)

def precisionFor (p : Amount) (a : Arguments) : Except Fault (Option Nat × Arguments) :=
  match p with
  | .absent => .ok (none, a)
  | .given n => if precisionLimit < n then .error .precisionTooBig else .ok (some n, a)
  | .star => do
    let (n, a) ← starOf a
    if precisionLimit < n.natAbs then throw .starPrecisionTooBig
    return (some n.toNat, a)

/-- The text of one directive, and the values left. With keys, the value of a directive must be
used by it. -/
def fillDirective (d : Directive) (a : Arguments) : Except Fault (List Char × Arguments) := do
  let a ← a.select d.key
  let (w, a) ← widthOf d.width a
  let (p, a) ← precisionFor d.precision a
  let some letter := d.letter | throw .incomplete
  let layout : Layout :=
    { leftAlign := d.has '-' || w < 0, showSign := d.has '+', spaceSign := d.has ' '
      alternate := d.has '#', zeroFill := d.has '0', width := w.natAbs, precision := p }
  -- an unknown letter takes its value first
  let (v, a) ← a.next
  let shown ← shownBy layout letter d.place v
  if a.source.isSome && !a.isUsed then throw .leftOver
  return (padded layout shown, a)

def fillPieces (a : Arguments) : List Piece → Except Fault (List Char)
  | [] => if !a.source.isSome && !a.isUsed then .error .leftOver else .ok []
  | .literal c :: rest => (fillPieces a rest).map (c :: ·)
  | .directive d :: rest => do
    let (text, a) ← fillDirective d a
    return text ++ (← fillPieces a rest)

def fill (template : String) (v : Value) : Except Fault String :=
  (fillPieces (.ofValue v) (read template)).map String.ofList

end Pipeline.Template
