import Pipeline.Number.Binary64

namespace Pipeline.Number.Decimal

open Binary64

def digitChars (n : Nat) : List Char := Nat.toDigits 10 n

def zeros (n : Nat) : List Char := List.replicate n '0'

def tenPower (k : Int) : Nat × Nat :=
  if 0 ≤ k then (Nat.pow 10 k.toNat, 1) else (1, Nat.pow 10 (-k).toNat)

def leadingExponent (n d : Nat) : Int := ((digitChars (n * Nat.pow 10 400 / d)).length : Int) - 401

/-- The reals that round to a positive number, in quarters of a unit of its last binary place:
the lower end, the number, the upper end, and the size of a quarter as a fraction. -/
structure Interval where
  low : Nat
  mid : Nat
  high : Nat
  unit : Nat × Nat
  closed : Bool

def interval (x : Binary64) : Interval where
  low := if x.mantissa = hiddenBit ∧ -1074 < x.power then 4 * x.mantissa - 1
    else 4 * x.mantissa - 2
  mid := 4 * x.mantissa
  high := 4 * x.mantissa + 2
  unit := scaled 1 1 (2 - x.power)
  closed := x.mantissa % 2 == 0

def Interval.holds (i : Interval) (c a b : Nat) : Bool :=
  let point := c * a * i.unit.2
  let low := i.low * i.unit.1 * b
  let high := i.high * i.unit.1 * b
  if i.closed then low ≤ point && point ≤ high else low < point && point < high

/-- The neighbour of the number on the grid of multiples of `10 ^ k` that lies in the interval;
of two the nearer, of two equally near ones the even. -/
def Interval.onGrid (i : Interval) (k : Int) : Option Nat :=
  let a := (tenPower k).1
  let b := (tenPower k).2
  let below := i.mid * i.unit.1 * b / (a * i.unit.2)
  match i.holds below a b, i.holds (below + 1) a b with
  | false, false => none
  | true, false => some below
  | false, true => some (below + 1)
  | true, true =>
    let twice := 2 * (i.mid * i.unit.1 * b)
    let middle := (2 * below + 1) * a * i.unit.2
    if twice < middle ∨ (twice = middle ∧ below % 2 = 0) then some below else some (below + 1)

/-- Digits and exponent of the last digit of the shortest decimal that reads back as a positive
number: the first grid with a point in the interval, from one digit on. A point that carries into
the next power of ten ends in zeros. -/
def shortest (x : Binary64) : Nat × Int :=
  let first := leadingExponent x.ratio.1 x.ratio.2
  let found := (List.range 17).findSome? fun (count : Nat) =>
    ((interval x).onGrid (first - count)).map (·, first - count)
  found.getD (x.mantissa, 0)

/-- Where a shortest decimal has no exponent: the point stands at most four places before the
first digit and at most sixteen after it. -/
def isPositional (point : Int) : Bool := -4 < point && point ≤ 16

def positional (ds : List Char) (point : Int) : List Char :=
  if point ≤ 0 then ['0', '.'] ++ zeros (-point).toNat ++ ds
  else if ds.length ≤ point.toNat then ds ++ zeros (point.toNat - ds.length) ++ ['.', '0']
  else ds.take point.toNat ++ ['.'] ++ ds.drop point.toNat

def exponent (mark : Char) (e : Int) : List Char :=
  let ds := digitChars e.natAbs
  [mark, if e < 0 then '-' else '+'] ++ zeros (2 - ds.length) ++ ds

def withPoint (ds : List Char) (keepPoint : Bool) : List Char :=
  match ds with
  | [] => []
  | [d] => if keepPoint then [d, '.'] else [d]
  | d :: rest => d :: '.' :: rest

def trimmed (ds : List Char) : List Char :=
  match (ds.reverse.dropWhile (· == '0')).reverse with
  | [] => ds.take 1
  | rest => rest

def shortestChars (x : Binary64) : List Char :=
  if x.isZero then ['0', '.', '0']
  else
    let found := shortest x
    let point := found.2 + (digitChars found.1).length
    let ds := trimmed (digitChars found.1)
    if isPositional point then positional ds point
    else withPoint ds false ++ exponent 'e' (point - 1)

def signed (x : Binary64) (magnitude : List Char) : List Char :=
  if x.isNegative then '-' :: magnitude else magnitude

def text (x : Binary64) : String :=
  if x.isNaN then "nan"
  else if x.isInfinite then String.ofList (signed x ['i', 'n', 'f'])
  else String.ofList (signed x (shortestChars x))

/-- Behind this many places every number is exact, as the smallest is `2 ^ -1074`; behind 767
digits too. -/
def exactPlaces : Nat := 1074

def fixed (x : Binary64) (places : Nat) (keepPoint : Bool) : List Char :=
  let near := min places exactPlaces
  let ds := digitChars (roundHalfEven (x.ratio.1 * Nat.pow 10 near) x.ratio.2)
  let ds := zeros (near + 1 - ds.length) ++ ds
  let whole := ds.take (ds.length - near)
  if places = 0 then (if keepPoint then whole ++ ['.'] else whole)
  else whole ++ ['.'] ++ ds.drop (ds.length - near) ++ zeros (places - near)

def leading (x : Binary64) (places : Nat) : Nat × Int :=
  if x.isZero then (0, 0)
  else
    let first := leadingExponent x.ratio.1 x.ratio.2
    let grid := tenPower (first - places)
    let ds := roundHalfEven (x.ratio.1 * grid.2) (x.ratio.2 * grid.1)
    if Nat.pow 10 (places + 1) ≤ ds then (ds / 10, first + 1) else (ds, first)

/-- The digits of `leading`, up to where they are exact and zeros from there on. -/
def leadingDigits (x : Binary64) (places : Nat) : List Char × Int :=
  let found := leading x (min places exactPlaces)
  let ds := digitChars found.1
  (ds ++ zeros (places + 1 - ds.length), found.2)

def scientific (x : Binary64) (places : Nat) (keepPoint : Bool) (mark : Char) : List Char :=
  let found := leadingDigits x places
  withPoint found.1 keepPoint ++ exponent mark found.2

/-- `count` significant digits, positional while the exponent is at least -4 and below `count`;
zeros at the end stay only with `keepZeros`. -/
def general (x : Binary64) (count : Nat) (keepZeros : Bool) (mark : Char) : List Char :=
  let count := max count 1
  let found := leadingDigits x (count - 1)
  let e := found.2
  let ds := if keepZeros then found.1 else trimmed found.1
  if -4 ≤ e ∧ e < count then
    if e < 0 then ['0', '.'] ++ zeros (-e - 1).toNat ++ ds
    else
      let ds := ds ++ zeros (e.toNat + 1 - ds.length)
      if ds.length ≤ e.toNat + 1 then (if keepZeros then ds ++ ['.'] else ds)
      else ds.take (e.toNat + 1) ++ ['.'] ++ ds.drop (e.toNat + 1)
  else withPoint ds keepZeros ++ exponent mark e

end Pipeline.Number.Decimal
