namespace Pipeline.Number

structure Binary64 where
  bits : UInt64
deriving DecidableEq

namespace Binary64

def signBit : Nat := 0x8000000000000000

/-- The bit that leads a mantissa unless the exponent field is zero. -/
def hiddenBit : Nat := 0x10000000000000

def exponentField (x : Binary64) : Nat := x.bits.toNat / hiddenBit % 2048

def fraction (x : Binary64) : Nat := x.bits.toNat % hiddenBit

def isNegative (x : Binary64) : Bool := signBit ≤ x.bits.toNat

def isFinite (x : Binary64) : Bool := x.exponentField < 2047

def isNaN (x : Binary64) : Bool := !x.isFinite && x.fraction != 0

def isInfinite (x : Binary64) : Bool := !x.isFinite && x.fraction == 0

def isZero (x : Binary64) : Bool := x.exponentField == 0 && x.fraction == 0

def mantissa (x : Binary64) : Nat :=
  if x.exponentField = 0 then x.fraction else x.fraction + hiddenBit

def power (x : Binary64) : Int :=
  if x.exponentField = 0 then -1074 else x.exponentField - 1075

def ratio (x : Binary64) : Nat × Nat :=
  if 0 ≤ x.power then (x.mantissa * Nat.pow 2 x.power.toNat, 1)
  else (x.mantissa, Nat.pow 2 (-x.power).toNat)

def ofMagnitude (negative : Bool) (n : Nat) : Binary64 :=
  ⟨UInt64.ofNat (n + if negative then signBit else 0)⟩

def negated (x : Binary64) : Binary64 := ofMagnitude (!x.isNegative) (x.bits.toNat % signBit)

def infinity (negative : Bool) : Binary64 := ofMagnitude negative (2047 * hiddenBit)

def nan : Binary64 := ofMagnitude false (2047 * hiddenBit + hiddenBit / 2)

/-- The whole number nearest to `n / d`; of two equally near ones the even one. -/
def roundHalfEven (n d : Nat) : Nat :=
  let q := n / d
  let r := n % d
  if d < 2 * r ∨ (d = 2 * r ∧ q % 2 = 1) then q + 1 else q

def scaled (n d : Nat) (p : Int) : Nat × Nat :=
  if 0 ≤ p then (n, d * Nat.pow 2 p.toNat) else (n * Nat.pow 2 (-p).toNat, d)

/-- The number nearest to `n / d`, ties to the even mantissa, infinity beyond the largest. -/
def ofRatio (negative : Bool) (n d : Nat) : Binary64 :=
  if n = 0 then ofMagnitude negative 0
  else
    let p := max (-1074) ((n.log2 : Int) - d.log2 - 53)
    let p := if 2 * hiddenBit ≤ (scaled n d p).1 / (scaled n d p).2 then p + 1 else p
    let m := roundHalfEven (scaled n d p).1 (scaled n d p).2
    let magnitude :=
      if m < hiddenBit then m else (p + 1075).toNat * hiddenBit + (m - hiddenBit)
    if 2047 * hiddenBit ≤ magnitude then infinity negative else ofMagnitude negative magnitude

/-- The number nearest to `m * 10 ^ e`. Exponents far outside the range are not multiplied out. -/
def ofScientific (negative : Bool) (m : Nat) (e : Int) : Binary64 :=
  if m = 0 then ofMagnitude negative 0
  else if 400 < e then infinity negative
  else if e + (Nat.toDigits 10 m).length < -400 then ofMagnitude negative 0
  else if 0 ≤ e then ofRatio negative (m * Nat.pow 10 e.toNat) 1
  else ofRatio negative m (Nat.pow 10 (-e).toNat)

def ofInt (n : Int) : Binary64 := ofRatio (n < 0) n.natAbs 1

def isWhole (x : Binary64) : Bool := x.isFinite && x.ratio.1 % x.ratio.2 == 0

def truncate (x : Binary64) : Int :=
  let n : Int := ((x.ratio.1 / x.ratio.2 : Nat) : Int)
  if x.isNegative then -n else n

end Binary64

/-- A number of the extended line, exactly: `mantissa * 2 ^ power` or one of the infinities. -/
inductive Exact where
  | finite (mantissa power : Int)
  | infinite (negative : Bool)
deriving DecidableEq

namespace Exact

def ofInt (n : Int) : Exact := .finite n 0

def ofBinary64 (x : Binary64) : Option Exact :=
  if x.isNaN then none
  else if x.isInfinite then some (.infinite x.isNegative)
  else some (.finite (if x.isNegative then -(x.mantissa : Int) else x.mantissa) x.power)

def aligned (m p n q : Int) : Int × Int :=
  (m * Nat.pow 2 (p - min p q).toNat, n * Nat.pow 2 (q - min p q).toNat)

def lt : Exact → Exact → Bool
  | .finite m p, .finite n q => (aligned m p n q).1 < (aligned m p n q).2
  | .finite _ _, .infinite negative => !negative
  | .infinite negative, .finite _ _ => negative
  | .infinite a, .infinite b => a && !b

def same (a b : Exact) : Bool := !a.lt b && !b.lt a

end Exact

end Pipeline.Number
