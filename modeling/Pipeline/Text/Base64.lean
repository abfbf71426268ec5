namespace Pipeline.Text.Base64

def sextet? (c : Char) : Option Nat :=
  if 'A' ≤ c ∧ c ≤ 'Z' then some (c.toNat - 65)
  else if 'a' ≤ c ∧ c ≤ 'z' then some (c.toNat - 71)
  else if '0' ≤ c ∧ c ≤ '9' then some (c.toNat + 4)
  else if c = '+' then some 62
  else if c = '/' then some 63
  else none

/-- The bytes of the rest of a text, when `place` characters of the current group have been read,
their bits not yet written are `left`, and `pads` padding characters stand in front. A group that
stays incomplete has no bytes. -/
def bytesFrom (place left pads : Nat) : List Char → Option (List UInt8)
  | [] => if place = 0 then some [] else none
  | c :: rest =>
    if c = '=' then
      if 2 ≤ place then
        if 3 ≤ place + pads then some [] else bytesFrom place left (pads + 1) rest
      else bytesFrom place left pads rest
    else
      match sextet? c with
      | none => bytesFrom place left pads rest
      | some n =>
        if place = 0 then bytesFrom 1 n 0 rest
        else if place = 1 then
          (bytesFrom 2 (n % 16) 0 rest).map (UInt8.ofNat (left * 4 + n / 16) :: ·)
        else if place = 2 then
          (bytesFrom 3 (n % 4) 0 rest).map (UInt8.ofNat (left * 16 + n / 4) :: ·)
        else (bytesFrom 0 0 0 rest).map (UInt8.ofNat (left * 64 + n) :: ·)

def bytes? (cs : List Char) : Option (List UInt8) := bytesFrom 0 0 0 cs

end Pipeline.Text.Base64
