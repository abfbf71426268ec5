import Pipeline.Text.Printable

namespace Pipeline.Text.Quoted

open Pipeline.Text.Printable

def hex : Nat → Nat → List Char
  | 0, _ => []
  | width + 1, n => hex width (n / 16) ++ [Nat.digitChar (n % 16)]

/-- A numbered escape, with as many digits as the code point needs: two, four or eight. -/
def escaped (c : Char) : List Char :=
  let n := c.toNat
  if n < 0x100 then ['\\', 'x'] ++ hex 2 n
  else if n < 0x10000 then ['\\', 'u'] ++ hex 4 n
  else ['\\', 'U'] ++ hex 8 n

/-- One character between quotes `mark`; `visible` tells what stands as it is. -/
def quotedChar (visible : Char → Bool) (mark c : Char) : List Char :=
  if c = mark ∨ c = '\\' then ['\\', c]
  else if c = '\n' then ['\\', 'n']
  else if c = '\r' then ['\\', 'r']
  else if c = '\t' then ['\\', 't']
  else if visible c then [c]
  else escaped c

def mark (s : String) : Char :=
  if s.toList.contains '\x27' && !s.toList.contains '"' then '"' else '\x27'

def quotedBy (visible : Char → Bool) (s : String) : String :=
  String.ofList ([mark s] ++ s.toList.flatMap (quotedChar visible (mark s)) ++ [mark s])

def quoted (s : String) : String := quotedBy isPrintable s

end Pipeline.Text.Quoted
