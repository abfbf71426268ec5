import Pipeline.Text.Blank

namespace Pipeline.Yaml

open Text.Blank

structure Cursor where
  rest : List Char
  index : Nat
  line : Nat
  column : Nat

/-- Characters that end a line; both separators stay in a text, the others become line feeds. -/
def isSeparator (c : Char) : Bool := c == '\u2028' || c == '\u2029'

def isBreak (c : Char) : Bool := c == '\n' || c == '\u0085' || isSeparator c

/-- Behind the last character of a text stands a null character. -/
def isEnd (c : Char) : Bool := c == '\x00'

def endsLine (c : Char) : Bool := c == '\n' || c == '\u0085' || isEnd c

def isEdge (c : Char) : Bool := isGap c || endsLine c

namespace Cursor

def unified : List Char → List Char
  | '\r' :: '\n' :: rest => '\n' :: unified rest
  | '\r' :: rest => '\n' :: unified rest
  | c :: rest => c :: unified rest
  | [] => []

def ofText (s : String) : Cursor := ⟨unified s.toList, 0, 0, 0⟩

def peek (c : Cursor) : Char := c.rest.headD '\x00'

def peekAt (c : Cursor) (i : Nat) : Char := (c.rest.drop i).headD '\x00'

/-- Behind the next character. A byte order mark takes no column. -/
def next (c : Cursor) : Cursor :=
  match c.rest with
  | [] => c
  | ch :: rest =>
    if isBreak ch then ⟨rest, c.index + 1, c.line + 1, 0⟩
    else if ch = '\ufeff' then ⟨rest, c.index + 1, c.line, c.column⟩
    else ⟨rest, c.index + 1, c.line, c.column + 1⟩

def skip : Nat → Cursor → Cursor
  | 0, c => c
  | n + 1, c => skip n c.next

def span (p : Char → Bool) (c : Cursor) : List Char × Cursor :=
  let cs := c.rest.takeWhile p
  (cs, c.skip cs.length)

def skipWhile (p : Char → Bool) (c : Cursor) : Cursor := (c.span p).2

def lineBreak? (c : Cursor) : Option (Char × Cursor) :=
  if isSeparator c.peek then some (c.peek, c.next)
  else if isBreak c.peek then some ('\n', c.next)
  else none

def startsWith (mark : String) (c : Cursor) : Bool :=
  c.rest.take 3 == mark.toList && isEdge (c.peekAt 3)

def atMarker (c : Cursor) : Bool := c.startsWith "---" || c.startsWith "..."

def skipComment (c : Cursor) : Cursor :=
  if c.peek = '#' then c.skipWhile (fun ch => !endsLine ch) else c

end Cursor

end Pipeline.Yaml
