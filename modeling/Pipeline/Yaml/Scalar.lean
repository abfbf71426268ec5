import Pipeline.Yaml.Cursor
import Pipeline.Yaml.Fault

namespace Pipeline.Yaml

open Number.Read Text.Blank

/-- The text of a scalar, unless it has code points that are no characters. -/
abbrev Content := Option (List Char)

def Content.append (a b : Content) : Content := do return (← a) ++ (← b)

/-- The lines between two words: `first` ends the line of the first word, `more` the lines below. -/
def folded (first : Char) (more : List Char) : List Char :=
  if first ≠ '\n' then first :: more
  else if more.isEmpty then [' ']
  else more

namespace Scalar

def isFlowMark (c : Char) : Bool :=
  c == ',' || c == ':' || c == '?' || c == '[' || c == ']' || c == '\x7b' || c == '\x7d'

/-- The characters of a plain scalar up to white space or an indicator. A colon belongs to them
unless an edge follows; a question mark always does by the new rules. -/
def plainRun (flow old : Bool) : List Char → List Char
  | [] => []
  | c :: rest =>
    if (c = ':' ∧ !isEdge (rest.headD '\x00')) ∨ (c = '?' ∧ !old) then c :: plainRun flow old rest
    else if isEdge c || c == ':' || (flow && isFlowMark c) then []
    else c :: plainRun flow old rest

def wordGap : Nat → Cursor → Option (List Char) × Cursor
  | 0, c => (some [], c)
  | fuel + 1, c =>
    if c.peek = ' ' then wordGap fuel c.next
    else match c.lineBreak? with
    | none => (some [], c)
    | some (b, c) =>
      if c.atMarker then (none, c)
      else
        let (more, c) := wordGap fuel c
        (more.map (b :: ·), c)

def plainGap (c : Cursor) : List Char × Cursor × Bool :=
  let (blanks, c) := c.span (· == ' ')
  match c.lineBreak? with
  | none => (blanks, c, false)
  | some (b, c) =>
    if c.atMarker then ([], c, true)
    else match wordGap (c.rest.length + 1) c with
    | (some more, c) => (folded b more, c, true)
    | (none, c) => ([], c, true)

/-- A plain scalar. Its lines stand at least at an indent unless brackets surround it. Tells also
whether it ended with its line. -/
def plain (flow old : Bool) (indent : Nat) : Nat → Cursor → List Char × Cursor × Bool
  | 0, c => ([], c, false)
  | fuel + 1, c =>
    let run := plainRun flow old c.rest
    let (gap, after, broke) := plainGap (c.skip run.length)
    if gap.isEmpty || after.peek == '#' || (!flow && after.column < indent) then
      (run, after, broke)
    else if (plainRun flow old after.rest).isEmpty then (run, after, broke)
    else
      let (more, after, broke) := plain flow old indent fuel after
      (run ++ gap ++ more, after, broke)

def letterEscape? (c : Char) : Option Char :=
  match c with
  | '0' => some '\x00'
  | 'a' => some '\x07'
  | 'b' => some '\x08'
  | 't' | '\t' => some '\t'
  | 'n' => some '\n'
  | 'v' => some '\x0b'
  | 'f' => some '\x0c'
  | 'r' => some '\r'
  | 'e' => some '\x1b'
  | ' ' => some ' '
  | '"' => some '"'
  | '/' => some '/'
  | '\\' => some '\\'
  | 'N' => some '\u0085'
  | '_' => some '\u00a0'
  | 'L' => some '\u2028'
  | 'P' => some '\u2029'
  | _ => none

def escapeWidth? (c : Char) : Option Nat :=
  match c with
  | 'x' => some 2
  | 'u' => some 4
  | 'U' => some 8
  | _ => none

def contentOf (n : Nat) : Except Fault Content :=
  if 0x110000 ≤ n then .error (.codePoint (0x80000000 ≤ n))
  else if n.isValidChar then .ok (some [Char.ofNat n])
  else .ok none

def quotedGap : Nat → Cursor → Except Fault (List Char × Cursor)
  | 0, _ => .error .malformed
  | fuel + 1, c =>
    if c.atMarker then .error .malformed
    else
      let c := c.skipWhile isGap
      match c.lineBreak? with
      | none => .ok ([], c)
      | some (b, c) => do
        let (more, c) ← quotedGap fuel c
        return (b :: more, c)

def escape (c : Cursor) : Except Fault (Content × Cursor) :=
  match letterEscape? c.peek, escapeWidth? c.peek, c.lineBreak? with
  | some e, _, _ => .ok (some [e], c.next)
  | none, some w, _ => do
    let ds := c.next.rest.take w
    if ds.length = w ∧ ds.all (isDigit 16) then
      return (← contentOf (natOf 16 ds), c.next.skip w)
    throw .malformed
  | none, none, some (_, c) => do
    let (more, c) ← quotedGap (c.rest.length + 1) c
    return (some more, c)
  | none, none, none => .error .malformed

def blanksBetween (c : Cursor) : Except Fault (List Char × Cursor) :=
  let (blanks, c) := c.span isGap
  if isEnd c.peek then .error .malformed
  else match c.lineBreak? with
  | none => .ok (blanks, c)
  | some (b, c) => do
    let (more, c) ← quotedGap (c.rest.length + 1) c
    return (folded b more, c)

def isOrdinary (c : Char) : Bool :=
  !(isGap c || isBreak c || isEnd c || c == '\x27' || c == '"' || c == '\\')

def quoted (double : Bool) : Nat → Cursor → Except Fault (Content × Cursor)
  | 0, _ => .error .malformed
  | fuel + 1, c => do
    let (run, c) := c.span isOrdinary
    let closing := if double then '"' else '\x27'
    if c.peek = closing ∧ (double ∨ c.peekAt 1 ≠ closing) then return (some run, c.next)
    let (piece, c) ←
      if c.peek = closing then pure (some [closing], c.skip 2)
      else if double ∧ c.peek = '\\' then escape c.next
      else if c.peek = '\x27' ∨ c.peek = '"' ∨ c.peek = '\\' then pure (some [c.peek], c.next)
      else do
        let (blanks, c) ← blanksBetween c
        pure (some blanks, c)
    let (more, c) ← quoted double fuel c
    return (Content.append (some run) (Content.append piece more), c)

/-- What becomes of the line ends behind the last line. -/
inductive Chomping where
  | strip
  | clip
  | keep
deriving DecidableEq

structure Header where
  chomping : Chomping
  increment : Option Nat

def chomping? (c : Char) : Option Chomping :=
  if c = '+' then some .keep else if c = '-' then some .strip else none

def increment? (c : Char) : Option Nat :=
  if '1' ≤ c ∧ c ≤ '9' then digit? 10 c else none

def header (c : Cursor) : Except Fault (Header × Cursor) := do
  let (h, c) := match chomping? c.peek, increment? c.peek with
    | some ch, _ => match increment? c.next.peek with
      | some n => (Header.mk ch (some n), c.skip 2)
      | none => (Header.mk ch none, c.next)
    | none, some n => match chomping? c.next.peek with
      | some ch => (Header.mk ch (some n), c.skip 2)
      | none => (Header.mk .clip (some n), c.next)
    | none, none => (Header.mk .clip none, c)
  if !(c.peek == ' ' || isBreak c.peek || isEnd c.peek) then throw .malformed
  let c := (c.skipWhile (· == ' ')).skipComment
  if isEnd c.peek then return (h, c)
  match c.lineBreak? with
  | some (_, c) => return (h, c)
  | none => throw .malformed

/-- Line ends and spaces in front of a block whose indent is not known yet, and the greatest
column that the spaces reach. -/
def leadingLines : Nat → Cursor → List Char × Nat × Cursor
  | 0, c => ([], 0, c)
  | fuel + 1, c =>
    if c.peek = ' ' then
      let (breaks, column, after) := leadingLines fuel c.next
      (breaks, max c.next.column column, after)
    else match c.lineBreak? with
    | none => ([], 0, c)
    | some (b, c) =>
      let (breaks, column, after) := leadingLines fuel c
      (b :: breaks, column, after)

def skipIndent (indent : Nat) : Nat → Cursor → Cursor
  | 0, c => c
  | fuel + 1, c => if c.column < indent ∧ c.peek = ' ' then skipIndent indent fuel c.next else c

def emptyLines (indent : Nat) : Nat → Cursor → List Char × Cursor
  | 0, c => ([], c)
  | fuel + 1, c =>
    let c := skipIndent indent (c.rest.length + 1) c
    match c.lineBreak? with
    | none => ([], c)
    | some (b, c) =>
      let (more, c) := emptyLines indent fuel c
      (b :: more, c)

/-- A line end between two lines of a block, of which `breaks` are empty lines behind it. A folded
block makes it a space or drops it between two lines that both start with text. -/
def joint (folds startsWithText nextStartsWithText : Bool) (b : List Char) (breaks : List Char) :
    List Char :=
  if folds && b == ['\n'] && startsWithText && nextStartsWithText then
    if breaks.isEmpty then [' '] else []
  else b

/-- The lines of a block, the end of the last one, and the empty lines behind it. At the top of a
document (`outer`) a marker ends the block. -/
def blockLines (folds outer : Bool) (indent : Nat) :
    Nat → List Char → Cursor → List Char × List Char × List Char × Cursor
  | 0, breaks, c => ([], [], breaks, c)
  | fuel + 1, breaks, c =>
    if c.column = indent ∧ !isEnd c.peek then
      let (line, after) := c.span (fun ch => !endsLine ch)
      let (b, after) := match after.lineBreak? with
        | some (b, after) => ([b], after)
        | none => ([], after)
      let (empty, after) := emptyLines indent (after.rest.length + 1) after
      if (outer && after.column == 0 && after.atMarker) || after.column != indent ||
          isEnd after.peek then
        (breaks ++ line, b, empty, after)
      else
        let (more, last, trailing, stop) := blockLines folds outer indent fuel empty after
        (breaks ++ line ++ joint folds (!isGap c.peek) (!isGap after.peek) b empty ++ more, last,
          trailing, stop)
    else ([], [], breaks, c)

def block (folds : Bool) (least : Nat) (c : Cursor) : Except Fault (List Char × Cursor) := do
  let (h, c) ← header c
  let fuel := c.rest.length + 1
  let (indent, breaks, c) := match h.increment with
    | none =>
      let (breaks, column, c) := leadingLines fuel c
      (max least column, breaks, c)
    | some n =>
      let indent := max least 1 + n - 1
      let (breaks, c) := emptyLines indent fuel c
      (indent, breaks, c)
  let (lines, last, trailing, c) :=
    blockLines folds (least == 0 && h.increment.isNone) indent fuel breaks c
  match h.chomping with
  | .strip => return (lines, c)
  | .clip => return (lines ++ last, c)
  | .keep => return (lines ++ last ++ trailing, c)

end Scalar

end Pipeline.Yaml
