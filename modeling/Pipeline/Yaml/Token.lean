import Pipeline.Yaml.Scalar
import Pipeline.Value.Basic

namespace Pipeline.Yaml

inductive Token where
  | version (major minor : Nat)
  | handle (name stem : String)
  | directive
  | documentStart
  | documentEnd
  | textEnd
  | blockSequenceStart
  | blockMappingStart
  | blockEnd
  | flowSequenceStart
  | flowSequenceEnd
  | flowMappingStart
  | flowMappingEnd
  | flowEntry
  | blockEntry
  | key
  | value
  | alias (name : String)
  | anchor (name : String)
  | tag (handle : Option String) (suffix : String)
  | scalar (content : Content) (plain : Bool)
  /-- A place where no token can be read. -/
  | broken (f : Fault)
deriving DecidableEq

namespace Token

open Number.Read

def isAnchorChar (c : Char) : Bool :=
  let n := c.toNat
  ((0x21 ≤ n && n ≤ 0x7e) || (0xa0 ≤ n && n ≤ 0xfffd && n != 0xfeff) || 0x10000 ≤ n) &&
    !(c == ',' || c == '[' || c == ']' || c == '\x7b' || c == '\x7d')

def endsAnchor (c : Char) : Bool :=
  isEdge c || isBreak c || c == ',' || c == '[' || c == ']' || c == '\x7b' || c == '\x7d'

def anchorName (c : Cursor) : Except Fault (String × Cursor) :=
  let (name, c) := c.next.span isAnchorChar
  if name.isEmpty || !endsAnchor c.peek then .error .malformed
  else .ok (String.ofList name, c)

def isHandleChar (c : Char) : Bool := c.isAlphanum || c == '-' || c == '_'

def isUriChar (old : Bool) (c : Char) : Bool :=
  c.isAlphanum || "-;/?:@&=+$,_.!~*'()[]".toList.contains c || (c == '#' && !old)

def percentBytes : Nat → List Char → Option (List UInt8 × List Char)
  | 0, cs => some ([], cs)
  | fuel + 1, cs =>
    match cs with
    | '%' :: a :: b :: rest =>
      if isDigit 16 a ∧ isDigit 16 b then
        (percentBytes fuel rest).map fun r => (UInt8.ofNat (natOf 16 [a, b]) :: r.1, r.2)
      else none
    | '%' :: _ => none
    | _ => some ([], cs)

/-- The text of a tag, of which percent escapes spell bytes. -/
def uri (old : Bool) : Nat → Cursor → Except Fault (List Char × Cursor)
  | 0, _ => .error .malformed
  | fuel + 1, c => do
    let (run, c) := c.span (isUriChar old)
    if c.peek ≠ '%' then return (run, c)
    match percentBytes c.rest.length c.rest with
    | none => throw .malformed
    | some (bytes, rest) =>
      match Foreign.decoded? bytes with
      | none => throw .malformed
      | some s =>
        let (more, c) ← uri old fuel (c.skip (c.rest.length - rest.length))
        return (run ++ s.toList ++ more, c)

def wholeUri (old : Bool) (c : Cursor) : Except Fault (String × Cursor) := do
  let (cs, after) ← uri old (c.rest.length + 1) c
  if after.index = c.index then throw .malformed
  return (String.ofList cs, after)

def handleName (c : Cursor) : Except Fault (String × Cursor) := do
  if c.peek ≠ '!' then throw .malformed
  if c.peekAt 1 = ' ' then return ("!", c.next)
  let (name, after) := c.next.span isHandleChar
  if after.peek ≠ '!' then throw .malformed
  return (String.ofList ('!' :: name ++ ['!']), after.next)

def endsPart (c : Char) : Bool := c == ' ' || isBreak c || isEnd c

def tagAt (old : Bool) (c : Cursor) : Except Fault (Token × Cursor) := do
  let (t, c) ←
    if c.peekAt 1 = '<' then do
      let (s, c) ← wholeUri old (c.skip 2)
      if c.peek ≠ '>' then throw .malformed
      pure (tag none s, c.next)
    else if isEdge (c.peekAt 1) then pure (tag none "!", c.next)
    else do
      let (h, c) ←
        if (c.next.rest.takeWhile fun ch => !endsPart ch).contains '!' then handleName c
        else pure ("!", c.next)
      let (s, c) ← wholeUri old c
      pure (tag (some h) s, c)
  if !endsPart c.peek then throw .malformed
  return (t, c)

def isDirectiveChar (c : Char) : Bool := isHandleChar c || c == ':' || c == '.'

def skipSpaces (c : Cursor) : Cursor := c.skipWhile (· == ' ')

def numberAt (c : Cursor) : Except Fault (Nat × Cursor) :=
  let (ds, c) := c.span Char.isDigit
  if ds.isEmpty then .error .malformed
  else if digitLimit < ds.length then .error (.tooLong ds.length)
  else .ok (natOf 10 ds, c)

def versionAt (c : Cursor) : Except Fault (Token × Cursor) := do
  let (major, c) ← numberAt (skipSpaces c)
  if c.peek ≠ '.' then throw .malformed
  let (minor, c) ← numberAt c.next
  if !endsPart c.peek then throw .malformed
  return (version major minor, c)

def handleAt (old : Bool) (c : Cursor) : Except Fault (Token × Cursor) := do
  let (name, c) ← handleName (skipSpaces c)
  if c.peek ≠ ' ' then throw .malformed
  let (stem, c) ← wholeUri old (skipSpaces c)
  if !endsPart c.peek then throw .malformed
  return (handle name stem, c)

def directiveAt (old : Bool) (c : Cursor) : Except Fault (Token × Cursor) := do
  let (name, c) := c.next.span isDirectiveChar
  if name.isEmpty || !endsPart c.peek then throw .malformed
  let (t, c) ←
    if name = "YAML".toList then versionAt c
    else if name = "TAG".toList then handleAt old c
    else pure (directive, c.skipWhile fun ch => !endsLine ch)
  let c := (skipSpaces c).skipComment
  if isEnd c.peek then return (t, c)
  match c.lineBreak? with
  | some (_, c) => return (t, c)
  | none => throw .malformed

end Token

end Pipeline.Yaml
