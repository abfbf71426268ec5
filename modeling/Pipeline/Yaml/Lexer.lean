import Pipeline.Yaml.Token

namespace Pipeline.Yaml

open Text.Blank

/-- A token that a colon behind it would turn into a key. -/
structure Candidate where
  level : Nat
  place : Nat
  /-- Only a key can stand there. -/
  required : Bool
  index : Nat
  line : Nat
  column : Nat

inductive Bracket where
  | square
  | curly
deriving DecidableEq

structure Lexer where
  cursor : Cursor
  tokens : Array Token
  /-- The column of the innermost block collection, and those around it; `-1` outside of any. -/
  indent : Int
  outer : List Int
  brackets : List Bracket
  keyAllowed : Bool
  candidates : List Candidate
  version : Nat × Nat

namespace Lexer

def ofText (s : String) : Lexer :=
  { cursor := .ofText s, tokens := #[], indent := -1, outer := [], brackets := []
    keyAllowed := true, candidates := [], version := (1, 2) }

def isOld (l : Lexer) : Bool := l.version == (1, 1)

def inFlow (l : Lexer) : Bool := !l.brackets.isEmpty

def level (l : Lexer) : Nat := l.brackets.length

def push (l : Lexer) (t : Token) : Lexer := { l with tokens := l.tokens.push t }

def take (l : Lexer) (n : Nat) (t : Token) : Lexer := { l.push t with cursor := l.cursor.skip n }

def keyLimit : Nat := 1024

def Candidate.isAlive (k : Candidate) (c : Cursor) : Bool :=
  k.line == c.line && c.index - k.index ≤ keyLimit

def keepCandidates (l : Lexer) (p : Candidate → Bool) : Except Fault Lexer :=
  if l.candidates.any fun k => k.required && !p k then .error .malformed
  else .ok { l with candidates := l.candidates.filter p }

def dropStale (l : Lexer) : Except Fault Lexer :=
  l.keepCandidates fun k => Candidate.isAlive k l.cursor

def dropCandidate (l : Lexer) : Except Fault Lexer := l.keepCandidates (·.level != l.level)

def saveCandidate (l : Lexer) : Except Fault Lexer := do
  if !l.keyAllowed then return l
  let l ← l.dropCandidate
  let c := l.cursor
  let required := !l.inFlow && l.indent == c.column
  return { l with candidates :=
    ⟨l.level, l.tokens.size, required, c.index, c.line, c.column⟩ :: l.candidates }

def unwindFrom (column : Int) : Int → List Int → Array Token → Int × List Int × Array Token
  | indent, [], tokens => (indent, [], tokens)
  | indent, i :: outer, tokens =>
    if column < indent then unwindFrom column i outer (tokens.push .blockEnd)
    else (indent, i :: outer, tokens)

def unwind (l : Lexer) (column : Int) : Lexer :=
  if l.inFlow then l
  else
    let (indent, outer, tokens) := unwindFrom column l.indent l.outer l.tokens
    { l with indent, outer, tokens }

/-- Starts a block collection in front of the token at a place if its column is a deeper one. -/
def startBlock (l : Lexer) (column place : Nat) (t : Token) : Lexer :=
  if l.indent < column then
    { l with indent := column, outer := l.indent :: l.outer
             tokens := l.tokens.insertIdxIfInBounds place t }
  else l

/-- Skips spaces, comments and line ends. Behind a line end a key may start, outside of brackets. -/
def skipGap : Nat → Lexer → Lexer
  | 0, l => l
  | fuel + 1, l =>
    let c := (l.cursor.skipWhile (· == ' ')).skipComment
    match c.lineBreak? with
    | some (_, c) => skipGap fuel { l with cursor := c, keyAllowed := l.keyAllowed || !l.inFlow }
    | none => { l with cursor := c }

def skipMark (l : Lexer) : Lexer :=
  if l.cursor.index = 0 ∧ l.cursor.peek = '\ufeff' then { l with cursor := l.cursor.next } else l

def documentMarker (l : Lexer) (t : Token) : Except Fault Lexer := do
  let l ← (l.unwind (-1)).dropCandidate
  return { l with keyAllowed := false }.take 3 t

def directive (l : Lexer) : Except Fault Lexer := do
  let l ← (l.unwind (-1)).dropCandidate
  let (t, c) ← Token.directiveAt l.isOld l.cursor
  let version := match t with
    | .version major minor => (major, minor)
    | _ => l.version
  return { l.push t with cursor := c, keyAllowed := false, version }

def openBracket (l : Lexer) (b : Bracket) (t : Token) : Except Fault Lexer := do
  let l ← l.saveCandidate
  return { l with brackets := b :: l.brackets, keyAllowed := true }.take 1 t

def closeBracket (l : Lexer) (t : Token) : Except Fault Lexer := do
  let l ← l.dropCandidate
  return { l with brackets := l.brackets.tail, keyAllowed := false }.take 1 t

def flowEntry (l : Lexer) : Except Fault Lexer := do
  let l ← l.dropCandidate
  return { l with keyAllowed := true }.take 1 .flowEntry

/-- The mark of an item or of a key: outside of brackets it may start a block collection. -/
def blockMark (l : Lexer) (start mark : Token) (keyAfter : Bool) : Except Fault Lexer := do
  if !l.inFlow && !l.keyAllowed then throw .malformed
  let l := if l.inFlow then l else l.startBlock l.cursor.column l.tokens.size start
  let l ← l.dropCandidate
  return { l with keyAllowed := keyAfter }.take 1 mark

def value (l : Lexer) : Except Fault Lexer :=
  match l.candidates.find? (·.level == l.level) with
  | some k =>
    let l := { l with candidates := l.candidates.filter (·.level != l.level)
                      tokens := l.tokens.insertIdxIfInBounds k.place .key, keyAllowed := false }
    let l := if l.inFlow then l else l.startBlock k.column k.place .blockMappingStart
    .ok (l.take 1 .value)
  | none => l.blockMark .blockMappingStart .value (!l.inFlow)

def keyStart (l : Lexer) (read : Cursor → Except Fault (Token × Cursor)) : Except Fault Lexer := do
  let l ← l.saveCandidate
  let (t, c) ← read l.cursor
  return { l.push t with cursor := c, keyAllowed := false }

def named (make : String → Token) (c : Cursor) : Except Fault (Token × Cursor) := do
  let (name, c) ← Token.anchorName c
  return (make name, c)

def quoted (double : Bool) (c : Cursor) : Except Fault (Token × Cursor) := do
  let (s, c) ← Scalar.quoted double (c.rest.length + 1) c.next
  return (.scalar s false, c)

/-- Behind a plain scalar that ended with its line a key may start. -/
def plain (l : Lexer) : Except Fault Lexer := do
  let l ← l.saveCandidate
  let (s, c, broke) := Scalar.plain l.inFlow l.isOld (l.indent + 1).toNat
    (l.cursor.rest.length + 1) l.cursor
  return { l.push (.scalar (some s) true) with cursor := c, keyAllowed := broke }

def block (l : Lexer) (folds : Bool) : Except Fault Lexer := do
  let l ← l.dropCandidate
  let (s, c) ← Scalar.block folds (l.indent + 1).toNat l.cursor.next
  return { l.push (.scalar (some s) false) with cursor := c, keyAllowed := true }

/-- Whether a colon marks a value. In brackets it needs no edge behind it, except in square ones, and
directly behind another colon on a line whose candidates are still open. -/
def isValue (l : Lexer) (pending : Bool) : Bool :=
  let spaced := isEdge (l.cursor.peekAt 1)
  match l.brackets with
  | [] => spaced
  | b :: _ =>
    if l.isOld then true
    else if b = .square then spaced
    else spaced || !(pending && l.tokens.back? == some .value)

/-- Characters that start no plain scalar, unless an exception holds. -/
def isIndicator (c : Char) : Bool :=
  isEdge c || isBreak c || "-?:,[]#&*!|>'\"%@`".toList.contains c || c == '\x7b' || c == '\x7d'

def isPlain (l : Lexer) : Bool :=
  let c := l.cursor.peek
  let after := l.cursor.peekAt 1
  !isIndicator c || (c == '-' && !isEdge after) ||
    (c == ':' && l.inFlow && !l.isOld && !isGap after) ||
    ((c == '?' || c == ':') && !l.inFlow && !isEdge after)

/-- The token at the cursor; `pending` tells whether an earlier token could still become a key. -/
def token (l : Lexer) (pending : Bool) : Except Fault Lexer := do
  let c := l.cursor.peek
  let spaced := isEdge (l.cursor.peekAt 1)
  let atFront := l.cursor.column == 0
  if isEnd c then return (← (l.unwind (-1)).dropCandidate).push .textEnd
  if c == '%' && atFront then l.directive
  else if atFront && l.cursor.startsWith "---" then l.documentMarker .documentStart
  else if atFront && l.cursor.startsWith "..." then l.documentMarker .documentEnd
  else if c == '[' then l.openBracket .square .flowSequenceStart
  else if c == '\x7b' then l.openBracket .curly .flowMappingStart
  else if c == ']' then l.closeBracket .flowSequenceEnd
  else if c == '\x7d' then l.closeBracket .flowMappingEnd
  else if c == ',' then l.flowEntry
  else if c == '-' && spaced then l.blockMark .blockSequenceStart .blockEntry true
  else if c == '?' && (l.inFlow || spaced) then l.blockMark .blockMappingStart .key (!l.inFlow)
  else if c == ':' && l.isValue pending then l.value
  else if c == '*' then l.keyStart (named .alias)
  else if c == '&' then l.keyStart (named .anchor)
  else if c == '!' then l.keyStart (Token.tagAt l.isOld)
  else if c == '|' && !l.inFlow then l.block false
  else if c == '>' && !l.inFlow then l.block true
  else if c == '\x27' then l.keyStart (quoted false)
  else if c == '"' then l.keyStart (quoted true)
  else if l.isPlain then l.plain
  else throw .malformed

def step (l : Lexer) : Except Fault Lexer := do
  let l ← l.dropStale
  let pending := !l.candidates.isEmpty
  let l ← (l.skipMark.skipGap (l.cursor.rest.length + 1)).dropStale
  (l.unwind l.cursor.column).token pending

/-- How many tokens are settled: a token that may become a key is not, nor are those behind it. -/
def settled (l : Lexer) : Nat :=
  (l.candidates.filter (Candidate.isAlive · l.cursor)).foldl (fun n k => min n k.place)
    l.tokens.size

def run : Nat → Lexer → Lexer
  | 0, l => l.push (.broken .malformed)
  | fuel + 1, l =>
    match l.step with
    | .error f => { l with tokens := (l.tokens.extract 0 l.settled).push (.broken f) }
    | .ok l => if l.tokens.back? == some .textEnd then l else run fuel l

end Lexer

def tokensOf (s : String) : List Token × (Nat × Nat) :=
  let l := (Lexer.ofText s).run (s.length + 2)
  (l.tokens.toList, l.version)

end Pipeline.Yaml
