import Pipeline.Toml.Basic

namespace Pipeline.Toml

open Number.Read

/-- The character with the code point that `width` hexadecimal digits give, surrogates excepted. -/
def numbered (width : Nat) (cs : List Char) : Except Fault (Char × List Char) :=
  let ds := cs.take width
  let n := natOf 16 ds
  if ds.length = width ∧ ds.all (isDigit 16) ∧ n.isValidChar then
    .ok (Char.ofNat n, cs.drop width)
  else .error .malformed

def escape (cs : List Char) : Except Fault (Char × List Char) :=
  match cs with
  | 'b' :: rest => .ok ('\x08', rest)
  | 't' :: rest => .ok ('\t', rest)
  | 'n' :: rest => .ok ('\n', rest)
  | 'f' :: rest => .ok ('\x0c', rest)
  | 'r' :: rest => .ok ('\r', rest)
  | '"' :: rest => .ok ('"', rest)
  | '\\' :: rest => .ok ('\\', rest)
  | 'u' :: rest => numbered 4 rest
  | 'U' :: rest => numbered 8 rest
  | _ => .error .malformed

/-- A backslash at the end of a line joins it with what comes next; blanks may stand behind it. -/
def joined? (cs : List Char) : Option (List Char) :=
  match skipGap cs with
  | '\n' :: rest => some (skipSpace rest)
  | _ => none

def escapedText (long : Bool) : Nat → List Char → Except Fault (List Char × List Char)
  | 0, _ => .error .malformed
  | fuel + 1, cs =>
    match cs with
    | [] => .error .malformed
    | '"' :: rest =>
      if !long then .ok ([], rest)
      else match rest with
      | '"' :: '"' :: rest => .ok ([], rest)
      | _ => do
        let (inside, rest) ← escapedText long fuel rest
        return ('"' :: inside, rest)
    | '\\' :: rest =>
      match (if long then joined? rest else none) with
      | some rest => escapedText long fuel rest
      | none => do
        let (c, rest) ← escape rest
        let (inside, rest) ← escapedText long fuel rest
        return (c :: inside, rest)
    | c :: rest => do
      if isControl c && !(long && c == '\n') then throw .malformed
      let (inside, rest) ← escapedText long fuel rest
      return (c :: inside, rest)

def literalText (cs : List Char) : Except Fault (List Char × List Char) :=
  let inside := cs.takeWhile fun c => c != '\x27' && !isControl c
  match cs.drop inside.length with
  | '\x27' :: rest => .ok (inside, rest)
  | _ => .error .malformed

def longLiteralText : List Char → Except Fault (List Char × List Char)
  | [] => .error .malformed
  | '\x27' :: '\x27' :: '\x27' :: rest => .ok ([], rest)
  | c :: rest => do
    if isControl c && c != '\n' then throw .malformed
    let (inside, rest) ← longLiteralText rest
    return (c :: inside, rest)

/-- Up to two quotes more in front of the closing three belong to the string. -/
def withQuotes (mark : Char) (r : List Char × List Char) : List Char × List Char :=
  let more := (r.2.take 2).takeWhile (· == mark)
  (r.1 ++ more, r.2.drop more.length)

/-- A line end right behind the opening quotes does not count. -/
def behindBreak (cs : List Char) : List Char :=
  match cs with
  | '\n' :: rest => rest
  | _ => cs

def shortText (mark : Char) (cs : List Char) : Except Fault (String × List Char) := do
  let (s, rest) ← if mark = '"' then escapedText false (cs.length + 1) cs else literalText cs
  return (String.ofList s, rest)

def text (mark : Char) (cs : List Char) : Except Fault (String × List Char) :=
  if cs.take 2 = [mark, mark] then do
    let cs := behindBreak (cs.drop 2)
    let r ← if mark = '"' then escapedText true (cs.length + 1) cs else longLiteralText cs
    let (s, rest) := withQuotes mark r
    return (String.ofList s, rest)
  else shortText mark cs

end Pipeline.Toml
