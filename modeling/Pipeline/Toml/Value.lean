import Pipeline.Fields
import Pipeline.Toml.Moment
import Pipeline.Toml.Number
import Pipeline.Toml.Outline
import Pipeline.Toml.Text

namespace Pipeline.Toml

def isBareKey (c : Char) : Bool := c.isAlphanum || c == '_' || c == '-'

def keyPart (cs : List Char) : Except Fault (String × List Char) :=
  match cs with
  | '"' :: rest => shortText '"' rest
  | '\x27' :: rest => shortText '\x27' rest
  | _ =>
    let name := cs.takeWhile isBareKey
    if name.isEmpty then .error .malformed
    else .ok (String.ofList name, cs.drop name.length)

def path : Nat → List Char → Except Fault (Path × List Char)
  | 0, _ => .error .malformed
  | fuel + 1, cs => do
    let (k, cs) ← keyPart cs
    match skipGap cs with
    | '.' :: rest => do
      let (p, rest) ← path fuel (skipGap rest)
      return (k :: p, rest)
    | cs => return ([k], cs)

def nest : Path → Value → Fields → Fields
  | [], _, f => f
  | [k], v, f => f.put k v
  | k :: p, v, f =>
    let inner := match f.get? k with
      | some (.dict g) => g
      | _ => []
    f.put k (.dict (nest p v inner))

mutual

def value : Nat → List Char → Except Fault (Value × List Char)
  | 0, _ => .error .malformed
  | fuel + 1, cs =>
    match cs with
    | '"' :: rest => (text '"' rest).map fun r => (.text r.1, r.2)
    | '\x27' :: rest => (text '\x27' rest).map fun r => (.text r.1, r.2)
    | 't' :: 'r' :: 'u' :: 'e' :: rest => .ok (.bool true, rest)
    | 'f' :: 'a' :: 'l' :: 's' :: 'e' :: rest => .ok (.bool false, rest)
    | '[' :: rest => do
      let (vs, rest) ← members fuel (← skipLines fuel rest)
      return (.list vs, rest)
    | '\x7b' :: rest =>
      match skipGap rest with
      | '\x7d' :: rest => .ok (.dict [], rest)
      | rest => (entries fuel [] [] rest).map fun r => (.dict r.1, r.2)
    | _ =>
      match Moment.read cs with
      | some (m, rest) => .ok (.foreign m, rest)
      | none => number cs

def members : Nat → List Char → Except Fault (List Value × List Char)
  | 0, _ => .error .malformed
  | fuel + 1, cs =>
    match cs with
    | ']' :: rest => .ok ([], rest)
    | _ => do
      let (v, cs) ← value fuel cs
      match ← skipLines fuel cs with
      | ',' :: rest => do
        let (vs, rest) ← members fuel (← skipLines fuel rest)
        return (v :: vs, rest)
      | ']' :: rest => return ([v], rest)
      | _ => throw .malformed

/-- The entries of a table up to its end, at least one, behind those already read. -/
def entries : Nat → Outline → Fields → List Char → Except Fault (Fields × List Char)
  | 0, _, _, _ => .error .malformed
  | fuel + 1, names, f, cs => do
    let (p, v, cs) ← pair fuel cs
    match names.insert p with
    | none => throw .malformed
    | some names =>
      let f := nest p v f
      match skipGap cs with
      | ',' :: rest => entries fuel names f (skipGap rest)
      | '\x7d' :: rest => return (f, rest)
      | _ => throw .malformed

def pair : Nat → List Char → Except Fault (Path × Value × List Char)
  | 0, _ => .error .malformed
  | fuel + 1, cs => do
    let (p, cs) ← path fuel cs
    let cs ← behind "=" cs
    let (v, cs) ← value fuel (skipGap cs)
    return (p, v, cs)

end

end Pipeline.Toml
