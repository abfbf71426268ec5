namespace Pipeline.Template

/-- A width or a precision: not given, given in digits, or left to a value. -/
inductive Amount where
  | absent
  | given (n : Nat)
  | star
deriving DecidableEq

inductive Key where
  | absent
  | named (key : String)
  | unclosed
deriving DecidableEq

structure Directive where
  key : Key
  flags : List Char
  width : Amount
  precision : Amount
  /-- The letter, unless the template ends before it. -/
  letter : Option Char
  place : Nat
deriving DecidableEq

def Directive.has (d : Directive) (flag : Char) : Bool := d.flags.contains flag

inductive Piece where
  | literal (c : Char)
  | directive (d : Directive)
deriving DecidableEq

def isFlag (c : Char) : Bool := c == '-' || c == '+' || c == ' ' || c == '#' || c == '0'

def isSizeLetter (c : Char) : Bool := c == 'h' || c == 'l' || c == 'L'

/-- A key up to the parenthesis that closes it, `depth` others being open inside, and the rest. -/
def scanKey (depth : Nat) : List Char → Option (List Char × List Char)
  | [] => none
  | c :: rest =>
    if c = ')' then
      if depth = 0 then some ([], rest)
      else (scanKey (depth - 1) rest).map fun k => (c :: k.1, k.2)
    else
      (scanKey (if c = '(' then depth + 1 else depth) rest).map fun k => (c :: k.1, k.2)

def keyOf (cs : List Char) : Key × List Char :=
  match cs with
  | '(' :: rest =>
    match scanKey 0 rest with
    | some (k, rest) => (.named (String.ofList k), rest)
    | none => (.unclosed, [])
  | _ => (.absent, cs)

def numberOf (ds : List Char) : Nat := ds.foldl (fun n d => 10 * n + (d.toNat - 48)) 0

def amountOf (cs : List Char) : Amount × List Char :=
  match cs with
  | '*' :: rest => (.star, rest)
  | _ =>
    let ds := cs.takeWhile Char.isDigit
    (if ds.isEmpty then .absent else .given (numberOf ds), cs.dropWhile Char.isDigit)

/-- A point starts a precision; without digits behind it the precision is zero. -/
def precisionOf (cs : List Char) : Amount × List Char :=
  match cs with
  | '.' :: rest =>
    match amountOf rest with
    | (.absent, rest) => (.given 0, rest)
    | amount => amount
  | _ => (.absent, cs)

def skipSize (cs : List Char) : List Char :=
  match cs with
  | c :: rest => if isSizeLetter c then rest else cs
  | [] => []

theorem length_scanKey {depth : Nat} {cs k rest : List Char}
    (h : scanKey depth cs = some (k, rest)) : rest.length < cs.length := by
  induction cs generalizing depth k with
  | nil => simp [scanKey] at h
  | cons c cs ih =>
    simp only [scanKey] at h
    split at h
    · split at h
      · simp only [Option.some.injEq, Prod.mk.injEq] at h
        simp [h.2]
      · obtain ⟨⟨k', r'⟩, hk, he⟩ := Option.map_eq_some_iff.1 h
        simp only [Prod.mk.injEq] at he
        have := ih (he.2 ▸ hk)
        simp only [List.length_cons]
        omega
    · obtain ⟨⟨k', r'⟩, hk, he⟩ := Option.map_eq_some_iff.1 h
      simp only [Prod.mk.injEq] at he
      have := ih (he.2 ▸ hk)
      simp only [List.length_cons]
      omega

theorem length_keyOf_le (cs : List Char) : (keyOf cs).2.length ≤ cs.length := by
  unfold keyOf
  split
  · split
    · rename_i h
      have := length_scanKey h
      simp only [List.length_cons]
      omega
    · simp
  · simp

theorem length_amountOf_le (cs : List Char) : (amountOf cs).2.length ≤ cs.length := by
  unfold amountOf
  split
  · simp
  · exact (List.dropWhile_suffix _).length_le

theorem length_precisionOf_le (cs : List Char) : (precisionOf cs).2.length ≤ cs.length := by
  unfold precisionOf
  split
  · rename_i rest
    have := length_amountOf_le rest
    split
    · rename_i r h
      simp only [h] at this
      simp only [List.length_cons]
      omega
    · simp only [List.length_cons]
      omega
  · simp

theorem length_skipSize_le (cs : List Char) : (skipSize cs).length ≤ cs.length := by
  unfold skipSize
  split
  · split <;> simp
  · simp

def directiveOf (total : Nat) (cs : List Char) : Directive × List Char :=
  let key := keyOf cs
  let flags := key.2.takeWhile isFlag
  let width := amountOf (key.2.dropWhile isFlag)
  let precision := precisionOf width.2
  let tail := skipSize precision.2
  ({ key := key.1, flags, width := width.1, precision := precision.1, letter := tail.head?
     place := total - tail.length }, tail.tail)

theorem length_directiveOf_le (total : Nat) (cs : List Char) :
    (directiveOf total cs).2.length ≤ cs.length := by
  simp only [directiveOf, List.length_tail]
  have h₁ := length_keyOf_le cs
  have h₂ := (List.dropWhile_suffix (l := (keyOf cs).2) isFlag).length_le
  have h₃ := length_amountOf_le ((keyOf cs).2.dropWhile isFlag)
  have h₄ := length_precisionOf_le (amountOf ((keyOf cs).2.dropWhile isFlag)).2
  have h₅ := length_skipSize_le (precisionOf (amountOf ((keyOf cs).2.dropWhile isFlag)).2).2
  omega

def piecesOf (total : Nat) (cs : List Char) : List Piece :=
  match cs with
  | [] => []
  | '%' :: '%' :: rest => .literal '%' :: piecesOf total rest
  | '%' :: rest =>
    .directive (directiveOf total rest).1 :: piecesOf total (directiveOf total rest).2
  | c :: rest => .literal c :: piecesOf total rest
termination_by cs.length
decreasing_by
  · simp only [List.length_cons]; omega
  · exact Nat.lt_succ_of_le (length_directiveOf_le total rest)
  · simp

def read (template : String) : List Piece := piecesOf template.length template.toList

end Pipeline.Template
