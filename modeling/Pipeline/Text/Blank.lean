namespace Pipeline.Text.Blank

/-- The white space of Unicode and the four information separators U+001C to U+001F. -/
def isBlank (c : Char) : Bool :=
  let n := c.toNat
  (9 ≤ n && n ≤ 13) || (28 ≤ n && n ≤ 32) || n == 0x85 || n == 0xa0 || n == 0x1680 ||
    (0x2000 ≤ n && n ≤ 0x200a) || n == 0x2028 || n == 0x2029 || n == 0x202f || n == 0x205f ||
    n == 0x3000

def isGap (c : Char) : Bool := c == ' ' || c == '\t'

def stripFront (cs : List Char) : List Char := cs.dropWhile isBlank

def strip (s : String) : String :=
  String.ofList (stripFront (stripFront s.toList).reverse).reverse

end Pipeline.Text.Blank
