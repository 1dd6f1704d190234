import TreeLint.Text.Blank

namespace TreeLint.Text

def isLineBreak (c : Char) : Bool :=
  let n := c.val
  (0x0A ≤ n && n ≤ 0x0D) || (0x1C ≤ n && n ≤ 0x1E) || n == 0x85 || n == 0x2028 || n == 0x2029

def firstLine (s : String) : String :=
  String.ofList ((trimList isBlank s.toList).takeWhile (!isLineBreak ·))

end TreeLint.Text
