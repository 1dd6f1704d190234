namespace TreeLint.Decimal

def ofDigits (digits : List Char) : Nat :=
  digits.foldl (fun n d => 10 * n + (d.toNat - 48)) 0

/-- The most digits of an integer that is read or written; zeros that are left out do not count. -/
def mostDigits : Nat :=
  4300

def isWritable (n : Int) : Bool :=
  (Nat.toDigits 10 n.natAbs).length ≤ mostDigits

def integerText? (n : Int) : Option String :=
  if isWritable n then some (toString n) else none

def tooManyDigits : String :=
  "Exceeds the limit (" ++ toString mostDigits ++ " digits) for integer string conversion; " ++
    "use sys.set_int_max_str_digits() to increase the limit"

end TreeLint.Decimal
