import TreeLint.Decimal.Digits
import TreeLint.Text.Blank

/-!
Integers as texts. A text that is no plain integer is read again without what does not change the
number: white space around it, a plus sign, zeros at the front, a fraction of zeros, underscores
between digits. Only a text that has too many digits as it stands is said to be too long.
-/

namespace TreeLint

namespace IntegerText

inductive Fault where
  | notInteger
  | tooLong
deriving DecidableEq, Repr

def skipZeros (last : Char) : List Char → Option (List Char)
  | [] => some [last]
  | c :: rest =>
    if c = '0' ∨ c = '_' then skipZeros c rest
    else if c.isDigit ∨ c = '-' then some (c :: rest)
    else if c = '.' then some (last :: c :: rest)
    else none

def dropLeadingZeros : List Char → Option (List Char)
  | [] => none
  | '0' :: rest => skipZeros '0' rest
  | c :: rest => if c.isDigit ∨ c = '-' then some (c :: rest) else none

def dropZeroFraction (cs : List Char) : List Char :=
  match cs.dropWhile (· ≠ '.') with
  | [] => cs
  | _ :: decimals =>
    if !decimals.isEmpty && decimals.all (· == '0') then cs.takeWhile (· ≠ '.') else cs

def hasLooseUnderscore : List Char → Bool
  | [] => false
  | ['_'] => true
  | '_' :: '_' :: _ => true
  | _ :: rest => hasLooseUnderscore rest

def dropUnderscores (cs : List Char) : List Char :=
  if cs.head? = some '_' || hasLooseUnderscore cs then cs else cs.filter (· ≠ '_')

def clean (cs : List Char) : Option (List Char) :=
  (dropLeadingZeros cs).map fun kept => dropUnderscores (dropZeroFraction kept)

def magnitude (cs : List Char) : Except Fault Nat :=
  let digits := cs.takeWhile Char.isDigit
  match digits with
  | [] => .error .notInteger
  | '0' :: _ :: _ => .error .notInteger
  | _ =>
    if Decimal.mostDigits < digits.length then .error .tooLong
    else if digits.length < cs.length then .error .notInteger
    else .ok (Decimal.ofDigits digits)

def plain : List Char → Except Fault Int
  | '-' :: cs => (magnitude cs).map (-Int.ofNat ·)
  | cs => (magnitude cs).map Int.ofNat

def cleanSigned : List Char → Option (List Char)
  | '-' :: rest => (clean rest).map ('-' :: ·)
  | '+' :: '-' :: _ => none
  | '+' :: rest => clean rest
  | rest => clean rest

def read (cs : List Char) : Except Fault Int :=
  match plain cs with
  | .ok n => .ok n
  | .error .tooLong => .error .tooLong
  | .error .notInteger =>
    match (cleanSigned (Text.trimList Text.isWhiteSpace cs)).map plain with
    | some (.ok n) => .ok n
    | _ => .error .notInteger

end IntegerText

def integerOfText (s : String) : Except IntegerText.Fault Int :=
  IntegerText.read s.toList

end TreeLint
