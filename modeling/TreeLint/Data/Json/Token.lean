import TreeLint.Data.Value
import TreeLint.Decimal.Digits

namespace TreeLint.Json

inductive Token where
  | openList
  | closeList
  | openRecord
  | closeRecord
  | comma
  | colon
  | text (s : String)
  | scalar (v : Value)

def isSpace (c : Char) : Bool :=
  c == ' ' || c == '\t' || c == '\n' || c == '\r'

def hexValue? (c : Char) : Option Nat :=
  if c.isDigit then some (c.toNat - '0'.toNat)
  else if 'a' ≤ c && c ≤ 'f' then some (c.toNat - 'a'.toNat + 10)
  else if 'A' ≤ c && c ≤ 'F' then some (c.toNat - 'A'.toNat + 10)
  else none

def unit? (a b c d : Char) : Option Nat := do
  return (((← hexValue? a) * 16 + (← hexValue? b)) * 16 + (← hexValue? c)) * 16 + (← hexValue? d)

def isHighSurrogate (n : Nat) : Bool :=
  0xD800 ≤ n && n < 0xDC00

def isLowSurrogate (n : Nat) : Bool :=
  0xDC00 ≤ n && n < 0xE000

def plainEscape? : Char → Option Char
  | '"' => some '"'
  | '\\' => some '\\'
  | '/' => some '/'
  | 'b' => some '\x08'
  | 'f' => some '\x0c'
  | 'n' => some '\n'
  | 'r' => some '\r'
  | 't' => some '\t'
  | _ => none

def closeText (done : List Char) : List Char → Option (String × List Char)
  | [] => none
  | '"' :: rest => some (String.ofList done.reverse, rest)
  | '\\' :: 'u' :: a :: b :: c :: d :: '\\' :: 'u' :: e :: f :: g :: h :: rest =>
    match unit? a b c d with
    | none => none
    | some n =>
      if isHighSurrogate n then
        match unit? e f g h with
        | none => none
        | some m =>
          if isLowSurrogate m then
            closeText (Char.ofNat (0x10000 + (n - 0xD800) * 0x400 + (m - 0xDC00)) :: done) rest
          else none
      else if isLowSurrogate n then none
      else closeText (Char.ofNat n :: done) ('\\' :: 'u' :: e :: f :: g :: h :: rest)
  | '\\' :: 'u' :: a :: b :: c :: d :: rest =>
    match unit? a b c d with
    | none => none
    | some n =>
      if isHighSurrogate n || isLowSurrogate n then none
      else closeText (Char.ofNat n :: done) rest
  | '\\' :: c :: rest =>
    match plainEscape? c with
    | none => none
    | some e => closeText (e :: done) rest
  | c :: rest => if c.toNat < 0x20 then none else closeText (c :: done) rest

def floatOf (negative : Bool) (digits : Nat) (exponent : Int) : Float :=
  let size : Float :=
    if digits = 0 then 0
    else
      let magnitude := exponent + ((Nat.log2 digits : Int) * 30103).fdiv 100000
      if 400 < magnitude then 1 / 0
      else if magnitude < -400 then 0
      else Float.ofScientific digits (exponent < 0) exponent.natAbs
  if negative then -size else size

/--
Limits on what is read: containers within one another that hold something, and digits in front of
the point of a number.
-/
structure Limits where
  depth : Nat
  digits : Nat

def exponentPart : List Char → Option (Option Int × List Char)
  | c :: rest =>
    if c = 'e' ∨ c = 'E' then
      let (negative, body) := match rest with
        | '-' :: r => (true, r)
        | '+' :: r => (false, r)
        | r => (false, r)
      let digits := body.takeWhile Char.isDigit
      if digits.isEmpty then none
      else
        let size : Int := Decimal.ofDigits digits
        some (some (if negative then -size else size), body.dropWhile Char.isDigit)
    else some (none, c :: rest)
  | [] => some (none, [])

def fractionPart : List Char → Option (Option (List Char) × List Char)
  | '.' :: rest =>
    let digits := rest.takeWhile Char.isDigit
    if digits.isEmpty then none else some (some digits, rest.dropWhile Char.isDigit)
  | rest => some (none, rest)

def number? (limits : Limits) (negative : Bool) (cs : List Char) :
    Option (Value × List Char) := do
  let whole := cs.takeWhile Char.isDigit
  match whole with
  | [] => none
  | '0' :: _ :: _ => none
  | _ =>
    if limits.digits < whole.length then none
    let (fraction, afterFraction) ← fractionPart (cs.dropWhile Char.isDigit)
    let (exponent, rest) ← exponentPart afterFraction
    match fraction, exponent with
    | none, none =>
      let n : Int := Decimal.ofDigits whole
      some (.int (if negative then -n else n), rest)
    | fraction, exponent =>
      let decimals := fraction.getD []
      some (.float (floatOf negative (Decimal.ofDigits (whole ++ decimals))
        (exponent.getD 0 - (decimals.length : Int))), rest)

def dropWord? (word : String) (cs : List Char) : Option (List Char) :=
  if word.toList.isPrefixOf cs then some (cs.drop word.length) else none

def word? (cs : List Char) : Option (Value × List Char) :=
  match dropWord? "null" cs, dropWord? "true" cs, dropWord? "false" cs, dropWord? "NaN" cs,
    dropWord? "Infinity" cs, dropWord? "-Infinity" cs with
  | some rest, _, _, _, _, _ => some (.null, rest)
  | _, some rest, _, _, _, _ => some (.bool true, rest)
  | _, _, some rest, _, _, _ => some (.bool false, rest)
  | _, _, _, some rest, _, _ => some (.float (0 / 0), rest)
  | _, _, _, _, some rest, _ => some (.float (1 / 0), rest)
  | _, _, _, _, _, some rest => some (.float (-1 / 0), rest)
  | _, _, _, _, _, _ => none

def scalar? (limits : Limits) (cs : List Char) : Option (Value × List Char) :=
  match word? cs with
  | some found => some found
  | none =>
    match cs with
    | '-' :: rest => number? limits true rest
    | rest => number? limits false rest

def token? (limits : Limits) : List Char → Option (Token × List Char)
  | [] => none
  | '[' :: rest => some (.openList, rest)
  | ']' :: rest => some (.closeList, rest)
  | '\x7b' :: rest => some (.openRecord, rest)
  | '\x7d' :: rest => some (.closeRecord, rest)
  | ',' :: rest => some (.comma, rest)
  | ':' :: rest => some (.colon, rest)
  | '"' :: rest => (closeText [] rest).map fun (s, r) => (.text s, r)
  | rest => (scalar? limits rest).map fun (v, r) => (.scalar v, r)

/-- The tokens of a text; every token takes a character at least, so as many rounds suffice. -/
def tokensWithin (limits : Limits) : Nat → List Char → Option (List Token)
  | 0, cs => if (cs.dropWhile isSpace).isEmpty then some [] else none
  | rounds + 1, cs =>
    match cs.dropWhile isSpace with
    | [] => some []
    | found => do
      let (t, rest) ← token? limits found
      return t :: (← tokensWithin limits rounds rest)

def tokens? (limits : Limits) (s : String) : Option (List Token) :=
  tokensWithin limits s.length s.toList

end TreeLint.Json
