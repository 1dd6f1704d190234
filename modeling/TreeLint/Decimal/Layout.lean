import TreeLint.Decimal.Shortest

namespace TreeLint.Decimal

structure Layout where
  leastPositional : Int
  leastScientific : Int
  exponentWidth : Nat

def Layout.standard : Layout := ⟨-4, 16, 2⟩

def padded (width n : Nat) : String :=
  let digits := toString n
  String.ofList (List.replicate (width - digits.length) '0') ++ digits

namespace Digits

def chars (d : Digits) : List Char :=
  (padded d.count d.significand).toList

def positional (d : Digits) : String :=
  let cs := d.chars
  if d.point ≤ 0 then
    "0." ++ String.ofList (List.replicate (-d.point).toNat '0' ++ cs)
  else
    let whole := d.point.toNat
    let front := cs.take whole ++ List.replicate (whole - cs.length) '0'
    let back := cs.drop whole
    String.ofList front ++ "." ++ (if back.isEmpty then "0" else String.ofList back)

def scientific (rules : Layout) (d : Digits) : String :=
  let exponent := d.point - 1
  let sign := if exponent < 0 then "-" else "+"
  let lead := match d.chars with
    | [] => ""
    | [c] => String.ofList [c]
    | c :: rest => String.ofList (c :: '.' :: rest)
  lead ++ "e" ++ sign ++ padded rules.exponentWidth exponent.natAbs

def render (rules : Layout) (d : Digits) : String :=
  let exponent := d.point - 1
  if rules.leastPositional ≤ exponent && exponent < rules.leastScientific then d.positional
  else d.scientific rules

end Digits

def text (x : Float) : String :=
  if x.isNaN then "nan"
  else
    let sign := if x.toBits.toNat / twoTo 63 = 1 then "-" else ""
    let size := match binaryParts x with
      | some b => b.shortest.render .standard
      | none => if x.isInf then "inf" else "0.0"
    sign ++ size

end TreeLint.Decimal
