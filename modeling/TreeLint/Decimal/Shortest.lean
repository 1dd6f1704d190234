namespace TreeLint.Decimal

def twoTo (e : Int) : Nat :=
  Nat.pow 2 e.toNat

def tenTo (p : Int) : Nat :=
  Nat.pow 10 p.toNat

structure Binary where
  mantissa : Nat
  exponent : Int
  narrowBelow : Bool
deriving DecidableEq

structure Digits where
  significand : Nat
  count : Nat
  point : Int
deriving DecidableEq

def binaryParts (x : Float) : Option Binary :=
  let bits := x.toBits.toNat
  let fraction : Nat := bits % twoTo 52
  let field : Nat := bits / twoTo 52 % twoTo 11
  if field = twoTo 11 - 1 then none
  else if field = 0 then
    if fraction = 0 then none else some ⟨fraction, -1074, false⟩
  else some ⟨fraction + twoTo 52, (field : Int) - 1075, fraction = 0 && 1 < field⟩

def compareScaled (a : Nat) (e : Int) (b : Nat) (p : Int) : Ordering :=
  compare (a * twoTo e * tenTo (-p)) (b * tenTo p * twoTo (-e))

namespace Binary

/-- Whether `c * 10 ^ p` lies where reading rounds to `b`; the ends count for an even mantissa. -/
def captures (b : Binary) (c : Nat) (p : Int) : Bool :=
  let low := 4 * b.mantissa - (if b.narrowBelow then 1 else 2)
  let high := 4 * b.mantissa + 2
  let above := compareScaled low (b.exponent - 2) c p
  let below := compareScaled high (b.exponent - 2) c p
  if b.mantissa % 2 = 0 then above != .gt && below != .lt else above == .lt && below == .gt

def magnitude (b : Binary) : Int :=
  let bits : Int := b.exponent + (Nat.log2 b.mantissa : Int)
  -- Ten's logarithm of two is close to 30103 / 100000, so the guess is at most one short.
  let guess := (bits * 30103).fdiv 100000
  if compareScaled b.mantissa b.exponent 1 guess == .lt then guess
  else if compareScaled b.mantissa b.exponent 1 (guess + 1) == .lt then guess + 1
  else guess + 2

def floorAt (b : Binary) (p : Int) : Nat :=
  b.mantissa * twoTo b.exponent * tenTo (-p) / (tenTo p * twoTo (-b.exponent))

def neighbour? (b : Binary) (p : Int) : Option Nat :=
  let c := b.floorAt p
  match b.captures c p, b.captures (c + 1) p with
  | true, false => some c
  | false, true => some (c + 1)
  | false, false => none
  | true, true =>
    match compareScaled (2 * b.mantissa) b.exponent (2 * c + 1) p with
    | .lt => some c
    | .gt => some (c + 1)
    | .eq => some (if c % 2 = 0 then c else c + 1)

def search (b : Binary) (magnitude : Int) : Nat → Nat → Digits
  | 0, count => ⟨b.floorAt (magnitude - count), count, magnitude⟩
  | fuel + 1, count =>
    match b.neighbour? (magnitude - count) with
    | some c => if c = tenTo count then ⟨1, 1, magnitude + 1⟩ else ⟨c, count, magnitude⟩
    | none => b.search magnitude fuel (count + 1)

def shortest (b : Binary) : Digits :=
  b.search b.magnitude 17 1

end Binary

def wholeNumber? (x : Float) : Option Int :=
  if x == 0 then some 0
  else match binaryParts x with
    | none => none
    | some b =>
      let size : Option Nat :=
        if 0 ≤ b.exponent then some (b.mantissa * twoTo b.exponent)
        else if b.mantissa % twoTo (-b.exponent) = 0 then
          some (b.mantissa / twoTo (-b.exponent))
        else none
      size.map fun n => if x < 0 then -(n : Int) else n

end TreeLint.Decimal
