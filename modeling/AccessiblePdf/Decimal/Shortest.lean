import AccessiblePdf.Decimal.Binary

/-!
The shortest decimal digits that still single out a binary floating-point number. A number owns the
interval of reals that round to it, ends included when its significand is even. On the grids of one,
two, three, … digits the two neighbours of the number are tested; the first grid with a neighbour in
the interval gives the digits, and of two such neighbours the nearer one.
-/
namespace AccessiblePdf.Decimal

/-- Which neighbour is taken when both are equally near. -/
inductive Tie where
  | up
  | toEven
deriving DecidableEq, Repr

/-- A decimal number `digits * 10 ^ exponent`. -/
structure Scaled where
  digits : Nat
  exponent : Int
deriving DecidableEq, Repr

/-- `a * 2 ^ q` against the grid of step `10 ^ k`: a fraction with this numerator and
`gridDenominator`. -/
def gridNumerator (q k : Int) (a : Nat) : Nat := a * Nat.pow 2 q.toNat * Nat.pow 10 (-k).toNat

def gridDenominator (q k : Int) : Nat := Nat.pow 2 (-q).toNat * Nat.pow 10 k.toNat

namespace Binary

/-- Whether `t * 10 ^ k` lies in the interval of reals that round to the number. -/
def owns (b : Binary) (k : Int) (t : Nat) : Bool :=
  let point := 4 * t * gridDenominator b.exponent k
  let low := gridNumerator b.exponent k (4 * b.significand - if b.narrowBelow then 1 else 2)
  let high := gridNumerator b.exponent k (4 * b.significand + 2)
  if b.significand % 2 = 0 then low ≤ point && point ≤ high else low < point && point < high

/-- The largest multiple of `10 ^ k` that is not above the number, as a count of steps. -/
def floorOn (b : Binary) (k : Int) : Nat :=
  gridNumerator b.exponent k b.significand / gridDenominator b.exponent k

/-- The better of the two neighbours on the grid of step `10 ^ k`, if one of them will do. -/
def neighbour? (tie : Tie) (b : Binary) (k : Int) : Option Nat :=
  let t := b.floorOn k
  match b.owns k t, b.owns k (t + 1) with
  | false, false => none
  | true, false => some t
  | false, true => some (t + 1)
  | true, true =>
    let twice := 2 * gridNumerator b.exponent k b.significand
    let middle := (2 * t + 1) * gridDenominator b.exponent k
    if twice < middle then some t
    else if middle < twice then some (t + 1)
    else match tie with
      | .up => some (t + 1)
      | .toEven => some (if t % 2 = 0 then t else t + 1)

/-- Searches finer and finer grids, at most `count` of them. -/
def searchFrom (tie : Tie) (b : Binary) : Nat → Int → Scaled
  | 0, k => ⟨b.floorOn k, k⟩
  | count + 1, k =>
    match b.neighbour? tie k with
    | some t => ⟨t, k⟩
    | none => searchFrom tie b count (k - 1)

/-- A power of ten that is close to the number and not below it by more than a factor of 100. -/
def magnitude (b : Binary) : Int :=
  let log2 : Int := (b.significand.log2 : Int) + b.exponent
  log2 * 30103 / 100000 + 1

/-- Drops trailing zeros, at most `count` of them. -/
def trim : Nat → Scaled → Scaled
  | 0, s => s
  | count + 1, s => if s.digits % 10 = 0 then trim count ⟨s.digits / 10, s.exponent + 1⟩ else s

/-- The shortest decimal number that rounds to this one. -/
def shortest (tie : Tie) (b : Binary) : Scaled :=
  let s := searchFrom tie b 24 b.magnitude
  trim 24 s

end Binary

end AccessiblePdf.Decimal
