import AccessiblePdf.Decimal.Shortest

/-!
How floating-point numbers are written: with the fewest digits that read back, either always
positionally (`0.1`, `612`) or with a point and, for very large and very small numbers, an exponent
(`612.0`, `1e+30`).
-/
namespace AccessiblePdf.Decimal

/-- The decimal digits of a number. -/
def digitsOf (n : Nat) : List Char := Nat.toDigits 10 n

def zeros (n : Nat) : List Char := List.replicate n '0'

def sign (negative : Bool) : List Char := if negative then ['-'] else []

/-- Digits with the point at its place and no exponent. -/
def Scaled.positional (s : Scaled) : List Char :=
  let ds := digitsOf s.digits
  if 0 ≤ s.exponent then ds ++ zeros s.exponent.toNat
  else
    let places := (-s.exponent).toNat
    if places < ds.length then ds.take (ds.length - places) ++ '.' :: ds.drop (ds.length - places)
    else '0' :: '.' :: zeros (places - ds.length) ++ ds

/-- How numbers are written with a point or an exponent. -/
structure PointedStyle where
  /-- Which digits are taken when two candidates are equally near. -/
  tie : Tie
  /-- Numbers whose first digit stands at most this many places after the point (counted down from
  zero) have an exponent. -/
  exponentFrom : Int
  /-- Whether exponents above zero have a plus sign. -/
  plus : Bool
deriving DecidableEq, Repr

/-- Digits with a point, and with an exponent from 10^16 on and for very small numbers. -/
def Scaled.pointed (style : PointedStyle) (s : Scaled) : List Char :=
  let ds := digitsOf s.digits
  let point : Int := ds.length + s.exponent
  if 0 ≤ s.exponent ∧ point ≤ 16 then s.positional ++ ['.', '0']
  else if style.exponentFrom < point ∧ point ≤ 16 then s.positional
  else
    let mantissa := match ds with
      | [d] => [d]
      | d :: rest => d :: '.' :: rest
      | [] => []
    let e := point - 1
    let mark := if 0 < e ∧ style.plus then ['+'] else sign (e < 0)
    mantissa ++ 'e' :: (mark ++ digitsOf e.natAbs)

/-- Always positional, without a point for whole numbers. -/
def Reading.plain : Reading → String
  | .nan => "NaN"
  | .infinite negative => String.ofList (sign negative) ++ "inf"
  | .zero negative => String.ofList (sign negative ++ ['0'])
  | .finite negative b => String.ofList (sign negative ++ (b.shortest .up).positional)

/-- With a point or an exponent, so that it reads as a floating-point number. -/
def Reading.pointed (style : PointedStyle) : Reading → String
  | .nan => "NaN"
  | .infinite negative => String.ofList (sign negative) ++ "inf"
  | .zero negative => String.ofList (sign negative ++ ['0', '.', '0'])
  | .finite negative b =>
    String.ofList (sign negative ++ (b.shortest style.tie).pointed style)

/-- The plain text of a double. -/
def ofDouble (x : Float) : String := (Reading.ofDouble x).plain

/-- The plain text of a single. -/
def ofSingle (x : Float32) : String := (Reading.ofSingle x).plain

end AccessiblePdf.Decimal
