/-!
Decimal notation read as a floating-point number: an optional sign, digits with an optional point,
an optional exponent. The value is the nearest one.
-/
namespace AccessiblePdf.Decimal

/-- A number as written: sign, digits and power of ten. -/
structure Written where
  negative : Bool
  digits : Nat
  exponent : Int
deriving DecidableEq, Repr

/-- The value of a row of digits, read on from `n`. -/
def valueOnto (n : Nat) (ds : List Char) : Nat :=
  ds.foldl (fun n d => n * 10 + (d.toNat - '0'.toNat)) n

def value (ds : List Char) : Nat := valueOnto 0 ds

/-- A sign in front, true for minus, and the rest. -/
def takeSign : List Char → Bool × List Char
  | '-' :: cs => (true, cs)
  | '+' :: cs => (false, cs)
  | cs => (false, cs)

/-- An exponent `e±digits` up to the end of the text; the empty text is the exponent 0. -/
def exponent? : List Char → Option Int
  | [] => some 0
  | c :: cs =>
    if c = 'e' ∨ c = 'E' then
      let (negative, ds) := takeSign cs
      if ds.isEmpty || !ds.all Char.isDigit then none
      else some (if negative then -(value ds : Int) else value ds)
    else none

/-- Digits with an optional point and an optional exponent; a digit is required. -/
def written? (text : List Char) : Option Written :=
  let (negative, cs) := takeSign text
  let whole := cs.takeWhile Char.isDigit
  let rest := cs.dropWhile Char.isDigit
  let (places, rest) := match rest with
    | '.' :: more => (more.takeWhile Char.isDigit, more.dropWhile Char.isDigit)
    | _ => ([], rest)
  if whole.isEmpty && places.isEmpty then none
  else (exponent? rest).map fun e =>
    ⟨negative, valueOnto (value whole) places, e - places.length⟩

namespace Written

/-- The decimal position of the first digit; far outside of it every format has only zero and
infinity. -/
def order (w : Written) : Int := w.exponent + (Nat.toDigits 10 w.digits).length

/-- The nearest double. -/
def toDouble (w : Written) : Float :=
  let magnitude : Float :=
    if w.digits = 0 then 0.0
    else if 400 < w.order then 1.0 / 0.0
    else if w.order < -400 then 0.0
    else if 0 ≤ w.exponent then Float.ofScientific w.digits false w.exponent.toNat
    else Float.ofScientific w.digits true (-w.exponent).toNat
  if w.negative then -magnitude else magnitude

/-- The nearest single. -/
def toSingle (w : Written) : Float32 :=
  let magnitude : Float32 :=
    if w.digits = 0 then 0.0
    else if 100 < w.order then 1.0 / 0.0
    else if w.order < -100 then 0.0
    else if 0 ≤ w.exponent then Float32.ofScientific w.digits false w.exponent.toNat
    else Float32.ofScientific w.digits true (-w.exponent).toNat
  if w.negative then -magnitude else magnitude

end Written

/-- Names of the values that are not finite, in any case. -/
def special? (text : List Char) : Option Float :=
  let (negative, cs) := takeSign text
  let inf : Float := 1.0 / 0.0
  match String.ofList (cs.map Char.toLower) with
  | "inf" | "infinity" => some (if negative then -inf else inf)
  | "nan" => some (0.0 / 0.0)
  | _ => none

/-- A double from its text; `inf`, `infinity` and `nan` in any case are numbers too. -/
def double? (text : String) : Option Float :=
  match written? text.toList with
  | some w => some w.toDouble
  | none => special? text.toList

end AccessiblePdf.Decimal
