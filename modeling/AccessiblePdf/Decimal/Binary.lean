/-!
Binary floating-point numbers as exact numbers: what the bits of a double or of a single stand for.
-/
namespace AccessiblePdf.Decimal

/-- A positive number `significand * 2 ^ exponent`, as a binary format stores it. -/
structure Binary where
  significand : Nat
  exponent : Int
  /-- Whether the next smaller number is only half as far away as the next larger one. -/
  narrowBelow : Bool
deriving DecidableEq, Repr

/-- What the bits of a floating-point number stand for; a sign is kept for zero too. -/
inductive Reading where
  | nan
  | infinite (negative : Bool)
  | zero (negative : Bool)
  | finite (negative : Bool) (magnitude : Binary)
deriving DecidableEq, Repr

/-- Reads sign, biased exponent and fraction of a format with `fractionBits` bits of fraction, whose
greatest biased exponent is `special`. -/
def Reading.ofFields (fractionBits special : Nat) (negative : Bool) (biased fraction : Nat) :
    Reading :=
  let hidden := Nat.pow 2 fractionBits
  let unit : Int := 1 - (special / 2 : Nat) - fractionBits
  if biased = special then (if fraction = 0 then .infinite negative else .nan)
  else if biased = 0 then
    if fraction = 0 then .zero negative else .finite negative ⟨fraction, unit, false⟩
  else .finite negative ⟨hidden + fraction, unit + (biased - 1 : Nat), fraction = 0 && 1 < biased⟩

/-- What a double stands for. -/
def Reading.ofDouble (x : Float) : Reading :=
  let bits := x.toBits
  .ofFields 52 2047 (bits >>> 63 == 1) ((bits >>> 52) &&& 0x7FF).toNat
    (bits &&& 0xFFFFFFFFFFFFF).toNat

/-- What a single stands for. -/
def Reading.ofSingle (x : Float32) : Reading :=
  let bits := x.toBits
  .ofFields 23 255 (bits >>> 31 == 1) ((bits >>> 23) &&& 0xFF).toNat (bits &&& 0x7FFFFF).toNat

end AccessiblePdf.Decimal
