/-!
Numbers as PDF has them, whole or real, and the exact passage between whole numbers and doubles:
`truncate` drops the fraction, `nearestDouble` is the double next to a whole number, itself a whole
number. Numbered values come in runs of consecutive numbers.
-/
namespace AccessiblePdf

/-! ## Whole numbers of 64 bits -/

def maxInt64 : Int := 0x8000000000000000 - 1

def minInt64 : Int := -0x8000000000000000

/-- The nearest number of 64 bits. -/
def saturate (n : Int) : Int :=
  if n < minInt64 then minInt64 else if maxInt64 < n then maxInt64 else n

/-- The whole part of a double within 64 bits; what is not a number counts as zero. -/
def truncate (x : Float) : Int :=
  let n : Int := x.abs.toUInt64.toNat
  saturate (if x < 0 then -n else n)

/-- The nearest whole number, a half away from zero. -/
def roundAway (x : Float) : Float :=
  -- From 2^52 on every double is whole.
  if x.abs < 4503599627370496.0 then
    let whole := Float.ofInt (truncate x)
    let rest := x - whole
    if 0.5 ≤ rest then whole + 1.0 else if rest ≤ -0.5 then whole - 1.0 else whole
  else x

/-- A whole number rounded to 53 significant bits, a half to the even neighbour. -/
def roundBits (n : Nat) : Nat :=
  if n < 0x20000000000000 then n
  else
    let step := Nat.pow 2 (n.log2 - 52)
    let low := n / step
    let twice := 2 * (n % step)
    let up := step < twice || (twice == step && low % 2 == 1)
    (if up then low + 1 else low) * step

/-- The double next to a whole number. -/
def nearestDouble (n : Int) : Int :=
  if n < 0 then -(roundBits n.natAbs : Int) else roundBits n.natAbs

theorem nearestDouble_eq_self {n : Int} (h : n.natAbs < 0x20000000000000) :
    nearestDouble n = n := by
  unfold nearestDouble roundBits
  rw [if_pos h]
  split <;> omega

/-! ## Numbers -/

/-- A number: whole, or anything else that a double can be. -/
inductive Number where
  | whole (n : Int)
  | real (x : Float)
deriving Repr

namespace Number

def toFloat : Number → Float
  | .whole n => Float.ofInt n
  | .real x => x

/-- Whether a double is a whole number of at most 53 bits; zero with a sign is not. -/
def isWhole (x : Float) : Bool :=
  x.abs < 9007199254740992.0 && Float.ofInt (truncate x) == x && !(x == 0 && x.toBits != 0)

/-- A double as a number. -/
def ofFloat (x : Float) : Number := if isWhole x then .whole (truncate x) else .real x

/-- A whole number, as near to it as doubles come. -/
def ofInt (n : Int) : Number := .whole (nearestDouble n)

/-- The whole part, within 64 bits. -/
def truncated : Number → Int
  | .whole n => saturate n
  | .real x => truncate x

end Number

/-! ## Runs of consecutive numbers -/

namespace Runs

/-- The maximal runs of consecutive numbers: the first number of each run, and its values. -/
def ofList {α : Type} : List (Nat × α) → List (Nat × List α)
  | [] => []
  | (n, a) :: rest =>
    match ofList rest with
    | [] => [(n, [a])]
    | (first, as) :: more =>
      if first = n + 1 then (n, a :: as) :: more else (n, [a]) :: (first, as) :: more

end Runs

end AccessiblePdf
