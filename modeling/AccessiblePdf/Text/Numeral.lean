import AccessiblePdf.Bytes

/-!
Numerals in texts: an optional plus sign and digits, decimal or hexadecimal; and numbers of a fixed
width.
-/
namespace AccessiblePdf.Numeral

/-- Without a plus sign in front. -/
def dropPlus : Bytes → Bytes
  | 0x2B :: rest => rest
  | bs => bs

/-- The number that hexadecimal digits write. -/
def hexValue? : Bytes → Option Nat :=
  fun bs => bs.foldlM (fun n b => (Byte.hexValue? b).map (fun d => n * 16 + d.toNat)) 0

/-- A hexadecimal numeral below a limit. -/
def hex? (limit : Nat) (bs : Bytes) : Option Nat :=
  let digits := dropPlus bs
  if digits.isEmpty then none else (hexValue? digits).filter (· < limit)

/-- A decimal numeral below a limit. -/
def decimal? (limit : Nat) (bs : Bytes) : Option Nat :=
  let digits := dropPlus bs
  if digits.isEmpty || !digits.all Byte.isDigit then none
  else
    let n := digits.foldl (fun n b => n * 10 + (b - 0x30).toNat) 0
    if n < limit then some n else none

/-- A number with at least this many digits. -/
def padded (width n : Nat) : List Char :=
  let ds := Nat.toDigits 10 n
  List.replicate (width - ds.length) '0' ++ ds

end AccessiblePdf.Numeral
