import AccessiblePdf.Bytes

/-!
The ASCII base-85 filter: five characters from `!` to `u` for four bytes, `z` for four zero bytes,
and `~>` at the end.
-/
namespace AccessiblePdf.Ascii85

/-- The characters that count, up to the end mark. -/
def significant (data : Bytes) : Bytes :=
  (data.takeWhile (· != 0x7E)).filter (fun b => !Byte.isWhite b)

/-- The four bytes of the number that five digits write. -/
def group (digits : List Nat) : Option Bytes :=
  let n := digits.foldl (fun n d => 85 * n + d) 0
  if n < 0x100000000 then
    some [UInt8.ofNat (n / 16777216), UInt8.ofNat (n / 65536), UInt8.ofNat (n / 256), UInt8.ofNat n]
  else none

/-- Decodes digits; `digits` are those of the group that is not yet full, the last one first. -/
def decodeFrom (digits : List Nat) : Bytes → Option Bytes
  | [] =>
    if digits.isEmpty then some []
    else if digits.length = 1 then none
    else (group (digits.reverse ++ List.replicate (5 - digits.length) 84)).map
      (·.take (digits.length - 1))
  | b :: rest =>
    if b == 0x7A && digits.isEmpty then (decodeFrom [] rest).map ([0, 0, 0, 0] ++ ·)
    else if b < 0x21 || 0x75 < b then none
    else
      let digits := (b.toNat - 0x21) :: digits
      if digits.length = 5 then do
        let four ← group digits.reverse
        return four ++ (← decodeFrom [] rest)
      else decodeFrom digits rest

/-- The bytes that the characters stand for, if all of them are allowed. -/
def decode? (data : Bytes) : Option Bytes :=
  decodeFrom [] (significant ((Bytes.dropLead? [0x3C, 0x7E] data).getD data))

end AccessiblePdf.Ascii85
