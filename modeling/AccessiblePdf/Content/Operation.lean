import AccessiblePdf.Fault
import AccessiblePdf.Object.Reader
import AccessiblePdf.Object.Writer

/-!
Content streams as operations: operands and the operator that takes them. Reading stops at the first
operation that it cannot read; only an inline image that cannot be read makes it fail.
-/
namespace AccessiblePdf

structure Operation where
  operator : String
  operands : List Object
deriving Repr

namespace Operation

/-! ## Writing -/

/-- The operands, each followed by a space, and the operator. -/
def write (op : Operation) : Bytes :=
  (op.operands.flatMap fun o => Writer.object o ++ [0x20]) ++ utf8 op.operator

/-- Operations, one a line. -/
def writeAll : List Operation → Bytes
  | [] => []
  | op :: ops => op.write ++ ops.flatMap fun o => 0x0A :: o.write

/-! ## Reading -/

/-- White space between the tokens of a content stream. -/
def isGap (b : UInt8) : Bool := b == 0x20 || b == 0x0A || b == 0x0D || b == 0x09

def gap (bs : Bytes) : Bytes := bs.dropWhile isGap

/-- The characters of operators. -/
def isOperatorByte (b : UInt8) : Bool := Byte.isLetter b || b == 0x2A || b == 0x27 || b == 0x22

/-- As many operands as can be read, at most `n`, added to those read before; `fuel` is for each. -/
def operandsFrom (fuel : Nat) (done : List Object) : Nat → Bytes → List Object × Bytes
  | 0, bs => (done.reverse, bs)
  | n + 1, bs =>
    match Reader.objectFrom false fuel bs with
    | none => (done.reverse, bs)
    | some (o, rest) => operandsFrom fuel (o :: done) n (gap rest)

/-! ## Inline images -/

/-- An entry of an inline image under its short or its full name. -/
def imageValue? (d : Dict Object) (short full : Bytes) : Option Object :=
  match d.get? short with
  | some o => some o
  | none => d.get? full

/-- Components of a colour in a device colour space. -/
def components? (space : Bytes) : Option Nat :=
  if space = utf8 "DeviceGray" ∨ space = utf8 "Gray" then some 1
  else if space = utf8 "DeviceRGB" ∨ space = utf8 "RGB" then some 3
  else if space = utf8 "DeviceCMYK" ∨ space = utf8 "CMYK" then some 4
  else none

/-- The number of bytes of an inline image, from its size and its colours. -/
def imageLength? (d : Dict Object) : Option Nat := do
  let width ← (← imageValue? d "W" "Width").integer?
  let height ← (← imageValue? d "H" "Height").integer?
  let mask := ((imageValue? d "IM" "ImageMask").bind Object.boolean?).getD false
  let bits ← if mask then some 1 else (imageValue? d "BPC" "BitsPerComponent").bind Object.integer?
  let colors ← if mask then some 1 else
    ((imageValue? d "CS" "ColorSpace").bind Object.name?).bind components?
  if width < 0 ∨ height < 0 ∨ bits < 0 then none
  else some ((width.toNat * colors * bits.toNat + 7) / 8 * height.toNat)

/-- The rest of an inline image after `BI`. -/
def inlineImage (bs : Bytes) : Option (Operation × Bytes) := do
  let (d, rest) := Reader.entries (gap bs)
  let rest ← Bytes.dropLead? "ID" rest
  let rest := gap rest
  let n ← imageLength? d
  if rest.length < n then none
  else
    let after ← Bytes.dropLead? "EI" (gap (rest.drop n))
    return (⟨"BI", [Object.ofStream d (rest.take n)]⟩, gap after)

/-! ## Operations -/

/-- What stands in front of the bytes: an operation, nothing that can be read, or an inline image
that breaks the rules. -/
inductive Next where
  | operation (op : Operation) (rest : Bytes)
  | nothing
  | brokenImage

/-- After comments; one that no line end closes stays. -/
def skipComments : Nat → Bytes → Bytes
  | 0, bs => bs
  | fuel + 1, bs =>
    match bs with
    | 0x25 :: rest =>
      match rest.dropWhile (fun b => b != 0x0A && b != 0x0D) with
      | [] => bs
      | _ :: after => skipComments fuel (gap after)
    | _ => bs

/-- The next operation; `fuel` is enough for all bytes. -/
def next (fuel : Nat) (bs : Bytes) : Next :=
  let bs := skipComments fuel bs
  match Bytes.dropLead? "BI" bs with
  | some rest =>
    match inlineImage rest with
    | some (op, rest) => .operation op rest
    | none => .brokenImage
  | none =>
    let (operands, rest) := operandsFrom fuel [] fuel bs
    let word := rest.takeWhile isOperatorByte
    if word.isEmpty then .nothing
    else .operation ⟨Utf8.decodeLossy word, operands⟩ (gap (rest.dropWhile isOperatorByte))

/-- Reads at most `n` operations, added to those read before; `fuel` is for each. -/
def readFrom (fuel : Nat) (done : List Operation) : Nat → Bytes → Except Fault (List Operation)
  | 0, _ => .ok done.reverse
  | n + 1, bs =>
    match next fuel bs with
    | .operation op rest => readFrom fuel (op :: done) n rest
    | .nothing => .ok done.reverse
    | .brokenImage => .error .content

/-- The operations of a content stream, up to the first one that cannot be read. -/
def readAll (bs : Bytes) : Except Fault (List Operation) :=
  readFrom (Reader.fuelFor bs) [] (bs.length + 1) (gap bs)

end Operation

end AccessiblePdf
