import AccessiblePdf.Text.Utf8

/-!
UTF-16: the code units of a text, and the text of code units, where a surrogate without its partner
reads as U+FFFD.
-/
namespace AccessiblePdf.Utf16

/-! ## Writing -/

/-- The one or two code units of a character. -/
def unitsOfChar (c : Char) : List Nat :=
  if c.toNat < 0x10000 then [c.toNat]
  else [0xD800 + (c.toNat - 0x10000) / 0x400, 0xDC00 + (c.toNat - 0x10000) % 0x400]

def encode (s : String) : List Nat := s.toList.flatMap unitsOfChar

/-- The two bytes of a code unit, the higher one first. -/
def unitBytes (u : Nat) : Bytes := [UInt8.ofNat (u / 256), UInt8.ofNat u]

def encodeBytes (s : String) : Bytes := (encode s).flatMap unitBytes

/-! ## Reading -/

def isHigh (u : Nat) : Bool := 0xD800 ≤ u && u < 0xDC00

def isLow (u : Nat) : Bool := 0xDC00 ≤ u && u < 0xE000

/-- The character of a surrogate pair. -/
def pair (high low : Nat) : Char :=
  Char.ofNat (0x10000 + (high - 0xD800) * 0x400 + (low - 0xDC00))

/-- The characters of code units, U+FFFD for a surrogate without its partner. -/
def chars : List Nat → List Char
  | [] => []
  | [u] => [if isHigh u || isLow u then Utf8.replacement else Char.ofNat u]
  | u :: v :: rest =>
    if isHigh u then
      if isLow v then pair u v :: chars rest else Utf8.replacement :: chars (v :: rest)
    else if isLow u then Utf8.replacement :: chars (v :: rest)
    else Char.ofNat u :: chars (v :: rest)

def decodeLossy (units : List Nat) : String := String.ofList (chars units)

/-- The code units of bytes, the higher byte first; an odd byte at the end is dropped. -/
def unitsOfBytes : Bytes → List Nat
  | a :: b :: rest => (a.toNat * 256 + b.toNat) :: unitsOfBytes rest
  | _ => []

/-- The text of code units of which every surrogate has its partner. -/
def decode? (units : List Nat) : Option String :=
  let rec go : List Nat → Option (List Char)
    | [] => some []
    | [u] => if isHigh u || isLow u then none else some [Char.ofNat u]
    | u :: v :: rest =>
      if isHigh u then (if isLow v then (go rest).map (pair u v :: ·) else none)
      else if isLow u then none
      else (go (v :: rest)).map (Char.ofNat u :: ·)
  (go units).map String.ofList

end AccessiblePdf.Utf16
