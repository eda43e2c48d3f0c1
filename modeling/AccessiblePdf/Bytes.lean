/-!
Byte strings, as PDF files hold them: the bytes of an ASCII text, the classes of bytes that the
PDF grammar tells apart, and hexadecimal notation.
-/
namespace AccessiblePdf

abbrev Bytes := List UInt8

/-- The UTF-8 bytes of a text. -/
def utf8 (s : String) : Bytes := s.toUTF8.data.toList

instance : Coe String Bytes := ⟨utf8⟩

namespace Byte

/-! ## Classes -/

/-- PDF white space: NUL, tab, line feed, form feed, carriage return and space. -/
def isWhite (b : UInt8) : Bool :=
  b == 0 || b == 9 || b == 10 || b == 12 || b == 13 || b == 32

/-- The bytes that end a PDF token and start another one. -/
def isDelimiter (b : UInt8) : Bool :=
  b == 0x28 || b == 0x29 || b == 0x3C || b == 0x3E || b == 0x5B || b == 0x5D ||
    b == 0x7B || b == 0x7D || b == 0x2F || b == 0x25

/-- Neither white space nor delimiter. -/
def isRegular (b : UInt8) : Bool := !isWhite b && !isDelimiter b

def isDigit (b : UInt8) : Bool := 0x30 ≤ b && b ≤ 0x39

def isUpper (b : UInt8) : Bool := 0x41 ≤ b && b ≤ 0x5A

def isLower (b : UInt8) : Bool := 0x61 ≤ b && b ≤ 0x7A

def isLetter (b : UInt8) : Bool := isUpper b || isLower b

/-- An ASCII capital becomes small; every other byte stays. -/
def toLower (b : UInt8) : UInt8 := if isUpper b then b + 0x20 else b

/-! ## Hexadecimal notation -/

/-- The value of a hexadecimal digit of either case. -/
def hexValue? (b : UInt8) : Option UInt8 :=
  if isDigit b then some (b - 0x30)
  else if 0x41 ≤ b && b ≤ 0x46 then some (b - 0x37)
  else if 0x61 ≤ b && b ≤ 0x66 then some (b - 0x57)
  else none

/-- The capital hexadecimal digit of a value below 16. -/
def hexDigit (n : UInt8) : UInt8 := if n < 10 then 0x30 + n else 0x37 + n

/-- Two capital hexadecimal digits. -/
def hex (b : UInt8) : Bytes := [hexDigit (b >>> 4), hexDigit (b &&& 15)]

end Byte

namespace Bytes

/-- Two capital hexadecimal digits for each byte. -/
def toHex (bs : Bytes) : Bytes := bs.flatMap Byte.hex

/-- Whether a byte string starts with another one. -/
def startsWith (bs lead : Bytes) : Bool := lead.isPrefixOf bs

/-- The bytes after `lead`, when it stands in front. -/
def dropLead? : Bytes → Bytes → Option Bytes
  | [], bs => some bs
  | _ :: _, [] => none
  | l :: ls, b :: bs => if l == b then dropLead? ls bs else none

/-- Where `needle` first occurs. -/
def find? (needle : Bytes) : Bytes → Option Nat
  | [] => if needle.isEmpty then some 0 else none
  | b :: bs => if needle.isPrefixOf (b :: bs) then some 0 else (find? needle bs).map (· + 1)

/-- Where `needle` last occurs. -/
def findLast? (needle : Bytes) : Bytes → Option Nat
  | [] => if needle.isEmpty then some 0 else none
  | b :: bs =>
    match findLast? needle bs with
    | some n => some (n + 1)
    | none => if needle.isPrefixOf (b :: bs) then some 0 else none

/-- Lexicographic comparison of byte strings. -/
def compare : Bytes → Bytes → Ordering
  | [], [] => .eq
  | [], _ :: _ => .lt
  | _ :: _, [] => .gt
  | a :: as, b :: bs => if a < b then .lt else if b < a then .gt else compare as bs

end Bytes

end AccessiblePdf
