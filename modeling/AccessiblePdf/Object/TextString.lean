import AccessiblePdf.Object.Basic
import AccessiblePdf.Text.Utf16

/-!
Text strings. ASCII text is written as it is; all other text as UTF-16 with a byte-order mark.
Reading accepts UTF-16 with a mark, UTF-8 with and without one, and takes every other byte string
for Latin-1.
-/
namespace AccessiblePdf.TextString

/-- What follows a UTF-8 byte-order mark, or everything. -/
def dropUtf8Mark (bs : Bytes) : Bytes := (Bytes.dropLead? [0xEF, 0xBB, 0xBF] bs).getD bs

/-- Each byte as the character of its number. -/
def latin1 (bs : Bytes) : String := String.ofList (bs.map (fun b => Char.ofNat b.toNat))

def decode : Bytes → String
  | 0xFE :: 0xFF :: rest => Utf16.decodeLossy (Utf16.unitsOfBytes rest)
  | bs =>
    let bs := dropUtf8Mark bs
    (Utf8.decode? bs).getD (latin1 bs)

def isAscii (s : String) : Bool := s.toList.all (fun c => c.toNat < 128)

/-- The bytes of a text string and how they are written. -/
def encode (s : String) : Bytes × StringStyle :=
  if isAscii s then (utf8 s, .literal) else (0xFE :: 0xFF :: Utf16.encodeBytes s, .hexadecimal)

/-- A text as an object. -/
def object (s : String) : Object := .string (encode s).1 (encode s).2

end AccessiblePdf.TextString
