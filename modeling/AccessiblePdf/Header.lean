import AccessiblePdf.Fault
import AccessiblePdf.Text.Utf8

/-!
The header of a PDF file: `%PDF-` and a version such as `1.7` within the first kilobyte.
-/
namespace AccessiblePdf.Header

def magic : Bytes := "%PDF-"

/-- Readers accept other data in front of the header, but not much of it. -/
def searchWindow : Nat := 1024

/-- A digit, a point and a digit. -/
def isVersion : Bytes → Bool
  | [a, b, c] => Byte.isDigit a && b == 0x2E && Byte.isDigit c
  | _ => false

/-- The version that the header of a file states. -/
def version (data : Bytes) : Except Fault String :=
  match Bytes.find? magic (data.take searchWindow) with
  | none => .error .unknownFormat
  | some start =>
    let field := (data.drop (start + magic.length)).take 3
    if field.length < 3 then .error .unknownFormat
    else if isVersion field then .ok (Utf8.decodeLossy field)
    else .error (.unsupportedVersion (Utf8.decodeLossy field))

/-- The name of the format of a version. -/
def formatName (version : String) : String := "PDF " ++ version

/-- Whether a file has a readable header. -/
def isPdf (data : Bytes) : Bool := (version data).isOk

end AccessiblePdf.Header
