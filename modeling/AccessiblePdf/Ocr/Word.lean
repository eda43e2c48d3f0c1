import AccessiblePdf.Content.Operation
import AccessiblePdf.Font.Encoding
import AccessiblePdf.Geometry.Box

/-!
Recognised words as invisible text: the font that has a word's characters, its bytes in that font,
and the operations that stretch it over the word's box.
-/
namespace AccessiblePdf.Ocr

/-- The two fonts of a text layer. -/
inductive LayerFont where
  /-- A font of one byte for each character of WinAnsiEncoding. -/
  | latin
  /-- A font of two bytes for each character of the basic plane. -/
  | universal
deriving DecidableEq, Repr

/-- The resource name of a font. -/
def LayerFont.resource : LayerFont → String
  | latin => "OcrLatin"
  | universal => "OcrUnicode"

/-- A word in the codes of a font. -/
structure ShownWord where
  font : LayerFont
  codes : List Nat
deriving DecidableEq, Repr

namespace ShownWord

/-- Whether a character has a code in the universal font. -/
def isUniversal (c : Nat) : Bool := c != 0 && c < 0xFFFD

/-- A word in the first font that has all its characters, or else in the universal one without the
characters that this lacks; none if nothing is left. -/
def ofText? (text : String) : Option ShownWord :=
  let word : ShownWord :=
    match WinAnsi.encodeText? text with
    | some bytes => ⟨.latin, bytes.map UInt8.toNat⟩
    | none => ⟨.universal, (text.toList.map Char.toNat).filter isUniversal⟩
  if word.codes.isEmpty then none else some word

/-- The string that shows a word. -/
def string (w : ShownWord) : Object :=
  match w.font with
  | .latin => .string (w.codes.map UInt8.ofNat) .literal
  | .universal =>
    .string (w.codes.flatMap fun c => [UInt8.ofNat (c / 256), UInt8.ofNat c]) .hexadecimal

end ShownWord

/-- The advance of all characters, in thousandths of the font size. -/
def glyphWidth : Float := 500.0

/-- How far the baseline lies above the bottom of a word, as a share of the font size. -/
def baseline : Float := 0.2

/-- A number with three places, halves away from zero. -/
def rounded (x : Float) : Object := .ofFloat (roundAway (x * 1000.0) / 1000.0)

/-- The horizontal scaling, in percent, that makes a word as wide as its box. -/
def scaling (box : Box Float) (w : ShownWord) : Float :=
  let natural := Float.ofNat w.codes.length * glyphWidth / 1000.0 * box.height
  if natural > 0.0 then box.width / natural * 100.0 else 100.0

/-- The text rendering mode of invisible text. -/
def invisible : Int := 3

/-- The operations that show a word invisibly over its box. -/
def wordOperations (resource : String) (box : Box Float) (w : ShownWord) : List Operation :=
  [⟨"q", []⟩, ⟨"BT", []⟩, ⟨"Tr", [.integer invisible]⟩,
    ⟨"Tf", [.name resource, rounded box.height]⟩, ⟨"Tz", [rounded (scaling box w)]⟩,
    ⟨"Td", [rounded box.x, rounded (box.y + baseline * box.height)]⟩,
    ⟨"Tj", [w.string]⟩, ⟨"ET", []⟩, ⟨"Q", []⟩]

end AccessiblePdf.Ocr
