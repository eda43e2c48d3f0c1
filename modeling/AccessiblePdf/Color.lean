import AccessiblePdf.Geometry.Region
import AccessiblePdf.Text.Numeral

/-!
Colours: colour spaces by name, components turned into red, green and blue, and the contrast of two
colours.
-/
namespace AccessiblePdf

/-- A colour of the screen. -/
structure Rgb where
  red : UInt8
  green : UInt8
  blue : UInt8
deriving DecidableEq, Repr

namespace Rgb

def black : Rgb := ⟨0, 0, 0⟩

def white : Rgb := ⟨255, 255, 255⟩

/-- The colour as `#RRGGBB`. -/
def hex (c : Rgb) : String :=
  String.ofList ('#' :: ([c.red, c.green, c.blue].flatMap Byte.hex).map (Char.ofNat ·.toNat))

/-- A channel from two characters, a hexadecimal numeral. -/
def channel? (a b : UInt8) : Option UInt8 := (Numeral.hex? 256 [a, b]).map UInt8.ofNat

/-- A colour from `#RRGGBB` in either case. -/
def ofHex? (text : String) : Option Rgb :=
  match utf8 text with
  | [0x23, r₁, r₂, g₁, g₂, b₁, b₂] => do
    return ⟨← channel? r₁ r₂, ← channel? g₁ g₂, ← channel? b₁ b₂⟩
  | _ => none

/-! ## Contrast -/

/-- The light that a channel gives. -/
def linear (c : UInt8) : Float :=
  let v := c.toFloat / 255.0
  if v ≤ 0.03928 then v / 12.92 else ((v + 0.055) / 1.055) ^ (2.4 : Float)

/-- The brightness of a colour, from 0 for black to 1 for white. -/
def luminance (c : Rgb) : Float :=
  0.2126 * linear c.red + 0.7152 * linear c.green + 0.0722 * linear c.blue

/-- How well two colours stand out from each other, from 1 to 21. -/
def contrast (a b : Rgb) : Float :=
  let x := a.luminance
  let y := b.luminance
  let light := if x ≥ y then x else y
  let dark := if x ≥ y then y else x
  (light + 0.05) / (dark + 0.05)

end Rgb

/-- The families of colour spaces that the components of a colour can be read in. -/
inductive ColorSpace where
  | gray
  | rgb
  | cmyk
  /-- Patterns, separations, indexed spaces and profiles, read by their number of components. -/
  | other
deriving DecidableEq, Repr

namespace ColorSpace

/-- The family of a colour space name, in full or as inline images abbreviate it. -/
def ofName (name : String) : ColorSpace :=
  if name ∈ ["DeviceGray", "G", "CalGray"] then .gray
  else if name ∈ ["DeviceRGB", "RGB", "CalRGB"] then .rgb
  else if name ∈ ["DeviceCMYK", "CMYK"] then .cmyk
  else .other

/-- A component between 0 and 1 as a byte. -/
def quantize (v : Float) : UInt8 := (clamp 0.0 1.0 v * 255.0).round.toUInt8

private def ofGray (g : Float) : Rgb := ⟨quantize g, quantize g, quantize g⟩

private def ofInks (c m y k : Float) : Rgb :=
  ⟨quantize ((1.0 - c) * (1.0 - k)), quantize ((1.0 - m) * (1.0 - k)),
    quantize ((1.0 - y) * (1.0 - k))⟩

/-- The colour of some components, when their number fits the space. -/
def color? (space : ColorSpace) (components : List Float) : Option Rgb :=
  match space, components with
  | .gray, [g] => some (ofGray g)
  | .rgb, [r, g, b] => some ⟨quantize r, quantize g, quantize b⟩
  | .cmyk, [c, m, y, k] => some (ofInks c m y k)
  | .other, [g] => some (ofGray g)
  | .other, [r, g, b] => some ⟨quantize r, quantize g, quantize b⟩
  | .other, [c, m, y, k] => some (ofInks c m y k)
  | _, _ => none

end ColorSpace

end AccessiblePdf
