import AccessiblePdf.Color
import AccessiblePdf.Bytes
import AccessiblePdf.Geometry.Matrix

/-!
The graphics state of a content stream, as far as the place, the size and the colour of what is
drawn depend on it, and the matrices of a text object.
-/
namespace AccessiblePdf

/-- What `q` saves and `Q` restores. -/
structure GraphicsState where
  ctm : Matrix Float := .identity
  fillSpace : ColorSpace := .gray
  /-- Nothing when the colour cannot be told. -/
  fill : Option Rgb := some .black
  font : Option Bytes := none
  fontSize : Float := 0
  charSpacing : Float := 0
  wordSpacing : Float := 0
  /-- 1 is the natural width. -/
  horizontalScale : Float := 1
  leading : Float := 0
  rise : Float := 0
  renderMode : Int := 0

/-- Where the next glyph of a text object stands, and where its line began. -/
structure TextPosition where
  matrix : Matrix Float := .identity
  line : Matrix Float := .identity

namespace TextPosition

/-- Both matrices at once. -/
def ofMatrix (m : Matrix Float) : TextPosition := ⟨m, m⟩

/-- The start of a new line, moved from the start of this one. -/
def move (p : TextPosition) (tx ty : Float) : TextPosition :=
  .ofMatrix ((Matrix.shift tx ty).multiply p.line)

/-- Past a run of some width. -/
def advance (p : TextPosition) (tx : Float) : TextPosition :=
  { p with matrix := (Matrix.shift tx 0).multiply p.matrix }

/-- The box of a run of some width: from a fifth of the font size below the base line to four fifths
above. -/
def runBox (p : TextPosition) (g : GraphicsState) (tx : Float) : Box Float :=
  let size := g.fontSize
  (p.matrix.multiply g.ctm).transformBox
    (.ofCorners 0 (g.rise - 0.2 * size) tx (g.rise + 0.8 * size))

end TextPosition

end AccessiblePdf
