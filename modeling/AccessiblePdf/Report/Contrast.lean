import AccessiblePdf.Content.Scan

/-!
The colours of texts and of what is behind them. Behind a text is the last filled path painted
before it whose box, slightly grown, encloses it, and else the page.
-/
namespace AccessiblePdf

/-- A pair of colours, and how many texts have it. -/
structure ColorPair where
  foreground : Rgb
  background : Rgb
  count : Nat

namespace ColorPair

/-- How far the box of a path is grown to enclose texts. -/
def margin : Float := 0.5

/-- Whether a figure is filled behind a box. -/
def isBehind (box : Box Float) (f : Figure) : Bool :=
  f.kind == .path && f.filled && f.box.any fun shape => (shape.expand margin).contains box

/-- The colour behind a text; `earlier` is what was drawn before it, latest first. -/
def backgroundOf (earlier : List Figure) (text : Figure) : Rgb :=
  ((text.box.bind fun box => earlier.find? (isBehind box)).bind (·.fill)).getD Rgb.white

/-- Whether a figure is text that can be seen. -/
def isVisibleText (f : Figure) : Bool :=
  f.kind == .text && !f.isInvisible && f.text.any fun t => !Text.isEmptyOrBlank t

/-- The colours of the texts among figures, and what is behind them. -/
def pairsFrom (earlier : List Figure) : List Figure → List (Rgb × Rgb)
  | [] => []
  | f :: rest =>
    let more := pairsFrom (f :: earlier) rest
    if isVisibleText f then (f.fill.getD Rgb.black, backgroundOf earlier f) :: more else more

/-- A colour as a number, which orders colours as their hexadecimal texts. -/
def rank (c : Rgb) : Nat := (c.red.toNat * 256 + c.green.toNat) * 256 + c.blue.toNat

/-- The pairs of colours in some scans, by foreground and background. -/
def ofScans (scans : List PageScan) : List ColorPair :=
  let pairs := scans.flatMap fun s => pairsFrom [] (s.operators.map (·.figure))
  (pairs.eraseDups.mergeSort fun a b =>
    rank a.1 < rank b.1 || (rank a.1 == rank b.1 && rank a.2 ≤ rank b.2)).map
    fun (foreground, background) => ⟨foreground, background, pairs.count (foreground, background)⟩

/-- The contrast ratio with two places, halves away from zero. -/
def contrast (p : ColorPair) : Float :=
  (Rgb.contrast p.foreground p.background * 100.0).round / 100.0

end ColorPair

end AccessiblePdf
