import AccessiblePdf.Filter.Compressor
import AccessiblePdf.Geometry.Region
import AccessiblePdf.Text.Blank
import AccessiblePdf.Text.Date

/-!
How instruction sets are carried out.
-/
namespace AccessiblePdf

structure Options where
  /-- Regions that hold nothing are passed over. -/
  lenient : Bool := false
  matching : Matching Float := .default
  processorName : String := "pdfremedy"
  processorVersion : String := "0.1.0"
  /-- The date that the document is stamped with. -/
  modified : Option Date := none
  /-- Whether new streams are compressed. -/
  compress : Bool := true
  /-- What compresses them. -/
  compressor : Compressor := .stored
  /-- Words that were recognised with less confidence are passed over. -/
  minConfidence : Float := 0

namespace Options

/-- A confidence is a share of one. -/
def withMinConfidence (o : Options) (c : Float) : Options :=
  { o with minConfidence := clamp 0.0 1.0 c }

/-- What the document is stamped with. -/
def processor (o : Options) : String := Text.trim (o.processorName ++ " " ++ o.processorVersion)

end Options

end AccessiblePdf
