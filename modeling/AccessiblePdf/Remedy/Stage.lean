import AccessiblePdf.Annotation.Edit
import AccessiblePdf.Metadata.Settings
import AccessiblePdf.Ocr.Layer
import AccessiblePdf.Outline.Build
import AccessiblePdf.Structure.Build
import AccessiblePdf.Structure.Tagging

/-!
The stages in which an instruction set is carried out. Each takes the section of the set that it is
for, and leaves the document as it is where the set has no such section.
-/
namespace AccessiblePdf

inductive Stage where
  | metadata
  | tags
  | regions
  | artifacts
  | annotations
  | fonts
  | textLayers
  | outline
  | stamp
deriving DecidableEq, Repr

namespace Stage

def name : Stage → String
  | metadata => "metadata"
  | tags => "structure"
  | regions => "content_tagging"
  | artifacts => "artifacts"
  | annotations => "annotations"
  | fonts => "fonts"
  | textLayers => "ocr"
  | outline => "bookmarks"
  | stamp => "finalize"

/-- All stages, in the order in which they are carried out. -/
def standard : List Stage :=
  [metadata, tags, regions, artifacts, annotations, fonts, textLayers, outline, stamp]

def ofName? (name : String) : Option Stage := standard.find? (·.name == name)

end Stage

namespace Edit

/-- States in the document information what changed the document, and when. -/
def applyStamp (o : Options) : Edit Unit :=
  modifyInfo fun d =>
    let d := d.insert "Processor" (TextString.object o.processor)
    match o.modified with
    | some date => d.insert "ModDate" (.string date.pdf .literal)
    | none => d

/-- Carries out a stage, if the set has a section for it. -/
def stage (o : Options) (set : InstructionSet) : Stage → Edit Unit
  | .metadata => set.metadata.forM applyMetadata
  | .tags => set.tags.forM applyTags
  | .regions => if set.regions.isEmpty then pure () else applyRegions o set.regions
  | .artifacts => if set.artifacts.isEmpty then pure () else applyArtifacts o set.artifacts
  | .annotations => if set.annotations.isEmpty then pure () else applyAnnotations o set.annotations
  | .fonts => if set.fonts.isEmpty then pure () else applyFonts set.fonts
  | .textLayers => if set.ocr.isEmpty then pure () else applyOcr o set.ocr
  | .outline => if (set.bookmarks.map (·.fromHeadings)).getD false then applyOutline else pure ()
  | .stamp => applyStamp o

/-- Carries out stages in order, up to the first failure. -/
def stages (o : Options) (set : InstructionSet) (ss : List Stage) : Edit Unit := do
  modify fun d => { d with compress := o.compress, compressor := o.compressor }
  ss.forM (stage o set)

end Edit

end AccessiblePdf
