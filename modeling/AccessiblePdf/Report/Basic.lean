import AccessiblePdf.Draft
import AccessiblePdf.Metadata.Settings
import AccessiblePdf.Report.Contrast
import AccessiblePdf.Report.Navigation
import AccessiblePdf.Report.Page
import AccessiblePdf.Text.Date

/-!
Reports: the facts about a document that tell how accessible it is.
-/
namespace AccessiblePdf

/-- What a report is to hold besides what it always holds. -/
structure ReportOptions where
  /-- The bytes of font programs. -/
  fontPrograms : Bool := false
  /-- What the pages draw. -/
  operators : Bool := true
  colorPairs : Bool := true

/-- The facts about a document as a whole. -/
structure DocumentFacts where
  /-- The file that the document was read from. -/
  file : Option Bytes := none
  version : String
  pageCount : Nat
  tagged : Bool
  language : Option String
  /-- The document information as short texts. -/
  info : Std.TreeMap String String
  xmp : Option String
  displayTitle : Option Bool
  hasStructure : Bool

namespace DocumentFacts

/-- When the document was created, if that is stated. -/
def created (f : DocumentFacts) : Option Date := f.info["CreationDate"]?.bind Date.ofText?

/-- When the document was changed last, if that is stated. -/
def modified (f : DocumentFacts) : Option Date := f.info["ModDate"]?.bind Date.ofText?

def pdfuaPart (f : DocumentFacts) : Option Int := f.xmp.bind Xmp.part?

end DocumentFacts

/-- The facts about the structure tree. -/
structure StructureFacts where
  elements : List (Tree ElementFacts)
  /-- Keys of the parent tree. -/
  parentKeys : Nat
  nextKey : Option Int

structure Report where
  options : ReportOptions
  document : DocumentFacts
  fonts : List FontFacts
  structureTree : Option StructureFacts
  roleMap : Std.TreeMap String String
  pages : List PageFacts
  outline : List (Tree OutlineItem)
  files : List EmbeddedFile
  layers : List LayerConfiguration
  colorPairs : List ColorPair

namespace Report

/-- The page with a number. -/
def page? (r : Report) (number : Nat) : Option PageFacts := r.pages.find? (·.number == number)

/-- The font with a label. -/
def font? (r : Report) (label : String) : Option FontFacts := r.fonts.find? (·.label == label)

end Report

namespace Document

/-- The text of the metadata stream. -/
def xmp? (doc : Document) (catalog : Dict Object) : Option String :=
  match doc.value? catalog "Metadata" with
  | some (.stream entries content) => Edit.metadataText? entries content
  | _ => none

def facts (doc : Document) (catalog : Dict Object) : DocumentFacts :=
  { version := doc.version
    pageCount := doc.pageCount
    tagged := (((doc.entryDict? catalog "MarkInfo").bind (doc.value? · "Marked")).bind
      Object.boolean?).getD false
    language := doc.entryText? catalog "Lang"
    info := ((((doc.trailer.get? "Info").bind doc.resolveDict?)).map displayTable).getD ∅
    xmp := doc.xmp? catalog
    displayTitle := ((doc.entryDict? catalog "ViewerPreferences").bind
      (doc.value? · "DisplayDocTitle")).bind Object.boolean?
    hasStructure := catalog.contains "StructTreeRoot" }

/-- The facts about a structure tree with a root. -/
def structureFacts (doc : Document) (catalog root : Dict Object) (parentKeys : Nat) :
    StructureFacts :=
  let rootId := (catalog.get? "StructTreeRoot").bind Object.reference?
  { elements := doc.structureTrees rootId root
    parentKeys
    nextKey := doc.entryWhole? root "ParentTreeNextKey" }

/-- Reports on a document. -/
def report (o : ReportOptions) (doc : Document) : Except Fault Report :=
  match (doc.trailer.get? "Root").bind Object.reference? with
  | none => .error (.missing .catalog)
  | some id => do
    let catalog ← doc.dict id
    let root := doc.entryDict? catalog "StructTreeRoot"
    let parents := (root.map doc.parentEntries).getD ∅
    let pages := (doc.pages.zipIdx 1).map fun (page, number) => doc.pageFacts parents number page
    return {
      options := o
      document := doc.facts catalog
      fonts := doc.fonts (pages.flatMap doc.usedCodes)
      structureTree := root.map fun root => doc.structureFacts catalog root parents.size
      roleMap := (root.map doc.roleMap).getD ∅
      pages
      outline := doc.outline catalog
      files := doc.embeddedFiles catalog
      layers := doc.layerConfigurations catalog
      colorPairs := if o.colorPairs then ColorPair.ofScans (pages.map (·.scan)) else [] }

end Document

end AccessiblePdf
