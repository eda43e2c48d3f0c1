import AccessiblePdf.Data.JsonText
import AccessiblePdf.Report.Basic

/-!
Reports as structured data: the fields of each part of a report, in the order in which they are
written.
-/
namespace AccessiblePdf

namespace ReportData

/-! ## Building data -/

/-- A table with these fields. -/
def record (fields : List (String × Data)) : Data :=
  .table (fields.map fun (name, d) => (.text name, d))

def maybe {α : Type} (f : α → Data) : Option α → Data
  | some a => f a
  | none => .null

def text? (s : Option String) : Data := maybe .text s

def whole? (n : Option Int) : Data := maybe .int n

def nat (n : Nat) : Data := .int n

def nat? (n : Option Nat) : Data := maybe nat n

def list {α : Type} (f : α → Data) (l : List α) : Data := .list (l.map f)

def texts (l : List String) : Data := list .text l

/-- A table of texts. -/
def textTable (t : Std.TreeMap String String) : Data :=
  record (t.toList.map fun (key, s) => (key, .text s))

/-- Texts by code. -/
def codeTable (entries : List (Nat × String)) : Data :=
  record (entries.map fun (code, s) => (toString code, .text s))

def date? (d : Option Date) : Data := maybe (.text ·.rfc3339Zulu) d

def label? (id : Option ObjectId) : Data := maybe (.text ·.label) id

def box (b : Box Float) : Data :=
  record [("x", .float b.x), ("y", .float b.y), ("width", .float b.width),
    ("height", .float b.height)]

/-- The digits of bytes, small. -/
def hex (bytes : Bytes) : Data :=
  .text (Utf8.decodeLossy ((Bytes.toHex bytes).map Byte.toLower))

/-! ## The document -/

def document (f : DocumentFacts) : Data := record [
  ("fileHash", (f.file.map fun file => hex (Sha256.digest file)).getD (.text "")),
  ("fileSizeBytes", nat ((f.file.map List.length).getD 0)),
  ("pdfVersion", .text f.version),
  ("pageCount", nat f.pageCount),
  ("tagged", .bool f.tagged),
  ("language", text? f.language),
  ("info", textTable f.info),
  ("creationDate", date? f.created),
  ("modDate", date? f.modified),
  ("xmpMetadata", text? f.xmp),
  ("pdfuaPart", whole? f.pdfuaPart),
  ("displayDocTitle", maybe .bool f.displayTitle),
  ("hasStructTreeRoot", .bool f.hasStructure)]

/-! ## Fonts -/

def encoding (e : EncodingFacts) : Data := record [
  ("name", text? e.name),
  ("baseEncoding", text? e.base),
  ("differences", codeTable e.differences.toList)]

def toUnicode (t : ToUnicodeFacts) : Data := record [
  ("mappingCount", nat t.size),
  ("valid", .bool t.valid),
  ("mapsNotdef", .bool t.mapsNotdef)]

def cidSystem (s : CidSystem) : Data := record [
  ("registry", text? s.registry),
  ("ordering", text? s.ordering),
  ("supplement", whole? s.supplement)]

def cmap (c : CMapFacts) : Data := record [
  ("name", text? c.name),
  ("embedded", .bool c.embedded),
  ("wMode", whole? c.writingMode),
  ("subtables", list (fun s => record [("platformId", nat s.platform),
    ("encodingId", nat s.encoding), ("format", nat s.format)]) c.subtables)]

def program (o : ReportOptions) (p : ProgramFacts) : Data := record ([
  ("key", .text p.key),
  ("subtype", text? p.subtype),
  ("length", nat p.stored.length),
  ("filters", texts p.filters),
  ("decodeParms", list textTable p.parameters),
  ("sha256", hex (Sha256.digest p.stored))] ++
  if o.fontPrograms then [("rawHex", hex p.stored)] else [])

def type3 (hasDescriptor : Bool) (t : Type3Facts) : Data := record [
  ("glyphNames", texts t.glyphs),
  ("usedCodes", list nat t.usedCodes),
  ("unicode", codeTable t.texts),
  ("fontMatrix", list .float t.matrix),
  ("hasFontDescriptor", .bool hasDescriptor)]

def font (o : ReportOptions) (f : FontFacts) : Data := record [
  ("objectId", .text f.label),
  ("resourceNames", texts f.resourceNames),
  ("subtype", .text f.subtype),
  ("baseFont", .text f.baseFont),
  ("embedded", .bool f.program.isSome),
  ("symbolic", maybe .bool f.symbolic),
  ("hasFontDescriptor", .bool f.hasDescriptor),
  ("encoding", maybe encoding f.encoding),
  ("hasToUnicode", .bool f.toUnicode.isSome),
  ("toUnicode", maybe toUnicode f.toUnicode),
  ("cidSystemInfo", maybe cidSystem f.cidSystem),
  ("cmap", maybe cmap f.cmap),
  ("cidToGidMap", text? f.cidToGid),
  ("fontProgram", maybe (program o) f.program),
  ("type3", maybe (type3 f.hasDescriptor) f.type3)]

/-! ## The structure tree -/

def attributeRecord (a : AttributeFacts) : Data := record [
  ("owner", text? a.owner), ("key", .text a.key), ("value", .text a.value)]

/-- The key of the attribute that places an element on its page. -/
def boxKey : String := "BBox"

/-- The fields of an element, with the elements below it. -/
def elementRecord (e : ElementFacts) (children : List Data) : Data := record [
  ("objectId", label? e.id),
  ("role", .text e.role),
  ("standardRole", if e.standardRole = e.role then .null else .text e.standardRole),
  ("id", text? e.elementId),
  ("title", text? e.title),
  ("language", text? e.language),
  ("altText", text? e.altText),
  ("actualText", text? e.actualText),
  ("attributes", list attributeRecord e.attributes),
  ("hasBbox", .bool (e.attributes.any (·.key == boxKey))),
  ("page", nat? e.page),
  ("content", list (fun m => record [("page", nat? m.page), ("mcid", .int m.mcid)]) e.content),
  ("annotations", list (.text ·.label) e.annotations),
  ("children", .list children)]

mutual

def element : Tree ElementFacts → Data
  | .node e children => elementRecord e (elements children)

def elements : List (Tree ElementFacts) → List Data
  | [] => []
  | t :: ts => element t :: elements ts

end

def structureTree (s : StructureFacts) : Data := record [
  ("children", .list (elements s.elements)),
  ("parentTreeEntries", nat s.parentKeys),
  ("parentTreeNextKey", whole? s.nextKey)]

/-! ## Pages -/

def kind : FigureKind → String
  | .text => "text"
  | .image => "image"
  | .path => "path"

def drawn (d : Drawn) : Data := record [
  ("index", nat d.index),
  ("operator", .text d.operator),
  ("kind", .text (kind d.figure.kind)),
  ("bbox", maybe box d.figure.box),
  ("artifact", .bool d.marks.artifact),
  ("markedContent", .bool d.marks.marked),
  ("mcid", whole? d.marks.mcid),
  ("text", text? d.figure.text),
  ("font", text? d.figure.font),
  ("unicodeMapped", .bool d.figure.mapped),
  ("invisible", .bool d.figure.isInvisible),
  ("fillColor", maybe (.text ·.hex) d.figure.fill)]

def annotationRecord (a : AnnotationFacts) : Data := record [
  ("index", nat a.index),
  ("objectId", label? a.id),
  ("subtype", text? a.subtype),
  ("rect", maybe box a.rect),
  ("contents", text? a.contents),
  ("structParent", whole? a.structParent),
  ("fieldType", text? a.fieldType),
  ("fieldName", text? a.fieldName),
  ("tooltip", text? a.tooltip),
  ("flags", whole? a.flags)]

def page (o : ReportOptions) (p : PageFacts) : Data := record [
  ("number", nat p.number),
  ("objectId", .text p.id.label),
  ("width", .float p.width),
  ("height", .float p.height),
  ("rotation", .int p.rotation),
  ("tabOrder", text? p.tabOrder),
  ("structParents", whole? p.structParents),
  ("contentOperators", list drawn (if o.operators then p.scan.operators else [])),
  ("annotations", list annotationRecord p.annotations),
  ("fontsUsed", texts p.fontsUsed),
  ("mcids", list .int p.scan.mcids),
  ("structuredMcids", list nat p.structuredMcids)]

/-! ## Navigation and colours -/

/-- The fields of an outline item, with the items below it. -/
def itemRecord (i : OutlineItem) (children : List Data) : Data := record [
  ("title", .text i.title),
  ("page", nat? i.page),
  ("open", .bool i.expanded),
  ("hasStructureElement", .bool i.hasElement),
  ("children", .list children)]

mutual

def item : Tree OutlineItem → Data
  | .node i children => itemRecord i (items children)

def items : List (Tree OutlineItem) → List Data
  | [] => []
  | t :: ts => item t :: items ts

end

def file (f : EmbeddedFile) : Data := record [
  ("name", .text f.name),
  ("fileName", text? f.fileName),
  ("description", text? f.description),
  ("mimeType", text? f.mimeType),
  ("size", whole? f.size),
  ("afRelationship", text? f.relationship)]

def layers (l : LayerConfiguration) : Data := record [
  ("isDefault", .bool l.isDefault),
  ("name", text? l.name),
  ("creator", text? l.creator),
  ("baseState", text? l.baseState),
  ("on", texts l.on),
  ("off", texts l.off),
  ("orderSize", nat l.orderSize)]

def colorPair (p : ColorPair) : Data := record [
  ("foreground", .text p.foreground.hex),
  ("background", .text p.background.hex),
  ("count", nat p.count),
  ("contrastRatio", .float p.contrast)]

end ReportData

namespace Report

open ReportData

/-- A report as data. -/
def data (r : Report) : Data := record [
  ("document", ReportData.document r.document),
  ("fonts", list (ReportData.font r.options) r.fonts),
  ("structureTree", maybe ReportData.structureTree r.structureTree),
  ("roleMap", textTable r.roleMap),
  ("pages", list (ReportData.page r.options) r.pages),
  ("outlines", .list (items r.outline)),
  ("embeddedFiles", list ReportData.file r.files),
  ("ocgConfigurations", list ReportData.layers r.layers),
  ("colorPairs", list ReportData.colorPair r.colorPairs)]

/-- A report as JSON text. -/
def json (l : JsonText.Layout) (r : Report) : String := JsonText.ofData l r.data

end Report

end AccessiblePdf
