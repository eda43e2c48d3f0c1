import AccessiblePdf.Instruction.Set
import AccessiblePdf.Metadata.Xmp
import AccessiblePdf.Structure.Element

/-!
Settings of the document as a whole: language, title, viewer preferences, the mark of tagged
documents, the PDF/UA part and the tab order.
-/
namespace AccessiblePdf.Edit

/-- The text of a metadata stream. -/
def metadataText? (entries : Dict Object) (content : Bytes) : Option String :=
  (if entries.contains "Filter" then Stream.decoded? entries content else some content).map
    Utf8.decodeLossy

/-- The XMP packet that the catalog refers to. -/
def packet? (doc : Document) : Option String := do
  match ← doc.get? (← ((← doc.catalogDict?).get? "Metadata").bind Object.reference?) with
  | .stream entries content => metadataText? entries content
  | _ => none

/-- States the PDF/UA part in the XMP packet, in a new one if there is none. -/
def setPdfuaPart (part : Int) (title : Option String) : Edit Unit := do
  let packet := match packet? (← doc) with
    | some packet => Xmp.withPart packet part
    | none => Xmp.newPacket part title
  let id ← add (.ofStream (.ofList [(utf8 "Type", .name "Metadata"), (utf8 "Subtype", .name "XML")])
    packet)
  modifyCatalog (·.insert "Metadata" (.reference id))

/-- Sets the tab order of all pages. -/
def setTabOrder (order : TabOrder) : Edit Unit := do
  for page in (← doc).pages do
    setEntry page "Tabs" (.name order.name)

def applyMetadata (m : MetadataEdit) : Edit Unit := do
  if let some language := m.language then
    modifyCatalog (·.insert "Lang" (TextString.object language))
  if let some title := m.title then
    modifyInfo (·.insert "Title" (TextString.object title))
  if let some display := m.displayTitle then
    let preferences ← indirectDict (← catalogId) "ViewerPreferences"
    setEntry preferences "DisplayDocTitle" (.boolean display)
  if let some marked := m.marked then setMarked marked
  if let some part := m.pdfuaPart then setPdfuaPart part m.title
  if let some order := m.tabOrder.bind TabOrder.ofName? then setTabOrder order

end AccessiblePdf.Edit
