import AccessiblePdf.Content.Marking
import AccessiblePdf.Draft

/-!
Removing all tags from a document: the structure tree, the keys into its parent tree, and the
marked-content brackets with MCIDs.
-/
namespace AccessiblePdf.Edit

/-- The key of an annotation into the parent tree. -/
def annotationKey : Bytes := "StructParent"

/-- Removes the keys of the annotations of a page. -/
def stripAnnotations (page : ObjectId) : Edit Unit := do
  let d ← dict page
  let doc ← doc
  for id in ((doc.entryArray? d "Annots").getD []).filterMap Object.reference? do
    match (← Edit.doc).modifyDict? id (·.erase annotationKey) with
    | some doc => setDoc doc
    | none => pure ()
  modifyDict page fun d =>
    let d := d.erase "StructParents"
    match d.get? "Annots" with
    | some (.array items) =>
      d.insert "Annots" (.array (items.map fun
        | .dictionary a => .dictionary (a.erase annotationKey)
        | o => o))
    | _ => d

/-- Removes the marked-content brackets with MCIDs from a page. -/
def stripContent (page : ObjectId) : Edit Unit := do
  let doc ← doc
  let ops ← lift (doc.pageOperations page)
  let (kept, removed) := Marking.unwrap (.ofDict doc (doc.pageResources page) []) ops
  if 0 < removed then setOperations page kept

/-- Removes all tags from the document. -/
def stripTags : Edit Unit := do
  modifyCatalog (·.erase "StructTreeRoot")
  clearNodes
  for page in (← doc).pages do
    stripAnnotations page
    stripContent page

end AccessiblePdf.Edit
