import AccessiblePdf.Draft

/-!
Structure elements: making one, listing another kid, and the root of the structure tree.
-/
namespace AccessiblePdf

namespace Edit

/-- A structure element without kids. -/
def newElement (role : String) (parent : ObjectId) : Dict Object :=
  .ofList [(utf8 "Type", .name "StructElem"), (utf8 "S", .name role),
    (utf8 "P", .reference parent), (utf8 "K", .array [])]

/-- The kids of an element, with one more at the end. -/
def kidsWith (kid : Object) : Option Object → List Object
  | some (.array items) => items ++ [kid]
  | some existing => [existing, kid]
  | none => [kid]

/-- Adds a kid to an element or to the root. -/
def appendKid (element : ObjectId) (kid : Object) : Edit Unit :=
  modifyDict element fun d => d.insert "K" (.array (kidsWith kid (d.get? "K")))

/-- The role of an element. -/
def elementRole (element : ObjectId) : Edit String := do
  match (← dict element).get? "S" with
  | some (.name role) => return Utf8.decodeLossy role
  | _ => throw (.missing (.structureType element.number element.generation))

/-- Sets the mark that tells whether the document is tagged. -/
def setMarked (marked : Bool) : Edit Unit := do
  let info ← indirectDict (← catalogId) "MarkInfo"
  setEntry info "Marked" (.boolean marked)

end Edit

namespace Document

/-- The root of the structure tree, if there is one. -/
def structureRoot? (doc : Document) : Option ObjectId :=
  (doc.catalogDict?.bind (·.get? "StructTreeRoot")).bind Object.reference?

end Document

end AccessiblePdf
