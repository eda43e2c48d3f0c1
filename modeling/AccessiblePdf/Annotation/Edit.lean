import AccessiblePdf.Instruction.Set
import AccessiblePdf.Remedy.Options
import AccessiblePdf.Structure.ParentTree

/-!
Annotations of a page: their descriptions, their place in the structure tree, and new form fields.
-/
namespace AccessiblePdf.Edit

/-- The default appearance of form fields. -/
def defaultAppearance : Object := .string "/Helv 0 Tf 0 g" .literal

/-- The annotation with an index on a page; one that stands in the page's array moves to an object.
-/
def annotationId (number : Int) (page : ObjectId) (index : Option Int) : Edit ObjectId := do
  let i := ((index.filter (0 ≤ ·)).getD 0).toNat
  let doc ← doc
  let d ← dict page
  match ((doc.entryArray? d "Annots").getD [])[i]? with
  | some (.reference id) =>
    if (doc.dict? id).isSome then return id else throw (.annotationNotFound number.toNat i)
  | some (.dictionary a) =>
    let id ← add (.dictionary a)
    modifyArray page "Annots" fun items => items.set i (.reference id)
    return id
  | _ => throw (.annotationNotFound number.toNat i)

/-- The form field of a widget: its parent, if the widget has no name of its own. -/
def fieldOf (annot : ObjectId) : Edit ObjectId := do
  let d ← dict annot
  match (d.get? "Parent").bind Object.reference? with
  | some parent => return if d.contains "T" then annot else parent
  | none => return annot

/-- The first element below the root, or the root itself. -/
def documentElement (doc : Document) (root : ObjectId) : ObjectId :=
  let first := match (doc.dict? root).bind (·.get? "K") with
    | some (.array kids) => kids.findSome? Object.reference?
    | some (.reference id) => some id
    | _ => none
  (first.filter fun id => (doc.dict? id).isSome).getD root

/-- The role of the element that an annotation gets when none is declared. -/
def annotationRole : Option String → String
  | some "Link" => "Link"
  | some "Widget" => "Form"
  | _ => "Annot"

/-- A new element for an annotation, below the first element of the document. -/
def annotationElement (root annot : ObjectId) : Edit ObjectId := do
  let role := annotationRole ((← doc).entryName? (← dict annot) "Subtype")
  let parent := documentElement (← doc) root
  let element ← add (.dictionary (newElement role parent))
  appendKid parent (.reference element)
  return element

/-- Links an annotation with a structure element, declared or new. -/
def associate (annot page : ObjectId) (declared : Option String) : Edit Unit := do
  let root ← ensureRoot
  setMarked true
  let element ← match declared with
    | some id => node id
    | none => annotationElement root annot
  let key ← match (← dict annot).get? "StructParent" with
    | some (.integer key) => pure key
    | _ => allocateKey root
  setEntry annot "StructParent" (.integer key)
  setParent root key (.reference element)
  appendKid element (.ofEntries [(utf8 "Type", .name "OBJR"), (utf8 "Obj", .reference annot),
    (utf8 "Pg", .reference page)])

/-! ## New form fields -/

/-- The resources of a new form: one font for its fields. -/
def formResources : Object :=
  .ofEntries [(utf8 "Font", .ofEntries [(utf8 "Helv", .ofEntries [(utf8 "Type", .name "Font"),
    (utf8 "Subtype", .name "Type1"), (utf8 "BaseFont", .name "Helvetica"),
    (utf8 "Encoding", .name "WinAnsiEncoding")])])]

/-- The interactive form of the document, with what it has to have. -/
def formId : Edit ObjectId := do
  let form ← indirectDict (← catalogId) "AcroForm"
  let fill (key : Bytes) (o : Object) (d : Dict Object) : Dict Object :=
    if d.contains key then d else d.insert key o
  modifyDict form fun d =>
    d |> fill "Fields" (.array []) |> fill "DA" defaultAppearance |> fill "DR" formResources
  return form

/-- The annotation of a new form field. -/
def widgetDict (a : AnnotationEdit) (page : ObjectId) (rect : Box Float) : Dict Object :=
  .ofList ([(utf8 "Type", .name "Annot"), (utf8 "Subtype", .name "Widget"),
    (utf8 "Rect", .ofBox rect), (utf8 "FT", .name (a.fieldType.getD "Tx")),
    (utf8 "T", TextString.object (a.fieldName.getD "")), (utf8 "F", .integer 4),
    (utf8 "P", .reference page), (utf8 "DA", defaultAppearance)] ++
    a.tooltip.toList.map fun t => (utf8 "TU", TextString.object t))

/-- Adds a form field to a page. -/
def createWidget (o : Options) (page : ObjectId) (a : AnnotationEdit) : Edit ObjectId := do
  match a.rect with
  | none => throw (.missing .widgetRectangle)
  | some declared =>
    let rect := o.matching.toUserSpace declared ((← doc).pageBox page)
    let widget ← add (.dictionary (widgetDict a page rect))
    modifyArray page "Annots" (· ++ [.reference widget])
    let form ← formId
    modifyArray form "Fields" (· ++ [.reference widget])
    return widget

/-! ## Carrying out -/

/-- Changes an annotation, or adds one. -/
def annotate (o : Options) (a : AnnotationEdit) : Edit Unit := do
  let page ← Edit.page a.page
  match AnnotationOp.ofName? a.op with
  | none => pure ()
  | some .setContents =>
    let annot ← annotationId a.page page a.index
    setEntry annot "Contents" (TextString.object (a.value.getD ""))
  | some .setTooltip =>
    let annot ← annotationId a.page page a.index
    setEntry (← fieldOf annot) "TU" (TextString.object (a.value.getD ""))
  | some .associate =>
    let annot ← annotationId a.page page a.index
    associate annot page a.node
  | some .createWidget =>
    let widget ← createWidget o page a
    if a.node.isSome then associate widget page a.node

def applyAnnotations (o : Options) (as : List AnnotationEdit) : Edit Unit := do
  for a in as do annotate o a

end AccessiblePdf.Edit
