import AccessiblePdf.Content.Scan
import AccessiblePdf.Document.Trees
import AccessiblePdf.Report.Font

/-!
What a report says about pages: their size, what they draw, their annotations and their marked
content.
-/
namespace AccessiblePdf

structure AnnotationFacts where
  index : Nat
  id : Option ObjectId
  subtype : Option String
  rect : Option (Box Float)
  contents : Option String
  structParent : Option Int
  fieldType : Option String
  fieldName : Option String
  tooltip : Option String
  flags : Option Int

structure PageFacts where
  number : Nat
  id : ObjectId
  width : Float
  height : Float
  rotation : Int
  tabOrder : Option String
  structParents : Option Int
  /-- What the page draws; nothing if its content cannot be read. -/
  scan : PageScan
  annotations : List AnnotationFacts
  fontsUsed : List String
  /-- The MCIDs for which the parent tree has an element. -/
  structuredMcids : List Nat

namespace Document

/-! ## Annotations -/

/-- The dictionary of the form field of an annotation, which may be its parent's. -/
def fieldDict (doc : Document) (annot : Dict Object) : Dict Object :=
  match doc.value? annot "Parent" with
  | some (.dictionary parent) => if annot.contains "T" then annot else parent
  | _ => annot

def annotationFacts (doc : Document) (index : Nat) (item : Object) (annot : Dict Object) :
    AnnotationFacts :=
  let field := doc.fieldDict annot
  { index, id := item.reference?
    subtype := doc.entryName? annot "Subtype"
    rect := (annot.get? "Rect").bind doc.box?
    contents := doc.entryText? annot "Contents"
    structParent := doc.entryWhole? annot "StructParent"
    fieldType := doc.entryName? field "FT"
    fieldName := doc.entryText? field "T"
    tooltip := doc.entryText? field "TU"
    flags := doc.entryWhole? annot "F" }

/-- The annotations of a page, with their places among the entries of its list. -/
def annotations (doc : Document) (page : Dict Object) : List AnnotationFacts :=
  (((doc.entryArray? page "Annots").getD []).zipIdx).filterMap fun (item, i) =>
    (doc.resolve item).dictionary?.map (doc.annotationFacts i item)

/-! ## Pages -/

/-- What a parent tree maps its keys to; the last of several values counts. -/
def parentEntries (doc : Document) (root : Dict Object) : Std.TreeMap Int Object :=
  (((doc.entryDict? root "ParentTree").map doc.numberTree).getD []).foldl
    (fun t e => t.insert e.1 e.2) ∅

/-- The positions of the items of an array that stand for something. -/
def presentIndices (doc : Document) (o : Object) : List Nat :=
  match doc.resolve o with
  | .array items => (items.zipIdx.filter fun (item, _) => !(doc.resolve item).isNull).map (·.2)
  | _ => []

/-- A page without content. -/
def emptyScan : PageScan := ⟨[], [], 0⟩

def pageFacts (doc : Document) (parents : Std.TreeMap Int Object) (number : Nat) (page : ObjectId) :
    PageFacts :=
  let d := (doc.dict? page).getD ∅
  let box := doc.pageBox page
  let structParents := doc.entryWhole? d "StructParents"
  let scan := match doc.pageOperations page with
    | .ok ops => doc.scan page ops
    | .error _ => emptyScan
  { number, id := page, width := box.width, height := box.height
    rotation := (((doc.inherited? page "Rotate").map doc.resolve).bind Object.truncated?).getD 0
    tabOrder := doc.entryName? d "Tabs"
    structParents, scan
    annotations := doc.annotations d
    fontsUsed := sortedSet (scan.operators.filterMap (·.figure.font))
    structuredMcids := ((structParents.bind (parents[·]?)).map doc.presentIndices).getD [] }

/-- The codes that a page shows with fonts that are objects of their own. -/
def usedCodes (doc : Document) (page : PageFacts) : List (ObjectId × List Nat) :=
  let ids := doc.fontIds page.id
  page.scan.operators.filterMap fun d =>
    (d.figure.font.bind (ids[·]?)).map (·, d.figure.codes)

end Document

end AccessiblePdf
