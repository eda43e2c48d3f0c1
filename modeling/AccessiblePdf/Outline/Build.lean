import AccessiblePdf.Outline.Heading
import AccessiblePdf.Tree

/-!
The outline of a document, built from its headings: below each heading stand the deeper ones that
follow it.
-/
namespace AccessiblePdf

/-- An entry of an outline. -/
structure OutlineEntry where
  title : String
  page : Option ObjectId

/-- The outline of headings. -/
def Document.outlineOf (doc : Document) (hs : List Heading) : List (Tree OutlineEntry) :=
  Nesting.trees (hs.map fun h => (h.level, ⟨doc.headingTitle h, h.page⟩))

namespace Edit

/-- Takes several new ids. -/
def reserveMany : Nat → Edit (List ObjectId)
  | 0 => pure []
  | n + 1 => do
    let id ← reserve
    return id :: (← reserveMany n)

/-- The links of a parent to the first and the last of its entries, and their count. -/
def linkEntries (ids : List ObjectId) (count : Nat) : List (Bytes × Object) :=
  match ids.head?, ids.getLast? with
  | some first, some last =>
    [(utf8 "First", .reference first), (utf8 "Last", .reference last),
      (utf8 "Count", .integer count)]
  | _, _ => []

/-- The place that an entry leads to: a page as it is shown. -/
def destination (page : ObjectId) : Object :=
  .array [.reference page, .name "XYZ", .null, .null, .null]

mutual

/-- Writes an entry below a parent and between its neighbours. -/
def writeEntry (parent : ObjectId) (previous : Option ObjectId) (id : ObjectId)
    (next : Option ObjectId) : Tree OutlineEntry → Edit Unit
  | .node entry children => do
    let ids ← reserveMany children.length
    writeEntries id none children ids
    put id <| .ofEntries <|
      [(utf8 "Title", TextString.object entry.title), (utf8 "Parent", .reference parent)] ++
        previous.toList.map (fun p => (utf8 "Prev", .reference p)) ++
        next.toList.map (fun n => (utf8 "Next", .reference n)) ++
        entry.page.toList.map (fun p => (utf8 "Dest", destination p)) ++
        linkEntries ids (Tree.sizeAll children)

/-- Writes entries below a parent under their ids. -/
def writeEntries (parent : ObjectId) (previous : Option ObjectId) :
    List (Tree OutlineEntry) → List ObjectId → Edit Unit
  | entry :: entries, id :: ids => do
    writeEntry parent previous id ids.head? entry
    writeEntries parent (some id) entries ids
  | _, _ => pure ()

end

/-- Gives the document an outline in place of the one it has. -/
def writeOutline (entries : List (Tree OutlineEntry)) : Edit Unit := do
  let catalog ← catalogId
  let outlines ← reserve
  let ids ← reserveMany entries.length
  writeEntries outlines none entries ids
  put outlines <| .ofEntries <|
    (utf8 "Type", .name "Outlines") :: linkEntries ids (Tree.sizeAll entries)
  modifyDict catalog fun d =>
    (d.insert "Outlines" (.reference outlines)).insert "PageMode" (.name "UseOutlines")

/-- Builds the outline from the headings of the structure tree, if there are any. -/
def applyOutline : Edit Unit := do
  let doc ← doc
  match doc.structureRoot? with
  | none => pure ()
  | some root =>
    match doc.headings root with
    | [] => pure ()
    | hs => writeOutline (doc.outlineOf hs)

end Edit

end AccessiblePdf
