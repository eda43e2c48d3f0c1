import AccessiblePdf.Content.Operation
import AccessiblePdf.Document.Change
import AccessiblePdf.Document.Content
import AccessiblePdf.Document.Pages
import AccessiblePdf.Document.Reachable
import AccessiblePdf.Filter.Compressor

/-!
A document under revision, and the edits that change it. An edit that fails leaves the draft as it
was when it failed.
-/
namespace AccessiblePdf

/-- A document under revision. -/
structure Draft where
  doc : Document
  /-- The structure elements built for declared ids. -/
  nodes : OrderedMap String ObjectId := ∅
  /-- Whether new streams are compressed. -/
  compress : Bool := true
  /-- What compresses them. -/
  compressor : Compressor := .stored

/-- What becomes of the content of new streams. -/
def Draft.packing (d : Draft) : Compressor := if d.compress then d.compressor else .plain

abbrev Edit (α : Type) := EStateM Fault Draft α

namespace Edit

/-- The outcome of an edit, and the draft after it. -/
def perform {α : Type} (e : Edit α) (d : Draft) : Except Fault α × Draft :=
  match e.run d with
  | .ok a d => (.ok a, d)
  | .error f d => (.error f, d)

/-- The draft after an edit that succeeds. -/
def result {α : Type} (e : Edit α) (d : Draft) : Except Fault Draft :=
  match e.run d with
  | .ok _ d => .ok d
  | .error f _ => .error f

/-! ## Objects -/

def doc : Edit Document := do return (← get).doc

def setDoc (doc : Document) : Edit Unit := modify fun d => { d with doc := doc }

/-- What a look-up finds, or its failure. -/
def lift {α : Type} : Except Fault α → Edit α
  | .ok a => pure a
  | .error f => throw f

/-- The dictionary that an id stands for. -/
def dict (id : ObjectId) : Edit (Dict Object) := do lift ((← doc).dict id)

/-- Adds an object under a new id. -/
def add (o : Object) : Edit ObjectId := do
  let doc ← doc
  setDoc (doc.add o)
  return doc.nextId

/-- Takes the next id, without an object under it. -/
def reserve : Edit ObjectId := do
  let doc ← doc
  setDoc doc.reserve
  return doc.nextId

def put (id : ObjectId) (o : Object) : Edit Unit := do setDoc ((← doc).put id o)

/-- Changes the dictionary that an id stands for. -/
def modifyDict (id : ObjectId) (f : Dict Object → Dict Object) : Edit Unit := do
  match (← doc).modifyDict? id f with
  | some doc => setDoc doc
  | none => throw .unreadable

/-- Sets an entry of the dictionary that an id stands for. -/
def setEntry (id : ObjectId) (key : Bytes) (o : Object) : Edit Unit :=
  modifyDict id (·.insert key o)

/-- Makes an entry refer to a dictionary of its own, and gives its id: a dictionary in place moves
into a new object, and anything else gives way to an empty one. -/
def indirectDict (owner : ObjectId) (key : Bytes) : Edit ObjectId := do
  let current := (← dict owner).get? key
  let fresh (d : Dict Object) : Edit ObjectId := do
    let id ← add (.dictionary d)
    setEntry owner key (.reference id)
    return id
  match current with
  | some (.reference id) => do
    if ((← doc).dict? id).isSome then return id else fresh ∅
  | some (.dictionary d) => fresh d
  | _ => fresh ∅

/-- Changes the array in an entry, in place or behind a reference; anything else gives way to an
empty array first. -/
def modifyArray (owner : ObjectId) (key : Bytes) (f : List Object → List Object) : Edit Unit := do
  let inPlace (items : List Object) : Edit Unit := setEntry owner key (.array (f items))
  match (← dict owner).get? key with
  | some (.array items) => inPlace items
  | some (.reference id) => do
    match (← doc).modifyArray? id f with
    | some doc => setDoc doc
    | none => inPlace []
  | _ => inPlace []

/-! ## Pages -/

/-- The page with a number, as instructions give it. -/
def page (number : Int) : Edit ObjectId := do
  let doc ← doc
  if 0 < number ∧ number < 0x100000000 then lift (doc.page number.toNat)
  else throw (.pageOutOfRange (min number.toNat (0x100000000 - 1)) doc.pageCount)

/-- A stream, compressed if the draft compresses and that does not fail. -/
def stream (content : Bytes) : Edit Object := do
  match (← get).packing.deflate? content with
  | some packed => return .ofStream (.ofList [(utf8 "Filter", .name "FlateDecode")]) packed
  | none => return .ofStream ∅ content

/-- Replaces the content of a page. -/
def setOperations (page : ObjectId) (ops : List Operation) : Edit Unit := do
  let id ← add (← stream (Operation.writeAll ops))
  setEntry page "Contents" (.reference id)

/-- Adds content behind that of a page, whose graphics state is saved before and restored behind. -/
def appendContent (page : ObjectId) (content : Bytes) : Edit Unit := do
  let existing := match (← dict page).get? "Contents" with
    | some (.array items) => items
    | some (.reference id) => [.reference id]
    | _ => []
  if existing.isEmpty then
    let tail ← add (← stream content)
    setEntry page "Contents" (.array [.reference tail])
  else
    let lead ← add (.ofStream ∅ "q\n")
    let tail ← add (← stream (utf8 "Q\n" ++ content))
    setEntry page "Contents" (.array (.reference lead :: existing ++ [.reference tail]))

/-- The resources of a page as an object of their own; inherited ones are copied to the page. -/
def pageResources (page : ObjectId) : Edit ObjectId := do
  if !(← dict page).contains "Resources" then
    setEntry page "Resources" (.dictionary ((← doc).pageResources page))
  indirectDict page "Resources"

/-! ## Catalog and information -/

def catalogId : Edit ObjectId := do
  match ((← doc).trailer.get? "Root").bind Object.reference? with
  | some id => return id
  | none => throw (.missing .catalog)

def catalog : Edit (Dict Object) := do dict (← catalogId)

def modifyCatalog (f : Dict Object → Dict Object) : Edit Unit := do modifyDict (← catalogId) f

/-- The information dictionary as an object of its own. -/
def infoId : Edit ObjectId := do
  let doc ← doc
  let entry := doc.trailer.get? "Info"
  let existing := (entry.bind Object.reference?).filter fun id => (doc.dict? id).isSome
  match existing with
  | some id => return id
  | none =>
    let id ← add (.dictionary ((entry.bind Object.dictionary?).getD ∅))
    modify fun d =>
      { d with doc := { d.doc with trailer := d.doc.trailer.insert "Info" (.reference id) } }
    return id

def modifyInfo (f : Dict Object → Dict Object) : Edit Unit := do modifyDict (← infoId) f

/-! ## Declared structure elements -/

def register (node : String) (element : ObjectId) : Edit Unit :=
  modify fun d => { d with nodes := d.nodes.insert node element }

def clearNodes : Edit Unit := modify fun d => { d with nodes := ∅ }

/-- The structure element of a declared id. -/
def node (id : String) : Edit ObjectId := do
  match (← get).nodes.get? id with
  | some element => return element
  | none => throw (.unknownNode id)

/-! ## Finishing -/

/-- Drops what cannot be reached, and states the size of the object table in the trailer. -/
def finish : Edit Unit :=
  modify fun d =>
    let doc := d.doc.prune
    { d with doc := { doc with trailer := doc.trailer.insert "Size" (.integer (doc.maxId + 1)) } }

end Edit

end AccessiblePdf
