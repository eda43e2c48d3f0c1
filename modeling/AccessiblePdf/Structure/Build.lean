import AccessiblePdf.Instruction.Set
import AccessiblePdf.Structure.ParentTree
import AccessiblePdf.Structure.Strip

/-!
Building the declared structure tree: each element with its texts and attributes, registered under
its declared id and in the tree of element ids.
-/
namespace AccessiblePdf

/-- The value of an attribute as an object. -/
def AttributeValue.object : AttributeValue → Object
  | .bool b => .boolean b
  | .int n => .integer n
  | .number x => .ofFloat x
  | .text s =>
    match s.toList with
    | '/' :: name => .name (String.ofList name)
    | _ => TextString.object s

namespace Tag

/-- The attributes of an element as owner, key and value, in the order in which they are set. -/
def attributeEntries (t : Tag) : List (String × String × Object) :=
  (if t.role == "TH" then
      t.scope.toList.map fun s => ("Table", "Scope", Object.name (utf8 s))
    else []) ++
    t.colspan.toList.map (fun n => ("Table", "ColSpan", Object.integer n)) ++
    t.rowspan.toList.map (fun n => ("Table", "RowSpan", Object.integer n)) ++
    t.box.toList.map (fun b => ("Layout", "BBox", Object.ofBox b)) ++
    t.attributes.map fun a => (a.owner, a.key, a.value.object)

/-- The attribute dictionaries of an element, one for each owner, in the order of the owners. -/
def attributeDicts (t : Tag) : List (Dict Object) :=
  (t.attributeEntries.foldl (fun (owners : Std.TreeMap String (Dict Object)) (owner, key, value) =>
    let d := (owners[owner]?).getD (.ofList [(utf8 "O", .name owner)])
    owners.insert owner (d.insert key value)) ∅).values

/-- The dictionary of an element below a parent. -/
def dict (t : Tag) (parent : ObjectId) : Dict Object :=
  let put (key : Bytes) (o : Option Object) (d : Dict Object) : Dict Object :=
    match o with
    | some o => d.insert key o
    | none => d
  let attributes := match t.attributeDicts with
    | [] => none
    | [d] => some (.dictionary d)
    | ds => some (.array (ds.map .dictionary))
  Edit.newElement t.role parent
    |> put "Lang" (t.language.map TextString.object)
    |> put "Alt" (t.altText.map TextString.object)
    |> put "ActualText" (t.actualText.map TextString.object)
    |> put "ID" (t.elementId.map fun id => .string id .literal)
    |> put "A" attributes

end Tag

namespace Edit

/-- The array of a name tree with one node. -/
def nameArray (entries : Std.TreeMap String Object) : List Object :=
  entries.toList.flatMap fun (key, value) => [.string key .literal, value]

/-- Lists an element in the tree of element ids. -/
def registerElementId (root : ObjectId) (elementId : String) (element : ObjectId) : Edit Unit := do
  let tree ← indirectDict root "IDTree"
  let entries := ((← doc).nameTree (← dict tree)).insert elementId (.reference element)
  modifyDict tree fun d =>
    ((d.erase "Kids").erase "Limits").insert "Names" (.array (nameArray entries))

mutual

/-- Builds a tree of elements below a parent, and gives the element at its top. -/
def buildTags (root parent : ObjectId) : TagTree → Edit ObjectId
  | .node tag children => do
    let element ← add (.dictionary (tag.dict parent))
    if let some id := tag.elementId then registerElementId root id element
    if let some id := tag.id then register id element
    buildKids root element children
    return element

/-- Builds trees as the kids of an element. -/
def buildKids (root element : ObjectId) : List TagTree → Edit Unit
  | [] => pure ()
  | child :: rest => do
    let kid ← buildTags root element child
    appendKid element (.reference kid)
    buildKids root element rest

end

def applyTags (s : TagSection) : Edit Unit := do
  if s.stripExisting then stripTags
  let root ← ensureRoot
  let element ← buildTags root root s.root
  appendKid root (.reference element)
  setMarked true

end Edit

end AccessiblePdf
