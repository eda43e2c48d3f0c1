import AccessiblePdf.Document.Trees
import AccessiblePdf.Report.Structure

/-!
What a report says about ways through a document: its outline, the files embedded in it, and its
optional content.
-/
namespace AccessiblePdf

/-- An item of an outline. -/
structure OutlineItem where
  title : String
  page : Option Nat
  /-- Whether the items below are shown. -/
  expanded : Bool
  hasElement : Bool

structure EmbeddedFile where
  name : String
  fileName : Option String := none
  description : Option String := none
  mimeType : Option String := none
  size : Option Int := none
  relationship : Option String := none

/-- A configuration of optional content. -/
structure LayerConfiguration where
  isDefault : Bool
  name : Option String
  creator : Option String
  baseState : Option String
  on : List String
  off : List String
  orderSize : Nat

namespace Document

/-! ## Destinations -/

/-- The destinations that have names. -/
def namedDestinations (doc : Document) (catalog : Dict Object) : Std.TreeMap String Object :=
  let direct := ((doc.entryDict? catalog "Dests").getD ∅).toList.foldl
    (fun (t : Std.TreeMap String Object) e => t.insert (Utf8.decodeLossy e.1) e.2) ∅
  match (doc.entryDict? catalog "Names").bind (doc.entryDict? · "Dests") with
  | some tree => (doc.nameTree tree).foldl (fun t name o => t.insert name o) direct
  | none => direct

/-- The page of a destination that is an array: its first item, or a page counted from 0. -/
def explicitPage? (pages : Std.TreeMap ObjectId Nat) (items : List Object) : Option Nat :=
  match items.head? with
  | some (.reference id) => pages[id]?
  | some (.integer i) => if 0 ≤ i ∧ i < 0x100000000 then some ((i.toNat + 1) % 0x100000000) else none
  | _ => none

/-- The page of a destination, given in place, in a dictionary or by name; one step leads to an
array. -/
def destinationPage? (doc : Document) (pages : Std.TreeMap ObjectId Nat)
    (named : Std.TreeMap String Object) (destination : Object) : Option Nat :=
  let step (o : Option Object) : Option Nat :=
    ((o.map doc.resolve).bind Object.array?).bind (explicitPage? pages)
  match doc.resolve destination with
  | .array items => explicitPage? pages items
  | .dictionary d => step (d.get? "D")
  | .name name => step named[Utf8.decodeLossy name]?
  | .string name _ => step named[TextString.decode name]?
  | _ => none

/-- The destination of an outline item: its own, or that of its action. -/
def destination? (doc : Document) (item : Dict Object) : Option Object :=
  match doc.value? item "Dest" with
  | some destination => some destination
  | none => do
    let action ← doc.entryDict? item "A"
    if doc.entryName? action "S" = some "GoTo" then doc.value? action "D" else none

/-! ## Outlines -/

/-- What outline items are read with. -/
structure OutlineContext where
  doc : Document
  pages : Std.TreeMap ObjectId Nat
  named : Std.TreeMap String Object

def OutlineContext.item (c : OutlineContext) (d : Dict Object) : OutlineItem :=
  { title := (c.doc.entryText? d "Title").getD ""
    page := (c.doc.destination? d).bind (c.doc.destinationPage? c.pages c.named)
    expanded := match c.doc.entryNumber? d "Count" with
      | some (.whole n) => 0 < n
      | some (.real x) => x > 0
      | none => false
    hasElement := d.contains "SE" }

/-- The item that an entry refers to. -/
def link? (d : Dict Object) (key : Bytes) : Option ObjectId := (d.get? key).bind Object.reference?

/-- Items that are read at most. -/
def maxOutlineItems : Nat := 10000

/-- What a reader has at the end of a chain of items: the items, how many more it may meet, and those that
it has met so far. -/
structure OutlineRun (limit : Nat) where
  items : List (Tree OutlineItem)
  left : Nat
  met : Std.TreeSet ObjectId
  left_le : left ≤ limit

/-- Reads a chain of items, each with the items below it. A chain ends where no link goes on, at an item
that has been met or is no dictionary, and when no more items may be met. -/
def readOutline (c : OutlineContext) :
    (limit : Nat) → Std.TreeSet ObjectId → Option ObjectId → OutlineRun limit
  | limit, met, none => ⟨[], limit, met, Nat.le_refl _⟩
  | 0, met, some _ => ⟨[], 0, met, Nat.le_refl _⟩
  | limit + 1, met, some id =>
    if met.contains id then ⟨[], limit + 1, met, Nat.le_refl _⟩
    else match c.doc.dict? id with
      | none => ⟨[], limit, met.insert id, Nat.le_succ _⟩
      | some d =>
        let below := readOutline c limit (met.insert id) (link? d "First")
        let after := readOutline c below.left below.met (link? d "Next")
        ⟨.node (c.item d) below.items :: after.items, after.left, after.met,
          Nat.le_succ_of_le (Nat.le_trans after.left_le below.left_le)⟩
termination_by limit => limit
decreasing_by
  · exact Nat.lt_succ_self _
  · exact Nat.lt_succ_of_le below.left_le

/-- The outline of a document. -/
def outline (doc : Document) (catalog : Dict Object) : List (Tree OutlineItem) :=
  match doc.entryDict? catalog "Outlines" with
  | none => []
  | some root =>
    let c : OutlineContext := ⟨doc, doc.pageNumbers, doc.namedDestinations catalog⟩
    (readOutline c maxOutlineItems ∅ (link? root "First")).items

/-! ## Embedded files -/

/-- The stream that a file specification embeds. -/
def fileStream? (doc : Document) (spec : Dict Object) : Option (Dict Object × Bytes) := do
  let files ← doc.entryDict? spec "EF"
  match ← doc.value? files "UF" <|> doc.value? files "F" with
  | .stream entries content => some (entries, content)
  | _ => none

/-- The facts about a file under its name. -/
def embeddedFile (doc : Document) (name : String) (o : Object) : EmbeddedFile :=
  match doc.resolve o with
  | .dictionary spec =>
    let stream := doc.fileStream? spec
    { name
      fileName := doc.entryText? spec "UF" <|> doc.entryText? spec "F"
      description := doc.entryText? spec "Desc"
      mimeType := stream.bind fun s => doc.entryName? s.1 "Subtype"
      size := stream.map fun s =>
        (((doc.entryDict? s.1 "Params").bind (doc.entryWhole? · "Size"))).getD s.2.length
      relationship := doc.entryName? spec "AFRelationship" }
  | _ => { name }

/-- The files embedded in a document, by name. -/
def embeddedFiles (doc : Document) (catalog : Dict Object) : List EmbeddedFile :=
  match (doc.entryDict? catalog "Names").bind (doc.entryDict? · "EmbeddedFiles") with
  | some tree => (doc.nameTree tree).toList.map fun e => doc.embeddedFile e.1 e.2
  | none => []

/-! ## Optional content -/

/-- The names of the groups that a configuration lists. -/
def groupNames (doc : Document) (d : Dict Object) (key : Bytes) : List String :=
  ((doc.entryArray? d key).getD []).filterMap fun group =>
    (doc.resolve group).dictionary?.bind (doc.entryText? · "Name")

def layerConfiguration (doc : Document) (isDefault : Bool) (d : Dict Object) : LayerConfiguration :=
  { isDefault
    name := doc.entryText? d "Name"
    creator := doc.entryText? d "Creator"
    baseState := doc.entryName? d "BaseState"
    on := doc.groupNames d "ON"
    off := doc.groupNames d "OFF"
    orderSize := ((doc.entryArray? d "Order").getD []).length }

/-- The configurations of optional content, the default one first. -/
def layerConfigurations (doc : Document) (catalog : Dict Object) : List LayerConfiguration :=
  match doc.entryDict? catalog "OCProperties" with
  | none => []
  | some properties =>
    (doc.entryDict? properties "D").toList.map (doc.layerConfiguration true) ++
      (((doc.entryArray? properties "Configs").getD []).filterMap fun o =>
        (doc.resolve o).dictionary?).map (doc.layerConfiguration false)

end Document

end AccessiblePdf
