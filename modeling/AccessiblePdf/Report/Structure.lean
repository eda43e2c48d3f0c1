import AccessiblePdf.Document.Pages
import AccessiblePdf.Report.Font
import AccessiblePdf.Structure.Element
import AccessiblePdf.Structure.Role
import AccessiblePdf.Tree

/-!
What a report says about the structure tree: its elements with their texts, attributes and content.
-/
namespace AccessiblePdf

/-- An attribute of an element, its value as a short text. -/
structure AttributeFacts where
  owner : Option String
  key : String
  value : String

/-- Marked content of a page. -/
structure MarkedContent where
  page : Option Nat
  mcid : Int

/-- A structure element, apart from the elements below it. -/
structure ElementFacts where
  id : Option ObjectId
  role : String
  /-- The role that the role map gives. -/
  standardRole : String
  elementId : Option String
  title : Option String
  language : Option String
  altText : Option String
  actualText : Option String
  attributes : List AttributeFacts
  page : Option Nat
  content : List MarkedContent
  /-- The annotations that belong to the element. -/
  annotations : List ObjectId

/-- What the tree is read with. -/
structure ElementContext where
  doc : Document
  roles : Std.TreeMap String String
  /-- The numbers of pages. -/
  pages : Std.TreeMap ObjectId Nat

namespace Document

/-- The numbers of the pages by their ids; of several the last one counts. -/
def pageNumbers (doc : Document) : Std.TreeMap ObjectId Nat :=
  (doc.pages.zipIdx 1).foldl (fun t e => t.insert e.1 e.2) ∅

/-- The attributes in a dictionary, without its owner. -/
def attributesOf (doc : Document) (d : Dict Object) : List AttributeFacts :=
  let owner := doc.entryName? d "O"
  (d.toList.filter fun e => e.1 != utf8 "O").map fun e =>
    ⟨owner, Utf8.decodeLossy e.1, e.2.display⟩

/-- The attributes of an element, in one dictionary or in several. -/
def attributes (doc : Document) (element : Dict Object) : List AttributeFacts :=
  match doc.value? element "A" with
  | some (.dictionary d) => doc.attributesOf d
  | some (.array items) =>
    (items.filterMap fun item => (doc.resolve item).dictionary?).flatMap doc.attributesOf
  | _ => []

/-- The kids that a dictionary lists: the items of an array, or one object alone. -/
def kidsOf (d : Dict Object) : List Object :=
  match d.get? "K" with
  | some (.array items) => items
  | some item => [item]
  | none => []

end Document

namespace ElementContext

def pageOf? (c : ElementContext) (d : Dict Object) : Option Nat :=
  ((d.get? "Pg").bind Object.reference?).bind (c.pages[·]?)

/-- What a kid of an element is. -/
inductive Kid where
  | content (m : MarkedContent)
  | annot (id : ObjectId)
  /-- A dictionary without a role that is neither of these. -/
  | nothing
  /-- What may be an element. -/
  | other

/-- Tells what a kid is, of an element on some page. -/
def kid (c : ElementContext) (page : Option Nat) (o : Object) : Kid :=
  match c.doc.resolve o with
  | .integer mcid => .content ⟨page, mcid⟩
  | .dictionary d =>
    if d.contains "S" then .other
    else match c.doc.entryName? d "Type" with
      | some "MCR" =>
        match c.doc.entryWhole? d "MCID" with
        | some mcid => .content ⟨c.pageOf? d <|> page, mcid⟩
        | none => .nothing
      | some "OBJR" =>
        match (d.get? "Obj").bind Object.reference? with
        | some id => .annot id
        | none => .nothing
      | _ => .nothing
  | _ => .other

/-- The facts about an element with a dictionary; `page` is the one of the element above. -/
def facts (c : ElementContext) (page : Option Nat) (id : Option ObjectId) (d : Dict Object) :
    ElementFacts :=
  let role := (c.doc.entryName? d "S").getD ""
  let page := c.pageOf? d <|> page
  let kids := (Document.kidsOf d).map (c.kid page)
  { id, role, page
    standardRole := Role.standard c.roles role
    elementId := c.doc.entryText? d "ID"
    title := c.doc.entryText? d "T"
    language := c.doc.entryText? d "Lang"
    altText := c.doc.entryText? d "Alt"
    actualText := c.doc.entryText? d "ActualText"
    attributes := c.doc.attributes d
    content := kids.filterMap fun
      | .content m => some m
      | _ => none
    annotations := kids.filterMap fun
      | .annot id => some id
      | _ => none }

/-- The kids of an element that may be elements. -/
def elementKids (c : ElementContext) (page : Option Nat) (d : Dict Object) : List Object :=
  (Document.kidsOf d).filter fun o =>
    match c.kid page o with
    | .other => true
    | _ => false

/-- Levels of the tree that are read. -/
def maxLevels : Nat := 257

/-- Reads elements and what is below them on so many levels. No object is read twice; the ids met so
far come back with the trees. -/
def readAll (c : ElementContext) : Nat → Option Nat → List ObjectId → List Object →
    List (Tree ElementFacts) × List ObjectId
  | 0, _, met, _ => ([], met)
  | levels + 1, page, met, kids =>
    let (trees, met) := kids.foldl (fun (trees, met) kid =>
      let id := kid.reference?
      if id.any met.contains then (trees, met)
      else
        let met := id.toList ++ met
        match (c.doc.resolve kid).dictionary? with
        | some d =>
          if d.contains "S" then
            let facts := c.facts page id d
            let (below, met) := readAll c levels facts.page met (c.elementKids facts.page d)
            (Tree.node facts below :: trees, met)
          else (trees, met)
        | none => (trees, met)) (([], met) : List (Tree ElementFacts) × List ObjectId)
    (trees.reverse, met)

end ElementContext

/-- The elements of the structure tree. -/
def Document.structureTrees (doc : Document) (rootId : Option ObjectId) (root : Dict Object) :
    List (Tree ElementFacts) :=
  let c : ElementContext := ⟨doc, doc.roleMap root, doc.pageNumbers⟩
  (c.readAll ElementContext.maxLevels none rootId.toList (kidsOf root)).1

end AccessiblePdf
