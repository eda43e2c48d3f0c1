import AccessiblePdf.Document.Basic

/-!
The pages of a document, in order, and the attributes that they inherit from the page tree.
-/
namespace AccessiblePdf.Document

/-! ## The page tree -/

/-- Page-tree nodes that may stand open at a time. -/
def pageTreeDepth : Nat := 256

/-- The catalog, which the trailer refers to. -/
def catalogDict? (doc : Document) : Option (Dict Object) :=
  ((doc.trailer.get? "Root").bind Object.reference?).bind doc.dict?

/-- The kids of a page-tree node. -/
def pageKids (doc : Document) (node : ObjectId) : List Object :=
  ((doc.dict? node).bind (doc.entryArray? · "Kids")).getD []

/-- The type that the dictionary of an object states. -/
def typeOf? (doc : Document) (id : ObjectId) : Option Bytes :=
  ((doc.dict? id).bind (·.get? "Type")).bind Object.name?

/-- Walks kids and, below them, the kids of page-tree nodes; `levels` holds what is left to do on
the levels above. At most `limit` kids are looked at. -/
def pagesFrom (doc : Document) (limit : Nat) (kids : List Object) (levels : List (List Object)) :
    List ObjectId :=
  match kids, levels with
  | [], [] => []
  | [], level :: above => pagesFrom doc limit level above
  | kid :: rest, above =>
    match limit with
    | 0 => []
    | limit + 1 =>
      match kid with
      | .reference id =>
        match doc.typeOf? id with
        | some type =>
          if type = utf8 "Page" then id :: pagesFrom doc limit rest above
          else if type = utf8 "Pages" ∧ above.length < pageTreeDepth then
            pagesFrom doc limit (doc.pageKids id) (if rest.isEmpty then above else rest :: above)
          else pagesFrom doc limit rest above
        | none => pagesFrom doc limit rest above
      | _ => pagesFrom doc limit rest above
termination_by (limit, levels.length)

/-- The pages of the document, in order. -/
def pages (doc : Document) : List ObjectId :=
  match (doc.catalogDict?.bind (·.get? "Pages")).bind Object.reference? with
  | some tree => pagesFrom doc doc.objects.size (doc.pageKids tree) []
  | none => []

def pageCount (doc : Document) : Nat := doc.pages.length

/-- The page with a number, counted from 1. -/
def page (doc : Document) (number : Nat) : Except Fault ObjectId :=
  let pages := doc.pages
  match if number = 0 then none else pages[number - 1]? with
  | some id => .ok id
  | none => .error (.pageOutOfRange number pages.length)

/-- The number of a page, counted from 1. -/
def pageNumber? (doc : Document) (id : ObjectId) : Option Nat :=
  (doc.pages.findIdx? (· == id)).map (· + 1)

/-! ## Inherited attributes -/

/-- Levels that an attribute is looked up on. -/
def inheritanceDepth : Nat := 64

/-- An attribute of a node or of the nearest node above it that has one, within `depth` levels. -/
def inheritedFrom (doc : Document) (key : Bytes) : Nat → Dict Object → Option Object
  | 0, _ => none
  | depth + 1, node =>
    match doc.value? node key with
    | some value => some value
    | none => (doc.entryDict? node "Parent").bind (inheritedFrom doc key depth)

/-- An attribute of a page, its own or inherited. -/
def inherited? (doc : Document) (page : ObjectId) (key : Bytes) : Option Object :=
  (doc.dict? page).bind (doc.inheritedFrom key inheritanceDepth)

/-- The size of a page that states none, US Letter. -/
def defaultPageBox : Box Float := ⟨0, 0, 612, 792⟩

def pageBox (doc : Document) (page : ObjectId) : Box Float :=
  ((doc.inherited? page "MediaBox").bind doc.box?).getD defaultPageBox

def pageResources? (doc : Document) (page : ObjectId) : Option (Dict Object) :=
  (doc.inherited? page "Resources").bind Object.dictionary?

def pageResources (doc : Document) (page : ObjectId) : Dict Object :=
  (doc.pageResources? page).getD ∅

end AccessiblePdf.Document
