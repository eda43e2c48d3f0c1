import AccessiblePdf.Content.Scan
import AccessiblePdf.Instruction.Vocabulary
import AccessiblePdf.Structure.Element
import AccessiblePdf.Structure.Role

/-!
The headings of the structure tree in reading order, with their levels and titles.
-/
namespace AccessiblePdf

/-- A heading element. -/
structure Heading where
  level : Nat
  /-- The role as the element states it. -/
  role : String
  element : ObjectId
  page : Option ObjectId

namespace Document

/-! ## Elements -/

/-- The kids of an element or of the root: the items of an array, or one object alone. -/
def structureKids (doc : Document) (element : ObjectId) : List Object :=
  match (doc.dict? element).bind (·.get? "K") with
  | some (.array items) => items
  | some item => [item]
  | none => []

/-- The kids that are elements of their own. -/
def elementKids (doc : Document) (element : ObjectId) : List ObjectId :=
  ((doc.structureKids element).filterMap Object.reference?).filter fun id =>
    (doc.dict? id).any (·.contains "S")

/-! ## Headings -/

/-- The heading that an element is, if its role leads to one. -/
def heading? (doc : Document) (map : Std.TreeMap String String) (element : ObjectId) :
    Option Heading := do
  let d ← doc.dict? element
  let role ← doc.entryName? d "S"
  let level ← headingLevel? (Role.standard map role)
  return { level, role, element, page := (d.get? "Pg").bind Object.reference? }

/-- The headings among elements and what is below them, in reading order. Only elements among
`unvisited` count, so that none is met twice. -/
def headingsFrom (doc : Document) (map : Std.TreeMap String String) (unvisited : List ObjectId) :
    List ObjectId → List Heading
  | [] => []
  | element :: pending =>
    if element ∈ unvisited then
      (doc.heading? map element).toList ++
        headingsFrom doc map (unvisited.erase element) (doc.elementKids element ++ pending)
    else headingsFrom doc map unvisited pending
termination_by pending => (unvisited.length, pending.length)
decreasing_by
  · rename_i h
    have := List.length_erase_of_mem h
    have := List.length_pos_of_mem h
    apply Prod.Lex.left
    omega
  · apply Prod.Lex.right
    simp

/-- The headings below the root of the structure tree. -/
def headings (doc : Document) (root : ObjectId) : List Heading :=
  let roles := doc.roleMap ((doc.dict? root).getD ∅)
  headingsFrom doc roles (doc.objects.keys.erase root) (doc.elementKids root)

/-! ## Titles -/

/-- The MCIDs that an element has on a page. -/
def elementMcids (doc : Document) (element page : ObjectId) : List Int :=
  (doc.structureKids element).filterMap fun kid =>
    match doc.resolve kid with
    | .integer mcid => some mcid
    | .dictionary d =>
      if ((d.get? "Pg").bind Object.reference?).all (· == page) then
        (d.get? "MCID").bind Object.integer?
      else none
    | _ => none

/-- The text of an element's content on a page, with single spaces between words. -/
def markedText? (doc : Document) (element page : ObjectId) : Option String :=
  let mcids := doc.elementMcids element page
  match doc.pageOperations page with
  | .error _ => none
  | .ok ops =>
    let marked := (doc.scan page ops).operators.filter fun d => d.marks.mcid.any mcids.contains
    let text := String.join (marked.filterMap (·.figure.text))
    match Text.words text with
    | [] => none
    | words => some (" ".intercalate words)

/-- The first text that an element states about itself. -/
def statedText? (doc : Document) (element : ObjectId) : Option String :=
  [utf8 "ActualText", utf8 "Alt", utf8 "T"].findSome? fun key =>
    (((doc.dict? element).bind (doc.entryText? · key)).map Text.trim).filter (· != "")

/-- The title of a heading: its stated text, the text of its content, or its role. -/
def headingTitle (doc : Document) (h : Heading) : String :=
  match doc.statedText? h.element with
  | some text => text
  | none => (h.page.bind (doc.markedText? h.element)).getD h.role

end Document

end AccessiblePdf
