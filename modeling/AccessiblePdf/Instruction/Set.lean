import AccessiblePdf.Font.Encoding
import AccessiblePdf.Geometry.Box
import AccessiblePdf.Instruction.Vocabulary

/-!
Instruction sets: what a document is to receive. Values that a rule restricts (pages, names, spans)
are kept as given, so that a set that breaks a rule can be reported on as a whole.
-/
namespace AccessiblePdf

/-- Settings of the document as a whole. -/
structure MetadataEdit where
  language : Option String := none
  title : Option String := none
  displayTitle : Option Bool := none
  marked : Option Bool := none
  pdfuaPart : Option Int := none
  tabOrder : Option String := none

/-- The value of an attribute. A text with a slash in front is a name. -/
inductive AttributeValue where
  | bool (b : Bool)
  | int (n : Int)
  | number (x : Float)
  | text (s : String)

/-- An attribute of a structure element. -/
structure TagAttribute where
  owner : String
  key : String
  value : AttributeValue

/-- What a structure element is to be, apart from its children. -/
structure Tag where
  id : Option String := none
  role : String := ""
  box : Option (Box Float) := none
  language : Option String := none
  altText : Option String := none
  actualText : Option String := none
  elementId : Option String := none
  scope : Option String := none
  colspan : Option Int := none
  rowspan : Option Int := none
  attributes : List TagAttribute := []

/-- A tree of structure elements to be. -/
inductive TagTree where
  | node (tag : Tag) (children : List TagTree)

namespace TagTree

def tag : TagTree → Tag
  | node t _ => t

def children : TagTree → List TagTree
  | node _ cs => cs

mutual

/-- The elements of a tree, parents before their children. -/
def tags : TagTree → List Tag
  | node t cs => t :: tagsAll cs

def tagsAll : List TagTree → List Tag
  | [] => []
  | c :: cs => tags c ++ tagsAll cs

end

end TagTree

/-- The structure tree to build. -/
structure TagSection where
  /-- Tags that are there already go first. -/
  stripExisting : Bool
  root : TagTree

/-- A region of a page that belongs to a structure element. -/
structure TagRegion where
  node : String := ""
  page : Int := 0
  box : Option (Box Float) := none

/-- A region of a page that is no content. -/
structure ArtifactRegion where
  page : Int := 0
  box : Option (Box Float) := none
  kind : String := ""

/-- A change to an annotation of a page, or a new one. -/
structure AnnotationEdit where
  op : String := ""
  page : Int := 0
  index : Option Int := none
  value : Option String := none
  node : Option String := none
  rect : Option (Box Float) := none
  fieldName : Option String := none
  fieldType : Option String := none
  tooltip : Option String := none

/-- A change to a font of a page. -/
structure FontEdit where
  op : String := ""
  font : String := ""
  page : Int := 0
  cids : List Int := []
  glyphNames : List String := []
  encoding : Option String := none
  differences : CodeTable String := ∅
  mappings : CodeTable String := ∅
  widths : CodeTable Number := ∅

/-- A word that was recognised in the image of a page. -/
structure OcrWord where
  text : String := ""
  box : Option (Box Float) := none
  confidence : Option Float := none

structure OcrPage where
  page : Int := 0
  words : List OcrWord := []

structure BookmarkEdit where
  fromHeadings : Bool := false

/-- All that a document is to receive. -/
structure InstructionSet where
  version : Option String := none
  metadata : Option MetadataEdit := none
  tags : Option TagSection := none
  regions : List TagRegion := []
  artifacts : List ArtifactRegion := []
  annotations : List AnnotationEdit := []
  bookmarks : Option BookmarkEdit := none
  fonts : List FontEdit := []
  ocr : List OcrPage := []

namespace InstructionSet

/-- The structure elements to build, parents before their children. -/
def allTags (set : InstructionSet) : List Tag :=
  match set.tags with
  | some tags => tags.root.tags
  | none => []

end InstructionSet

end AccessiblePdf
