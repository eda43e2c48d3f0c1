import AccessiblePdf.Instruction.Set
import AccessiblePdf.Instruction.Violation

/-!
The rules that an instruction set has to keep before it is carried out. All violations are listed,
in the order of the sections: version, metadata, structure, regions, artifacts, annotations, fonts,
words.
-/
namespace AccessiblePdf

/-- The violation of a rule by a field, unless a condition holds. -/
def Rule.unless (rule : Rule) (field : String) (holds : Bool) : List Violation :=
  if holds then [] else [⟨field, rule⟩]

/-- The path of an item of a list. -/
def itemPath (path : String) (i : Nat) : String := path ++ "[" ++ toString i ++ "]"

/-- The violations of the items of a list, each at its path. -/
def eachItem {α : Type} (path : String) (f : String → α → List Violation) :
    Nat → List α → List Violation
  | _, [] => []
  | i, a :: as => f (itemPath path i) a ++ eachItem path f (i + 1) as

/-! ## Values -/

/-- Whether a text is a language tag: two to eight letters, then groups of one to eight letters and
digits, each after a hyphen. -/
def isLanguageTag (s : String) : Bool :=
  match Text.splitOn '-' s with
  | [] => false
  | first :: rest =>
    2 ≤ first.length && first.length ≤ 8 && first.toList.all Char.isAlpha &&
      rest.all fun part => 1 ≤ part.length && part.length ≤ 8 && part.toList.all Char.isAlphanum

/-- A box lies in the positive quadrant and has an area. -/
def Box.violations (field : String) (b : Box Float) : List Violation :=
  Rule.nonNegative.unless (field ++ ".x") (0 ≤ b.x) ++
    Rule.nonNegative.unless (field ++ ".y") (0 ≤ b.y) ++
    Rule.positive.unless (field ++ ".width") (0 < b.width) ++
    Rule.positive.unless (field ++ ".height") (0 < b.height)

/-- The violations of a value that may be left out. -/
def ifGiven {α : Type} (f : α → List Violation) : Option α → List Violation
  | some a => f a
  | none => []

/-- The violations of a value that has to be there. -/
def requiredAt {α : Type} (field : String) (f : α → List Violation) : Option α → List Violation
  | some a => f a
  | none => [⟨field, .required⟩]

def pageViolations (path : String) (page : Int) : List Violation :=
  Rule.positive.unless (path ++ ".page") (0 < page)

def boxRequired (field : String) : Option (Box Float) → List Violation :=
  requiredAt field (Box.violations field)

def languageViolations (field language : String) : List Violation :=
  (Rule.languageTag language).unless field (isLanguageTag language)

/-! ## Sections -/

def versionViolations : Option String → List Violation
  | some v =>
    (Rule.unsupportedVersion v supportedVersion).unless "version" (v == supportedVersion)
  | none => [⟨"version", .versionRequired supportedVersion⟩]

def MetadataEdit.violations (m : MetadataEdit) : List Violation :=
  ifGiven (languageViolations "metadata.language") m.language ++
    ifGiven (fun part => Rule.oneOrTwo.unless "metadata.pdfua_identifier" (part == 1 || part == 2))
      m.pdfuaPart ++
    ifGiven (fun t => (Rule.knownTabOrder t).unless "metadata.tab_order" (TabOrder.ofName? t).isSome)
      m.tabOrder

/-- The id of a structure element is not blank, and no earlier element has it. -/
def idViolations (seen : List String) (field id : String) : List Violation :=
  if Text.isEmptyOrBlank id then [⟨field, .idNotEmpty⟩]
  else (Rule.idUnique id).unless field (!seen.contains id)

def TagAttribute.violations (path : String) (a : TagAttribute) : List Violation :=
  Rule.required.unless (path ++ ".owner") (!Text.isEmptyOrBlank a.owner) ++
    Rule.required.unless (path ++ ".key") (!Text.isEmptyOrBlank a.key)

def roleViolations (field role : String) : List Violation :=
  if role.isEmpty then [⟨field, .required⟩]
  else (Rule.knownRole role).unless field (knownRoles.contains role)

/-- The violations of a structure element whose predecessors have the ids `seen`. -/
def Tag.violations (seen : List String) (path : String) (t : Tag) : List Violation :=
  ifGiven (idViolations seen (path ++ ".id")) t.id ++
    roleViolations (path ++ ".role") t.role ++
    ifGiven (fun s => (Rule.knownScope s).unless (path ++ ".scope") (knownScopes.contains s))
      t.scope ++
    ifGiven (fun n => Rule.positive.unless (path ++ ".colspan") (0 < n)) t.colspan ++
    ifGiven (fun n => Rule.positive.unless (path ++ ".rowspan") (0 < n)) t.rowspan ++
    ifGiven (languageViolations (path ++ ".language")) t.language ++
    ifGiven (Box.violations (path ++ ".bbox")) t.box ++
    eachItem (path ++ ".attributes") TagAttribute.violations 0 t.attributes

/-- The id that a structure element declares; a blank one declares nothing. -/
def Tag.declaredId? (t : Tag) : Option String := t.id.filter (fun id => !Text.isEmptyOrBlank id)

namespace TagTree

mutual

/-- The elements of a tree with their paths, parents before their children. -/
def located (path : String) : TagTree → List (String × Tag)
  | .node t cs => (path, t) :: locatedAll (path ++ ".children") 0 cs

def locatedAll (path : String) (i : Nat) : List TagTree → List (String × Tag)
  | [] => []
  | c :: cs => located (itemPath path i) c ++ locatedAll path (i + 1) cs

end

end TagTree

/-- The violations of structure elements in order, each after those that declared the ids `seen`. -/
def tagsViolations : List String → List (String × Tag) → List Violation
  | _, [] => []
  | seen, (path, t) :: rest =>
    t.violations seen path ++ tagsViolations (t.declaredId?.toList ++ seen) rest

/-- The path of the structure section. -/
def tagsPath : String := "structure"

def TagSection.violations (s : TagSection) : List Violation :=
  tagsViolations [] (s.root.located tagsPath)

/-- The ids that an instruction set declares. -/
def InstructionSet.declaredIds (set : InstructionSet) : List String :=
  set.allTags.filterMap Tag.declaredId?

def TagRegion.violations (ids : List String) (path : String) (r : TagRegion) : List Violation :=
  (if Text.isEmptyOrBlank r.node then [⟨path ++ ".node", .required⟩]
    else (Rule.declaredNode r.node).unless (path ++ ".node") (ids.contains r.node)) ++
    pageViolations path r.page ++ boxRequired (path ++ ".bbox") r.box

def ArtifactRegion.violations (path : String) (r : ArtifactRegion) : List Violation :=
  pageViolations path r.page ++ boxRequired (path ++ ".bbox") r.box ++
    (Rule.knownArtifactType r.kind).unless (path ++ ".type") (ArtifactKind.ofName? r.kind).isSome

namespace AnnotationEdit

def indexViolations (path : String) : Option Int → List Violation :=
  requiredAt (path ++ ".index") fun i => Rule.nonNegative.unless (path ++ ".index") (0 ≤ i)

def widgetViolations (path : String) (a : AnnotationEdit) : List Violation :=
  boxRequired (path ++ ".rect") a.rect ++
    Rule.required.unless (path ++ ".field_name")
      (a.fieldName.any fun name => !Text.isEmptyOrBlank name) ++
    requiredAt (path ++ ".field_type")
      (fun t => (Rule.knownFieldType t).unless (path ++ ".field_type") (knownFieldTypes.contains t))
      a.fieldType

/-- A structure element that is named has to be declared. -/
def nodeViolations (ids : List String) (path : String) (a : AnnotationEdit) : List Violation :=
  ifGiven (fun id => (Rule.declaredNode id).unless (path ++ ".node") (ids.contains id)) a.node

def violations (ids : List String) (path : String) (a : AnnotationEdit) : List Violation :=
  match AnnotationOp.ofName? a.op with
  | none => [⟨path ++ ".op", .knownAnnotationOp a.op⟩]
  | some op =>
    pageViolations path a.page ++
      match op with
      | .setContents | .setTooltip =>
        indexViolations path a.index ++
          Rule.required.unless (path ++ ".value") a.value.isSome
      | .associate => indexViolations path a.index ++ nodeViolations ids path a
      | .createWidget => widgetViolations path a ++ nodeViolations ids path a

end AnnotationEdit

namespace FontEdit

/-- The first code of a table above a limit breaks the rule. -/
def codeViolations {α : Type} (field : String) (limit : Nat) (limitText : String)
    (t : CodeTable α) : List Violation :=
  match t.keys.find? (fun code => limit < code) with
  | some code => [⟨field, .codeAtMost code limitText⟩]
  | none => []

def isValidWidth : Number → Bool
  | .whole n => 0 ≤ n
  | .real x => x.isFinite && !(x < 0)

def payloadViolations (path : String) (f : FontEdit) : FontOp → List Violation
  | .writeCidSet =>
    Rule.someCid.unless (path ++ ".cids") (!f.cids.isEmpty) ++
      Rule.cidRange.unless (path ++ ".cids") (f.cids.all fun cid => 0 ≤ cid && cid ≤ 0xFFFF)
  | .writeCharSet =>
    Rule.someGlyphName.unless (path ++ ".glyph_names") (!f.glyphNames.isEmpty) ++
      Rule.glyphNamesUnbroken.unless (path ++ ".glyph_names")
        (f.glyphNames.all fun name => !name.isEmpty && !name.toList.any Text.isBlank)
  | .setEncoding =>
    requiredAt (path ++ ".encoding")
      (fun e => (Rule.knownEncoding e).unless (path ++ ".encoding") (knownEncodings.contains e))
      f.encoding
  | .setDifferences =>
    Rule.tableNotEmpty.unless (path ++ ".differences") (!f.differences.isEmpty) ++
      codeViolations (path ++ ".differences") 0xFF "0xFF" f.differences ++
      Rule.glyphNamesNotEmpty.unless (path ++ ".differences")
        (f.differences.values.all fun name => !Text.isEmptyOrBlank name)
  | .writeToUnicode =>
    Rule.tableNotEmpty.unless (path ++ ".mappings") (!f.mappings.isEmpty) ++
      codeViolations (path ++ ".mappings") 0xFFFF "0xFFFF" f.mappings
  | .setWidths =>
    Rule.tableNotEmpty.unless (path ++ ".widths") (!f.widths.isEmpty) ++
      codeViolations (path ++ ".widths") 0xFFFF "0xFFFF" f.widths ++
      Rule.widthsFinite.unless (path ++ ".widths") (f.widths.values.all isValidWidth)
  | .addDescriptor => []

def violations (path : String) (f : FontEdit) : List Violation :=
  match FontOp.ofName? f.op with
  | none => [⟨path ++ ".op", .knownFontOp f.op⟩]
  | some op =>
    Rule.required.unless (path ++ ".font") (!Text.isEmptyOrBlank f.font) ++
      pageViolations path f.page ++ payloadViolations path f op

end FontEdit

def OcrWord.violations (path : String) (w : OcrWord) : List Violation :=
  Rule.required.unless (path ++ ".text") (!Text.isEmptyOrBlank w.text) ++
    boxRequired (path ++ ".bbox") w.box ++
    ifGiven (fun c => Rule.shareOfOne.unless (path ++ ".confidence") (0 ≤ c && c ≤ 1)) w.confidence

def OcrPage.violations (path : String) (p : OcrPage) : List Violation :=
  pageViolations path p.page ++ eachItem (path ++ ".words") OcrWord.violations 0 p.words

namespace InstructionSet

/-- All violations of an instruction set; none when it may be carried out. -/
def violations (set : InstructionSet) : List Violation :=
  versionViolations set.version ++
    ifGiven MetadataEdit.violations set.metadata ++
    ifGiven TagSection.violations set.tags ++
    eachItem "content_tagging" (TagRegion.violations set.declaredIds) 0 set.regions ++
    eachItem "artifacts" ArtifactRegion.violations 0 set.artifacts ++
    eachItem "annotations" (AnnotationEdit.violations set.declaredIds) 0 set.annotations ++
    eachItem "fonts" FontEdit.violations 0 set.fonts ++
    eachItem "ocr" OcrPage.violations 0 set.ocr

end InstructionSet

end AccessiblePdf
