import AccessiblePdf.Data.Json
import AccessiblePdf.Data.Yaml.Document
import AccessiblePdf.Decimal.Layout
import AccessiblePdf.Fault
import AccessiblePdf.Instruction.Set
import AccessiblePdf.Text.Utf8

/-!
Instruction sets from JSON and YAML text. A record is a table of its fields, or a list of their
values in order; fields that are missing keep their defaults and unknown ones are ignored. Entries
are read in the order of the table, so the first fault in that order is the one reported, and of two
keys that spell one character code the later counts.
-/
namespace AccessiblePdf

/-- The notations of instruction documents. -/
inductive TextFormat where
  | json
  | yaml
deriving DecidableEq, Repr

namespace TextFormat

/-- The format that a media type or a file extension names. -/
def ofHint? (hint : String) : Option TextFormat :=
  let name := Text.trim (String.ofList
    ((Text.toAsciiLower (Text.trim hint)).toList.takeWhile (· != ';')))
  if ["json", "application/json", "text/json"].contains name then some .json
  else if ["yaml", "yml", "application/yaml", "application/x-yaml", "text/yaml",
      "text/x-yaml"].contains name then some .yaml
  else none

/-- The format that a document seems to have: JSON starts with a brace or a bracket. -/
def ofContent (text : String) : TextFormat :=
  match Text.trimStartList (Text.dropMarks text).toList with
  | '\x7b' :: _ | '[' :: _ => .json
  | _ => .yaml

/-- The format that the extension of a file name tells. -/
def ofFileName? (name : String) : Option TextFormat :=
  let base := ((Text.splitOn '/' name).getLast?.getD "").toList.reverse
  match base.dropWhile (· != '.') with
  | [] | [_] => none
  | _ :: _ => ofHint? (String.ofList (base.takeWhile (· != '.')).reverse)

end TextFormat

/-! ## Reading values -/

abbrev Reading (α : Type) := Except Malformed α

namespace Reading

/-- Where the values of a document come from. -/
inductive Source where
  /-- A null stands for an empty list, table or record, and keys are texts. -/
  | lenient
  /-- A null stands for nothing else, and a whole number as a key is the place of a field. -/
  | strict
deriving DecidableEq

def illFormed {α : Type} : Reading α := .error .illFormed

def asText (d : Data) : Reading String :=
  match d.untagged with
  | .text s => .ok s
  | _ => illFormed

def asBool (d : Data) : Reading Bool :=
  match d.untagged with
  | .bool b => .ok b
  | _ => illFormed

/-- A whole number of 64 bits. -/
def asInt (d : Data) : Reading Int :=
  match d.untagged with
  | .int n => if minInt64 ≤ n ∧ n ≤ maxInt64 then .ok n else illFormed
  | _ => illFormed

/-- A number, rounded to a double. -/
def asNumber (d : Data) : Reading Number :=
  match d.untagged with
  | .int n => .ok (Number.ofInt n)
  | .float x => .ok (Number.ofFloat x)
  | _ => illFormed

def asFloat (d : Data) : Reading Float :=
  match d.untagged with
  | .int n => .ok (Float.ofInt n)
  | .float x => .ok x
  | _ => illFormed

/-- Null is nothing. -/
def optional {α : Type} (read : Data → Reading α) : Data → Reading (Option α)
  | .null => .ok none
  | d => (read d).map some

def asList {α : Type} (source : Source) (read : Data → Reading α) (d : Data) : Reading (List α) :=
  match d.untagged with
  | .list items => items.mapM read
  | .null => if source = .lenient then .ok [] else illFormed
  | _ => illFormed

/-- A field of a record: its name, and how its value changes the record. -/
structure RecordField (α : Type) where
  name : String
  set : α → Data → Reading α

/-- A field with a reader and a setter. -/
def field {α β : Type} (name : String) (read : Data → Reading β) (put : α → β → α) : RecordField α :=
  ⟨name, fun a d => (read d).map (put a)⟩

/-- Sets the fields from a list of values. -/
def positional {α : Type} (a : α) : List (RecordField α) → List Data → Reading α
  | _, [] => .ok a
  | [], _ :: _ => illFormed
  | f :: fs, d :: ds => do positional (← f.set a d) fs ds

/-- The field that a key names; nothing for an unknown one. -/
def fieldOf {α : Type} (source : Source) (fields : List (RecordField α)) (key : Data) :
    Reading (Option (RecordField α)) :=
  match source, key with
  | .lenient, key =>
    match key.untagged with
    | .text k => .ok (fields.find? (·.name == k))
    | _ => illFormed
  | .strict, .text k => .ok (fields.find? (·.name == k))
  | .strict, .int n => if 0 ≤ n then .ok fields[n.toNat]? else illFormed
  | .strict, _ => illFormed

/-- Sets the fields from the entries of a table, none of them twice. -/
def named {α : Type} (source : Source) (fields : List (RecordField α)) (seen : List String) (a : α) :
    List (Data × Data) → Reading α
  | [] => .ok a
  | (k, d) :: rest => do
    match ← fieldOf source fields k with
    | some f =>
      if seen.contains f.name then illFormed
      else named source fields (f.name :: seen) (← f.set a d) rest
    | none => named source fields seen a rest

/-- A record, starting from its defaults. -/
def record {α : Type} (source : Source) (fields : List (RecordField α)) (init : α) (d : Data) :
    Reading α :=
  match d.untagged with
  | .list items => positional init fields items
  | .table entries => named source fields [] init entries
  | .null => if source = .lenient then .ok init else illFormed
  | _ => illFormed

/-- A box needs all its four numbers. -/
def asBox (source : Source) (d : Data) : Reading (Box Float) := do
  let (x, y, w, h) ← record source
    [field "x" asFloat (fun b v => (some v, b.2)),
      field "y" asFloat (fun b v => (b.1, some v, b.2.2)),
      field "width" asFloat (fun b v => (b.1, b.2.1, some v, b.2.2.2)),
      field "height" asFloat (fun b v => (b.1, b.2.1, b.2.2.1, some v))]
    ((none, none, none, none) : Option Float × Option Float × Option Float × Option Float) d
  match x, y, w, h with
  | some x, some y, some w, some h => .ok ⟨x, y, w, h⟩
  | _, _, _, _ => illFormed

/-! ## Tables by character code -/

/-- A character code as a key. -/
def charCode : Data → Reading Nat
  | .int n => if 0 ≤ n ∧ n < CharCode.limit then .ok n.toNat else .error (.codeOutOfRange n)
  | .text s =>
    match CharCode.ofText? s with
    | some code => .ok code
    | none => .error (.notACode s)
  | _ => illFormed

/-- The entries of a table by character code, in the order of the table. -/
def codeEntries {α : Type} (read : Data → Reading α) (entries : List (Data × Data)) :
    Reading (List (Nat × α)) :=
  entries.mapM fun e => do
    let code ← charCode e.1
    return (code, ← read e.2)

/-- A table by character code; the last entry of a code counts. -/
def codeTable {α : Type} (read : Data → Reading α) (d : Data) : Reading (CodeTable α) :=
  match d.untagged with
  | .table entries => do
    return (← codeEntries read entries).foldl (fun t e => t.insert e.1 e.2) ∅
  | .null => .ok ∅
  | _ => illFormed

end Reading

/-! ## Records of instruction sets -/

open Reading

/-- A version may be written as a number. -/
def readVersion : Data → Reading (Option String)
  | .null => .ok none
  | .text s => .ok (some s)
  | .int n => .ok (some (toString n))
  | .float x => .ok (some ((Decimal.Reading.ofDouble x).pointed ⟨.up, -4, false⟩))
  | _ => illFormed

def MetadataEdit.ofData (source : Source) : Data → Reading MetadataEdit :=
  record source
    [field "language" (optional asText) (fun m v => { m with language := v }),
      field "title" (optional asText) (fun m v => { m with title := v }),
      field "display_doc_title" (optional asBool) (fun m v => { m with displayTitle := v }),
      field "mark_info" (optional asBool) (fun m v => { m with marked := v }),
      field "pdfua_identifier" (optional asInt) (fun m v => { m with pdfuaPart := v }),
      field "tab_order" (optional asText) (fun m v => { m with tabOrder := v })]
    {}

/-- The value of an attribute: whole numbers beyond 64 bits with sign are numbers. -/
def AttributeValue.ofData : Data → Reading AttributeValue
  | .bool b => .ok (.bool b)
  | .int n => .ok (if n ≤ maxInt64 then .int n else .number (Float.ofInt n))
  | .float x => .ok (.number x)
  | .text s => .ok (.text s)
  | _ => illFormed

/-- An attribute needs all its three parts. -/
def TagAttribute.ofData (d : Data) : Reading TagAttribute := do
  let (owner, key, value) ← record .strict
    [field "owner" asText (fun a v => (some v, a.2)),
      field "key" asText (fun a v => (a.1, some v, a.2.2)),
      field "value" AttributeValue.ofData (fun a v => (a.1, a.2.1, some v))]
    ((none, none, none) : Option String × Option String × Option AttributeValue) d
  match owner, key, value with
  | some owner, some key, some value => .ok ⟨owner, key, value⟩
  | _, _, _ => illFormed

/-- The fields of a structure element; `child` reads its children. -/
def tagFields (child : Data → Reading TagTree) : List (RecordField (Tag × List TagTree)) :=
  let plain {β : Type} (name : String) (read : Data → Reading β) (put : Tag → β → Tag) :=
    field name read (fun (n : Tag × List TagTree) v => (put n.1 v, n.2))
  [plain "id" (optional asText) (fun t v => { t with id := v }),
    plain "role" asText (fun t v => { t with role := v }),
    plain "bbox" (optional (asBox .strict)) (fun t v => { t with box := v }),
    plain "language" (optional asText) (fun t v => { t with language := v }),
    plain "alt_text" (optional asText) (fun t v => { t with altText := v }),
    plain "actual_text" (optional asText) (fun t v => { t with actualText := v }),
    plain "element_id" (optional asText) (fun t v => { t with elementId := v }),
    plain "scope" (optional asText) (fun t v => { t with scope := v }),
    plain "colspan" (optional asInt) (fun t v => { t with colspan := v }),
    plain "rowspan" (optional asInt) (fun t v => { t with rowspan := v }),
    plain "attributes" (asList .strict TagAttribute.ofData) (fun t v => { t with attributes := v }),
    field "children" (asList .strict child) (fun n v => (n.1, v))]

/-- A tree of structure elements with at most so many levels. -/
def tagTree : Nat → Data → Reading TagTree
  | 0, _ => illFormed
  | levels + 1, d => do
    let (tag, children) ← record .strict (tagFields (tagTree levels)) ({}, []) d
    return .node tag children

/-- The name of the entry that asks for existing tags to go. -/
def stripKey : String := "strip_existing"

/-- The entries of the structure section: whether existing tags go, and the fields of the root.
Nothing there may be tagged. -/
def sectionEntries (strip : Bool) : List (Data × Data) → Reading (Bool × List (Data × Data))
  | [] => .ok (strip, [])
  | (k, d) :: rest => do
    let key ← asText k
    if key = stripKey then sectionEntries (← asBool d) rest
    else if d.hasTag then illFormed
    else
      let (strip, entries) ← sectionEntries strip rest
      return (strip, (.text key, d) :: entries)

/-- The structure section holds the fields of its root. -/
def TagSection.ofData (d : Data) : Reading TagSection := do
  let entries ← match d.untagged with
    | .table entries => .ok entries
    | _ => illFormed
  let (strip, entries) ← sectionEntries false entries
  let (tag, children) ← named .strict (tagFields (tagTree d.depth)) [] ({}, []) entries
  return ⟨strip, .node tag children⟩

def TagRegion.ofData (source : Source) : Data → Reading TagRegion :=
  record source
    [field "node" asText (fun r v => { r with node := v }),
      field "page" asInt (fun r v => { r with page := v }),
      field "bbox" (optional (asBox source)) (fun r v => { r with box := v })]
    {}

def ArtifactRegion.ofData (source : Source) : Data → Reading ArtifactRegion :=
  record source
    [field "page" asInt (fun r v => { r with page := v }),
      field "bbox" (optional (asBox source)) (fun r v => { r with box := v }),
      field "type" asText (fun r v => { r with kind := v })]
    {}

def AnnotationEdit.ofData (source : Source) : Data → Reading AnnotationEdit :=
  record source
    [field "op" asText (fun a v => { a with op := v }),
      field "page" asInt (fun a v => { a with page := v }),
      field "index" (optional asInt) (fun a v => { a with index := v }),
      field "value" (optional asText) (fun a v => { a with value := v }),
      field "node" (optional asText) (fun a v => { a with node := v }),
      field "rect" (optional (asBox source)) (fun a v => { a with rect := v }),
      field "field_name" (optional asText) (fun a v => { a with fieldName := v }),
      field "field_type" (optional asText) (fun a v => { a with fieldType := v }),
      field "tooltip" (optional asText) (fun a v => { a with tooltip := v })]
    {}

/-- A table by character code; a null is an empty one where nulls are. -/
def codeTableFrom {α : Type} (source : Source) (read : Data → Reading α) (d : Data) :
    Reading (CodeTable α) :=
  match d.untagged with
  | .null => if source = .lenient then .ok ∅ else illFormed
  | d => codeTable read d

def FontEdit.ofData (source : Source) : Data → Reading FontEdit :=
  record source
    [field "op" asText (fun f v => { f with op := v }),
      field "font" asText (fun f v => { f with font := v }),
      field "page" asInt (fun f v => { f with page := v }),
      field "cids" (asList source asInt) (fun f v => { f with cids := v }),
      field "glyph_names" (asList source asText) (fun f v => { f with glyphNames := v }),
      field "encoding" (optional asText) (fun f v => { f with encoding := v }),
      field "differences" (codeTableFrom source asText) (fun f v => { f with differences := v }),
      field "mappings" (codeTableFrom source asText) (fun f v => { f with mappings := v }),
      field "widths" (codeTableFrom source asNumber) (fun f v => { f with widths := v })]
    {}

def OcrWord.ofData (source : Source) : Data → Reading OcrWord :=
  record source
    [field "text" asText (fun w v => { w with text := v }),
      field "bbox" (optional (asBox source)) (fun w v => { w with box := v }),
      field "confidence" (optional asFloat) (fun w v => { w with confidence := v })]
    {}

def OcrPage.ofData (source : Source) : Data → Reading OcrPage :=
  record source
    [field "page" asInt (fun p v => { p with page := v }),
      field "words" (asList source (OcrWord.ofData source)) (fun p v => { p with words := v })]
    {}

def BookmarkEdit.ofData (source : Source) : Data → Reading BookmarkEdit :=
  record source
    [field "generate_from_headings" asBool (fun b v => { b with fromHeadings := v })]
    {}

/-! ## Instruction documents -/

namespace InstructionSet

/-- An instruction set from the entries of its document. -/
def ofEntries (source : Source) : List (Data × Data) → Reading InstructionSet :=
  named source
    [field "version" readVersion (fun s v => { s with version := v }),
      field "metadata" (optional (MetadataEdit.ofData source)) (fun s v => { s with metadata := v }),
      field "structure" (optional TagSection.ofData) (fun s v => { s with tags := v }),
      field "content_tagging" (asList source (TagRegion.ofData source))
        (fun s v => { s with regions := v }),
      field "artifacts" (asList source (ArtifactRegion.ofData source))
        (fun s v => { s with artifacts := v }),
      field "annotations" (asList source (AnnotationEdit.ofData source))
        (fun s v => { s with annotations := v }),
      field "bookmarks" (optional (BookmarkEdit.ofData source))
        (fun s v => { s with bookmarks := v }),
      field "fonts" (asList source (FontEdit.ofData source)) (fun s v => { s with fonts := v }),
      field "ocr" (asList source (OcrPage.ofData source)) (fun s v => { s with ocr := v })]
    [] {}

/-- An instruction set from JSON data. -/
def ofJsonData : Data → Reading InstructionSet
  | .table entries => ofEntries .strict entries
  | _ => .error .notAnObject

/-- An instruction set from YAML data. -/
def ofYamlData (d : Data) : Reading InstructionSet :=
  match d.untagged with
  | .table entries => ofEntries .lenient entries
  | _ => .error .notAMapping

def ofJson (text : String) : Reading InstructionSet :=
  match Json.read? (Text.dropMarks text) with
  | some d => ofJsonData d
  | none => illFormed

def ofYaml (text : String) : Reading InstructionSet :=
  match Yaml.read? (Text.dropMarks text) with
  | some d => ofYamlData d
  | none => illFormed

/-- An instruction set from a document; its format, if not given, shows in its text. -/
def ofText (format : Option TextFormat) (text : String) : Except Fault InstructionSet :=
  if Text.isEmptyOrBlank (Text.dropMarks text) then .error .emptyInstructions
  else
    match format.getD (TextFormat.ofContent text) with
    | .json => (ofJson text).mapError .malformed
    | .yaml => (ofYaml text).mapError .malformed

/-- An instruction set from a file, whose name may tell the format. -/
def ofFile (name : String) (content : Bytes) : Except Fault InstructionSet :=
  match Utf8.decode? content with
  | some text => ofText (TextFormat.ofFileName? name) text
  | none => .error .file

end InstructionSet

end AccessiblePdf
