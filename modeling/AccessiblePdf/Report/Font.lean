import AccessiblePdf.Digest.Sha256
import AccessiblePdf.Document.Pages
import AccessiblePdf.Font.Loaded
import AccessiblePdf.Font.Program
import AccessiblePdf.Report.Display
import Std.Data.TreeSet

/-!
What a report says about fonts: one entry for each font of the page resources, however many pages
and names it is registered under.
-/
namespace AccessiblePdf

/-! ## The facts -/

/-- The encoding of a font. -/
structure EncodingFacts where
  name : Option String := none
  base : Option String := none
  differences : CodeTable String := ∅

/-- The ToUnicode map of a font; one that cannot be read is empty and not valid. -/
structure ToUnicodeFacts where
  size : Nat := 0
  valid : Bool := false
  mapsNotdef : Bool := false

/-- The character collection of a CIDFont. -/
structure CidSystem where
  registry : Option String
  ordering : Option String
  supplement : Option Int

/-- The CMap of a composite font, or the encodings of a TrueType program. -/
structure CMapFacts where
  name : Option String := none
  embedded : Bool := false
  writingMode : Option Int := none
  subtables : List FontProgram.Subtable := []

/-- An embedded font program. -/
structure ProgramFacts where
  /-- The entry of the descriptor that has it. -/
  key : String
  subtype : Option String
  filters : List String
  parameters : List (Std.TreeMap String String)
  /-- The bytes as they are stored. -/
  stored : Bytes
  /-- The bytes with their filters undone. -/
  decoded : Bytes

/-- What a Type 3 font has of its own. -/
structure Type3Facts where
  glyphs : List String
  usedCodes : List Nat
  texts : List (Nat × String)
  matrix : List Float

structure FontFacts where
  label : String
  /-- The names that the font is registered under. -/
  resourceNames : List String
  subtype : String
  baseFont : String
  symbolic : Option Bool
  hasDescriptor : Bool
  encoding : Option EncodingFacts
  toUnicode : Option ToUnicodeFacts
  cidSystem : Option CidSystem
  cmap : Option CMapFacts
  cidToGid : Option String
  program : Option ProgramFacts
  type3 : Option Type3Facts

/-! ## Parts of a font -/

namespace Document

/-- The whole part of a numeric entry. -/
def entryWhole? (doc : Document) (d : Dict Object) (key : Bytes) : Option Int :=
  (doc.entryNumber? d key).map Number.truncated

def encodingFacts? (doc : Document) (font : Dict Object) : Option EncodingFacts :=
  match doc.value? font "Encoding" with
  | some (.name name) => some { name := some (Utf8.decodeLossy name) }
  | some (.dictionary d) => some {
      base := doc.entryName? d "BaseEncoding"
      differences := ((doc.entryArray? d "Differences").map (Encoding.differences doc)).getD ∅ }
  | some (.stream d _) => some { name := doc.entryName? d "CMapName" }
  | _ => none

def toUnicodeFacts? (doc : Document) (font : Dict Object) : Option ToUnicodeFacts :=
  match doc.value? font "ToUnicode" with
  | some (.stream entries content) =>
    match ToUnicode.read (Stream.data entries content) with
    | .ok m => some ⟨m.size, m.isValid, m.mapsNotdef⟩
    | .error _ => some {}
  | _ => none

def cidSystem? (doc : Document) (cidFont : Dict Object) : Option CidSystem :=
  (doc.entryDict? cidFont "CIDSystemInfo").map fun d =>
    ⟨doc.entryText? d "Registry", doc.entryText? d "Ordering", doc.entryWhole? d "Supplement"⟩

/-- How a CIDFont finds its glyphs. -/
def cidToGid? (doc : Document) (cidFont : Dict Object) : Option String :=
  match doc.value? cidFont "CIDToGIDMap" with
  | some (.name name) => some (Utf8.decodeLossy name)
  | some (.stream _ _) => some "stream"
  | _ => none

/-! ## Font programs -/

/-- The full name of a filter that may be given by its abbreviation. -/
def filterName (name : String) : String :=
  match name with
  | "Fl" => "FlateDecode"
  | "AHx" => "ASCIIHexDecode"
  | "A85" => "ASCII85Decode"
  | "LZW" => "LZWDecode"
  | "RL" => "RunLengthDecode"
  | "CCF" => "CCITTFaxDecode"
  | "DCT" => "DCTDecode"
  | name => name

/-- The filters of a stream under their full names. -/
def filterNames (doc : Document) (entries : Dict Object) : List String :=
  (match doc.value? entries "Filter" with
    | some (.array items) => items.filterMap fun item => (doc.resolve item).nameText?
    | some o => o.nameText?.toList
    | none => []).map filterName

/-- The entries of a dictionary as short texts. -/
def displayTable (d : Dict Object) : Std.TreeMap String String :=
  d.toList.foldl (fun t e => t.insert (Utf8.decodeLossy e.1) e.2.display) ∅

/-- The parameters of a stream's filters. -/
def filterParameters (doc : Document) (entries : Dict Object) : List (Std.TreeMap String String) :=
  match doc.value? entries "DecodeParms" with
  | some (.array items) => items.map fun item =>
    (((doc.resolve item).dictionary?).map displayTable).getD ∅
  | some (.dictionary d) => [displayTable d]
  | _ => []

/-- The program that a descriptor embeds. -/
def program? (doc : Document) (descriptor : Dict Object) : Option ProgramFacts :=
  ["FontFile", "FontFile2", "FontFile3"].findSome? fun (key : String) =>
    match doc.value? descriptor (utf8 key) with
    | some (.stream entries content) => some {
        key
        subtype := doc.entryName? entries "Subtype"
        filters := doc.filterNames entries
        parameters := doc.filterParameters entries
        stored := content
        decoded := Stream.data entries content }
    | _ => none

/-! ## Fonts -/

/-- The CMap that a font's encoding is, and the encodings of its program. -/
def cmapFacts? (doc : Document) (font : Dict Object) (composite : Bool)
    (subtables : List FontProgram.Subtable) : Option CMapFacts :=
  if composite || !subtables.isEmpty then
    match doc.value? font "Encoding" with
    | some (.name name) =>
      some { name := if composite then some (Utf8.decodeLossy name) else none, subtables }
    | some (.stream d _) => some {
        name := doc.entryName? d "CMapName", embedded := true
        writingMode := doc.entryWhole? d "WMode", subtables }
    | _ => some { subtables }
  else none

/-- What a Type 3 font has of its own; `used` are the codes that pages show. -/
def type3Facts (doc : Document) (font : Dict Object) (id : Option ObjectId) (used : List Nat) :
    Type3Facts :=
  let loaded := Font.load doc font id
  { glyphs := (((doc.entryDict? font "CharProcs").getD ∅).keys).map Utf8.decodeLossy
    usedCodes := used
    texts := used.filterMap fun code => (loaded.text? code).map (code, ·)
    matrix := ((doc.entryArray? font "FontMatrix").getD []).filterMap fun o =>
      (doc.resolve o).float? }

/-- The mark of a font with characters outside the standard Latin set. -/
def isSymbolic (flags : Int) : Bool := flags / 4 % 2 == 1

/-- The facts about a font under its label and names. -/
def fontFacts (doc : Document) (font : Dict Object) (id : Option ObjectId) (label : String)
    (resourceNames : List String) (used : List Nat) : FontFacts :=
  let subtype := (doc.entryName? font "Subtype").getD ""
  let descendant := Font.descendant? doc font
  let descriptor := doc.entryDict? (descendant.getD font) "FontDescriptor"
  let program := descriptor.bind doc.program?
  let subtables := (program.map fun p => FontProgram.subtables p.decoded).getD []
  { label, resourceNames, subtype, program
    baseFont := (doc.entryName? font "BaseFont").getD ""
    symbolic := (descriptor.bind (doc.entryWhole? · "Flags")).map isSymbolic
    hasDescriptor := descriptor.isSome
    encoding := doc.encodingFacts? font
    toUnicode := doc.toUnicodeFacts? font
    cidSystem := descendant.bind doc.cidSystem?
    cmap := doc.cmapFacts? font (subtype == "Type0") subtables
    cidToGid := descendant.bind doc.cidToGid?
    type3 := if subtype == "Type3" then some (doc.type3Facts font id used) else none }

end Document

/-! ## The fonts of a document -/

/-- Where a font is: an object of its own, or an entry of a page's resources. Objects come first, in
order of their ids, then pages in order of their numbers. -/
inductive FontPlace where
  | object (id : ObjectId)
  | resource (page : Nat) (name : String)
deriving DecidableEq, Ord

namespace FontPlace

def label : FontPlace → String
  | object id => id.label
  | resource page name => "page " ++ toString page ++ " /" ++ name

def id? : FontPlace → Option ObjectId
  | object id => some id
  | resource _ _ => none

end FontPlace

namespace Document

/-- Values in order, each once. -/
def sortedSet {α : Type} [Ord α] (l : List α) : List α := (Std.TreeSet.ofList l compare).toList

/-- The font resources of a page. -/
def fontResources (doc : Document) (page : ObjectId) : Dict Object :=
  ((doc.pageResources? page).bind (doc.entryDict? · "Font")).getD ∅

/-- The fonts of a page that are objects of their own, by name. -/
def fontIds (doc : Document) (page : ObjectId) : Std.TreeMap String ObjectId :=
  (doc.fontResources page).toList.foldl (fun t e =>
    match e.2.reference? with
    | some id => t.insert (Utf8.decodeLossy e.1) id
    | none => t) ∅

/-- The fonts of a numbered page with their places and names. -/
def placedFonts (doc : Document) (number : Nat) (page : ObjectId) :
    List (FontPlace × Dict Object × String) :=
  (doc.fontResources page).toList.filterMap fun (name, o) =>
    let name := Utf8.decodeLossy name
    let place := match o.reference? with
      | some id => FontPlace.object id
      | none => .resource number name
    (doc.resolve o).dictionary?.map (place, ·, name)

/-- The facts about all fonts; `used` lists the codes that pages show with fonts. -/
def fonts (doc : Document) (used : List (ObjectId × List Nat)) : List FontFacts :=
  let found := (doc.pages.zipIdx 1).flatMap fun (page, number) => doc.placedFonts number page
  (sortedSet (found.map (·.1))).filterMap fun place =>
    let here := found.filter (·.1 == place)
    let codes := used.filter fun e => some e.1 == place.id?
    here.head?.map fun e =>
      doc.fontFacts e.2.1 place.id? place.label (sortedSet (here.map (·.2.2)))
        (sortedSet (codes.flatMap (·.2)))

end Document

end AccessiblePdf
