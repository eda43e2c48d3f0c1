import AccessiblePdf.Content.Marking
import AccessiblePdf.Font.Repair
import AccessiblePdf.Ocr.Word
import AccessiblePdf.Remedy.Options
import AccessiblePdf.Text.Composed

/-!
Text layers: invisible words over the image of a page, so that its text can be searched and read
out. Words that the page shows already are left out.
-/
namespace AccessiblePdf.Edit

open Ocr

/-! ## The fonts -/

/-- The fonts of text layers that were made so far. -/
structure LayerFonts where
  latin : Option ObjectId := none
  universal : Option ObjectId := none

/-- The name of the universal font. -/
def layerFontName : String := "OcrTextLayer"

/-- The font for WinAnsiEncoding. -/
def latinFont : Object :=
  .ofEntries [(utf8 "Type", .name "Font"), (utf8 "Subtype", .name "Type1"),
    (utf8 "BaseFont", .name "Helvetica"), (utf8 "Encoding", .name "WinAnsiEncoding"),
    (utf8 "FirstChar", .integer 32), (utf8 "LastChar", .integer 255),
    (utf8 "Widths", .array (List.replicate 224 (.ofFloat glyphWidth)))]

/-- Adds the font for all characters of the basic plane, with the objects that it refers to. -/
def addUniversalFont : Edit ObjectId := do
  let toUnicode ← add (← stream ToUnicode.identity)
  let descriptor ← add (plainDescriptor layerFontName)
  let descendant ← add <| .ofEntries [(utf8 "Type", .name "Font"),
    (utf8 "Subtype", .name "CIDFontType2"), (utf8 "BaseFont", .name layerFontName),
    (utf8 "CIDSystemInfo", .ofEntries [(utf8 "Registry", .string "Adobe" .literal),
      (utf8 "Ordering", .string "Identity" .literal), (utf8 "Supplement", .integer 0)]),
    (utf8 "FontDescriptor", .reference descriptor), (utf8 "DW", .ofFloat glyphWidth),
    (utf8 "CIDToGIDMap", .name "Identity")]
  add <| .ofEntries [(utf8 "Type", .name "Font"), (utf8 "Subtype", .name "Type0"),
    (utf8 "BaseFont", .name layerFontName), (utf8 "Encoding", .name "Identity-H"),
    (utf8 "DescendantFonts", .array [.reference descendant]),
    (utf8 "ToUnicode", .reference toUnicode)]

/-- A font of the text layer, made on first use. -/
def layerFont (fonts : LayerFonts) : LayerFont → Edit (ObjectId × LayerFonts)
  | .latin => do
    match fonts.latin with
    | some id => return (id, fonts)
    | none =>
      let id ← add latinFont
      return (id, { fonts with latin := some id })
  | .universal => do
    match fonts.universal with
    | some id => return (id, fonts)
    | none =>
      let id ← addUniversalFont
      return (id, { fonts with universal := some id })

/-! ## Resource names -/

/-- Whether an entry of the font resources is a font, or one with the same names. -/
def isSameFont (doc : Document) (font : ObjectId) (entry : Object) : Bool :=
  entry.reference? == some font ||
    match doc.resolve entry, doc.dict? font with
    | .dictionary theirs, some ours =>
      [utf8 "Subtype", utf8 "BaseFont", utf8 "Encoding"].all fun key =>
        (doc.entryName? ours key).isSome && doc.entryName? theirs key == doc.entryName? ours key
    | _, _ => false

/-- A name, or the same name with a number. -/
def numbered (name : String) (i : Nat) : String := if i = 0 then name else name ++ toString i

/-- The first of a name and its numbered forms that is free, or stands for the font already. -/
def resourceName (doc : Document) (fonts : Dict Object) (font : ObjectId) (name : String) :
    String :=
  (((List.range (fonts.size + 1)).map (numbered name)).find? fun candidate =>
    ((fonts.get? (utf8 candidate)).map (isSameFont doc font)).getD true).getD name

/-- Makes a font a resource of a page, and gives its resource name. -/
def addFontResource (page font : ObjectId) (name : String) : Edit String := do
  let resources ← indirectDict (← pageResources page) "Font"
  let fonts ← dict resources
  let name := resourceName (← doc) fonts font name
  if !fonts.contains name then setEntry resources name (.reference font)
  return name

/-! ## Words -/

/-- The texts that a page shows, in composed form, with their boxes. -/
def shownTexts (scan : PageScan) : List (Option (Box Float) × String) :=
  (scan.operators.filter (·.figure.kind == .text)).filterMap fun d =>
    match d.figure.text.map Text.composed with
    | some text => if Text.isEmptyOrBlank text then none else some (d.figure.box, text)
    | none => none

/-- Whether a text stands in another one. -/
def occursIn (needle text : String) : Bool := (Bytes.find? (utf8 needle) (utf8 text)).isSome

/-- Whether the page shows a text in a box already. -/
def isShown (m : Matching Float) (shown : List (Option (Box Float) × String)) (box : Box Float)
    (text : String) : Bool :=
  (m.resolve (shown.map (·.1)) box).any fun i =>
    (shown[i]?).any fun s => occursIn text s.2

/-- A recognised word that is to be shown: its box on the page and its codes. -/
def wordToShow? (o : Options) (pageBox : Box Float) (shown : List (Option (Box Float) × String))
    (w : OcrWord) : Option (Box Float × ShownWord) := do
  if w.confidence.getD 1.0 < o.minConfidence then none
  else
    let declared ← w.box
    let text := Text.trim (Text.composed w.text)
    let box := o.matching.toUserSpace declared pageBox
    if text.isEmpty || isShown o.matching shown box text then none
    else return (box, ← ShownWord.ofText? text)

/-- The operations that show words, with the fonts made for them. -/
def wordsOperations (page : ObjectId) (fonts : LayerFonts) :
    List (Box Float × ShownWord) → Edit (List Operation × LayerFonts)
  | [] => pure ([], fonts)
  | (box, word) :: rest => do
    let (font, fonts) ← layerFont fonts word.font
    let resource ← addFontResource page font word.font.resource
    let (ops, fonts) ← wordsOperations page fonts rest
    return (wordOperations resource box word ++ ops, fonts)

/-- Adds the text layer of a page. -/
def addPageText (o : Options) (fonts : LayerFonts) (p : OcrPage) : Edit LayerFonts := do
  let page ← Edit.page p.page
  let doc ← doc
  let pageBox := doc.pageBox page
  let scan := doc.scan page (← lift (doc.pageOperations page))
  let words := p.words.filterMap (wordToShow? o pageBox (shownTexts scan))
  let (ops, fonts) ← wordsOperations page fonts words
  if !ops.isEmpty then appendContent page (Operation.writeAll ops)
  return fonts

/-- Adds the text layers of pages. -/
def applyOcr (o : Options) (pages : List OcrPage) : Edit Unit := do
  let _ ← pages.foldlM (addPageText o) {}

end AccessiblePdf.Edit
