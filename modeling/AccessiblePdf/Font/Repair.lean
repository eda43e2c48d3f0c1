import AccessiblePdf.Draft
import AccessiblePdf.Font.Loaded
import AccessiblePdf.Font.Subset
import AccessiblePdf.Instruction.Set

/-!
Repairs of fonts: what a subset contains, encodings, ToUnicode maps, widths and descriptors. What is
declared is added to what the font has, and wins over it.
-/
namespace AccessiblePdf.Edit

/-! ## The parts of a font -/

/-- The font that a page has under a name, as an object of its own. -/
def fontId (page : ObjectId) (name : String) : Edit ObjectId := do
  let key := CharSet.bare name
  let doc ← doc
  match doc.entryDict? (doc.pageResources page) "Font" with
  | none => throw (.fontNotFound key)
  | some fonts =>
    if fonts.contains key then
      indirectDict (← indirectDict (← pageResources page) "Font") key
    else throw (.fontNotFound key)

/-- Whether a font is a composite one. -/
def isComposite (font : ObjectId) : Edit Bool := do
  return (← doc).entryName? (← dict font) "Subtype" == some "Type0"

/-- The dictionary that has the widths and the descriptor of a font: that of the descendant of a
composite font, and the font itself otherwise. -/
def descriptorOwner (font : ObjectId) : Edit ObjectId := do
  if !(← isComposite font) then return font
  let doc ← doc
  match ((doc.entryArray? (← dict font) "DescendantFonts").getD []).head? with
  | some (.reference id) =>
    if (doc.dict? id).isSome then return id
    else throw (.noDescendantFont font.number font.generation)
  | some (.dictionary d) =>
    let id ← add (.dictionary d)
    modifyArray font "DescendantFonts" (·.set 0 (.reference id))
    return id
  | _ => throw (.noDescendantFont font.number font.generation)

/-- The mark of a font with the letters of the standard Latin set. -/
def nonsymbolic : Int := 32

/-- A descriptor with ordinary measures. -/
def plainDescriptor (name : String) : Object :=
  .ofEntries [(utf8 "Type", .name "FontDescriptor"), (utf8 "FontName", .name name),
    (utf8 "Flags", .integer nonsymbolic),
    (utf8 "FontBBox", .array ([0, -200, 1000, 800].map .integer)),
    (utf8 "ItalicAngle", .integer 0), (utf8 "Ascent", .integer 800),
    (utf8 "Descent", .integer (-200)), (utf8 "CapHeight", .integer 700),
    (utf8 "StemV", .integer 80)]

/-- Whether a font has a descriptor. -/
def hasDescriptor (owner : ObjectId) : Edit Bool := do
  return ((← doc).entryDict? (← dict owner) "FontDescriptor").isSome

/-- The descriptor of a font, made if there is none. -/
def descriptor (owner : ObjectId) : Edit ObjectId := do
  if ← hasDescriptor owner then indirectDict owner "FontDescriptor"
  else
    let name := ((← doc).entryName? (← dict owner) "BaseFont").getD "Unknown"
    let id ← add (plainDescriptor name)
    setEntry owner "FontDescriptor" (.reference id)
    return id

/-! ## Repairs -/

/-- States the character ids that a font contains. -/
def writeCidSet (font : ObjectId) (cids : List Int) : Edit Unit := do
  let target ← descriptor (← descriptorOwner font)
  let cids := (cids.filter fun c => 0 ≤ c ∧ c < 0x100000000).map Int.toNat
  let id ← add (← stream (CidSet.encode cids))
  setEntry target "CIDSet" (.reference id)

/-- States the glyphs that a font contains. -/
def writeCharSet (font : ObjectId) (glyphs : List String) : Edit Unit := do
  let target ← descriptor (← descriptorOwner font)
  setEntry target "CharSet" (.string (CharSet.encode glyphs) .literal)

/-- Names the encoding, or the base of the one that is there. -/
def setEncoding (font : ObjectId) (encoding : String) : Edit Unit := do
  if ((← doc).entryDict? (← dict font) "Encoding").isSome then
    setEntry (← indirectDict font "Encoding") "BaseEncoding" (.name encoding)
  else setEntry font "Encoding" (.name encoding)

/-- Adds differences from the base encoding; an encoding given by name becomes the base. -/
def setDifferences (font : ObjectId) (declared : CodeTable String) : Edit Unit := do
  let base := (← doc).entryName? (← dict font) "Encoding"
  let encoding ← indirectDict font "Encoding"
  let doc ← doc
  let existing :=
    ((doc.entryArray? (← dict encoding) "Differences").map (Encoding.differences doc)).getD ∅
  let merged := declared.foldl (fun t code glyph => t.insert code (CharSet.bare glyph)) existing
  modifyDict encoding fun d =>
    let d := d.insert "Type" (.name "Encoding")
    let d := match base with
      | some base => d.insert "BaseEncoding" (.name base)
      | none => d
    d.insert "Differences" (.array (Encoding.differencesArray merged))

/-- The ToUnicode map of a font, when its filters can be undone and it can be read. -/
def toUnicode? (doc : Document) (font : Dict Object) : Option ToUnicode :=
  match doc.value? font "ToUnicode" with
  | some (.stream entries content) => do
    let data ← if entries.contains "Filter" then Stream.decoded? entries content else some content
    (ToUnicode.read data).toOption
  | _ => none

/-- Adds entries to the ToUnicode map. -/
def writeToUnicode (font : ObjectId) (declared : CodeTable String) : Edit Unit := do
  let fresh := ToUnicode.empty (if ← isComposite font then 2 else 1)
  let existing := (toUnicode? (← doc) (← dict font)).getD fresh
  let id ← add (← stream ((fresh.merge existing).insertAll declared.toList).write)
  setEntry font "ToUnicode" (.reference id)

/-- A table with the entries of another one, which win. -/
def mergeWidths (table declared : CodeTable Number) : CodeTable Number :=
  declared.foldl (fun t code w => t.insert code w) table

/-- The widths of the codes from the first to the last one of a table. -/
def widthArray (widths : CodeTable Number) (missing : Number) (first last : Nat) : List Object :=
  (List.range (last + 1 - first)).map fun i =>
    Object.ofNumber (widths[first + i]?.getD missing)

/-- Sets widths of a simple font; codes between without a width get the one for missing codes. -/
def setSimpleWidths (font : ObjectId) (declared : CodeTable Number) : Edit Unit := do
  let doc ← doc
  let d ← dict font
  let missing := ((doc.entryDict? d "FontDescriptor").bind
    (doc.entryNumber? · "MissingWidth")).getD (.whole 0)
  let widths := mergeWidths (Font.simpleWidths doc d) declared
  match widths.minKey?, widths.maxKey? with
  | some first, some last =>
    modifyDict font fun d =>
      ((d.insert "FirstChar" (.integer first)).insert "LastChar" (.integer last)).insert "Widths"
        (.array (widthArray widths missing first last))
  | _, _ => pure ()

/-- Sets widths of a composite font. -/
def setCompositeWidths (font : ObjectId) (declared : CodeTable Number) : Edit Unit := do
  let owner ← descriptorOwner font
  let doc ← doc
  let existing := ((doc.entryArray? (← dict owner) "W").map (Font.cidWidths doc)).getD ∅
  setEntry owner "W" (.array (Font.cidWidthsArray (mergeWidths existing declared)))

/-! ## Carrying out -/

/-- The highest code of simple fonts. -/
def simpleLimit : Nat := 0xFF

/-- The highest code of composite fonts. -/
def compositeLimit : Nat := 0xFFFF

/-- Fails at the first code above a limit. -/
def checkCodes (f : FontEdit) (codes : List Nat) (limit : Nat) : Edit Unit :=
  match codes.find? (limit < ·) with
  | some code => throw (.codeOutsideFont f.op f.font code limit)
  | none => pure ()

/-- Carries out one repair on a font. -/
def repairFont (f : FontEdit) (font : ObjectId) (composite : Bool) : FontOp → Edit Unit
  | .writeCidSet => writeCidSet font f.cids
  | .writeCharSet => writeCharSet font f.glyphNames
  | .setEncoding => setEncoding font (f.encoding.getD "")
  | .setDifferences => do
    checkCodes f f.differences.keys simpleLimit
    setDifferences font f.differences
  | .writeToUnicode => do
    checkCodes f f.mappings.keys (if composite then compositeLimit else simpleLimit)
    writeToUnicode font f.mappings
  | .setWidths => do
    checkCodes f f.widths.keys (if composite then compositeLimit else simpleLimit)
    if composite then setCompositeWidths font f.widths else setSimpleWidths font f.widths
  | .addDescriptor => do
    let owner ← descriptorOwner font
    if !(← hasDescriptor owner) then
      let _ ← descriptor owner

def applyFont (f : FontEdit) : Edit Unit := do
  match FontOp.ofName? f.op with
  | none => pure ()
  | some op =>
    let page ← Edit.page f.page
    let font ← fontId page f.font
    repairFont f font (← isComposite font) op

def applyFonts (fs : List FontEdit) : Edit Unit := do
  for f in fs do applyFont f

end AccessiblePdf.Edit
