import AccessiblePdf.Document.Content
import AccessiblePdf.Font.ToUnicode
import AccessiblePdf.Number

/-!
Fonts as text-showing operators see them: how strings split into codes, how far each code advances,
and what text it stands for.
-/
namespace AccessiblePdf

structure Font where
  id : Option ObjectId
  subtype : String
  baseFont : String
  /-- Composite fonts have codes of two bytes. -/
  composite : Bool
  widths : CodeTable Number
  /-- The width of codes that the table leaves out. -/
  defaultWidth : Number
  /-- The unit of the widths of a Type 3 font. -/
  scale : Option Float
  toUnicode : Option ToUnicode
  baseEncoding : Option String
  differences : CodeTable String

namespace Font

/-! ## Widths -/

/-- The width of a simple font's codes that have none. -/
def simpleWidth : Number := .whole 500

/-- The width of a CIDFont's ids that have none. -/
def cidWidth : Number := .whole 1000

/-- Widths counted on from a code. -/
def widthsFrom (doc : Document) (first : Nat) (ws : List Object) : List (Nat × Number) :=
  (ws.zipIdx.filterMap fun (w, i) =>
    (doc.resolve w).number?.map fun w => ((first + i) % 0x100000000, w))

/-- The widths of a simple font. -/
def simpleWidths (doc : Document) (font : Dict Object) : CodeTable Number :=
  let first := Encoding.codeOf ((doc.entryNumber? font "FirstChar").getD (.whole 0))
  (widthsFrom doc first ((doc.entryArray? font "Widths").getD [])).foldl
    (fun t e => t.insert e.1 e.2) ∅

/-- Ids of a range after its first one; longer ranges are cut off. -/
def rangeLimit : Nat := 0xFFFF

/-- One width for all ids from `first` to `last`. -/
def rangeWidths (first last : Nat) (w : Number) : List (Nat × Number) :=
  let last := min last (min (first + rangeLimit) (0x100000000 - 1))
  (List.range (last + 1 - first)).map fun i => (first + i, w)

/-- The ids and widths of an array in which either an id is followed by an array of widths, or two
ids by one width; the items are resolved already. -/
def cidWidthPairs (doc : Document) : List Object → List (Nat × Number)
  | [] => []
  | [_] => []
  | a :: b :: rest =>
    match a.number? with
    | none => cidWidthPairs doc (b :: rest)
    | some first =>
      match b, rest with
      | .array ws, rest => widthsFrom doc (Encoding.codeOf first) ws ++ cidWidthPairs doc rest
      | _, [] => []
      | b, c :: rest =>
        match b.number?, c.number? with
        | some last, some w =>
          rangeWidths (Encoding.codeOf first) (Encoding.codeOf last) w ++ cidWidthPairs doc rest
        | _, _ => cidWidthPairs doc rest

/-- The widths of a CIDFont's array; of two widths for one id the later counts. -/
def cidWidths (doc : Document) (array : List Object) : CodeTable Number :=
  (cidWidthPairs doc (array.map doc.resolve)).foldl (fun t e => t.insert e.1 e.2) ∅

/-- A table as a CIDFont's array, with an id in front of each run of widths. -/
def cidWidthsArray (t : CodeTable Number) : List Object :=
  (Runs.ofList t.toList).flatMap fun (first, ws) =>
    [.integer first, .array (ws.map Object.ofNumber)]

/-! ## Loading -/

/-- The font that a composite font takes its glyphs from. -/
def descendant? (doc : Document) (font : Dict Object) : Option (Dict Object) := do
  (doc.resolve (← (← doc.entryArray? font "DescendantFonts").head?)).dictionary?

/-- The ToUnicode map, when the entry is a stream that can be read. -/
def toUnicode? (doc : Document) (font : Dict Object) : Option ToUnicode :=
  match doc.value? font "ToUnicode" with
  | some (.stream entries content) => (ToUnicode.read (Stream.data entries content)).toOption
  | _ => none

/-- The base encoding and the differences from it. -/
def encoding (doc : Document) (font : Dict Object) : Option String × CodeTable String :=
  match doc.value? font "Encoding" with
  | some (.name name) => (some (Utf8.decodeLossy name), ∅)
  | some (.dictionary d) =>
    (doc.entryName? d "BaseEncoding",
      ((doc.entryArray? d "Differences").map (Encoding.differences doc)).getD ∅)
  | _ => (none, ∅)

def isPositive : Number → Bool
  | .whole n => 0 < n
  | .real x => x > 0

/-- The width that a simple font's descriptor states for codes without one. -/
def missingWidth (doc : Document) (font : Dict Object) : Number :=
  (((doc.entryDict? font "FontDescriptor").bind (doc.entryNumber? · "MissingWidth")).filter
    isPositive).getD simpleWidth

/-- The widths of a composite font, and the width of the ids left out. -/
def compositeWidths (doc : Document) (font : Dict Object) : CodeTable Number × Number :=
  match descendant? doc font with
  | some d =>
    (((doc.entryArray? d "W").map (cidWidths doc)).getD ∅, (doc.entryNumber? d "DW").getD cidWidth)
  | none => (∅, cidWidth)

def load (doc : Document) (font : Dict Object) (id : Option ObjectId) : Font :=
  let subtype := (doc.entryName? font "Subtype").getD ""
  let composite := subtype == "Type0"
  let (baseEncoding, differences) := encoding doc font
  let (widths, defaultWidth) :=
    if composite then compositeWidths doc font else (simpleWidths doc font, missingWidth doc font)
  { id, subtype, composite, widths, defaultWidth, baseEncoding, differences
    baseFont := (doc.entryName? font "BaseFont").getD ""
    scale := if subtype == "Type3" then
        (((doc.entryArray? font "FontMatrix").bind List.head?).map doc.resolve).bind Object.float?
      else none
    toUnicode := toUnicode? doc font }

/-- What stands in for a font that cannot be found. -/
def absent : Font :=
  { id := none, subtype := "", baseFont := "", composite := false, widths := ∅
    defaultWidth := simpleWidth, scale := none, toUnicode := none, baseEncoding := none
    differences := ∅ }

/-! ## Showing text -/

/-- The codes of two bytes each; a last byte without partner is a code of its own. -/
def pairCodes : Bytes → List Nat
  | a :: b :: rest => (a.toNat * 256 + b.toNat) :: pairCodes rest
  | [a] => [a.toNat]
  | [] => []

/-- The codes of a string. -/
def codes (f : Font) (bytes : Bytes) : List Nat :=
  if f.composite then pairCodes bytes else bytes.map (·.toNat)

/-- The width of a code in the font's unit. -/
def width (f : Font) (code : Nat) : Number := f.widths[code]?.getD f.defaultWidth

/-- How far a code advances at a font size of 1. -/
def advance (f : Font) (code : Nat) : Float :=
  match f.scale with
  | some scale => (f.width code).toFloat * scale
  | none => (f.width code).toFloat / 1000.0

/-- The text of a code, from the ToUnicode map if there is one, else from the glyph names and the
encoding of a simple font. -/
def text? (f : Font) (code : Nat) : Option String :=
  match f.toUnicode with
  | some m => m.get? code
  | none =>
    if f.composite then none
    else match f.differences[code]? with
      | some glyph => Glyph.text? glyph
      | none =>
        if f.subtype == "Type3" then none
        else (Encoding.decode? f.baseEncoding code).map String.singleton

/-- The text of codes, and whether each of them has one. -/
def decode (f : Font) (codes : List Nat) : String × Bool :=
  let texts := codes.map f.text?
  (String.join (texts.map (·.getD "")), texts.all Option.isSome)

end Font

end AccessiblePdf
