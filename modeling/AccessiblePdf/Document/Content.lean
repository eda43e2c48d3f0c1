import AccessiblePdf.Document.Pages
import AccessiblePdf.Filter.Ascii85
import AccessiblePdf.Filter.Inflate
import AccessiblePdf.Filter.Lzw
import AccessiblePdf.Filter.Predictor

/-!
The data of streams with their filters undone, and the content of a page.
-/
namespace AccessiblePdf

namespace Stream

/-- The filters of a stream in the order in which they are undone, when they are stated directly. -/
def filters? (entries : Dict Object) : Option (List Bytes) :=
  match entries.get? "Filter" with
  | some (.name name) => some [name]
  | some (.array items) => items.mapM Object.name?
  | _ => none

/-- An integer among the parameters of a filter. -/
def parameter (parameters : Dict Object) (key : Bytes) (default : Int) : Int :=
  ((parameters.get? key).bind Object.integer?).getD default

/-- Takes back a PNG prediction, if the parameters state one. -/
def unpredict? (parameters : Option (Dict Object)) (data : Bytes) : Option Bytes :=
  match parameters with
  | none => some data
  | some p =>
    let predictor := parameter p "Predictor" 1
    if predictor < 10 ∨ 15 < predictor then some data
    else
      let columns := (max 1 (parameter p "Columns" 1)).toNat
      let colors := (min 4 (max 1 (parameter p "Colors" 1))).toNat
      let bits := (min 16 (max 8 (parameter p "BitsPerComponent" 8))).toNat
      Predictor.decode? (colors * bits / 8) columns data

/-- Undoes one filter, if it is one of the three for text and general data. -/
def undo? (parameters : Option (Dict Object)) (data : Bytes) (filter : Bytes) : Option Bytes :=
  if filter = utf8 "FlateDecode" then unpredict? parameters (Zlib.inflate data)
  else if filter = utf8 "LZWDecode" then
    let early := match parameters with
      | some p => parameter p "EarlyChange" 1 != 0
      | none => true
    unpredict? parameters (Lzw.decode early data)
  else if filter = utf8 "ASCII85Decode" then Ascii85.decode? data
  else none

/-- The data with all filters undone; none without filters, for images and for other filters. -/
def decoded? (entries : Dict Object) (content : Bytes) : Option Bytes :=
  match filters? entries with
  | none => none
  | some [] => none
  | some filters =>
    if ((entries.get? "Subtype").bind Object.name?) = some (utf8 "Image") then none
    else
      let parameters := (entries.get? "DecodeParms").bind Object.dictionary?
      filters.foldlM (undo? parameters) content

/-- The data with all filters undone, or as it is where that cannot be done. -/
def data (entries : Dict Object) (content : Bytes) : Bytes :=
  (decoded? entries content).getD content

end Stream

namespace Document

/-- The streams that a page's content consists of, in order; other entries are faults. -/
def joinStreams (doc : Document) : List Object → Except Fault Bytes
  | [] => .ok []
  | o :: rest =>
    match doc.resolve o with
    | .stream entries content => do
      return Stream.data entries content ++ 0x0A :: (← joinStreams doc rest)
    | .null => joinStreams doc rest
    | _ => .error .unreadable

/-- The content of a page: its streams, each followed by a line feed. -/
def pageContent (doc : Document) (page : ObjectId) : Except Fault Bytes := do
  let d ← doc.dict page
  match d.get? "Contents" with
  | none => return []
  | some contents =>
    match doc.resolve contents with
    | .array items => doc.joinStreams items
    | other => doc.joinStreams [other]

end Document

end AccessiblePdf
