import AccessiblePdf.Content.Command
import AccessiblePdf.Content.Graphics
import AccessiblePdf.Document.Content
import AccessiblePdf.Document.Pages
import AccessiblePdf.Font.Loaded
import Std.Data.TreeSet

/-!
What a content stream draws: every text, image and path with its place, and the marked content
around it. The painter (`Pen`) does not see marked content, and the marks do not see the painter.
-/
namespace AccessiblePdf

/-! ## What is drawn -/

inductive FigureKind where
  | text
  | image
  | path
deriving DecidableEq, Repr

/-- Something drawn, apart from the marked content around it. -/
structure Figure where
  kind : FigureKind
  box : Option (Box Float)
  /-- The number of the text object around it. -/
  textObject : Option Nat := none
  /-- The resource name of the font of a text. -/
  font : Option String := none
  codes : List Nat := []
  text : Option String := none
  /-- Whether a text has codes and each of them stands for characters. -/
  mapped : Bool := false
  renderMode : Int := 0
  fill : Option Rgb := none
  /-- Whether a path is filled. -/
  filled : Bool := false

namespace Figure

/-- Text that is neither filled nor stroked. -/
def isInvisible (f : Figure) : Bool := f.kind == .text && f.renderMode == 3

end Figure

/-- The marked content around a place of a content stream. -/
structure Marks where
  /-- The number of the innermost open sequence. -/
  scope : Option Nat
  mcid : Option Int
  artifact : Bool
deriving DecidableEq, Repr

namespace Marks

def marked (m : Marks) : Bool := m.scope.isSome

/-- Whether the content belongs to a structure element or is an artifact. -/
def isTagged (m : Marks) : Bool := m.mcid.isSome || m.artifact

end Marks

/-- An operation that draws. -/
structure Drawn where
  index : Nat
  /-- The first operation of the path that is painted, else `index`. -/
  start : Nat
  operator : String
  figure : Figure
  marks : Marks

/-! ## Resources -/

/-- What the names in a content stream stand for. -/
structure ContentResources where
  doc : Document
  entries : Dict Object
  font : Bytes → Font

namespace ContentResources

/-- The font with a resource name. -/
def loadFont (doc : Document) (entries : Dict Object) (name : Bytes) : Font :=
  match (doc.entryDict? entries "Font").bind (·.get? name) with
  | some entry =>
    match doc.resolve entry with
    | .dictionary d => Font.load doc d entry.reference?
    | _ => Font.absent
  | none => Font.absent

/-- The names of the fonts that operations choose. -/
def fontNames (ops : List Operation) : List Bytes :=
  (ops.filterMap fun op =>
    match op.command with
    | .font name _ => name
    | _ => none).eraseDups

/-- The resources for some operations; each of their fonts is loaded once. -/
def ofDict (doc : Document) (entries : Dict Object) (ops : List Operation) : ContentResources :=
  let table := (fontNames ops).map fun name => (name, loadFont doc entries name)
  { doc, entries, font := fun name => (table.lookup name).getD (loadFont doc entries name) }

/-- A colour space by the family that its array names. -/
def spaceOfArray (doc : Document) (items : List Object) : ColorSpace :=
  match (items.head?.map doc.resolve).bind Object.nameText? with
  | some family =>
    if family = "ICCBased" then
      match items[1]?.map doc.resolve with
      | some (.stream d _) =>
        match (doc.entryNumber? d "N").map Number.truncated with
        | some 1 => .gray
        | some 3 => .rgb
        | some 4 => .cmyk
        | _ => .other
      | _ => .other
    else .ofName family
  | none => .other

/-- The family of the colour space with a name: a device space, or one of the resources. -/
def colorSpace (r : ContentResources) (name : String) : ColorSpace :=
  let direct := ColorSpace.ofName name
  if direct ≠ .other then direct
  else
    match (r.doc.entryDict? r.entries "ColorSpace").bind (r.doc.value? · (utf8 name)) with
    | some (.name n) => .ofName (Utf8.decodeLossy n)
    | some (.array items) => spaceOfArray r.doc items
    | _ => .other

/-- The MCID of a property list, given in place or by its resource name. -/
def mcid? (doc : Document) (entries : Dict Object) (properties : Object) : Option Int :=
  let list := match properties with
    | .dictionary d => some d
    | .name key => (doc.entryDict? entries "Properties").bind (doc.entryDict? · key)
    | _ => none
  (list.bind (doc.value? · "MCID")).bind Object.integer?

end ContentResources

/-! ## The painter -/

/-- How deep `q` saves states; deeper ones are not saved. -/
def maxSavedStates : Nat := 256

/-- The state of the painter. -/
structure Pen where
  graphics : GraphicsState := {}
  /-- The saved states, latest first. -/
  saved : List GraphicsState := []
  text : TextPosition := {}
  textObject : Option Nat := none
  textObjects : Nat := 0
  /-- The points of the path, latest first, on the page. -/
  points : List (Float × Float) := []
  /-- Where the path stands, before it is transformed. -/
  current : Float × Float := (0, 0)

namespace Pen

/-- The unit square, which images fill. -/
def unitBox : Box Float := ⟨0, 0, 1, 1⟩

/-- The colour that a space starts with. -/
def initialColor : ColorSpace → Option Rgb
  | .gray => ColorSpace.color? .gray [0]
  | .rgb => ColorSpace.color? .rgb [0, 0, 0]
  | .cmyk => ColorSpace.color? .cmyk [0, 0, 0, 1]
  | .other => none

/-- How far codes advance, added to a width. -/
def widthOnto (font : Font) (g : GraphicsState) (width : Float) (codes : List Nat) : Float :=
  codes.foldl (fun width code =>
    let advance := font.advance code * g.fontSize + g.charSpacing
    let advance := if !font.composite && code == 32 then advance + g.wordSpacing else advance
    width + advance * g.horizontalScale) width

/-- The codes and the width of text items, added to those before. -/
def measure (font : Font) (g : GraphicsState) : List Nat × Float → TextItem → List Nat × Float
  | (codes, width), .string bytes =>
    let more := font.codes bytes
    (codes ++ more, widthOnto font g width more)
  | (codes, width), .adjust x => (codes, width - x / 1000.0 * g.fontSize * g.horizontalScale)

/-- What every figure takes from the state. -/
def finish (p : Pen) (f : Figure) : Figure :=
  { f with
    textObject := p.textObject, renderMode := p.graphics.renderMode, fill := p.graphics.fill }

/-- Shows text items, and moves past them. -/
def showItems (r : ContentResources) (p : Pen) (items : List TextItem) : Pen × Option Figure :=
  let g := p.graphics
  let name := g.font.getD []
  let font := r.font name
  let (codes, width) := items.foldl (measure font g) ([], 0)
  let (text, mapped) := font.decode codes
  let figure : Figure :=
    { kind := .text
      box := if 0 < g.fontSize then some (p.text.runBox g width) else none
      font := some (Utf8.decodeLossy name), codes := codes, text := some text
      mapped := mapped && !codes.isEmpty }
  ({ p with text := p.text.advance width }, some (p.finish figure))

/-- The next line of text. -/
def nextLine (p : Pen) : Pen := { p with text := p.text.move 0 (-p.graphics.leading) }

/-- The box and kind of an external object: a form, or an image in the unit square. -/
def drawObject (r : ContentResources) (p : Pen) (name : String) : Figure :=
  let doc := r.doc
  match (doc.entryDict? r.entries "XObject").bind (doc.value? · (utf8 name)) with
  | some (.stream d _) =>
    match doc.entryName? d "Subtype" with
    | some "Form" =>
      let matrix := ((doc.entryArray? d "Matrix").bind matrixOf?).getD .identity
      { kind := .path
        box := ((doc.value? d "BBox").bind doc.box?).map
          (matrix.multiply p.graphics.ctm).transformBox }
    | some "Image" => { kind := .image, box := some (p.graphics.ctm.transformBox unitBox) }
    | _ => { kind := .image, box := none }
  | _ => { kind := .image, box := none }

/-- Consecutive pairs; a number left over is dropped. -/
def pairs : List Float → List (Float × Float)
  | x :: y :: rest => (x, y) :: pairs rest
  | _ => []

/-- The last two of some numbers. -/
def lastPair? (l : List Float) : Option (Float × Float) :=
  match l.reverse with
  | y :: x :: _ => some (x, y)
  | _ => none

/-- Adds points to the path, each as the page has it. -/
def addPoints (p : Pen) (points : List (Float × Float)) : Pen :=
  { p with
    points := (points.map fun q => p.graphics.ctm.transformPoint q.1 q.2).reverse ++ p.points }

/-- What a command does to the painter, and what it draws. -/
def step (r : ContentResources) (p : Pen) : Command → Pen × Option Figure
  | .save =>
    (if p.saved.length < maxSavedStates then { p with saved := p.graphics :: p.saved } else p, none)
  | .restore =>
    match p.saved with
    | g :: rest => ({ p with graphics := g, saved := rest }, none)
    | [] => (p, none)
  | .transform (some m) =>
    ({ p with graphics := { p.graphics with ctm := m.multiply p.graphics.ctm } }, none)
  | .transform none => (p, none)
  | .fillColor space components =>
    let space := space.getD p.graphics.fillSpace
    let fill := space.color? components
    ({ p with graphics := { p.graphics with fillSpace := space, fill := fill } }, none)
  | .fillSpace name =>
    let space := (name.map r.colorSpace).getD .other
    let fill := initialColor space
    ({ p with graphics := { p.graphics with fillSpace := space, fill := fill } }, none)
  | .beginText =>
    ({ p with textObject := some p.textObjects, textObjects := p.textObjects + 1, text := {} }, none)
  | .endText => ({ p with textObject := none }, none)
  | .font name size =>
    ({ p with graphics := { p.graphics with
        font := name <|> p.graphics.font, fontSize := size.getD p.graphics.fontSize } }, none)
  | .charSpacing x => ({ p with graphics := { p.graphics with charSpacing := x } }, none)
  | .wordSpacing x => ({ p with graphics := { p.graphics with wordSpacing := x } }, none)
  | .horizontalScale x =>
    ({ p with graphics := { p.graphics with horizontalScale := x / 100.0 } }, none)
  | .leading x => ({ p with graphics := { p.graphics with leading := x } }, none)
  | .rise x => ({ p with graphics := { p.graphics with rise := x } }, none)
  | .renderMode mode => ({ p with graphics := { p.graphics with renderMode := mode } }, none)
  | .moveText tx ty => ({ p with text := p.text.move tx ty }, none)
  | .moveTextLeading tx ty =>
    ({ p with
      graphics := { p.graphics with leading := -ty }, text := p.text.move tx ty }, none)
  | .textMatrix (some m) => ({ p with text := .ofMatrix m }, none)
  | .textMatrix none => (p, none)
  | .nextLine => (p.nextLine, none)
  | .showText items => p.showItems r items
  | .nextLineShow items => p.nextLine.showItems r items
  | .spacedShow word char items =>
    let g := { p.graphics with
      wordSpacing := word.getD p.graphics.wordSpacing
      charSpacing := char.getD p.graphics.charSpacing }
    { p with graphics := g }.nextLine.showItems r items
  | .drawObject name => (p, some (p.finish (p.drawObject r name)))
  | .inlineImage =>
    let box := p.graphics.ctm.transformBox unitBox
    (p, some (p.finish { kind := .image, box := some box }))
  | .lineTo (some q) => ({ p.addPoints [q] with current := q }, none)
  | .lineTo none => (p, none)
  | .curve coordinates fromCurrent =>
    let p := p.addPoints (pairs coordinates)
    let p := if fromCurrent then p.addPoints [p.current] else p
    ({ p with current := (lastPair? coordinates).getD p.current }, none)
  | .rectangle [x, y, w, h] =>
    let box := p.graphics.ctm.transformBox (.ofCorners x y (x + w) (y + h))
    ({ p with
      points := (box.right, box.top) :: (box.x, box.y) :: p.points, current := (x, y) }, none)
  | .rectangle _ => (p, none)
  | .paint fills =>
    let box := Box.ofPoints? p.points.reverse
    ({ p with points := [] }, some (p.finish { kind := .path, box := box, filled := fills }))
  | .endPath => ({ p with points := [] }, none)
  | .beginMarked _ _ | .endMarked | .other => (p, none)

end Pen

/-! ## Marked content -/

/-- An open marked-content sequence. -/
structure MarkedSequence where
  ordinal : Nat
  mcid : Option Int
  artifact : Bool
deriving DecidableEq, Repr

/-- The open marked-content sequences, innermost first, and how many were opened so far. -/
structure MarkStack where
  sequences : List MarkedSequence := []
  count : Nat := 0
deriving DecidableEq, Repr

namespace MarkStack

/-- The tag of content that is an artifact. -/
def artifactTag : String := "Artifact"

def step (r : ContentResources) (s : MarkStack) : Command → MarkStack
  | .beginMarked tag properties =>
    let mcid := properties.bind (ContentResources.mcid? r.doc r.entries)
    ⟨⟨s.count, mcid, tag == artifactTag⟩ :: s.sequences, s.count + 1⟩
  | .endMarked => ⟨s.sequences.drop 1, s.count⟩
  | _ => s

/-- The marks of content drawn now: the innermost MCID counts. -/
def marks (s : MarkStack) : Marks where
  scope := s.sequences.head?.map (·.ordinal)
  mcid := s.sequences.findSome? (·.mcid)
  artifact := s.sequences.any (·.artifact)

end MarkStack

/-! ## Scanning a content stream -/

/-- How far a content stream has been read. -/
structure ScanState where
  pen : Pen := {}
  marks : MarkStack := {}
  /-- The first operation of the path under construction. -/
  pathStart : Option Nat := none

namespace ScanState

/-- Where the path under construction began, after a command. -/
def pathStartAfter (start : Option Nat) (index : Nat) : Command → Option Nat
  | .lineTo _ | .curve _ _ | .rectangle _ => start <|> some index
  | .paint _ | .endPath => none
  | _ => start

/-- The first operation that a figure drawn by a command belongs to. -/
def startOf (start : Option Nat) (index : Nat) : Command → Nat
  | .paint _ => start.getD index
  | _ => index

/-- Reads one operation. -/
def step (r : ContentResources) (s : ScanState) (index : Nat) (op : Operation) :
    ScanState × Option Drawn :=
  let c := op.command
  let (pen, figure) := s.pen.step r c
  let next : ScanState := ⟨pen, s.marks.step r c, pathStartAfter s.pathStart index c⟩
  (next, figure.map fun f =>
    { index, start := startOf s.pathStart index c, operator := op.operator, figure := f
      marks := s.marks.marks })

/-- Reads operations, the first of them with a number. -/
def run (r : ContentResources) : ScanState → Nat → List Operation → ScanState × List Drawn
  | s, _, [] => (s, [])
  | s, i, op :: ops =>
    let (s, drawn) := s.step r i op
    let (s, rest) := run r s (i + 1) ops
    (s, drawn.toList ++ rest)

end ScanState

/-- What a content stream draws. -/
structure PageScan where
  operators : List Drawn
  /-- The MCIDs of all marked content, ascending. -/
  mcids : List Int
  operationCount : Nat

namespace PageScan

/-- The MCID that an operation opens. -/
def openedMcid? (r : ContentResources) (op : Operation) : Option Int :=
  match op.command with
  | .beginMarked _ properties => properties.bind (ContentResources.mcid? r.doc r.entries)
  | _ => none

/-- What operations draw with some resources. -/
def ofOperations (r : ContentResources) (ops : List Operation) : PageScan where
  operators := (ScanState.run r {} 0 ops).2
  mcids := (Std.TreeSet.ofList (ops.filterMap (openedMcid? r)) compare).toList
  operationCount := ops.length

/-- The least MCID above all that are used, if there is one within 64 bits. -/
def nextMcid? (s : PageScan) : Option Int :=
  match s.mcids.getLast? with
  | some m => if m < maxInt64 then some (max (m + 1) 0) else none
  | none => some 0

/-- What operations draw with the resources of a dictionary. -/
def ofContent (doc : Document) (entries : Dict Object) (ops : List Operation) : PageScan :=
  ofOperations (.ofDict doc entries ops) ops

end PageScan

namespace Document

/-- The operations of a page. -/
def pageOperations (doc : Document) (page : ObjectId) : Except Fault (List Operation) := do
  Operation.readAll (← doc.pageContent page)

/-- What the operations of a page draw. -/
def scan (doc : Document) (page : ObjectId) (ops : List Operation) : PageScan :=
  .ofContent doc (doc.pageResources page) ops

end Document

end AccessiblePdf
