import AccessiblePdf.Color
import AccessiblePdf.Content.Operation
import AccessiblePdf.Geometry.Matrix

/-!
What the operations of a content stream tell the painter to do.
-/
namespace AccessiblePdf

/-- A part of shown text. -/
inductive TextItem where
  | string (bytes : Bytes)
  /-- A step back, in thousandths of the font size. -/
  | adjust (x : Float)

inductive Command where
  | save
  | restore
  | transform (m : Option (Matrix Float))
  /-- A colour, in a space or in the current one. -/
  | fillColor (space : Option ColorSpace) (components : List Float)
  | fillSpace (name : Option String)
  | beginText
  | endText
  | font (name : Option Bytes) (size : Option Float)
  | charSpacing (x : Float)
  | wordSpacing (x : Float)
  | horizontalScale (percent : Float)
  | leading (x : Float)
  | rise (x : Float)
  | renderMode (mode : Int)
  | moveText (tx ty : Float)
  /-- A move that also sets the leading. -/
  | moveTextLeading (tx ty : Float)
  | textMatrix (m : Option (Matrix Float))
  | nextLine
  | showText (items : List TextItem)
  | nextLineShow (items : List TextItem)
  | spacedShow (word char : Option Float) (items : List TextItem)
  | drawObject (name : String)
  | inlineImage
  /-- A straight step of a path; nothing without two coordinates. -/
  | lineTo (point : Option (Float × Float))
  | curve (coordinates : List Float) (fromCurrent : Bool)
  | rectangle (coordinates : List Float)
  | paint (fills : Bool)
  | endPath
  | beginMarked (tag : String) (properties : Option Object)
  | endMarked
  | other

/-- The numbers among some operands. -/
def numbersOf (operands : List Object) : List Float := operands.filterMap Object.float?

/-- A matrix, if there are just six numbers. -/
def matrixOf? (operands : List Object) : Option (Matrix Float) :=
  match numbersOf operands with
  | [a, b, c, d, e, f] => some ⟨a, b, c, d, e, f⟩
  | _ => none

namespace TextItem

def ofObject? : Object → Option TextItem
  | .string bytes _ => some (.string bytes)
  | o => o.float?.map .adjust

end TextItem

namespace Operation

/-- The number that is operand `i`. -/
def number? (op : Operation) (i : Nat) : Option Float := op.operands[i]?.bind Object.float?

def numberOr (op : Operation) (i : Nat) (default : Float) : Float := (op.number? i).getD default

/-- The text item that is operand `i`. -/
def shown (op : Operation) (i : Nat) : List TextItem :=
  (op.operands[i]?.bind TextItem.ofObject?).toList

/-- The text items of the array that is the first operand. -/
def shownArray (op : Operation) : List TextItem :=
  match op.operands.head? with
  | some (.array items) => items.filterMap TextItem.ofObject?
  | _ => []

/-- The text of the name that is the first operand. -/
def nameText? (op : Operation) : Option String := op.operands.head?.bind Object.nameText?

def point? (op : Operation) : Option (Float × Float) :=
  match op.number? 0, op.number? 1 with
  | some x, some y => some (x, y)
  | _, _ => none

/-- The operator that moves to the next line and shows a string. -/
def nextLineOperator : String := String.singleton (Char.ofNat 0x27)

/-- The operator that sets spacings, moves to the next line and shows a string. -/
def spacedOperator : String := "\""

/-- What an operation tells the painter. -/
def command (op : Operation) : Command :=
  match op.operator with
  | "q" => .save
  | "Q" => .restore
  | "cm" => .transform (matrixOf? op.operands)
  | "g" => .fillColor (some .gray) (numbersOf op.operands)
  | "rg" => .fillColor (some .rgb) (numbersOf op.operands)
  | "k" => .fillColor (some .cmyk) (numbersOf op.operands)
  | "cs" => .fillSpace op.nameText?
  | "sc" | "scn" => .fillColor none (numbersOf op.operands)
  | "BT" => .beginText
  | "ET" => .endText
  | "Tf" => .font (op.operands.head?.bind Object.name?) (op.number? 1)
  | "Tc" => .charSpacing (op.numberOr 0 0)
  | "Tw" => .wordSpacing (op.numberOr 0 0)
  | "Tz" => .horizontalScale (op.numberOr 0 100)
  | "TL" => .leading (op.numberOr 0 0)
  | "Ts" => .rise (op.numberOr 0 0)
  | "Tr" => .renderMode ((op.operands.head?.bind Object.truncated?).getD 0)
  | "Td" => .moveText (op.numberOr 0 0) (op.numberOr 1 0)
  | "TD" => .moveTextLeading (op.numberOr 0 0) (op.numberOr 1 0)
  | "Tm" => .textMatrix (matrixOf? op.operands)
  | "T*" => .nextLine
  | "Tj" => .showText (op.shown 0)
  | "TJ" => .showText op.shownArray
  | "Do" =>
    match op.nameText? with
    | some name => .drawObject name
    | none => .other
  | "BI" => .inlineImage
  | "m" | "l" => .lineTo op.point?
  | "c" | "y" => .curve (numbersOf op.operands) false
  | "v" => .curve (numbersOf op.operands) true
  | "re" => .rectangle (numbersOf op.operands)
  | "S" | "s" => .paint false
  | "f" | "F" | "f*" | "B" | "B*" | "b" | "b*" => .paint true
  | "n" => .endPath
  | "BMC" => .beginMarked (op.nameText?.getD "") none
  | "BDC" => .beginMarked (op.nameText?.getD "") op.operands[1]?
  | "EMC" => .endMarked
  | operator =>
    if operator = nextLineOperator then .nextLineShow (op.shown 0)
    else if operator = spacedOperator then .spacedShow (op.number? 0) (op.number? 1) (op.shown 2)
    else .other

end Operation

end AccessiblePdf
