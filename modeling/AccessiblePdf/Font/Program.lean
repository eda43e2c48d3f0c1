import AccessiblePdf.Bytes

/-!
The `cmap` table of TrueType and OpenType font programs: which encodings a font brings with it.
-/
namespace AccessiblePdf.FontProgram

/-- One encoding of a `cmap` table. -/
structure Subtable where
  platform : Nat
  encoding : Nat
  format : Nat
deriving DecidableEq, Repr

/-! ## Numbers in the program -/

/-- Two bytes, the higher one first. -/
def word16? (data : Array UInt8) (pos : Nat) : Option Nat := do
  return (← data[pos]?).toNat * 256 + (← data[pos + 1]?).toNat

/-- Four bytes, the highest one first. -/
def word32? (data : Array UInt8) (pos : Nat) : Option Nat := do
  return (← word16? data pos) * 65536 + (← word16? data (pos + 2))

/-- The four bytes at a place. -/
def tag? (data : Array UInt8) (pos : Nat) : Option Bytes := do
  return [← data[pos]?, ← data[pos + 1]?, ← data[pos + 2]?, ← data[pos + 3]?]

/-! ## Tables -/

/-- Whether a program starts with the mark of TrueType or OpenType. -/
def isSfntArray (data : Array UInt8) : Bool :=
  match tag? data 0 with
  | some tag => tag == [0, 1, 0, 0] || tag == utf8 "true" || tag == utf8 "OTTO"
  | none => false

def isSfnt (data : Bytes) : Bool := isSfntArray (data.take 4).toArray

/-- Where a table starts. -/
def tableOffset? (data : Array UInt8) (tag : Bytes) : Option Nat := do
  (List.range (← word16? data 4)).findSome? fun i =>
    if tag? data (12 + i * 16) = some tag then word32? data (12 + i * 16 + 8) else none

/-- The encoding whose entry is at a place of the table at `table`. -/
def subtable? (data : Array UInt8) (table i : Nat) : Option Subtable := do
  let entry := table + 4 + i * 8
  return {
    platform := ← word16? data entry
    encoding := ← word16? data (entry + 2)
    format := ← word16? data (table + (← word32? data (entry + 4))) }

/-- The results of a function on `i`, `i + 1`, … up to the first that has none, at most `n`. -/
def whileSome {α : Type} (f : Nat → Option α) : Nat → Nat → List α
  | _, 0 => []
  | i, n + 1 =>
    match f i with
    | some a => a :: whileSome f (i + 1) n
    | none => []

/-- The encodings of a program, up to the first one that cannot be read. -/
def subtables (program : Bytes) : List Subtable :=
  let data := program.toArray
  if !isSfntArray data then []
  else
    match tableOffset? data "cmap" with
    | none => []
    | some table => whileSome (subtable? data table) 0 ((word16? data (table + 2)).getD 0)

end AccessiblePdf.FontProgram
