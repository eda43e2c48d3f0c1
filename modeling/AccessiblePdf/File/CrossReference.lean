import AccessiblePdf.Document.Content
import AccessiblePdf.Object.Reader
import Std.Data.TreeMap

/-!
Cross-reference tables: where in a file each object is. A table is written as text, or as a stream
of fixed-width fields.
-/
namespace AccessiblePdf

/-- Where an object is. -/
inductive Location where
  /-- So many bytes from the header. -/
  | offset (position generation : Nat)
  /-- In a stream of objects. -/
  | inStream
deriving DecidableEq, Repr

/-- Locations by object number. -/
abbrev CrossReferences := Std.TreeMap Nat Location

namespace CrossReferences

/-- Adds the locations of an older table, which do not replace newer ones. -/
def addOlder (newer older : CrossReferences) : CrossReferences :=
  older.foldl (fun t number location => t.insertIfNew number location) newer

/-! ## Tables as text -/

/-- After a line end. -/
def lineEnd? : Bytes → Option Bytes
  | 0x0D :: 0x0A :: rest => some rest
  | 0x0A :: rest => some rest
  | 0x0D :: rest => some rest
  | _ => none

/-- Numbers in tables stay below this bound. -/
def limit : Nat := 0x100000000

/-- An entry: its position and generation, and whether it is in use. -/
def entryHere? (bs : Bytes) : Option ((Nat × Nat × Bool) × Bytes) := do
  let (position, bs) ← Reader.natural limit bs
  let (generation, bs) ← Reader.natural limit (← Bytes.dropLead? " " bs)
  match ← Bytes.dropLead? " " bs with
  | kind :: _ :: _ :: rest =>
    if kind = 0x6E then some ((position, generation, true), rest)
    else if kind = 0x66 then some ((position, generation, false), rest)
    else none
  | _ => none

/-- Reads entries from a number on, at most `fuel`. -/
def entriesFrom (t : CrossReferences) (number : Nat) : Nat → Bytes → CrossReferences × Bytes
  | 0, bs => (t, bs)
  | fuel + 1, bs =>
    match entryHere? bs with
    | some ((position, generation, used), rest) =>
      let t :=
        if used && generation < 0x10000 then t.insert (number % limit) (.offset position generation)
        else t
      entriesFrom t (number + 1) fuel rest
    | none => (t, bs)

/-- The first number of a section, before its entries. -/
def sectionHere? (bs : Bytes) : Option (Nat × Bytes) := do
  let (first, bs) ← Reader.natural (0x10000000000000000) bs
  let (_, bs) ← Reader.natural limit (← Bytes.dropLead? " " bs)
  let bs := (Bytes.dropLead? " " bs).getD bs
  return (first, ← lineEnd? bs)

/-- Reads sections, at most `fuel`. -/
def sectionsFrom (t : CrossReferences) : Nat → Bytes → CrossReferences × Bytes
  | 0, bs => (t, bs)
  | fuel + 1, bs =>
    match sectionHere? bs with
    | some (first, rest) =>
      let (t, rest) := entriesFrom t first rest.length rest
      sectionsFrom t fuel rest
    | none => (t, bs)

/-- A table as text, and the trailer behind it. -/
def ofText? (bs : Bytes) : Option (CrossReferences × Dict Object) := do
  let bs ← lineEnd? (← Bytes.dropLead? "xref" bs)
  let _ ← sectionHere? bs
  let (t, bs) := sectionsFrom ∅ bs.length bs
  let bs ← Bytes.dropLead? "trailer" (Reader.space bs)
  match Reader.object (Reader.space bs) with
  | some (.dictionary trailer, _) =>
    let _ ← (trailer.get? "Size").bind Object.integer?
    return (t, trailer)
  | _ => none

/-! ## Tables as streams -/

/-- The number that bytes write, the highest one first. -/
def bigEndian (bs : Bytes) : Nat := bs.foldl (fun n b => n * 256 + b.toNat) 0

/-- The field widths of a table. -/
def widths? (d : Dict Object) : Option (Nat × Nat × Nat) :=
  match (d.get? "W").bind Object.array? with
  | some (a :: b :: c :: _) => do
    let a ← a.integer?
    let b ← b.integer?
    let c ← c.integer?
    if a < 0 ∨ b < 0 ∨ c < 0 then none else some (a.toNat, b.toNat, c.toNat)
  | _ => none

/-- The numbers of the entries: first numbers and counts in turn. -/
def indexPairs : List Int → List (Nat × Nat)
  | first :: count :: rest => (first.toNat, count.toNat) :: indexPairs rest
  | _ => []

/-- Reads `count` entries from a number on; none when the data end before. -/
def fieldsFrom? (widths : Nat × Nat × Nat) (t : CrossReferences) (number : Nat) :
    Nat → Bytes → Option (CrossReferences × Bytes)
  | 0, bs => some (t, bs)
  | count + 1, bs =>
    let (a, b, c) := widths
    let kind := if a = 0 then 1 else bigEndian (bs.take a)
    if bs.length < a + (if kind ≤ 2 then b + c else 0) then none
    else
      let second := bigEndian ((bs.drop a).take b)
      let third := bigEndian ((bs.drop (a + b)).take c)
      let rest := bs.drop (a + b + c)
      match kind with
      | 0 => fieldsFrom? widths t (number + 1) count rest
      | 1 => fieldsFrom? widths
          (t.insert (number % limit) (.offset (second % limit) (third % 0x10000))) (number + 1) count rest
      | 2 => fieldsFrom? widths (t.insert (number % limit) .inStream) (number + 1) count rest
      | _ => fieldsFrom? widths t (number + 1) count (bs.drop a)

/-- A table in the data of a stream, with the trailer that the stream's dictionary is. -/
def ofStream? (d : Dict Object) (content : Bytes) : Option (CrossReferences × Dict Object) := do
  let data := Stream.data d content
  let size ← (d.get? "Size").bind Object.integer?
  let index := ((d.get? "Index").bind Object.array?).bind fun items => items.mapM Object.integer?
  let widths ← widths? d
  let (t, _) ← (indexPairs (index.getD [0, size])).foldlM
    (fun ((t, bs) : CrossReferences × Bytes) (first, count) =>
      fieldsFrom? widths t first count bs) (∅, data)
  return (t, ((d.erase "Length").erase "W").erase "Index")

end CrossReferences

end AccessiblePdf
