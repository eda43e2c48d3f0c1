import AccessiblePdf.Document.Basic
import AccessiblePdf.Number
import AccessiblePdf.Object.Writer
import AccessiblePdf.Text.Numeral
import Std.Data.TreeMap

/-!
Documents as files: the header, the objects in order of their ids, a cross-reference table and the
trailer.
-/
namespace AccessiblePdf.File

/-- The second line of a file, which marks it as binary. -/
def binaryMark : Bytes := [0x25, 0xBB, 0xAD, 0xC0, 0xDE, 0x0A]

/-- The type of an object; a dictionary without one may still describe a linearized file. -/
def typeOf? (o : Object) : Option Bytes :=
  o.entries?.bind fun d =>
    match (d.get? "Type").bind Object.name? with
    | some type => some type
    | none => if d.contains "Linearized" then some (utf8 "Linearized") else none

/-- Whether an object is part of the layout of the file that it was read from, not of the document.
-/
def isLayout (o : Object) : Bool :=
  match typeOf? o with
  | some type => [utf8 "ObjStm", utf8 "XRef", utf8 "Linearized"].contains type
  | none => false

/-- An object under its id. -/
def record (id : ObjectId) (o : Object) : Bytes :=
  utf8 (id.label ++ " obj\n") ++ Writer.spaced o (Writer.object o) ++ utf8 "\nendobj\n"

/-- The objects to write, in order of their ids. -/
def content (doc : Document) : List (ObjectId × Object) :=
  (doc.objects.toList.filter fun e => !isLayout e.2).mergeSort fun a b => (compare a.1 b.1).isLE

/-- The ids of records, each with the place where it starts. -/
def positions (start : Nat) : List (ObjectId × Bytes) → List (ObjectId × Nat)
  | [] => []
  | (id, bytes) :: rest => (id, start) :: positions (start + bytes.length) rest

/-- The highest generation and the place of each object number that the table lists. -/
def listed (maxId : Nat) (placed : List (ObjectId × Nat)) : Std.TreeMap Nat (Nat × Nat) :=
  (placed.filter fun e => 1 ≤ e.1.number && e.1.number ≤ maxId).foldl
    (fun t e => t.insert e.1.number (e.1.generation, e.2)) ∅

/-- An entry of the table. -/
def entry (position generation : Nat) (kind : Char) : Bytes :=
  utf8 (String.ofList (Numeral.padded 10 position ++ ' ' :: Numeral.padded 5 generation ++
    [' ', kind, ' ', '\n']))

/-- A section of the table: its first number, their count, and the entries. -/
def subsection (first : Nat) (entries : List Bytes) : Bytes :=
  utf8 (toString first ++ " " ++ toString entries.length ++ "\n") ++ entries.flatten

/-- The cross-reference table. -/
def table (t : Std.TreeMap Nat (Nat × Nat)) : Bytes :=
  let free := entry 0 65535 'f'
  let used := t.toList.map fun (number, generation, position) =>
    (number, entry position generation 'n')
  utf8 "xref\n" ++ (Runs.ofList ((0, free) :: used)).flatMap fun (first, entries) =>
    subsection first entries

/-- Writes a document. -/
def write (doc : Document) : Bytes :=
  let header := utf8 ("%PDF-" ++ doc.version ++ "\n") ++ binaryMark
  let records := (content doc).map fun (id, o) => (id, record id o)
  let body := header ++ (records.map (·.2)).flatten
  let trailer := doc.trailer.insert "Size" (.integer (doc.maxId + 1))
  body ++ table (listed doc.maxId (positions header.length records)) ++ utf8 "trailer\n" ++
    Writer.object (.dictionary trailer) ++
    utf8 ("\nstartxref\n" ++ toString body.length ++ "\n%%EOF")

end AccessiblePdf.File
