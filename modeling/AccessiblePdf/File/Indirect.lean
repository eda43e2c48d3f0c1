import AccessiblePdf.Document.Content
import AccessiblePdf.File.CrossReference
import AccessiblePdf.Text.Blank
import AccessiblePdf.Text.Numeral

/-!
Indirect objects in files: an object between `obj` and `endobj`, under its id. The data of a stream
end where its length says; where the length cannot be told yet, the data are left for later.
-/
namespace AccessiblePdf.File

/-- An object as it stands in a file. -/
structure Indirect where
  id : ObjectId
  object : Object
  /-- What follows from the data of a stream on, when their length could not be told. -/
  pending : Option Bytes := none

namespace Indirect

/-- The id in front of an object. -/
def idHere? (bs : Bytes) : Option (ObjectId × Bytes) := do
  let (number, bs) ← Reader.natural (0x100000000) (Reader.space bs)
  let (generation, bs) ← Reader.natural (0x10000) (Reader.space bs)
  let bs ← Bytes.dropLead? "obj" (Reader.space bs)
  return (⟨number, generation⟩, Reader.space bs)

/-- What follows the keyword that opens the data of a stream. -/
def dataHere? (bs : Bytes) : Option Bytes := do
  CrossReferences.lineEnd? (← Bytes.dropLead? "stream" (Reader.space bs))

/-- Whether data end here. -/
def endsHere (bs : Bytes) : Bool :=
  Bytes.startsWith ((CrossReferences.lineEnd? bs).getD bs) "endstream"

/-- A stream, or the dictionary alone where the data do not end as its length says. A negative
length is a fault. -/
def stream? (length : Option Int) (id : ObjectId) (d : Dict Object) (data : Bytes) :
    Option Indirect :=
  match length with
  | none => some ⟨id, .stream d [], some data⟩
  | some n =>
    if n < 0 then none
    else if n ≤ data.length ∧ endsHere (data.drop n.toNat) then
      some ⟨id, .ofStream d (data.take n.toNat), none⟩
    else some ⟨id, .dictionary d, none⟩

/-- The object in front; `length` tells the length that an entry of a stream's dictionary states. -/
def here? (length : Object → Option Int) (bs : Bytes) : Option Indirect := do
  let (id, bs) ← idHere? bs
  match ← Reader.object bs with
  | (.dictionary d, rest) =>
    match dataHere? rest with
    | some data => stream? ((d.get? "Length").bind length) id d data
    | none => return ⟨id, .dictionary d, none⟩
  | (o, _) => return ⟨id, o, none⟩

/-- The length that an entry states: an integer in place, or one in the object that a table lists.
-/
def length? (file : Bytes) (t : CrossReferences) : Object → Option Int
  | .integer n => some n
  | .reference id =>
    match t[id.number]? with
    | some (.offset position generation) =>
      if generation = id.generation then do
        let (found, bs) ← idHere? (file.drop position)
        if found = id then (← Reader.object bs).1.integer? else none
      else none
    | _ => none
  | _ => none

/-- The object at a place of a file. -/
def at? (file : Bytes) (t : CrossReferences) (position : Nat) : Option Indirect :=
  if file.length < position then none else here? (length? file t) (file.drop position)

/-! ## Streams of objects -/

/-- The numbers and places of the objects in a stream of them; what is no number leaves out its
pair. -/
def indexOf (index : String) : List (Nat × Nat) :=
  let rec pairs : List (Option Nat) → List (Nat × Nat)
    | number :: place :: rest =>
      match number, place with
      | some number, some place => (number, place) :: pairs rest
      | _, _ => pairs rest
    | _ => []
  pairs ((Text.words index).map fun w => Numeral.decimal? (0x100000000) (utf8 w))

/-- The objects in the data of a stream of them. -/
def containedIn? (d : Dict Object) (data : Bytes) : Option (List (ObjectId × Object)) :=
  if data.isEmpty then some []
  else do
    let first ← (d.get? "First").bind Object.integer?
    if first < 0 ∨ (data.length : Int) < first then none
    else
      let index ← Utf8.decode? (data.take first.toNat)
      return (indexOf index).filterMap fun (number, place) =>
        (Reader.object (data.drop (first.toNat + place))).map fun (o, _) => (⟨number, 0⟩, o)

/-- The objects in an object: those in a stream of objects, and otherwise none. -/
def contained? : Object → Option (List (ObjectId × Object))
  | .stream d content =>
    if (d.get? "Type").bind Object.name? = some (utf8 "ObjStm") then
      containedIn? d (Stream.data d content)
    else some []
  | _ => some []

end Indirect

end AccessiblePdf.File
