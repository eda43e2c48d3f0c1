import AccessiblePdf.Fault
import AccessiblePdf.Object.TextString

/-!
Documents: a trailer and a table of indirect objects. Looking an object up follows references from
object to object; the look-ups with a `Dict` follow the reference in an entry.
-/
namespace AccessiblePdf

structure Document where
  version : String
  trailer : Dict Object
  objects : OrderedMap ObjectId Object
  /-- The highest object number given out. -/
  maxId : Nat

namespace Document

/-- Longer chains of references are taken for broken. -/
def referenceLimit : Nat := 128

/-! ## Indirect objects -/

/-- Where a chain of references ends that starts at an object, if it ends after at most `n` steps.
-/
def chase (objects : OrderedMap ObjectId Object) : Nat → ObjectId → Option ObjectId
  | n, id =>
    match objects.get? id with
    | none => none
    | some (.reference next) =>
      match n with
      | 0 => none
      | n + 1 => chase objects n next
    | some _ => some id

/-- The object in which a chain of references ends. -/
def target? (doc : Document) (id : ObjectId) : Option ObjectId :=
  chase doc.objects referenceLimit id

/-- The object that an id stands for; never a reference. -/
def get? (doc : Document) (id : ObjectId) : Option Object :=
  (doc.target? id).bind doc.objects.get?

/-- The dictionary that an id stands for; a stream is none. -/
def dict? (doc : Document) (id : ObjectId) : Option (Dict Object) :=
  (doc.get? id).bind Object.dictionary?

/-- The dictionary that an id stands for. -/
def dict (doc : Document) (id : ObjectId) : Except Fault (Dict Object) :=
  match doc.dict? id with
  | some d => .ok d
  | none => .error .unreadable

/-- The direct object that a value stands for; null where a reference leads nowhere. -/
def resolve (doc : Document) : Object → Object
  | .reference id => (doc.get? id).getD .null
  | o => o

/-- The dictionary, or the dictionary of the stream, that a value stands for. -/
def resolveDict? (doc : Document) (o : Object) : Option (Dict Object) := (doc.resolve o).entries?

/-! ## Entries of dictionaries -/

/-- The value of an entry, with its reference followed. -/
def value? (doc : Document) (d : Dict Object) (key : Bytes) : Option Object :=
  (d.get? key).map doc.resolve

def entryDict? (doc : Document) (d : Dict Object) (key : Bytes) : Option (Dict Object) :=
  (doc.value? d key).bind Object.entries?

def entryArray? (doc : Document) (d : Dict Object) (key : Bytes) : Option (List Object) :=
  (doc.value? d key).bind Object.array?

def entryName? (doc : Document) (d : Dict Object) (key : Bytes) : Option String :=
  (doc.value? d key).bind Object.nameText?

def entryNumber? (doc : Document) (d : Dict Object) (key : Bytes) : Option Number :=
  (doc.value? d key).bind Object.number?

def entryFloat? (doc : Document) (d : Dict Object) (key : Bytes) : Option Float :=
  (doc.entryNumber? d key).map Number.toFloat

/-- The text of an entry that is a string or a name. -/
def entryText? (doc : Document) (d : Dict Object) (key : Bytes) : Option String :=
  match doc.value? d key with
  | some (.string bytes _) => some (TextString.decode bytes)
  | some (.name bytes) => some (Utf8.decodeLossy bytes)
  | _ => none

/-- A rectangle, whose numbers may be indirect; further numbers after four do not count. -/
def box? (doc : Document) (o : Object) : Option (Box Float) :=
  match doc.resolve o with
  | .array items =>
    match (items.take 4).filterMap (fun item => (doc.resolve item).float?) with
    | [x₀, y₀, x₁, y₁] => some (.ofCorners x₀ y₀ x₁ y₁)
    | _ => none
  | _ => none

end Document

end AccessiblePdf
