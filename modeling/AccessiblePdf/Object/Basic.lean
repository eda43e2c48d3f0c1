import AccessiblePdf.Bytes
import AccessiblePdf.Geometry.Box
import AccessiblePdf.Number
import AccessiblePdf.OrderedMap
import AccessiblePdf.Text.Utf8

/-!
The objects of a PDF file, direct and indirect.
-/
namespace AccessiblePdf

/-- Number and generation of an indirect object. -/
structure ObjectId where
  number : Nat
  generation : Nat
deriving DecidableEq, Ord, Repr, Inhabited

namespace ObjectId

/-- The id as in `12 0`. -/
def label (id : ObjectId) : String := toString id.number ++ " " ++ toString id.generation

end ObjectId

/-- How the bytes of a string are written. -/
inductive StringStyle where
  | literal
  | hexadecimal
deriving DecidableEq, Repr

/-- Dictionaries remember the order of their keys. -/
abbrev Dict (α : Type) := OrderedMap Bytes α

inductive Object where
  | null
  | boolean (b : Bool)
  | integer (n : Int)
  | real (x : Float32)
  | name (bytes : Bytes)
  | string (bytes : Bytes) (style : StringStyle)
  | array (items : List Object)
  | dictionary (entries : OrderedMap Bytes Object)
  | stream (entries : OrderedMap Bytes Object) (content : Bytes)
  | reference (id : ObjectId)
deriving Repr

namespace Object

instance : Inhabited Object := ⟨.null⟩

/-! ## Parts of direct objects -/

def name? : Object → Option Bytes
  | .name bytes => some bytes
  | _ => none

/-- The text of a name. -/
def nameText? (o : Object) : Option String := o.name?.map Utf8.decodeLossy

def reference? : Object → Option ObjectId
  | .reference id => some id
  | _ => none

def array? : Object → Option (List Object)
  | .array items => some items
  | _ => none

def dictionary? : Object → Option (Dict Object)
  | .dictionary d => some d
  | _ => none

/-- The dictionary of a dictionary or of a stream. -/
def entries? : Object → Option (Dict Object)
  | .dictionary d => some d
  | .stream d _ => some d
  | _ => none

def integer? : Object → Option Int
  | .integer n => some n
  | _ => none

def boolean? : Object → Option Bool
  | .boolean b => some b
  | _ => none

/-- The bytes of a string. -/
def string? : Object → Option Bytes
  | .string bytes _ => some bytes
  | _ => none

def number? : Object → Option Number
  | .integer n => some (.ofInt n)
  | .real x => some (.ofFloat x.toFloat)
  | _ => none

def float? (o : Object) : Option Float := o.number?.map Number.toFloat

/-- The whole part of a number, within 64 bits. -/
def truncated? (o : Object) : Option Int := o.number?.map Number.truncated

def isNull : Object → Bool
  | .null => true
  | _ => false

/-! ## Building objects -/

/-- Whole numbers below this are written as integers. -/
def integerLimit : Int := 0x80000000 - 1

/-- A number: whole ones within 31 bits as integers, all others as reals. -/
def ofFloat (x : Float) : Object :=
  let n := truncate x
  if x.abs < Float.ofInt integerLimit && Float.ofInt n == x then .integer n else .real x.toFloat32

def ofNumber : Number → Object
  | .whole n =>
    if n.natAbs < integerLimit.natAbs then .integer n else .real (Float.ofInt n).toFloat32
  | .real x => ofFloat x

/-- A rectangle: the lower left and the upper right corner. -/
def ofBox (b : Box Float) : Object := .array (b.corners.map ofFloat)

/-- A dictionary with these entries. -/
def ofEntries (entries : List (Bytes × Object)) : Object := .dictionary (.ofList entries)

/-- A stream whose dictionary states its length. -/
def ofStream (entries : Dict Object) (content : Bytes) : Object :=
  .stream (entries.insert "Length" (.integer content.length)) content

end Object

end AccessiblePdf
