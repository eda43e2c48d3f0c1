import AccessiblePdf.Document.Basic
import Std.Data.TreeMap

/-!
Name trees and number trees: trees of dictionaries whose leaves list keys and values in turn. Nodes
more than 32 levels down are left out, so that loops end.
-/
namespace AccessiblePdf

namespace Document

/-- Levels of a name or number tree below its root. -/
def treeDepth : Nat := 32

/-- The items of a list two by two; a last one without partner is left out. -/
def pairs : List Object → List (Object × Object)
  | a :: b :: rest => (a, b) :: pairs rest
  | _ => []

/-- The dictionaries among the kids of a node, in order. -/
def kidDicts (doc : Document) (node : Dict Object) : List (Dict Object) :=
  ((doc.entryArray? node "Kids").getD []).filterMap (fun kid => (doc.resolve kid).dictionary?)

/-! ## Name trees -/

/-- The keys and values that a node itself lists. -/
def namePairs (doc : Document) (node : Dict Object) : List (String × Object) :=
  (pairs ((doc.entryArray? node "Names").getD [])).filterMap fun (key, value) =>
    (doc.resolve key).string?.map (fun bytes => (TextString.decode bytes, value))

/-- All keys and values of a name tree, in the order of the leaves, down to `depth` levels. -/
def nameLeaves (doc : Document) : Nat → Dict Object → List (String × Object)
  | depth, node =>
    doc.namePairs node ++
      match depth with
      | 0 => []
      | depth + 1 => (doc.kidDicts node).flatMap (nameLeaves doc depth)

/-- What a name tree maps names to; the last of several values counts. -/
def nameTree (doc : Document) (node : Dict Object) : Std.TreeMap String Object :=
  (doc.nameLeaves treeDepth node).foldl (fun m e => m.insert e.1 e.2) ∅

/-! ## Number trees -/

/-- The keys and values that a node itself lists. -/
def numberPairs (doc : Document) (node : Dict Object) : List (Int × Object) :=
  (pairs ((doc.entryArray? node "Nums").getD [])).filterMap fun (key, value) =>
    (doc.resolve key).truncated?.map (fun k => (k, value))

/-- All keys and values of a number tree, in the order of the leaves, down to `depth` levels. -/
def numberLeaves (doc : Document) : Nat → Dict Object → List (Int × Object)
  | depth, node =>
    doc.numberPairs node ++
      match depth with
      | 0 => []
      | depth + 1 => (doc.kidDicts node).flatMap (numberLeaves doc depth)

/-- The keys and values of a number tree in the order of the leaves. -/
def numberTree (doc : Document) (node : Dict Object) : List (Int × Object) :=
  doc.numberLeaves treeDepth node

end Document

namespace Nums

/-- Sets a key in a list of keys and values that is sorted by key. -/
def insert (key : Int) (value : Object) : List Object → List Object
  | .integer k :: v :: rest =>
    if k = key then .integer k :: value :: rest
    else if key < k then .integer key :: value :: .integer k :: v :: rest
    else .integer k :: v :: insert key value rest
  | k :: v :: rest => k :: v :: insert key value rest
  | [.integer k] =>
    if key < k then [.integer key, value, .integer k] else [.integer k, .integer key, value]
  | [k] => [k, .integer key, value]
  | [] => [.integer key, value]

/-- The value of a key. -/
def get? (key : Int) : List Object → Option Object
  | .integer k :: v :: rest => if k = key then some v else get? key rest
  | _ :: _ :: rest => get? key rest
  | _ => none

/-- The keys, which are integers. -/
def keys : List Object → List Int
  | .integer k :: _ :: rest => k :: keys rest
  | _ :: _ :: rest => keys rest
  | [.integer k] => [k]
  | _ => []

end Nums

end AccessiblePdf
