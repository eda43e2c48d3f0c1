/-!
Structured data as JSON and YAML documents hold it: scalars, lists, and tables of keys and values. A
table keeps the order in which its reader found the keys, except that a JSON object has its keys in
order of their bytes.
-/
namespace AccessiblePdf

inductive Data where
  | null
  | bool (b : Bool)
  | int (n : Int)
  | float (x : Float)
  | text (s : String)
  | list (items : List Data)
  | table (entries : List (Data × Data))
  /-- A value under a tag of the document's own. -/
  | tagged (tag : String) (value : Data)
deriving Inhabited

namespace Data

/-- The deepest nesting of lists and tables that documents may have. -/
def maxDepth : Nat := 128

mutual

/-- Whether two values are alike; not-a-number is like itself. -/
def same : Data → Data → Bool
  | .null, .null => true
  | .bool a, .bool b => a == b
  | .int a, .int b => a == b
  | .float a, .float b => a == b || (a != a && b != b)
  | .text a, .text b => a == b
  | .list as, .list bs => sameItems as bs
  | .table as, .table bs => sameEntries as bs
  | .tagged s a, .tagged t b => s == t && same a b
  | _, _ => false

def sameItems : List Data → List Data → Bool
  | [], [] => true
  | a :: as, b :: bs => same a b && sameItems as bs
  | _, _ => false

def sameEntries : List (Data × Data) → List (Data × Data) → Bool
  | [], [] => true
  | (k, a) :: as, (l, b) :: bs => same k l && same a b && sameEntries as bs
  | _, _ => false

end

mutual

/-- Whether a tag stands anywhere in a value. -/
def hasTag : Data → Bool
  | .tagged _ _ => true
  | .list items => anyItem items
  | .table entries => anyEntry entries
  | _ => false

def anyItem : List Data → Bool
  | [] => false
  | a :: as => hasTag a || anyItem as

def anyEntry : List (Data × Data) → Bool
  | [] => false
  | (k, a) :: as => hasTag k || hasTag a || anyEntry as

end

mutual

/-- How many lists and tables stand around each other. -/
def depth : Data → Nat
  | .list items => depthItems items + 1
  | .table entries => depthEntries entries + 1
  | .tagged _ d => depth d
  | _ => 0

def depthItems : List Data → Nat
  | [] => 0
  | d :: ds => max (depth d) (depthItems ds)

def depthEntries : List (Data × Data) → Nat
  | [] => 0
  | (k, d) :: es => max (max (depth k) (depth d)) (depthEntries es)

end

/-- A value without the tag around it. -/
def untagged : Data → Data
  | .tagged _ value => untagged value
  | d => d

end Data

end AccessiblePdf
