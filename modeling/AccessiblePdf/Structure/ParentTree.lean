import AccessiblePdf.Document.Trees
import AccessiblePdf.Structure.Element

/-!
The parent tree: it maps the keys of pages and annotations to the structure elements that own their
content. It is kept flat, as one array of keys and values.
-/
namespace AccessiblePdf.Edit

/-- The parent tree of a root, flattened if it has kids. -/
def parentTree (root : ObjectId) : Edit ObjectId := do
  let tree ← indirectDict root "ParentTree"
  let d ← dict tree
  let pairs := (← doc).numberTree d
  if d.contains "Kids" || !d.contains "Nums" then
    let flat := pairs.foldl (fun nums e => Nums.insert e.1 e.2 nums) []
    modifyDict tree fun d =>
      ((d.erase "Kids").erase "Limits").insert "Nums" (.array flat)
  return tree

/-- The root of the structure tree, made if there is none. -/
def ensureRoot : Edit ObjectId := do
  let root ← indirectDict (← catalogId) "StructTreeRoot"
  modifyDict root fun d =>
    let d := d.insert "Type" (.name "StructTreeRoot")
    if d.contains "K" then d else d.insert "K" (.array [])
  let _ ← parentTree root
  return root

/-- The next whole number of 64 bits. -/
def nextKey (k : Int) : Int := (k + 1).bmod (0x10000000000000000)

/-- The largest of some keys. -/
def maxKey? (keys : List Int) : Option Int :=
  match keys with
  | [] => none
  | k :: ks => some (ks.foldl max k)

/-- The keys that pages and their annotations carry. -/
def assignedKeys (doc : Document) : List Int :=
  doc.pages.flatMap fun page =>
    match doc.dict? page with
    | none => []
    | some d =>
      ((d.get? "StructParents").bind Object.integer?).toList ++
        ((doc.entryArray? d "Annots").getD []).filterMap fun annot =>
          ((doc.resolve annot).dictionary?.bind (·.get? "StructParent")).bind Object.integer?

/-- Takes a key that is above all keys in use, and above those given out before. -/
def allocateKey (root : ObjectId) : Edit Int := do
  let tree ← parentTree root
  let doc ← doc
  let declared := ((← dict root).get? "ParentTreeNextKey").bind Object.truncated?
  let nums := (((← dict tree).get? "Nums").bind Object.array?).getD []
  let used := (maxKey? ((Nums.keys nums).map nextKey)).getD 0
  let assigned := ((maxKey? (assignedKeys doc)).map nextKey).getD 0
  let key := max (max (declared.getD 0) used) assigned
  setEntry root "ParentTreeNextKey" (.integer (nextKey key))
  return key

/-- The key of a page, given out if it has none. -/
def pageKey (root page : ObjectId) : Edit Int := do
  match (← dict page).get? "StructParents" with
  | some (.integer key) => return key
  | _ =>
    let key ← allocateKey root
    setEntry page "StructParents" (.integer key)
    return key

/-- Sets what a key stands for. -/
def setParent (root : ObjectId) (key : Int) (value : Object) : Edit Unit := do
  let tree ← parentTree root
  modifyDict tree fun d =>
    let nums := ((d.get? "Nums").bind Object.array?).getD []
    d.insert "Nums" (.array (Nums.insert key value nums))

/-- The highest MCID that a page may give a parent for. -/
def maxMcid : Nat := 0x100000

/-- An MCID within the limit. -/
def checkMcid (mcid : Int) : Edit Int :=
  if 0 ≤ mcid ∧ mcid ≤ maxMcid then pure mcid else throw (.mcidOutOfRange mcid maxMcid)

/-- An array with an item at an index, filled up with nulls before it. -/
def setItem (i : Nat) (o : Object) (items : List Object) : List Object :=
  (items ++ List.replicate (i + 1 - items.length) Object.null).set i o

/-- Makes an element the parent of an MCID under the key of its page. -/
def setMcidParent (root : ObjectId) (key mcid : Int) (element : ObjectId) : Edit Unit := do
  let slot := (← checkMcid mcid).toNat
  let tree ← parentTree root
  let nums := (((← dict tree).get? "Nums").bind Object.array?).getD []
  let doc ← doc
  let array ← match Nums.get? key nums with
    | some (.reference id) => do
      if ((doc.get? id).bind Object.array?).isSome then pure id else add (.array [])
    | some (.array items) => add (.array items)
    | _ => add (.array [])
  match (← Edit.doc).modifyArray? array (setItem slot (.reference element)) with
  | some doc => setDoc doc
  | none => pure ()
  setParent root key (.reference array)

end AccessiblePdf.Edit
