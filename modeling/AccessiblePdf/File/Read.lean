import AccessiblePdf.File.Indirect
import AccessiblePdf.Header

/-!
Reading files: the end of a file says where its cross-reference table is, the table where the
objects are. A file that was revised has a table for each revision, and newer tables come before
older ones.
-/
namespace AccessiblePdf.File

/-! ## Start and end -/

/-- A file from its header on. -/
def fromHeader (file : Bytes) : Bytes := file.drop ((Bytes.find? Header.magic file).getD 0)

/-- The rest of the line that the header stands on. -/
def versionLine? (file : Bytes) : Option String := do
  let rest ← Bytes.dropLead? Header.magic file
  let line := rest.takeWhile fun b => b != 0x0A && b != 0x0D
  let _ ← CrossReferences.lineEnd? (rest.drop line.length)
  Utf8.decode? line

/-- The end of a file is looked for among so many bytes. -/
def endWindow : Nat := 512

/-- So far before the end mark the place of the table is looked for. -/
def startWindow : Nat := 25

def dropSpaces (bs : Bytes) : Bytes := bs.dropWhile (· == 0x20)

/-- Where the last table starts. -/
def tableStart? (file : Bytes) : Option Nat := do
  let before := file.length - endWindow
  let mark ← (Bytes.findLast? "%%EOF" (file.drop before)).map (before + ·)
  if mark ≤ startWindow then none
  else
    let tail := file.drop (mark - startWindow)
    let bs := tail.drop (← Bytes.findLast? "startxref" tail)
    let bs ← CrossReferences.lineEnd? (← Bytes.dropLead? "startxref" bs)
    let (start, bs) ← Reader.integer (dropSpaces bs)
    let _ ← Bytes.dropLead? "%%EOF" (← CrossReferences.lineEnd? (dropSpaces bs))
    if start < 0 ∨ (file.length : Int) < start then none else some start.toNat

/-! ## Tables -/

/-- The table at a place, as text or as a stream, and its trailer. -/
def tableAt? (file : Bytes) (position : Int) : Option (CrossReferences × Dict Object) :=
  if position < 0 ∨ (file.length : Int) < position then none
  else
    let bs := file.drop position.toNat
    match CrossReferences.ofText? bs with
    | some found => some found
    | none => do
      match (← Indirect.here? (Indirect.length? file ∅) bs).object with
      | .stream d content => CrossReferences.ofStream? d content
      | _ => none

/-- Where a trailer says that another table starts. -/
def place? (trailer : Dict Object) (key : Bytes) : Option Int :=
  (trailer.get? key).bind Object.integer?

/-- Adds the older tables that a chain of trailers leads to, at most `fuel` and each once. -/
def addOlder? (file : Bytes) (seen : List Int) (t : CrossReferences) :
    Nat → Option Int → Option CrossReferences
  | 0, _ => some t
  | _ + 1, none => some t
  | fuel + 1, some position =>
    if seen.contains position then some t
    else do
      let (older, trailer) ← tableAt? file position
      addOlder? file (position :: seen) (t.addOlder older) fuel (place? trailer "Prev")

/-- The table of all objects and the last trailer. A table in a stream beside the last one counts
when there are older tables, and right after the newest of them. -/
def tables? (file : Bytes) : Option (CrossReferences × Dict Object) := do
  let (t, trailer) ← tableAt? file (← tableStart? file)
  let newest := trailer.erase "Prev"
  match place? trailer "Prev" with
  | none => return (t, newest)
  | some position =>
    let (older, olderTrailer) ← tableAt? file position
    let t := t.addOlder older
    let t ← match place? newest "XRefStm" with
      | some place => (tableAt? file place).map fun beside => t.addOlder beside.1
      | none => some t
    let t ← addOlder? file [position] t (file.length + 1) (place? olderTrailer "Prev")
    return (t, newest.erase "XRefStm")

/-! ## Objects -/

/-- The objects that a table lists, those in streams of objects apart; a stream of objects that
cannot be read is left out. -/
def listedObjects (file : Bytes) (t : CrossReferences) : List Indirect :=
  t.toList.filterMap fun (_, location) =>
    match location with
    | .offset position _ => (Indirect.at? file t position).filter fun i =>
      (Indirect.contained? i.object).isSome
    | .inStream => none

/-- Adds objects that are not there yet. -/
def addNew (objects : OrderedMap ObjectId Object) (new : List (ObjectId × Object)) :
    OrderedMap ObjectId Object :=
  (OrderedMap.ofList new).toList.foldl
    (fun objects (id, o) => if objects.contains id then objects else objects.insert id o) objects

/-- Gives a stream the data that were left for later, if its length can be told now. -/
def complete (doc : Document) (id : ObjectId) (data : Bytes) : Document :=
  match doc.objects.get? id with
  | some (.stream d _) =>
    match (doc.value? d "Length").bind Object.integer? with
    | some n =>
      if 0 ≤ n ∧ n ≤ data.length then
        { doc with objects := doc.objects.insert id (.ofStream d (data.take n.toNat)) }
      else doc
    | none => doc
  | _ => doc

/-- The document in a file. -/
def read? (file : Bytes) : Option Document := do
  let file := fromHeader file
  let version ← versionLine? file
  let (t, trailer) ← tables? file
  let found := OrderedMap.ofList ((listedObjects file t).map fun i => (i.id, i))
  let direct : OrderedMap ObjectId Object := ⟨found.toList.map fun (id, i) => (id, i.object)⟩
  let objects := found.toList.foldl (fun objects (_, i) =>
    addNew objects ((Indirect.contained? i.object).getD [])) direct
  let doc : Document := { version, trailer, objects, maxId := t.maxKey?.getD 0 }
  return found.toList.foldl (fun doc (id, i) =>
    match i.pending with
    | some data => complete doc id data
    | none => doc) doc

/-- Whether the trailer of a document names the dictionary that it is encrypted with. -/
def isEncrypted (doc : Document) : Bool :=
  (((doc.trailer.get? "Encrypt").bind Object.reference?).bind doc.dict?).isSome

/-- Reads a file. -/
def read (file : Bytes) : Except Fault Document := do
  let _ ← Header.version file
  match read? file with
  | none => .error .unreadable
  | some doc => if isEncrypted doc then .error .encrypted else .ok doc

end AccessiblePdf.File
