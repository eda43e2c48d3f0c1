import AccessiblePdf.Fault
import AccessiblePdf.Font.Encoding
import AccessiblePdf.Text.Blank

/-!
ToUnicode CMaps: tables from character codes to text, read from and written as PostScript. Reading
collects the entries of the `bfchar` blocks and then those of the `bfrange` blocks; of several
entries for one code the last counts.
-/
namespace AccessiblePdf

structure ToUnicode where
  /-- Bytes of a character code, 1 to 4. -/
  codeBytes : Nat
  table : CodeTable String

namespace ToUnicode

def empty (codeBytes : Nat) : ToUnicode := ⟨max 1 (min 4 codeBytes), ∅⟩

def get? (m : ToUnicode) (code : Nat) : Option String := m.table[code]?

def insert (m : ToUnicode) (code : Nat) (text : String) : ToUnicode :=
  { m with table := m.table.insert code text }

def insertAll (m : ToUnicode) (entries : List (Nat × String)) : ToUnicode :=
  entries.foldl (fun m e => m.insert e.1 e.2) m

def toList (m : ToUnicode) : List (Nat × String) := m.table.toList

/-- Takes in the entries of another map, which win. -/
def merge (m other : ToUnicode) : ToUnicode := m.insertAll other.toList

def isEmpty (m : ToUnicode) : Bool := m.table.isEmpty

def size (m : ToUnicode) : Nat := m.table.size

/-- The highest code of the map's number of bytes. -/
def maxCode (m : ToUnicode) : Nat := Nat.pow 2 (8 * m.codeBytes) - 1

/-- Whether code 0, which stands for a missing glyph, has visible text. -/
def mapsNotdef (m : ToUnicode) : Bool :=
  (m.get? 0).any fun text => text.toList.any fun c => !Text.isControl c && c != Utf8.replacement

/-- Whether the map is of use: not empty, nothing visible for a missing glyph, and no code without
readable text. -/
def isValid (m : ToUnicode) : Bool :=
  !m.isEmpty && !m.mapsNotdef &&
    m.toList.all fun (_, text) =>
      text != "" && !text.toList.contains (Char.ofNat 0) && !text.toList.contains Utf8.replacement

instance : BEq ToUnicode := ⟨fun a b => a.codeBytes == b.codeBytes && a.toList == b.toList⟩

/-! ## Tokens -/

inductive Token where
  | hex (bytes : Bytes)
  | opening
  | closing
deriving DecidableEq, Repr

/-- The value of a hexadecimal digit. -/
def digit? (c : Char) : Option UInt8 :=
  if c.toNat < 128 then Byte.hexValue? (UInt8.ofNat c.toNat) else none

/-- The bytes of digits; a last digit without partner counts as a high one. -/
def digitBytes : List UInt8 → Bytes
  | h :: l :: rest => (h * 16 + l) :: digitBytes rest
  | [h] => [h * 16]
  | [] => []

/-- The characters of a hexadecimal string up to its end, which has to come. -/
def hexBody? (digits : List UInt8) : List Char → Option (List UInt8)
  | [] => none
  | c :: cs =>
    if c = '>' then some digits.reverse
    else match digit? c with
      | some d => hexBody? (d :: digits) cs
      | none => if Text.isBlank c then hexBody? digits cs else none

/-- The hexadecimal strings and brackets of a block; all else is passed over. -/
def tokens : List Char → List Token
  | [] => []
  | c :: cs =>
    if c = '[' then .opening :: tokens cs
    else if c = ']' then .closing :: tokens cs
    else if c = '<' then
      match hexBody? [] cs with
      | some digits => .hex (digitBytes digits) :: tokens cs
      | none => tokens cs
    else tokens cs

/-! ## Blocks -/

/-- What follows the first place where `word` stands. -/
def after? (word : List Char) : List Char → Option (List Char)
  | [] => if word.isEmpty then some [] else none
  | c :: cs =>
    if word.isPrefixOf (c :: cs) then some ((c :: cs).drop word.length) else after? word cs

/-- What stands before the first place where `word` stands, and what follows it. -/
def cut? (word : List Char) : List Char → Option (List Char × List Char)
  | [] => if word.isEmpty then some ([], []) else none
  | c :: cs =>
    if word.isPrefixOf (c :: cs) then some ([], (c :: cs).drop word.length)
    else (cut? word cs).map fun (before, rest) => (c :: before, rest)

/-- The first block between two words, and what follows it. -/
def block? (first last : List Char) (text : List Char) : Option (List Char × List Char) :=
  (after? first text).bind (cut? last)

/-- All blocks between two words, at most `fuel` of them. -/
def blocks (first last : List Char) : Nat → List Char → List (List Char)
  | 0, _ => []
  | fuel + 1, text =>
    match block? first last text with
    | some (block, rest) => block :: blocks first last fuel rest
    | none => []

/-! ## Entries -/

/-- The number that bytes write, of which the last four count. -/
def codeValue (bytes : Bytes) : Nat := bytes.foldl (fun n b => (n * 256 + b.toNat) % 0x100000000) 0

/-- The code units of a destination; a last byte without partner is a low one. -/
def units : Bytes → List Nat
  | a :: b :: rest => (a.toNat * 256 + b.toNat) :: units rest
  | [a] => [a.toNat]
  | [] => []

def unitsText (bytes : Bytes) : String := Utf16.decodeLossy (units bytes)

/-- Adds to the last code unit, modulo 2^16. -/
def advanceLast (offset : Nat) : List Nat → List Nat
  | [] => []
  | [u] => [(u + offset) % 65536]
  | u :: us => u :: advanceLast offset us

/-- A destination that lies `offset` codes after the first one of its range. -/
def offsetText (bytes : Bytes) (offset : Nat) : String :=
  Utf16.decodeLossy (advanceLast offset (units bytes))

/-- The entries of a `bfchar` block: pairs of strings. -/
def charEntries : List Token → List (Nat × String)
  | .hex code :: .hex text :: rest => (codeValue code, unitsText text) :: charEntries rest
  | _ :: _ :: rest => charEntries rest
  | _ => []

/-- Codes of a range after its first one; longer ranges are cut off. -/
def rangeLimit : Nat := 65535

/-- The entries of a range with one destination, from code `first` on. -/
def spanEntries (first span : Nat) (text : Bytes) : List (Nat × String) :=
  (List.range (span + 1)).map fun i => (first + i, offsetText text i)

/-- The entries of a range with a list of destinations, and the tokens after the list; `i` is the
number of destinations before. -/
def listEntries (first span : Nat) (i : Nat) : List Token → List (Nat × String) × List Token
  | [] => ([], [])
  | .closing :: rest => ([], rest)
  | .opening :: rest => listEntries first span i rest
  | .hex text :: rest =>
    let (entries, after) := listEntries first span (i + 1) rest
    (if i ≤ span then (first + i, unitsText text) :: entries else entries, after)

theorem listEntries_length (first span i : Nat) (ts : List Token) :
    (listEntries first span i ts).2.length ≤ ts.length := by
  induction ts generalizing i with
  | nil => simp [listEntries]
  | cons t ts ih =>
    cases t with
    | hex text => simpa [listEntries] using Nat.le_succ_of_le (ih (i + 1))
    | opening => simpa [listEntries] using Nat.le_succ_of_le (ih i)
    | closing => simp [listEntries]

/-- The entries of a `bfrange` block: two codes and a destination, or a list of destinations. -/
def rangeEntries (ts : List Token) : List (Nat × String) :=
  match ts with
  | .hex low :: .hex high :: third :: rest =>
    let first := codeValue low
    let span := min (codeValue high - first) rangeLimit
    match third with
    | .hex text => spanEntries first span text ++ rangeEntries rest
    | .opening =>
      (listEntries first span 0 rest).1 ++ rangeEntries (listEntries first span 0 rest).2
    | .closing => rangeEntries rest
  | _ :: second :: third :: rest => rangeEntries (second :: third :: rest)
  | _ => []
termination_by ts.length
decreasing_by
  · simp only [List.length_cons]; omega
  · refine Nat.lt_of_le_of_lt (listEntries_length _ _ _ _) ?_
    simp only [List.length_cons]; omega
  · simp only [List.length_cons]; omega
  · simp only [List.length_cons]; omega

/-! ## Reading -/

/-- The number of bytes of the first code that the first codespace block states. -/
def codespaceBytes? (text : List Char) : Option Nat := do
  let (block, _) ← block? "begincodespacerange".toList "endcodespacerange".toList text
  (tokens block).findSome? fun
    | .hex bytes => if bytes.isEmpty then none else some bytes.length
    | _ => none

/-- The tokens of all blocks between two words. -/
def blockTokens (first last : String) (text : List Char) : List (List Token) :=
  (blocks first.toList last.toList text.length text).map tokens

/-- All entries of a text in the order in which they are taken in. -/
def textEntries (text : List Char) : List (Nat × String) :=
  (blockTokens "beginbfchar" "endbfchar" text).flatMap charEntries ++
    (blockTokens "beginbfrange" "endbfrange" text).flatMap rangeEntries

/-- Whether a text looks like a CMap. -/
def isCMap (text : List Char) : Bool :=
  (after? "begincmap".toList text).isSome || (after? "beginbf".toList text).isSome

/-- Reads a CMap. -/
def read (data : Bytes) : Except Fault ToUnicode :=
  let text := (Utf8.decodeLossy data).toList
  if isCMap text then
    .ok ((empty ((codespaceBytes? text).getD 1)).insertAll (textEntries text))
  else .error .notACMap

/-! ## Writing -/

/-- The hexadecimal digit of a value below 16. -/
def hexChar (n : Nat) : Char := Char.ofNat (Byte.hexDigit (UInt8.ofNat n)).toNat

/-- A number in exactly `width` hexadecimal digits. -/
def hexDigits : Nat → Nat → List Char
  | 0, _ => []
  | width + 1, n => hexDigits width (n / 16) ++ [hexChar (n % 16)]

/-- The code units of a text in hexadecimal. -/
def textHex (text : String) : List Char := (Utf16.encode text).flatMap (hexDigits 4)

/-- A line of a `bfchar` block. -/
def charLine (codeBytes : Nat) (entry : Nat × String) : List Char :=
  '<' :: hexDigits (2 * codeBytes) entry.1 ++ '>' :: ' ' :: '<' :: textHex entry.2 ++ ['>', '\n']

/-- Entries that a block may have. -/
def blockSize : Nat := 100

/-- Lines in blocks, each between a line that counts them and one that ends the block. -/
def linesInBlocks (kind : String) (lines : List (List Char)) : List Char :=
  if lines.isEmpty then []
  else
    let block := lines.take blockSize
    (toString block.length).toList ++ ' ' :: "begin".toList ++ kind.toList ++ '\n' :: block.flatten ++
      "end".toList ++ kind.toList ++ '\n' :: linesInBlocks kind (lines.drop blockSize)
termination_by lines.length
decreasing_by
  rename_i h
  cases lines with
  | nil => simp at h
  | cons a l => simp only [List.length_drop, List.length_cons, blockSize]; omega

/-- A CMap around its blocks. -/
def wrap (codeBytes : Nat) (body : List Char) : List Char :=
  ("/CIDInit /ProcSet findresource begin\n12 dict begin\nbegincmap\n" ++
    "/CIDSystemInfo << /Registry (Adobe) /Ordering (UCS) /Supplement 0 >> def\n" ++
    "/CMapName /Adobe-Identity-UCS def\n/CMapType 2 def\n1 begincodespacerange\n").toList ++
    '<' :: List.replicate (2 * codeBytes) '0' ++ '>' :: ' ' :: '<' ::
    List.replicate (2 * codeBytes) 'F' ++ '>' :: '\n' :: "endcodespacerange\n".toList ++ body ++
    ("endcmap\nCMapName currentdict /CMap defineresource pop\nend\nend\n").toList

/-- Writes a map; entries whose code does not fit its number of bytes are left out. -/
def write (m : ToUnicode) : Bytes :=
  let entries := m.toList.filter (·.1 ≤ m.maxCode)
  utf8 (String.ofList (wrap m.codeBytes
    (linesInBlocks "bfchar" (entries.map (charLine m.codeBytes)))))

/-! ## The identity -/

/-- The ranges of the identity: one for each high byte, without code 0, the surrogates and the last
characters of the plane. -/
def identityRanges : List (Nat × Nat) :=
  ((List.range 256).filter fun high => high < 0xD8 || 0xDF < high).map fun high =>
    (high * 256 + (if high = 0 then 1 else 0), high * 256 + (if high = 255 then 0xFC else 0xFF))

/-- A line of a `bfrange` block of the identity. -/
def identityLine (range : Nat × Nat) : List Char :=
  '<' :: hexDigits 4 range.1 ++ '>' :: ' ' :: '<' :: hexDigits 4 range.2 ++ '>' :: ' ' :: '<' ::
    hexDigits 4 range.1 ++ ['>', '\n']

/-- A CMap that maps each code of two bytes to the character of the same number. -/
def identity : Bytes :=
  utf8 (String.ofList (wrap 2 (linesInBlocks "bfrange" (identityRanges.map identityLine))))

end ToUnicode

end AccessiblePdf
