import AccessiblePdf.Bytes

/-!
What a subset font says it contains: the character ids of a CIDFont as a bit set, and the glyphs of
a Type 1 font as a text.
-/
namespace AccessiblePdf

namespace CidSet

/-- The bit of a character id within its byte; the first id has the highest bit. -/
def bit (cid : Nat) : UInt8 := 0x80 >>> UInt8.ofNat (cid % 8)

/-- Sets the bit of a character id. -/
def add (bytes : Array UInt8) (cid : Nat) : Array UInt8 :=
  bytes.modify (cid / 8) (· ||| bit cid)

/-- The bytes up to the highest character id, with a bit for each of the ids. -/
def encode (cids : List Nat) : Bytes :=
  match cids with
  | [] => []
  | c :: cs => (cids.foldl add (Array.replicate (cs.foldl max c / 8 + 1) 0)).toList

/-- The character ids of a byte of which `start` is the first one; ids have 32 bits. -/
def membersOf (start : Nat) (b : UInt8) : List Nat :=
  ((List.range 8).filter fun i => b &&& bit i != 0).map fun i => (start + i) % 0x100000000

/-- The character ids of bytes of which `start` is the first one. -/
def membersFrom (start : Nat) : Bytes → List Nat
  | [] => []
  | b :: rest => membersOf start b ++ membersFrom (start + 8) rest

/-- The character ids whose bit is set, in increasing order. -/
def decode (bytes : Bytes) : List Nat := membersFrom 0 bytes

end CidSet

namespace CharSet

/-- A glyph name without slashes in front. -/
def bare (name : String) : String := String.ofList (name.toList.dropWhile (· == '/'))

/-- The glyphs, each after a slash and only once, in order. -/
def encode (names : List String) : String :=
  String.join ((((names.map bare).filter (· != "")).foldl
    (fun seen name => if seen.contains name then seen else seen ++ [name]) []).map ("/" ++ ·))

end CharSet

end AccessiblePdf
