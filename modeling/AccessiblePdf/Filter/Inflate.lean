import AccessiblePdf.Bytes

/-!
The zlib format: DEFLATE data between a header of two bytes and a checksum, with all kinds of blocks. Data
that breaks off early gives what could be read of it; data that breaks the format gives nothing.
-/
namespace AccessiblePdf.Zlib

/-! ## Bits -/

/-- Bytes of which some bits, counted from the lowest, are already taken. -/
structure BitSource where
  bytes : Bytes
  taken : Nat

/-- Why reading stops. -/
inductive Stop where
  | early
  | invalid
deriving DecidableEq, Repr

namespace BitSource

def bit (s : BitSource) : Except Stop (Nat × BitSource) :=
  match s.bytes with
  | [] => .error .early
  | b :: rest =>
    .ok ((b.toNat >>> s.taken) % 2, if s.taken = 7 then ⟨rest, 0⟩ else ⟨b :: rest, s.taken + 1⟩)

/-- A number of `n` bits, the lowest first. -/
def bits : Nat → BitSource → Except Stop (Nat × BitSource)
  | 0, s => .ok (0, s)
  | n + 1, s => do
    let (low, s) ← s.bit
    let (high, s) ← bits n s
    return (low + 2 * high, s)

/-- The bytes after the one that is partly taken. -/
def aligned (s : BitSource) : Bytes := if s.taken = 0 then s.bytes else s.bytes.drop 1

end BitSource

/-! ## Huffman codes -/

/-- A canonical code: the number of symbols of each length, and the symbols by length. -/
structure Huffman where
  counts : Array Nat
  symbols : Array Nat

namespace Huffman

/-- The code in which symbol `i` has the `i`-th length, zero for none. -/
def ofLengths (lengths : List Nat) : Huffman where
  counts := ((List.range 16).map fun n => if n = 0 then 0 else lengths.count n).toArray
  symbols := ((List.range 16).flatMap fun n =>
    if n = 0 then [] else (lengths.zipIdx.filter (·.1 == n)).map (·.2)).toArray

/-- Whether every bit string starts with exactly one code word; a code of one symbol may be shorter.
-/
def isComplete (h : Huffman) : Bool :=
  let used := (List.range 15).foldl (fun n i => n + (h.counts.getD (i + 1) 0) * Nat.pow 2 (14 - i)) 0
  used == 0x8000 || (h.symbols.size ≤ 1 && used ≤ 0x8000)

/-- Reads one code word, bit by bit, of at most `steps` further bits. -/
def decodeFrom (h : Huffman) : Nat → Nat → Nat → Nat → Nat → BitSource →
    Except Stop (Nat × BitSource)
  | 0, _, _, _, _, _ => .error .invalid
  | steps + 1, length, code, first, index, s => do
    let (b, s) ← s.bit
    let code := code + b
    let count := h.counts.getD length 0
    if code < first + count then return (h.symbols.getD (index + (code - first)) 0, s)
    else decodeFrom h steps (length + 1) (2 * code) (2 * (first + count)) (index + count) s

def decode (h : Huffman) (s : BitSource) : Except Stop (Nat × BitSource) :=
  h.decodeFrom 15 1 0 0 0 s

end Huffman

/-! ## Blocks -/

def lengthBase : Array Nat :=
  #[3, 4, 5, 6, 7, 8, 9, 10, 11, 13, 15, 17, 19, 23, 27, 31, 35, 43, 51, 59, 67, 83, 99, 115, 131,
    163, 195, 227, 258]

def lengthExtra : Array Nat :=
  #[0, 0, 0, 0, 0, 0, 0, 0, 1, 1, 1, 1, 2, 2, 2, 2, 3, 3, 3, 3, 4, 4, 4, 4, 5, 5, 5, 5, 0]

def distanceBase : Array Nat :=
  #[1, 2, 3, 4, 5, 7, 9, 13, 17, 25, 33, 49, 65, 97, 129, 193, 257, 385, 513, 769, 1025, 1537, 2049,
    3073, 4097, 6145, 8193, 12289, 16385, 24577]

def distanceExtra : Array Nat :=
  #[0, 0, 0, 0, 1, 1, 2, 2, 3, 3, 4, 4, 5, 5, 6, 6, 7, 7, 8, 8, 9, 9, 10, 10, 11, 11, 12, 12, 13, 13]

/-- Repeats `n` bytes from `distance` bytes back. -/
def copyBack (out : Array UInt8) (distance : Nat) : Nat → Array UInt8
  | 0 => out
  | n + 1 => copyBack (out.push (out.getD (out.size - distance) 0)) distance n

/-- The length and the distance of a repetition whose length symbol is given. -/
def repetition (distances : Huffman) (symbol : Nat) (s : BitSource) :
    Except Stop (Nat × Nat × BitSource) := do
  let i := symbol - 257
  if lengthBase.size ≤ i then throw .invalid
  let (more, s) ← BitSource.bits (lengthExtra.getD i 0) s
  let (d, s) ← distances.decode s
  if distanceBase.size ≤ d then throw .invalid
  let (further, s) ← BitSource.bits (distanceExtra.getD d 0) s
  return (lengthBase.getD i 0 + more, distanceBase.getD d 0 + further, s)

/-- The symbols of a compressed block, at most `fuel` of them. -/
def compressed (literals distances : Huffman) :
    Nat → BitSource → Array UInt8 → Array UInt8 × Except Stop BitSource
  | 0, _, out => (out, .error .early)
  | fuel + 1, s, out =>
    match literals.decode s with
    | .error e => (out, .error e)
    | .ok (symbol, s) =>
      if symbol < 256 then compressed literals distances fuel s (out.push (UInt8.ofNat symbol))
      else if symbol = 256 then (out, .ok s)
      else match repetition distances symbol s with
        | .error e => (out, .error e)
        | .ok (length, distance, s) =>
          if out.size < distance then (out, .error .invalid)
          else compressed literals distances fuel s (copyBack out distance length)

/-- The code lengths of a block, which are compressed themselves, at most `fuel` symbols of them. -/
def codeLengths (code : Huffman) (total : Nat) :
    Nat → BitSource → List Nat → Except Stop (List Nat × BitSource)
  | 0, _, _ => .error .invalid
  | fuel + 1, s, reversed => do
    if total ≤ reversed.length then
      if total < reversed.length then throw .invalid
      return (reversed.reverse, s)
    let (symbol, s) ← code.decode s
    if symbol < 16 then codeLengths code total fuel s (symbol :: reversed)
    else if symbol = 16 then
      let (n, s) ← BitSource.bits 2 s
      match reversed with
      | [] => throw .invalid
      | last :: _ => codeLengths code total fuel s (List.replicate (3 + n) last ++ reversed)
    else if symbol = 17 then
      let (n, s) ← BitSource.bits 3 s
      codeLengths code total fuel s (List.replicate (3 + n) 0 ++ reversed)
    else
      let (n, s) ← BitSource.bits 7 s
      codeLengths code total fuel s (List.replicate (11 + n) 0 ++ reversed)

/-- The order in which the lengths of the code for code lengths come. -/
def lengthOrder : List Nat := [16, 17, 18, 0, 8, 7, 9, 6, 10, 5, 11, 4, 12, 3, 13, 2, 14, 1, 15]

/-- The codes that a block brings with it. -/
def ownCodes (s : BitSource) : Except Stop (Huffman × Huffman × BitSource) := do
  let (n, s) ← BitSource.bits 5 s
  let (m, s) ← BitSource.bits 5 s
  let (k, s) ← BitSource.bits 4 s
  if 29 < n then throw .invalid
  let (lengths, s) ← (List.range (k + 4)).foldlM (fun (acc, s) i => do
    let (l, s) ← BitSource.bits 3 s
    return (acc ++ [(lengthOrder.getD i 0, l)], s)) (([] : List (Nat × Nat)), s)
  let code := Huffman.ofLengths
    ((List.range 19).map fun i => ((lengths.find? (·.1 == i)).map (·.2)).getD 0)
  if !code.isComplete then throw .invalid
  let (all, s) ← codeLengths code (n + 257 + m + 1) 400 s []
  let literals := Huffman.ofLengths (all.take (n + 257))
  let distances := Huffman.ofLengths (all.drop (n + 257))
  if !literals.isComplete || !distances.isComplete then throw .invalid
  return (literals, distances, s)

def fixedLiterals : Huffman :=
  .ofLengths (List.replicate 144 8 ++ List.replicate 112 9 ++ List.replicate 24 7 ++
    List.replicate 8 8)

def fixedDistances : Huffman := .ofLengths (List.replicate 30 5)

/-- A stored block: its length twice, the second time inverted, and its bytes. -/
def stored (s : BitSource) (out : Array UInt8) : Array UInt8 × Except Stop BitSource :=
  match s.aligned with
  | a :: b :: c :: d :: rest =>
    let n := a.toNat + 256 * b.toNat
    if n + c.toNat + 256 * d.toNat ≠ 65535 then (out, .error .invalid)
    else if rest.length < n then (out ++ rest.toArray, .error .early)
    else (out ++ (rest.take n).toArray, .ok ⟨rest.drop n, 0⟩)
  | _ => (out, .error .early)

/-- The blocks of DEFLATE data, at most `fuel` of them. -/
def blocks : Nat → BitSource → Array UInt8 → Array UInt8 × Except Stop BitSource
  | 0, _, out => (out, .error .early)
  | fuel + 1, s, out =>
    match BitSource.bits 3 s with
    | .error e => (out, .error e)
    | .ok (head, s) =>
      let (out, result) :=
        if head / 2 = 0 then stored s out
        else if head / 2 = 1 then
          compressed fixedLiterals fixedDistances (8 * s.bytes.length + 1) s out
        else if head / 2 = 2 then
          match ownCodes s with
          | .error e => (out, .error e)
          | .ok (literals, distances, s) =>
            compressed literals distances (8 * s.bytes.length + 1) s out
        else (out, .error .invalid)
      match result with
      | .error e => (out, .error e)
      | .ok s => if head % 2 = 1 then (out, .ok s) else blocks fuel s out

/-! ## The checksum and the whole format -/

/-- The Adler-32 checksum. -/
def adler (data : Bytes) : Nat :=
  let (a, b) := data.foldl (fun (a, b) x =>
    let a := (a + x.toNat) % 65521
    (a, (b + a) % 65521)) (1, 0)
  b * 65536 + a

/-- Four bytes of a number, the highest first. -/
def word (n : Nat) : Bytes :=
  [UInt8.ofNat (n / 16777216), UInt8.ofNat (n / 65536), UInt8.ofNat (n / 256), UInt8.ofNat n]

/-- The data of a zlib stream. -/
def inflate : Bytes → Bytes
  | first :: second :: rest =>
    if (first.toNat * 256 + second.toNat) % 31 ≠ 0 ∨ first.toNat % 16 ≠ 8 ∨ 7 < first.toNat / 16 ∨
        second.toNat / 32 % 2 = 1 then []
    else
      match blocks (8 * rest.length + 1) ⟨rest, 0⟩ #[] with
      | (out, .error .early) => out.toList
      | (_, .error .invalid) => []
      | (out, .ok s) =>
        let sum := s.aligned.take 4
        if sum.length < 4 ∨ sum = word (adler out.toList) then out.toList else []
  | _ => []

end AccessiblePdf.Zlib
