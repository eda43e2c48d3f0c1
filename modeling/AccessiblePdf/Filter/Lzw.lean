import AccessiblePdf.Bytes

/-!
The LZW filter: codes of 9 to 12 bits, the highest bit first; 256 starts a new table and 257 ends
the data.
-/
namespace AccessiblePdf.Lzw

/-- The bits of bytes, the highest first. -/
def bitsOf (data : Bytes) : List Nat :=
  data.flatMap fun b => (List.range 8).map fun i => (b.toNat >>> (7 - i)) % 2

/-- The number that bits write, the highest first. -/
def numberOf (bits : List Nat) : Nat := bits.foldl (fun n b => 2 * n + b) 0

/-- How long the codes are while the table has `size` entries; with `early`, they grow one entry
sooner. -/
def codeLength (early : Bool) (size : Nat) : Nat :=
  let size := if early then size + 1 else size
  if size < 512 then 9 else if size < 1024 then 10 else if size < 2048 then 11 else 12

/-- The table at the start: one entry for each byte and two that are no data. -/
def initial : Array (List UInt8) :=
  ((List.range 256).map fun n => [UInt8.ofNat n]).toArray ++ #[[], []]

/-- Decodes at most `fuel` codes; `last` is the data of the code before. -/
def decodeFrom (early : Bool) : Nat → List Nat → Array (List UInt8) → Option (List UInt8) →
    Array UInt8 → Array UInt8
  | 0, _, _, _, out => out
  | fuel + 1, bits, table, last, out =>
    let size := table.size + if last.isSome && table.size < 4096 then 1 else 0
    let n := codeLength early (size - 1)
    if bits.length < n then out
    else
      let code := numberOf (bits.take n)
      let bits := bits.drop n
      if code = 256 then decodeFrom early fuel bits initial none out
      else if code = 257 then out
      else
        let entry := match table[code]?, last with
          | some e, _ => some e
          | none, some l => if code = table.size then some (l ++ l.take 1) else none
          | none, none => none
        match entry with
        | none => out
        | some e =>
          let table := match last with
            | some l => if table.size < 4096 then table.push (l ++ e.take 1) else table
            | none => table
          decodeFrom early fuel bits table (some e) (out ++ e.toArray)

/-- The data of an LZW stream; what breaks the format ends it. -/
def decode (early : Bool) (data : Bytes) : Bytes :=
  let bits := bitsOf data
  (decodeFrom early bits.length bits initial none #[]).toList

end AccessiblePdf.Lzw
