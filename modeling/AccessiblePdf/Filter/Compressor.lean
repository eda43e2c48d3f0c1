import AccessiblePdf.Filter.Inflate

/-!
Compression of new streams. What compresses them is given (`Compressor`), and only has to be read again. One
that is always at hand writes stored blocks: these are read as what they hold (`blocks_storedBlocks`), so the
zlib stream of some data is read as the data (`inflate_deflate`).
-/
namespace AccessiblePdf

/-- What compresses data, where it does not fail. Data are read again from what they become. -/
structure Compressor where
  deflate? : Bytes → Option Bytes
  inflate_deflate : ∀ data packed, deflate? data = some packed → Zlib.inflate packed = data

namespace Zlib

/-- Stored blocks, each of at most 65535 bytes. -/
def storedBlocks (data : Bytes) : Bytes :=
  let size := min data.length 65535
  let final := data.length ≤ 65535
  let head : Bytes :=
    [if final then 1 else 0, UInt8.ofNat size, UInt8.ofNat (size / 256),
      UInt8.ofNat (65535 - size), UInt8.ofNat ((65535 - size) / 256)]
  head ++ data.take 65535 ++ if final then [] else storedBlocks (data.drop 65535)
termination_by data.length
decreasing_by simp_all; omega

/-- A zlib stream of some data. -/
def deflate (data : Bytes) : Bytes := 0x78 :: 0x01 :: storedBlocks data ++ word (adler data)

/-! ## Stored blocks are read again -/

/-- The five bytes in front of a stored block: whether it is the last one, and its length twice. -/
def blockHead (final : Bool) (size : Nat) : Bytes :=
  [if final then 1 else 0, UInt8.ofNat size, UInt8.ofNat (size / 256), UInt8.ofNat (65535 - size),
    UInt8.ofNat ((65535 - size) / 256)]

theorem stored_block (final : Bool) {chunk : Bytes} (rest : Bytes) (out : Array UInt8)
    (short : chunk.length ≤ 65535) :
    stored ⟨blockHead final chunk.length ++ (chunk ++ rest), 3⟩ out =
      (out ++ chunk.toArray, .ok ⟨rest, 0⟩) := by
  have hsize : (UInt8.ofNat chunk.length).toNat + 256 * (UInt8.ofNat (chunk.length / 256)).toNat =
      chunk.length := by
    simp only [UInt8.toNat_ofNat']
    omega
  have hinverse : chunk.length + (UInt8.ofNat (65535 - chunk.length)).toNat +
      256 * (UInt8.ofNat ((65535 - chunk.length) / 256)).toNat = 65535 := by
    simp only [UInt8.toNat_ofNat']
    omega
  have haligned : BitSource.aligned ⟨blockHead final chunk.length ++ (chunk ++ rest), 3⟩ =
      UInt8.ofNat chunk.length :: UInt8.ofNat (chunk.length / 256) ::
        UInt8.ofNat (65535 - chunk.length) :: UInt8.ofNat ((65535 - chunk.length) / 256) ::
          (chunk ++ rest) := rfl
  have hlong : ¬(chunk ++ rest).length < chunk.length := by simp
  unfold stored
  simp only [haligned, hsize, hinverse, ne_eq, not_true_eq_false, if_false, if_neg hlong,
    List.take_left, List.drop_left]

theorem blocks_block (final : Bool) {chunk rest : Bytes} (out : Array UInt8)
    (short : chunk.length ≤ 65535) (fuel : Nat) :
    blocks (fuel + 1) ⟨blockHead final chunk.length ++ (chunk ++ rest), 0⟩ out =
      if final then (out ++ chunk.toArray, .ok ⟨rest, 0⟩)
      else blocks fuel ⟨rest, 0⟩ (out ++ chunk.toArray) := by
  have hblock := stored_block final rest out short
  have hbits : BitSource.bits 3 ⟨blockHead final chunk.length ++ (chunk ++ rest), 0⟩ =
      .ok (if final then 1 else 0, ⟨blockHead final chunk.length ++ (chunk ++ rest), 3⟩) := by
    cases final <;> simp [BitSource.bits, BitSource.bit, blockHead, bind, Except.bind, pure,
      Except.pure]
  rw [blocks, hbits]
  cases final <;> simp [hblock]

theorem storedBlocks_eq (data : Bytes) :
    storedBlocks data =
      if data.length ≤ 65535 then blockHead true data.length ++ data
      else blockHead false (data.take 65535).length ++
        (data.take 65535 ++ storedBlocks (data.drop 65535)) := by
  rw [storedBlocks]
  by_cases hfinal : data.length ≤ 65535
  · simp [hfinal, blockHead, List.take_of_length_le hfinal]
  · have hmin : min data.length 65535 = 65535 := by omega
    have htake : min 65535 data.length = 65535 := by omega
    simp [hfinal, blockHead, hmin, htake]

/-- The blocks of some data give the data, with what stands behind them left over. -/
theorem blocks_storedBlocks (data rest : Bytes) (out : Array UInt8) (fuel : Nat)
    (enough : data.length < fuel) :
    blocks fuel ⟨storedBlocks data ++ rest, 0⟩ out = (out ++ data.toArray, .ok ⟨rest, 0⟩) := by
  -- By the number of blocks: all but the last one take 65535 bytes.
  induction fuel generalizing data out with
  | zero => omega
  | succ fuel ih =>
    rw [storedBlocks_eq]
    by_cases hfinal : data.length ≤ 65535
    · rw [if_pos hfinal, List.append_assoc, blocks_block true out hfinal]
      rfl
    · have hshort : (data.take 65535).length ≤ 65535 := List.length_take_le _ _
      have hfewer : (data.drop 65535).length < fuel := by simp; omega
      have hjoin : (data.take 65535).toArray ++ (data.drop 65535).toArray = data.toArray := by
        simp
      calc blocks (fuel + 1) ⟨_ ++ rest, 0⟩ out
          = blocks fuel ⟨storedBlocks (data.drop 65535) ++ rest, 0⟩
              (out ++ (data.take 65535).toArray) := by
            rw [if_neg hfinal, List.append_assoc, List.append_assoc, blocks_block false out hshort]
            rfl
        _ = (out ++ (data.take 65535).toArray ++ (data.drop 65535).toArray, .ok ⟨rest, 0⟩) :=
            ih _ _ hfewer
        _ = (out ++ data.toArray, .ok ⟨rest, 0⟩) := by
            rw [Array.append_assoc, hjoin]

theorem length_le_storedBlocks (data : Bytes) : data.length ≤ (storedBlocks data).length := by
  fun_induction storedBlocks data with
  | case1 data size final head ih =>
    by_cases hfinal : final
    · simp [hfinal]
      omega
    · have := ih hfinal
      simp [hfinal] at this ⊢
      omega

/-- What is written is read again. -/
theorem inflate_deflate (data : Bytes) : inflate (deflate data) = data := by
  have hfuel : data.length < 8 * (storedBlocks data ++ word (adler data)).length + 1 := by
    have := length_le_storedBlocks data
    rw [List.length_append]
    omega
  have hsum : (word (adler data)).take 4 = word (adler data) := rfl
  have hheader : ¬(((0x78 : UInt8).toNat * 256 + (0x01 : UInt8).toNat) % 31 ≠ 0 ∨
      (0x78 : UInt8).toNat % 16 ≠ 8 ∨ 7 < (0x78 : UInt8).toNat / 16 ∨
        (0x01 : UInt8).toNat / 32 % 2 = 1) := by decide
  rw [deflate, List.cons_append, List.cons_append, inflate, if_neg hheader,
    blocks_storedBlocks data _ #[] _ hfuel]
  simp [BitSource.aligned, hsum]

end Zlib

namespace Compressor

/-- Leaves data as they are. -/
def plain : Compressor := ⟨fun _ => none, fun _ _ h => absurd h (by simp)⟩

/-- Puts data into stored blocks. -/
def stored : Compressor where
  deflate? data := some (Zlib.deflate data)
  inflate_deflate := by
    rintro data _ ⟨⟩
    exact Zlib.inflate_deflate data

end Compressor

end AccessiblePdf
