import AccessiblePdf.Font.Subset
import Mathlib.Data.List.DropRight
import Mathlib.Data.Nat.Bitwise

/-!
Character ids as bits of a byte string. A string holds an id when the bit of the id is set (`holds`), and
what is read from a string are the ids that it holds, in increasing order (`decode_eq`). Strings that hold
the same ids differ in zeros at the end only (`eq_of_holds`), and none are written there. So ids come back
without order and repetition, and strings without the zeros at their end (`readsBack_both_ways`).
-/
namespace AccessiblePdf.CidSet

variable {bytes : Bytes} {cid : Nat}

/-! ## Bits of a byte -/

theorem bit_mod (cid : Nat) : bit (cid % 8) = bit cid := by
  rw [bit, bit, Nat.mod_mod]

theorem bit_add (i cid : Nat) : bit (8 * i + cid) = bit cid := by
  rw [bit, bit, Nat.mul_add_mod]

theorem and_bit_ne_zero (b : UInt8) {i : Nat} (h : i < 8) :
    (b &&& bit i != 0) = b.toNat.testBit (7 - i) := by
  have hbit : ∀ i < 8, (bit i).toNat = 2 ^ (7 - i) := by decide
  have hpos : 2 ^ (7 - i) ≠ 0 := (Nat.two_pow_pos _).ne'
  have hzero : b &&& bit i = 0 ↔ (b.toNat.testBit (7 - i)).toNat * 2 ^ (7 - i) = 0 := by
    rw [← UInt8.toNat_inj, UInt8.toNat_and, hbit i h, Nat.and_two_pow]
    rfl
  cases htest : b.toNat.testBit (7 - i) with
  | false => simpa [htest] using hzero
  | true => simpa [htest, hpos] using hzero

theorem eq_of_bits {a b : UInt8} (h : ∀ i < 8, (a &&& bit i != 0) = (b &&& bit i != 0)) : a = b := by
  refine UInt8.toNat_inj.mp (Nat.eq_of_testBit_eq fun j => ?_)
  by_cases hj : j < 8
  · have hbits := h (7 - j) (by omega)
    rwa [and_bit_ne_zero a (by omega), and_bit_ne_zero b (by omega),
      show 7 - (7 - j) = j by omega] at hbits
  · have hpow : 2 ^ 8 ≤ 2 ^ j := Nat.pow_le_pow_right (by decide) (by omega)
    rw [Nat.testBit_lt_two_pow (Nat.lt_of_lt_of_le a.toNat_lt hpow),
      Nat.testBit_lt_two_pow (Nat.lt_of_lt_of_le b.toNat_lt hpow)]

theorem or_bit (b : UInt8) {i j : Nat} (hi : i < 8) (hj : j < 8) :
    ((b ||| bit i) &&& bit j != 0) = ((b &&& bit j != 0) || j == i) := by
  have hbits : ∀ i < 8, ∀ j < 8, (bit i).toNat.testBit (7 - j) = (j == i) := by decide
  rw [and_bit_ne_zero _ hj, and_bit_ne_zero _ hj, UInt8.toNat_or, Nat.testBit_or, hbits i hi j hj]

/-! ## Ids that a string holds -/

/-- Whether the bit of a character id is set. -/
def holds (bytes : Bytes) (cid : Nat) : Bool := bytes.getD (cid / 8) 0 &&& bit cid != 0

theorem holds_at (bytes : Bytes) (i : Nat) {j : Nat} (h : j < 8) :
    holds bytes (8 * i + j) = (bytes.getD i 0 &&& bit j != 0) := by
  rw [holds, bit_add, Nat.mul_add_div (by decide), Nat.div_eq_of_lt h, Nat.add_zero]

theorem holds_cons_add (b : UInt8) (rest : Bytes) (cid : Nat) :
    holds (b :: rest) (8 + cid) = holds rest cid := by
  rw [holds, holds, bit_add 1, Nat.add_div_left cid (by decide)]
  rfl

theorem lt_of_holds (h : holds bytes cid = true) : cid / 8 < bytes.length := by
  by_contra hlength
  rw [holds, List.getD_eq_getElem?_getD, List.getElem?_eq_none (by omega)] at h
  simp at h

/-! ## Reading -/

theorem membersFrom_eq (start : Nat) (h : start + 8 * bytes.length ≤ 0x100000000) :
    membersFrom start bytes = ((List.range (8 * bytes.length)).filter (holds bytes)).map (start + ·) := by
  induction bytes generalizing start with
  | nil => rfl
  | cons b rest ih =>
    rw [List.length_cons] at h
    have hfirst : membersOf start b = ((List.range 8).filter (holds (b :: rest))).map (start + ·) := by
      have hbits : ∀ i ∈ List.range 8, (b &&& bit i != 0) = holds (b :: rest) i := fun i hi => by
        simpa using (holds_at (b :: rest) 0 (List.mem_range.mp hi)).symm
      rw [membersOf, List.filter_congr hbits]
      refine List.map_congr_left fun i hi => Nat.mod_eq_of_lt ?_
      have := List.mem_range.mp (List.mem_of_mem_filter hi)
      omega
    have hrest : membersFrom (start + 8) rest =
        (((List.range (8 * rest.length)).map (8 + ·)).filter (holds (b :: rest))).map (start + ·) := by
      rw [ih (start + 8) (by omega), List.filter_map, List.map_map]
      have hholds : holds (b :: rest) ∘ (8 + ·) = holds rest := funext (holds_cons_add b rest)
      rw [hholds]
      exact List.map_congr_left fun i _ => Nat.add_assoc start 8 i
    rw [membersFrom, hfirst, hrest, List.length_cons, Nat.mul_succ, Nat.add_comm (8 * rest.length),
      List.range_add, List.filter_append, List.map_append]

/-- What is read are the ids that are held, in increasing order. -/
theorem decode_eq (h : bytes.length ≤ 0x20000000) :
    decode bytes = (List.range (8 * bytes.length)).filter (holds bytes) := by
  rw [decode, membersFrom_eq 0 (by omega)]
  simp

theorem pairwise_decode (h : bytes.length ≤ 0x20000000) : (decode bytes).Pairwise (· < ·) := by
  rw [decode_eq h]
  exact List.pairwise_lt_range.filter _

theorem mem_decode (h : bytes.length ≤ 0x20000000) : cid ∈ decode bytes ↔ holds bytes cid = true := by
  rw [decode_eq h, List.mem_filter, List.mem_range, and_iff_right_iff_imp]
  intro hholds
  have := lt_of_holds hholds
  omega

/-! ## Writing -/

theorem holds_add (bytes : Array UInt8) (h : cid / 8 < bytes.size) (c : Nat) :
    holds (add bytes cid).toList c = (holds bytes.toList c || c == cid) := by
  rw [holds, holds, List.getD_eq_getElem?_getD, List.getD_eq_getElem?_getD, Array.getElem?_toList,
    Array.getElem?_toList, add, Array.getElem?_modify]
  by_cases hbyte : cid / 8 = c / 8
  · rw [if_pos hbyte, ← hbyte, Array.getElem?_eq_getElem h, Option.map_some, Option.getD_some,
      Option.getD_some, ← bit_mod cid, ← bit_mod c, or_bit _ (Nat.mod_lt _ (by decide))
      (Nat.mod_lt _ (by decide))]
    have hsame : (c % 8 == cid % 8) = (c == cid) := by
      rw [Bool.eq_iff_iff, beq_iff_eq, beq_iff_eq]
      omega
    rw [hsame]
  · have hne : (c == cid) = false := by
      rw [beq_eq_false_iff_ne]
      rintro rfl
      exact hbyte rfl
    rw [if_neg hbyte, hne, Bool.or_false]

theorem size_foldl_add (cids : List Nat) (bytes : Array UInt8) :
    (cids.foldl add bytes).size = bytes.size := by
  induction cids generalizing bytes with
  | nil => rfl
  | cons c cids ih => rw [List.foldl_cons, ih, add, Array.size_modify]

theorem holds_foldl_add {cids : List Nat} (bytes : Array UInt8)
    (fits : ∀ c ∈ cids, c / 8 < bytes.size) (cid : Nat) :
    holds (cids.foldl add bytes).toList cid = (holds bytes.toList cid || cids.contains cid) := by
  induction cids generalizing bytes with
  | nil => simp
  | cons c cids ih =>
    rw [List.forall_mem_cons] at fits
    have hsize : (add bytes c).size = bytes.size := Array.size_modify
    rw [List.foldl_cons, ih _ (fun c' hc' => hsize ▸ fits.2 c' hc'), holds_add bytes fits.1,
      List.contains_cons, Bool.or_assoc]

theorem holds_zeros (n cid : Nat) : holds (Array.replicate n 0).toList cid = false := by
  have hzero : (List.replicate n (0 : UInt8)).getD (cid / 8) 0 = 0 := by
    rw [List.getD_eq_getElem?_getD, List.getElem?_replicate]
    split <;> rfl
  rw [holds, Array.toList_replicate, hzero]
  simp

theorem encode_of_ne_nil {cids : List Nat} (h : cids ≠ []) :
    ∃ highest ∈ cids, (encode cids).length = highest / 8 + 1 ∧
      ∀ cid, holds (encode cids) cid = cids.contains cid := by
  cases cids with
  | nil => exact absurd rfl h
  | cons c cs =>
    obtain ⟨hmem, hmax⟩ := List.max?_eq_some_iff.mp (rfl : (c :: cs).max? = some (cs.foldl max c))
    refine ⟨cs.foldl max c, hmem, ?_, fun cid => ?_⟩
    · rw [encode, Array.length_toList, size_foldl_add, Array.size_replicate]
    · rw [encode, holds_foldl_add, holds_zeros, Bool.false_or]
      intro c' hc'
      rw [Array.size_replicate]
      exact Nat.lt_succ_of_le (Nat.div_le_div_right (hmax c' hc'))

theorem holds_encode (cids : List Nat) (cid : Nat) : holds (encode cids) cid = cids.contains cid := by
  cases cids with
  | nil => simp [encode, holds]
  | cons c cs =>
    obtain ⟨-, -, -, hholds⟩ := encode_of_ne_nil (List.cons_ne_nil c cs)
    exact hholds cid

/-! ## Strings without zeros at the end -/

/-- The last byte, if there is one, is not zero. -/
def Trimmed (bytes : Bytes) : Prop := ∀ b ∈ bytes.getLast?, b ≠ 0

theorem Trimmed.length_le {a b : Bytes} (trimmed : Trimmed b)
    (h : ∀ cid, holds b cid = true → holds a cid = true) : b.length ≤ a.length := by
  rcases List.eq_nil_or_concat' b with rfl | ⟨front, last, rfl⟩
  · exact Nat.zero_le _
  have hlast : last ≠ 0 := trimmed last (by simp)
  obtain ⟨j, hj, hbit⟩ : ∃ j < 8, (last &&& bit j != 0) = true := by
    by_contra hnone
    refine hlast (eq_of_bits fun j hj => ?_)
    have hunset : (last &&& bit j != 0) = false := by
      by_contra hset
      exact hnone ⟨j, hj, by simpa using hset⟩
    rw [hunset]
    simp
  have hheld : holds (front ++ [last]) (8 * front.length + j) = true := by
    rw [holds_at _ _ hj]
    simpa using hbit
  have := lt_of_holds (h _ hheld)
  rw [List.length_append, List.length_singleton]
  omega

/-- Two strings that hold the same ids and do not end in a zero are the same. -/
theorem eq_of_holds {a b : Bytes} (ha : Trimmed a) (hb : Trimmed b)
    (h : ∀ cid, holds a cid = holds b cid) : a = b := by
  have hlength : a.length = b.length :=
    Nat.le_antisymm (ha.length_le fun cid => by rw [h]; exact id)
      (hb.length_le fun cid => by rw [h]; exact id)
  refine List.ext_getElem hlength fun i hia hib => eq_of_bits fun j hj => ?_
  have hbits := h (8 * i + j)
  rw [holds_at _ _ hj, holds_at _ _ hj, List.getD_eq_getElem _ _ hia, List.getD_eq_getElem _ _ hib] at hbits
  exact hbits

theorem trimmed_encode (cids : List Nat) : Trimmed (encode cids) := by
  rcases eq_or_ne cids [] with rfl | hne
  · exact fun b hb => by cases hb
  obtain ⟨highest, hmem, hlength, hholds⟩ := encode_of_ne_nil hne
  rintro last hlast rfl
  have hheld : holds (encode cids) highest = true := by
    rw [hholds]
    exact List.contains_iff_mem.mpr hmem
  have hzero : (encode cids)[highest / 8]? = some 0 := by
    rw [← hlast, List.getLast?_eq_getElem?, hlength, Nat.add_sub_cancel]
  rw [holds, List.getD_eq_getElem?_getD, hzero] at hheld
  simp at hheld

theorem trimmed_rdropWhile (bytes : Bytes) : Trimmed (bytes.rdropWhile (· == 0)) := by
  intro last hlast
  obtain ⟨hne, rfl⟩ := List.mem_getLast?_eq_getLast hlast
  simpa using List.rdropWhile_last_not (· == 0) bytes hne

theorem holds_rdropWhile (bytes : Bytes) (cid : Nat) :
    holds (bytes.rdropWhile (· == 0)) cid = holds bytes cid := by
  induction bytes using List.reverseRecOn with
  | nil => rfl
  | append_singleton bytes b ih =>
    rw [List.rdropWhile_concat]
    split
    · next hb =>
      have hget : (bytes ++ [b]).getD (cid / 8) 0 = bytes.getD (cid / 8) 0 := by
        rw [beq_iff_eq.mp hb]
        grind
      rw [ih, holds, holds, hget]
    · rfl

/-! ## There and back -/

/-- Character ids are read back as the increasing list of the ids that were written, and the string for the
ids that a string of bytes holds is that string without the zeros at its end. -/
theorem readsBack_both_ways :
    (∀ cids : List Nat, (∀ cid ∈ cids, cid < 0x100000000) →
      (decode (encode cids)).Pairwise (· < ·) ∧ ∀ cid, cid ∈ decode (encode cids) ↔ cid ∈ cids) ∧
    ∀ bytes : Bytes, bytes.length < 0x20000000 → encode (decode bytes) = bytes.rdropWhile (· == 0) := by
  refine ⟨fun cids ids => ?_, fun bytes short => ?_⟩
  · have hlength : (encode cids).length ≤ 0x20000000 := by
      rcases eq_or_ne cids [] with rfl | hne
      · exact Nat.zero_le _
      · obtain ⟨highest, hmem, hlength, -⟩ := encode_of_ne_nil hne
        have := ids highest hmem
        omega
    refine ⟨pairwise_decode hlength, fun cid => ?_⟩
    rw [mem_decode hlength, holds_encode, List.contains_iff_mem]
  · refine eq_of_holds (trimmed_encode _) (trimmed_rdropWhile bytes) fun cid => ?_
    rw [holds_encode, holds_rdropWhile, Bool.eq_iff_iff, List.contains_iff_mem, mem_decode short.le]

/-- Ids out of order with one of them twice, and their string with zeros behind it. -/
theorem readsBack_both_ways_unordered :
    (∀ cid ∈ [9, 3, 0, 9], cid < 0x100000000) ∧ encode [9, 3, 0, 9] = [0x90, 0x40] ∧
      (decode (encode [9, 3, 0, 9])).Pairwise (· < ·) ∧
      (∀ cid, cid ∈ decode (encode [9, 3, 0, 9]) ↔ cid ∈ [9, 3, 0, 9]) ∧
      ([0x90, 0x40, 0, 0] : Bytes).length < 0x20000000 ∧
      encode (decode [0x90, 0x40, 0, 0]) = [0x90, 0x40] := by
  have hids : ∀ cid ∈ [9, 3, 0, 9], cid < 0x100000000 := by decide
  have hshort : ([0x90, 0x40, 0, 0] : Bytes).length < 0x20000000 := by decide
  obtain ⟨hordered, hmem⟩ := readsBack_both_ways.1 _ hids
  exact ⟨hids, by decide, hordered, hmem, hshort,
    (readsBack_both_ways.2 _ hshort).trans (by decide)⟩

end AccessiblePdf.CidSet
