import AccessiblePdf.Proofs.Font.CMap

/-!
The identity as a ToUnicode map is read as it is meant (`get?_read_identity`). Its `bfrange` blocks
consist of lines of three strings (`writes_rangeStrings`), each of which gives the codes of a range
(`rangeEntries_rangeBytes`).
-/
namespace AccessiblePdf

namespace ToUnicode

/-! ## Lines of the identity -/

/-- The strings of a line. -/
def rangeStrings (range : Nat × Nat) : List (List Char) :=
  [hexDigits (2 * 2) range.1, hexDigits (2 * 2) range.2, hexDigits (2 * 2) range.1]

/-- The bytes of a line. -/
def rangeBytes (range : Nat × Nat) : List Bytes :=
  [Utf16.unitBytes range.1, Utf16.unitBytes range.2, Utf16.unitBytes range.1]

theorem identityLine_eq : identityLine = fun range => stringLine (rangeStrings range) := by
  funext range
  simp [identityLine, stringLine, rangeStrings]

theorem writes_rangeStrings (range : Nat × Nat) :
    List.Forall₂ Writes (rangeStrings range) (rangeBytes range) :=
  .cons (writes_number 2 range.1) (.cons (writes_number 2 range.2)
    (.cons (writes_number 2 range.1) .nil))

/-! ## Entries of the identity -/

/-- A range of codes below 2^16. -/
def InPlane (range : Nat × Nat) : Prop := range.1 < 65536 ∧ range.2 < 65536

theorem codeValue_unitBytes {n : Nat} (h : n < 65536) : codeValue (Utf16.unitBytes n) = n := by
  simp only [codeValue, Utf16.unitBytes, List.foldl_cons, List.foldl_nil, UInt8.toNat_ofNat']
  omega

/-- The codes of a range, each with the character of its number. -/
def rangeText (range : Nat × Nat) : List (Nat × String) :=
  spanEntries range.1 (range.2 - range.1) (Utf16.unitBytes range.1)

theorem rangeEntries_rangeBytes {ranges : List (Nat × Nat)} (h : ∀ r ∈ ranges, InPlane r) :
    rangeEntries (ranges.flatMap fun r => (rangeBytes r).map .hex) = ranges.flatMap rangeText := by
  induction ranges with
  | nil => rw [List.flatMap_nil, rangeEntries, List.flatMap_nil] <;> simp
  | cons r ranges ih =>
    rw [List.forall_mem_cons] at h
    have hspan : min (r.2 - r.1) rangeLimit = r.2 - r.1 := by
      have := h.1.2
      simp only [rangeLimit]
      omega
    rw [List.flatMap_cons, List.flatMap_cons, rangeBytes, List.map_cons, List.map_cons,
      List.map_singleton, List.cons_append, List.cons_append, List.singleton_append, rangeEntries]
    simp only [codeValue_unitBytes h.1.1, codeValue_unitBytes h.1.2, hspan, ih h.2, rangeText]

theorem identityRanges_inPlane : ∀ r ∈ identityRanges, InPlane r := by
  intro r hr
  obtain ⟨high, hhigh, rfl⟩ := List.mem_map.mp hr
  have := List.mem_range.mp (List.mem_filter.mp hhigh).1
  simp only [InPlane]
  constructor <;> split <;> omega

/-! ## The whole CMap -/

/-- The CMap of the identity. -/
def identityText : List Char :=
  cmapHead 2 ++ (linesInBlocks "bfrange" (identityRanges.map identityLine) ++ cmapTail)

theorem identity_eq : identity = utf8 (String.ofList identityText) := by
  rw [identity, wrap_eq, identityText]

theorem textEntries_identity : textEntries identityText = identityRanges.flatMap rangeText := by
  have hpasses : ∀ r ∈ identityRanges, Passes (blockBegin "bfchar") (identityLine r) ∧
      Passes (blockEnd "bfrange") (identityLine r) := by
    have hwordless := stringLine_wordless writes_rangeStrings identityRanges
    rw [← identityLine_eq] at hwordless
    have hchars := List.forall_mem_map.mp (hwordless.passes "bfchar")
    have hranges := List.forall_mem_map.mp (hwordless.passes "bfrange")
    exact fun r hr => ⟨(hchars r hr).1, (hranges r hr).2⟩
  refine textEntries_ranges (head_cmapHead 2 (by decide) (by decide)) hpasses fun part hpart => ?_
  rw [identityLine_eq, tokens_stringLines writes_rangeStrings,
    rangeEntries_rangeBytes fun r hr => identityRanges_inPlane r (hpart hr)]

theorem read_identity : read identity =
    .ok ((ToUnicode.mk 2 ∅).insertAll (identityRanges.flatMap rangeText)) := by
  rw [identity_eq, identityText,
    read_head (by decide) (by decide) (head_cmapHead 2 (by decide) (by decide)), ← identityText,
    textEntries_identity]

/-! ## Looking codes up -/

theorem offsetText_unitBytes {first i : Nat} (h : first + i < 65536) :
    offsetText (Utf16.unitBytes first) i = Utf16.decodeLossy [first + i] := by
  simp only [offsetText, Utf16.unitBytes, units, advanceLast, UInt8.toNat_ofNat']
  congr 2
  omega

theorem mem_rangeText {range : Nat × Nat} (plane : InPlane range) {e : Nat × String}
    (h : e ∈ rangeText range) : e.2 = Utf16.decodeLossy [e.1] := by
  obtain ⟨i, hi, rfl⟩ := List.mem_map.mp h
  have := List.mem_range.mp hi
  exact offsetText_unitBytes (by unfold InPlane at plane; omega)

theorem exists_rangeText {code : Nat} (valid : code.isValidChar) (low : code ≠ 0)
    (high : code < 0xFFFD) : ∃ e ∈ identityRanges.flatMap rangeText, e.1 = code := by
  have hsurrogate : code / 256 < 0xD8 ∨ 0xDF < code / 256 := by
    simp only [Nat.isValidChar] at valid
    omega
  set range : Nat × Nat := (code / 256 * 256 + (if code / 256 = 0 then 1 else 0),
    code / 256 * 256 + (if code / 256 = 255 then 0xFC else 0xFF)) with hrange
  have hfirst : range.1 ≤ code := by
    simp only [hrange]
    split <;> omega
  have hlast : code ≤ range.2 := by
    simp only [hrange]
    split <;> omega
  have hmem : range ∈ identityRanges := by
    refine List.mem_map.mpr ⟨code / 256, List.mem_filter.mpr ⟨List.mem_range.mpr (by omega), ?_⟩, rfl⟩
    simpa using hsurrogate
  refine ⟨(range.1 + (code - range.1), offsetText (Utf16.unitBytes range.1) (code - range.1)),
    List.mem_flatMap.mpr ⟨range, hmem, List.mem_map.mpr ⟨code - range.1, ?_, rfl⟩⟩, ?_⟩
  · exact List.mem_range.mpr (by omega)
  · exact Nat.add_sub_cancel' hfirst

/-- A code has the character of its number. -/
theorem get?_read_identity {m : ToUnicode} (h : read identity = .ok m) {code : Nat}
    (valid : code.isValidChar) (low : code ≠ 0) (high : code < 0xFFFD) :
    m.get? code = some (String.singleton (Char.ofNat code)) := by
  obtain rfl := Except.ok.inj (read_identity.symm.trans h)
  have htext : Utf16.decodeLossy [code] = String.singleton (Char.ofNat code) := by
    have hsurrogate : (Utf16.isHigh code || Utf16.isLow code) = false := by
      simp only [Nat.isValidChar] at valid
      simp only [Utf16.isHigh, Utf16.isLow, Bool.or_eq_false_iff, Bool.and_eq_false_iff,
        decide_eq_false_iff_not]
      omega
    rw [Utf16.decodeLossy, Utf16.chars, hsurrogate, if_neg Bool.false_ne_true, String.singleton_eq_ofList]
  rw [← htext]
  refine get?_insertAll (fun e he hcode => ?_) _ (Or.inr (exists_rangeText valid low high))
  obtain ⟨range, hrange, he⟩ := List.mem_flatMap.mp he
  rw [mem_rangeText (identityRanges_inPlane range hrange) he, hcode]

end ToUnicode

end AccessiblePdf
