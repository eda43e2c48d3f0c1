import AccessiblePdf.Proofs.Font.CMap

/-!
A ToUnicode map that is written as a CMap is read as it was (`read_write`). Its entries stand in
`bfchar` blocks, each as a line of two strings (`writes_charStrings`); no other blocks are read
(`textEntries_charText`).
-/
namespace AccessiblePdf

namespace ToUnicode

/-! ## Lines -/

theorem digitBytes_units (us : List Nat) :
    digitBytes (us.flatMap (digitValues 4)) = us.flatMap Utf16.unitBytes := by
  induction us with
  | nil => rfl
  | cons u us ih =>
    rw [List.flatMap_cons, List.flatMap_cons, ← bigEndian_two, ← ih]
    exact digitBytes_digitValues 2 u _

theorem writes_textHex (text : String) :
    Writes (textHex text) ((Utf16.encode text).flatMap Utf16.unitBytes) := by
  refine ⟨⟨_, ?_, digitBytes_units (Utf16.encode text)⟩, fun c hc => ?_⟩
  · simp only [textHex, List.map_flatMap, map_hexDigits]
  · obtain ⟨u, -, hc⟩ := List.mem_flatMap.mp hc
    exact hexDigits_plain 4 u c hc

/-- The strings of a line. -/
def charStrings (codeBytes : Nat) (entry : Nat × String) : List (List Char) :=
  [hexDigits (2 * codeBytes) entry.1, textHex entry.2]

/-- The bytes of a line. -/
def charBytes (codeBytes : Nat) (entry : Nat × String) : List Bytes :=
  [bigEndian codeBytes entry.1, (Utf16.encode entry.2).flatMap Utf16.unitBytes]

theorem charLine_eq (codeBytes : Nat) :
    charLine codeBytes = fun entry => stringLine (charStrings codeBytes entry) := by
  funext entry
  simp [charLine, stringLine, charStrings]

theorem writes_charStrings (codeBytes : Nat) (entry : Nat × String) :
    List.Forall₂ Writes (charStrings codeBytes entry) (charBytes codeBytes entry) :=
  .cons (writes_number codeBytes entry.1) (.cons (writes_textHex entry.2) .nil)

/-! ## Entries -/

theorem units_unitBytes {us : List Nat} (h : ∀ u ∈ us, u < 65536) :
    units (us.flatMap Utf16.unitBytes) = us := by
  induction us with
  | nil => rfl
  | cons u us ih =>
    rw [List.forall_mem_cons] at h
    rw [List.flatMap_cons, Utf16.unitBytes, List.cons_append, List.cons_append, List.nil_append,
      units, Utf16.unitBytes_value h.1, ih h.2]

theorem unitsText_encode (text : String) :
    unitsText ((Utf16.encode text).flatMap Utf16.unitBytes) = text := by
  rw [unitsText, units_unitBytes (Utf16.encode_lt text), Utf16.decodeLossy_encode]

theorem charEntries_charBytes {codeBytes : Nat} (small : codeBytes ≤ 4)
    {entries : List (Nat × String)} (fits : ∀ e ∈ entries, e.1 < Nat.pow 256 codeBytes) :
    charEntries (entries.flatMap fun e => (charBytes codeBytes e).map .hex) = entries := by
  have hentry : ∀ e ∈ entries, (codeValue (bigEndian codeBytes e.1),
      unitsText ((Utf16.encode e.2).flatMap Utf16.unitBytes)) = e := by
    intro e he
    rw [codeValue_bigEndian small, Nat.mod_eq_of_lt (fits e he), unitsText_encode]
  calc charEntries (entries.flatMap fun e => (charBytes codeBytes e).map .hex)
      = entries.map fun e => (codeValue (bigEndian codeBytes e.1),
          unitsText ((Utf16.encode e.2).flatMap Utf16.unitBytes)) := charEntries_pairs _ _ entries
    _ = entries := by rw [List.map_congr_left hentry, List.map_id']

/-! ## The whole CMap -/

/-- The CMap of entries. -/
def charText (codeBytes : Nat) (entries : List (Nat × String)) : List Char :=
  cmapHead codeBytes ++ (linesInBlocks "bfchar" (entries.map (charLine codeBytes)) ++ cmapTail)

theorem write_eq (m : ToUnicode) : m.write =
    utf8 (String.ofList (charText m.codeBytes (m.toList.filter (·.1 ≤ m.maxCode)))) := by
  rw [write, wrap_eq, charText]

/-- Just the entries are taken from the CMap. -/
theorem textEntries_charText {codeBytes : Nat} (head : Head codeBytes (cmapHead codeBytes))
    (small : codeBytes ≤ 4) {entries : List (Nat × String)}
    (fits : ∀ e ∈ entries, e.1 < Nat.pow 256 codeBytes) :
    textEntries (charText codeBytes entries) = entries := by
  have hpasses : ∀ e ∈ entries, Passes (blockEnd "bfchar") (charLine codeBytes e) ∧
      Passes (blockBegin "bfrange") (charLine codeBytes e) := by
    have hwordless := stringLine_wordless (writes_charStrings codeBytes) entries
    rw [← charLine_eq] at hwordless
    have hchars := List.forall_mem_map.mp (hwordless.passes "bfchar")
    have hranges := List.forall_mem_map.mp (hwordless.passes "bfrange")
    exact fun e he => ⟨(hchars e he).2, (hranges e he).1⟩
  calc textEntries (charText codeBytes entries) = entries.flatMap fun e => [e] := by
        refine textEntries_chars head hpasses fun part hpart => ?_
        rw [charLine_eq, tokens_stringLines (writes_charStrings codeBytes),
          charEntries_charBytes small fun e he => fits e (hpart he), List.flatMap_singleton']
    _ = entries := List.flatMap_singleton' entries

theorem read_write_eq (m : ToUnicode) (low : 1 ≤ m.codeBytes) (high : m.codeBytes ≤ 4) :
    read m.write = .ok ((ToUnicode.mk m.codeBytes ∅).insertAll
      (m.toList.filter fun e => e.1 ≤ m.maxCode)) := by
  have hhead := head_cmapHead m.codeBytes low high
  have hfits : ∀ e ∈ m.toList.filter fun e => decide (e.1 ≤ m.maxCode),
      e.1 < Nat.pow 256 m.codeBytes := by
    intro e he
    have hpow : Nat.pow 2 (8 * m.codeBytes) = Nat.pow 256 m.codeBytes := Nat.pow_mul 2 8 m.codeBytes
    have hmax : m.maxCode + 1 = Nat.pow 256 m.codeBytes := by
      rw [maxCode, hpow]
      exact Nat.sub_add_cancel (Nat.pow_pos (by decide))
    have hle : e.1 ≤ m.maxCode := by simpa using (List.mem_filter.mp he).2
    omega
  rw [write_eq, charText, read_head low high hhead, ← charText,
    textEntries_charText hhead high hfits]

/-- A map of 1 to 4 bytes that is written as a CMap is read again, with the same number of bytes and
just those entries whose code fits it. -/
theorem read_write (m : ToUnicode) (low : 1 ≤ m.codeBytes) (high : m.codeBytes ≤ 4) :
    ∃ m', read m.write = .ok m' ∧ m'.codeBytes = m.codeBytes ∧
      ∀ code, m'.get? code = if code ≤ m.maxCode then m.get? code else none := by
  refine ⟨_, read_write_eq m low high, codeBytes_insertAll _ _, fun code => ?_⟩
  rw [get?_insertAll_filter m _ (fun code => decide (code ≤ m.maxCode))]
  have hempty : (ToUnicode.mk m.codeBytes ∅).get? code = none := Std.TreeMap.getElem?_emptyc
  simp only [hempty, Option.or_none, decide_eq_true_eq]

/-- A map of two bytes with an empty text, a character of two code units, and a code of three bytes,
which is not written. -/
theorem read_write_pair : ∃ m',
    read ((empty 2).insertAll [(3, ""), (0x41, "A😀"), (0x10000, "x")]).write = .ok m' ∧
      m'.codeBytes = 2 ∧ m'.get? 3 = some "" ∧ m'.get? 0x41 = some "A😀" ∧
      m'.get? 0x10000 = none := by
  obtain ⟨m', hread, hbytes, hget⟩ :=
    read_write ((empty 2).insertAll [(3, ""), (0x41, "A😀"), (0x10000, "x")]) (by decide)
      (by decide)
  refine ⟨m', hread, hbytes, ?_, ?_, ?_⟩
  · exact (hget 3).trans (by decide)
  · exact (hget 0x41).trans (by decide)
  · exact (hget 0x10000).trans (by decide)

end ToUnicode

end AccessiblePdf
