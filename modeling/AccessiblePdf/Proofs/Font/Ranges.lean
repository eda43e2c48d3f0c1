import AccessiblePdf.Proofs.Font.CMap

/-!
A range of a CMap stands for the characters that it abbreviates (`read_ranges`). Its line is read as
its strings and brackets whatever follows it (`Reads`), and those give the entries of its characters
(`rangeEntries_range`): with one destination, whose last code unit goes along with the code
(`units_advance`), or with a list of destinations, one for each code as far as it goes
(`listEntries_items`).
-/
namespace AccessiblePdf

namespace ToUnicode

/-! ## Strings -/

/-- A hexadecimal string: digits, and blanks between them. -/
structure HexText where
  chars : List Char
  inString : ∀ c ∈ chars, InString c

theorem inString_of_all {cs : List Char} (h : (cs.all fun c => decide (InString c)) = true) :
    ∀ c ∈ cs, InString c := by
  simpa using h

namespace HexText

/-- The bytes of the digits; a last digit without partner counts as a high one. -/
def bytes (h : HexText) : Bytes := digitBytes (h.chars.filterMap digit?)

/-- The number that a string writes. -/
def code (h : HexText) : Nat := codeValue h.bytes

/-- The text of a destination. -/
def text (h : HexText) : String := unitsText h.bytes

/-- A string as it stands in a line. -/
def string (h : HexText) : List Char := '<' :: (h.chars ++ ['>'])

/-- A number in `width` bytes. -/
def ofNumber (width n : Nat) : HexText :=
  ⟨hexDigits (2 * width) n, inString_of_digits (map_hexDigits _ n)⟩

theorem bytes_ofNumber (width n : Nat) : (ofNumber width n).bytes = bigEndian width n := by
  rw [bytes, ofNumber, filterMap_of_digits (map_hexDigits _ n), digitBytes_number]

/-- Bytes in two digits each. -/
def bytesHex (bs : Bytes) : List Char := bs.flatMap fun b => hexDigits 2 b.toNat

theorem map_bytesHex (bs : Bytes) :
    (bytesHex bs).map digit? = (bs.flatMap fun b => digitValues 2 b.toNat).map some := by
  simp only [bytesHex, List.map_flatMap, map_hexDigits]

def ofBytes (bs : Bytes) : HexText where
  chars := bytesHex bs
  inString := inString_of_digits (map_bytesHex bs)

theorem bytes_ofBytes (bs : Bytes) : (ofBytes bs).bytes = bs := by
  rw [bytes, ofBytes, filterMap_of_digits (map_bytesHex bs)]
  induction bs with
  | nil => rfl
  | cons b bs ih =>
    have hb : bigEndian 1 b.toNat = [b] := by
      rw [bigEndian, UInt8.ofNat_toNat]
      rfl
    rw [List.flatMap_cons, digitBytes_digitValues 1, ih, hb, List.singleton_append]

end HexText

theorem foldl_codeValue_lt (bs : Bytes) (n : Nat) :
    bs.foldl (fun n b => (n * 256 + b.toNat) % 0x100000000) n < (n + 1) * Nat.pow 256 bs.length := by
  induction bs generalizing n with
  | nil => simp
  | cons b bs ih =>
    have hb : b.toNat < 256 := b.toNat_lt
    have hstep : (n * 256 + b.toNat) % 0x100000000 + 1 ≤ (n + 1) * 256 := by omega
    have hpow : Nat.pow 256 (b :: bs).length = 256 * Nat.pow 256 bs.length := Nat.pow_succ'
    calc (b :: bs).foldl (fun n b => (n * 256 + b.toNat) % 0x100000000) n
        < ((n * 256 + b.toNat) % 0x100000000 + 1) * Nat.pow 256 bs.length := ih _
      _ ≤ (n + 1) * 256 * Nat.pow 256 bs.length := Nat.mul_le_mul_right _ hstep
      _ = (n + 1) * Nat.pow 256 (b :: bs).length := by rw [hpow, Nat.mul_assoc]

theorem codeValue_lt (bs : Bytes) : codeValue bs < Nat.pow 256 bs.length := by
  simpa [codeValue] using foldl_codeValue_lt bs 0

theorem HexText.code_ofNumber {width n : Nat} (small : width ≤ 4) (fits : n < Nat.pow 256 width) :
    (ofNumber width n).code = n := by
  rw [code, bytes_ofNumber, codeValue_bigEndian small, Nat.mod_eq_of_lt fits]

/-! ## Lines -/

/-- A piece of a line is read as `ts`, whatever follows it, and has not the letter that all words
around blocks have. -/
structure Reads (part : List Char) (ts : List Token) : Prop where
  tokens : ∀ rest, tokens (part ++ rest) = ts ++ tokens rest
  wordless : 'n' ∉ part

theorem Reads.append {part more : List Char} {ts us : List Token} (h : Reads part ts)
    (hmore : Reads more us) : Reads (part ++ more) (ts ++ us) where
  tokens rest := by rw [List.append_assoc, h.tokens, hmore.tokens, List.append_assoc]
  wordless := by
    rw [List.mem_append, not_or]
    exact ⟨h.wordless, hmore.wordless⟩

theorem reads_blank : Reads [' '] [] := ⟨tokens_cons (by decide), by decide⟩

theorem reads_newline : Reads ['\n'] [] := ⟨tokens_cons (by decide), by decide⟩

theorem reads_opening : Reads ['['] [.opening] := ⟨fun _ => rfl, by decide⟩

theorem reads_closing : Reads [']'] [.closing] := ⟨fun _ => rfl, by decide⟩

theorem HexText.reads (h : HexText) : Reads h.string [.hex h.bytes] where
  tokens rest := by
    rw [string, List.cons_append, List.append_assoc, List.singleton_append,
      tokens_inString h.inString]
    rfl
  wordless := by
    simp only [string, List.mem_cons, List.mem_append, List.not_mem_nil, or_false, not_or]
    exact ⟨by decide, fun hn => absurd (h.inString _ hn) (by decide), by decide⟩

/-- Pieces with blanks between them. -/
def spaced (parts : List (List Char)) : List Char := [' '].intercalate parts

theorem reads_spaced {parts : List (List Char)} {tss : List (List Token)}
    (h : List.Forall₂ Reads parts tss) : Reads (spaced parts) tss.flatten := by
  induction h with
  | nil => exact ⟨fun _ => rfl, List.not_mem_nil⟩
  | @cons part ts parts tss hpart hparts ih =>
    cases parts with
    | nil =>
      cases hparts
      simpa [spaced] using hpart
    | cons next parts =>
      have hspaced : spaced (part :: next :: parts) = part ++ [' '] ++ spaced (next :: parts) :=
        List.intercalate_cons_cons
      have hblank := hpart.append reads_blank
      rw [List.append_nil] at hblank
      rw [hspaced, List.flatten_cons]
      exact hblank.append ih

theorem Reads.passes {part : List Char} {ts : List Token} (h : Reads part ts) {word : List Char}
    (letter : 'n' ∈ word) (single : '\n' ∉ word) : Passes word (part ++ ['\n']) := by
  have hfree := (h.append reads_newline).wordless
  exact cut?_line single (List.getLast?_concat ..) (cut?_eq_none letter hfree)

theorem Reads.line {part : List Char} {ts : List Token} (h : Reads part ts) (rest : List Char) :
    ToUnicode.tokens ((part ++ ['\n']) ++ rest) = ts ++ ToUnicode.tokens rest := by
  rw [(h.append reads_newline).tokens, List.append_nil]

/-! ## Ranges -/

/-- Adds to the last code unit of a destination, modulo 2^16; a last byte without partner is a low
one. -/
def advance (offset : Nat) : Bytes → Bytes
  | [] => []
  | [a] => Utf16.unitBytes ((a.toNat + offset) % 65536)
  | [a, b] => Utf16.unitBytes ((a.toNat * 256 + b.toNat + offset) % 65536)
  | a :: b :: rest => a :: b :: advance offset rest

/-- What the codes of a range stand for: texts that start at one, or those of a list. -/
inductive Destination where
  | one (text : HexText)
  | list (texts : List HexText)

/-- The text of a code that lies `offset` codes after the first one, if it has one. -/
def Destination.at? (offset : Nat) : Destination → Option HexText
  | .one text => some (.ofBytes (advance offset text.bytes))
  | .list texts => texts[offset]?

/-- A destination as it stands in a line. -/
def Destination.chars : Destination → List Char
  | .one text => text.string
  | .list texts => '[' :: (spaced (texts.map HexText.string) ++ [']'])

/-- A range of at most 65536 codes, the last of them in at most four bytes. -/
structure Range where
  low : HexText
  high : HexText
  target : Destination
  short : high.bytes.length ≤ 4
  ordered : low.code ≤ high.code
  limited : high.code - low.code < 65536

namespace Range

variable (r : Range)

/-- The line of a range without its end. -/
def body : List Char := spaced [r.low.string, r.high.string, r.target.chars]

def line : List Char := r.body ++ ['\n']

/-- The characters of a range: each code that has a text, in as many bytes as the last code, with
its text. -/
def pairs : List (HexText × HexText) :=
  (List.range (r.high.code - r.low.code + 1)).filterMap fun offset =>
    (r.target.at? offset).map fun text =>
      (.ofNumber r.high.bytes.length (r.low.code + offset), text)

end Range

/-- The line of a character without its end. -/
def pairBody (pair : HexText × HexText) : List Char := spaced [pair.1.string, pair.2.string]

def pairLine (pair : HexText × HexText) : List Char := pairBody pair ++ ['\n']

/-! ## What they are read as -/

def Destination.tokens : Destination → List Token
  | .one text => [.hex text.bytes]
  | .list texts => .opening :: (texts.map (fun text => Token.hex text.bytes) ++ [.closing])

theorem Destination.reads (d : Destination) : Reads d.chars d.tokens := by
  cases d with
  | one text => exact text.reads
  | list texts =>
    have htexts : List.Forall₂ Reads (texts.map HexText.string)
        (texts.map fun text => [Token.hex text.bytes]) := by
      induction texts with
      | nil => exact .nil
      | cons text texts ih => exact .cons text.reads ih
    have hflat : (texts.map fun text => [Token.hex text.bytes]).flatten =
        texts.map fun text => Token.hex text.bytes := by
      rw [← List.flatMap_def, List.map_eq_flatMap]
    have hspaced := reads_spaced htexts
    rw [hflat] at hspaced
    exact reads_opening.append (hspaced.append reads_closing)

def Range.tokens (r : Range) : List Token :=
  .hex r.low.bytes :: .hex r.high.bytes :: r.target.tokens

theorem Range.reads (r : Range) : Reads r.body r.tokens := by
  have h := reads_spaced (.cons r.low.reads (.cons r.high.reads (.cons r.target.reads .nil)))
  simpa [Range.body, Range.tokens] using h

def pairTokens (pair : HexText × HexText) : List Token := [.hex pair.1.bytes, .hex pair.2.bytes]

theorem reads_pair (pair : HexText × HexText) : Reads (pairBody pair) (pairTokens pair) :=
  reads_spaced (.cons pair.1.reads (.cons pair.2.reads .nil))

/-! ## Entries -/

/-- The entry of a character. -/
def pairEntry (pair : HexText × HexText) : Nat × String := (pair.1.code, pair.2.text)

/-- The units of a destination that goes along. -/
theorem units_advance (offset : Nat) (bs : Bytes) :
    units (advance offset bs) = advanceLast offset (units bs) := by
  have hunit (n : Nat) : units (Utf16.unitBytes (n % 65536)) = [n % 65536] := by
    have hvalue := Utf16.unitBytes_value (Nat.mod_lt n (show 65536 > 0 by decide))
    rw [Utf16.unitBytes, units, hvalue]
    rfl
  -- The cases are those of `advance`: two bytes are taken at a time, up to the last unit.
  fun_induction advance offset bs with
  | case1 => rfl
  | case2 a => rw [hunit]; rfl
  | case3 a b => rw [hunit]; rfl
  | case4 a b rest hrest ih =>
    rw [units, ih, units]
    cases rest with
    | nil => exact absurd rfl hrest
    | cons c rest => cases rest <;> rfl

theorem text_advance (offset : Nat) (bs : Bytes) :
    (HexText.ofBytes (advance offset bs)).text = offsetText bs offset := by
  rw [HexText.text, HexText.bytes_ofBytes, unitsText, units_advance, offsetText]

/-- The entries of a list: its items for the codes of the range, as far as they go. -/
theorem listEntries_items (first span : Nat) (texts : List HexText) (rest : List Token) (i : Nat) :
    listEntries first span i (texts.map (fun text => Token.hex text.bytes) ++ .closing :: rest) =
      ((List.range' i (span + 1 - i)).filterMap fun offset =>
        texts[offset - i]?.map fun text => (first + offset, text.text), rest) := by
  -- The item in front is that of offset `i`; those behind it are counted from `i + 1` on.
  induction texts generalizing i with
  | nil => simp [listEntries]
  | cons text texts ih =>
    rw [List.map_cons, List.cons_append, listEntries, ih (i + 1)]
    have hbehind : ∀ offset ∈ List.range' (i + 1) (span + 1 - (i + 1)),
        (text :: texts)[offset - i]? = texts[offset - (i + 1)]? := by
      intro offset hoffset
      have hlow := (List.mem_range'_1.mp hoffset).1
      rw [show offset - i = offset - (i + 1) + 1 by omega, List.getElem?_cons_succ]
    by_cases hspan : i ≤ span
    · have hcount : span + 1 - i = span + 1 - (i + 1) + 1 := by omega
      simp only [hspan, if_true, hcount, List.range'_succ, List.filterMap_cons, Nat.sub_self,
        List.getElem?_cons_zero, Option.map_some]
      congr 2
      exact List.filterMap_congr fun offset hoffset => by rw [hbehind offset hoffset]
    · -- The list is longer than the range.
      have hnone : span + 1 - i = 0 ∧ span + 1 - (i + 1) = 0 := by omega
      simp [hspan, hnone.1, hnone.2]

namespace Range

variable (r : Range)

theorem map_pairEntry : r.pairs.map pairEntry =
    (List.range (r.high.code - r.low.code + 1)).filterMap fun offset =>
      (r.target.at? offset).map fun text => (r.low.code + offset, text.text) := by
  rw [pairs, List.map_filterMap]
  refine List.filterMap_congr fun offset hoffset => ?_
  have hlast : r.low.code + offset ≤ r.high.code := by
    have := List.mem_range.mp hoffset
    have := r.ordered
    omega
  have hcode := HexText.code_ofNumber r.short
    (Nat.lt_of_le_of_lt hlast (codeValue_lt r.high.bytes))
  rw [Option.map_map]
  simp only [Function.comp_def, pairEntry, hcode]

theorem mem_entries {e : Nat × String} (h : e ∈ r.pairs.map pairEntry) :
    r.low.code ≤ e.1 ∧ e.1 ≤ r.high.code := by
  rw [map_pairEntry] at h
  obtain ⟨offset, hoffset, htext⟩ := List.mem_filterMap.mp h
  obtain ⟨text, -, rfl⟩ := Option.map_eq_some_iff.mp htext
  have := List.mem_range.mp hoffset
  have := r.ordered
  exact ⟨Nat.le_add_right _ _, by omega⟩

end Range

/-- A range is read as the entries of its characters. -/
theorem rangeEntries_range (r : Range) (rest : List Token) :
    rangeEntries (r.tokens ++ rest) = r.pairs.map pairEntry ++ rangeEntries rest := by
  have hspan : min (codeValue r.high.bytes - codeValue r.low.bytes) rangeLimit =
      r.high.code - r.low.code :=
    Nat.min_eq_left (Nat.le_of_lt_succ r.limited)
  rw [r.map_pairEntry, Range.tokens]
  cases htarget : r.target with
  | one text =>
    simp only [Destination.tokens, List.cons_append, List.nil_append, rangeEntries, hspan,
      spanEntries]
    congr 1
    rw [← List.filterMap_eq_map]
    refine List.filterMap_congr fun offset _ => ?_
    rw [Destination.at?, Option.map_some, text_advance]
    rfl
  | list texts =>
    simp only [Destination.tokens, List.cons_append, List.append_assoc, List.nil_append,
      rangeEntries, hspan, listEntries_items, Nat.sub_zero, List.range_eq_range']
    rfl

theorem rangeEntries_ranges (ranges : List Range) :
    rangeEntries (ranges.flatMap Range.tokens) = ranges.flatMap fun r => r.pairs.map pairEntry := by
  induction ranges with
  | nil => rw [List.flatMap_nil, rangeEntries, List.flatMap_nil] <;> simp
  | cons r ranges ih => rw [List.flatMap_cons, rangeEntries_range, ih, List.flatMap_cons]

/-! ## The whole CMap -/

theorem textEntries_rangeLines {codeBytes : Nat} (head : Head codeBytes (cmapHead codeBytes))
    (ranges : List Range) :
    textEntries (blocksText codeBytes "bfrange" (ranges.map Range.line)) =
      ranges.flatMap fun r => r.pairs.map pairEntry := by
  refine textEntries_ranges head (fun r _ => ?_) fun part _ => ?_
  · exact ⟨r.reads.passes (by decide) (by decide), r.reads.passes (by decide) (by decide)⟩
  · rw [← rangeEntries_ranges, ← tokens_lines fun r : Range => r.reads.line]
    rfl

theorem textEntries_pairLines {codeBytes : Nat} (head : Head codeBytes (cmapHead codeBytes))
    (pairs : List (HexText × HexText)) :
    textEntries (blocksText codeBytes "bfchar" (pairs.map pairLine)) = pairs.map pairEntry := by
  have hentries (part : List (HexText × HexText)) :
      part.map pairEntry = part.flatMap fun p => [pairEntry p] := List.map_eq_flatMap
  rw [hentries]
  refine textEntries_chars head (fun p _ => ?_) fun part _ => ?_
  · have hreads := reads_pair p
    exact ⟨hreads.passes (by decide) (by decide), hreads.passes (by decide) (by decide)⟩
  · rw [← hentries]
    exact (congrArg charEntries (tokens_lines (fun p => (reads_pair p).line) part)).trans
      (charEntries_pairs _ _ part)

theorem mem_range_of_get? {ranges : List Range} {codeBytes code : Nat} {text : String}
    (h : ((ToUnicode.mk codeBytes ∅).insertAll
      (ranges.flatMap fun r => r.pairs.map pairEntry)).get? code = some text) :
    ∃ r ∈ ranges, r.low.code ≤ code ∧ code ≤ r.high.code := by
  by_contra hnone
  have hother : ∀ e ∈ ranges.flatMap fun r => r.pairs.map pairEntry, e.1 ≠ code := by
    rintro e he rfl
    obtain ⟨r, hr, he⟩ := List.mem_flatMap.mp he
    exact hnone ⟨r, hr, r.mem_entries he⟩
  have hempty : (ToUnicode.mk codeBytes ∅).get? code = none := Std.TreeMap.getElem?_emptyc
  rw [get?_insertAll_of_ne hother, hempty] at h
  cases h

/-- Ranges in blocks are read as the characters that they stand for, each with its text, and give text to
no other codes. -/
theorem read_ranges {codeBytes : Nat} (low : 1 ≤ codeBytes) (high : codeBytes ≤ 4)
    (ranges : List Range) :
    let m := (ToUnicode.mk codeBytes ∅).insertAll (ranges.flatMap fun r => r.pairs.map pairEntry)
    read (utf8 (String.ofList (wrap codeBytes
        (linesInBlocks "bfrange" (ranges.map Range.line))))) = .ok m ∧
      read (utf8 (String.ofList (wrap codeBytes
        (linesInBlocks "bfchar" ((ranges.flatMap Range.pairs).map pairLine))))) = .ok m ∧
      ∀ code text, m.get? code = some text →
        ∃ r ∈ ranges, r.low.code ≤ code ∧ code ≤ r.high.code := by
  intro m
  have head := head_cmapHead codeBytes low high
  refine ⟨?_, ?_, fun code text h => mem_range_of_get? h⟩
  · rw [read_wrap low high, textEntries_rangeLines head]
  · rw [read_wrap low high, textEntries_pairLines head, List.map_flatMap]

/-- A range whose texts start at the last character of a plane, and one that goes over its second
half with a list that is too short. -/
def overlapping : List Range :=
  [{ low := ⟨['0', '0', '4', '1'], inString_of_all rfl⟩
     high := ⟨['0', '0', ' ', '4', '3'], inString_of_all rfl⟩
     target := .one ⟨['0', '0', '2', '0', 'f', 'f', 'f', 'f'], inString_of_all rfl⟩
     short := by decide
     ordered := by decide
     limited := by decide },
   { low := ⟨['0', '0', '4', '2'], inString_of_all rfl⟩
     high := ⟨['0', '0', '4', '5'], inString_of_all rfl⟩
     target := .list [⟨['0', '0', '5', '8'], inString_of_all rfl⟩, ⟨['5'], inString_of_all rfl⟩]
     short := by decide
     ordered := by decide
     limited := by decide }]

theorem read_ranges_overlapping : ∃ m,
    read (utf8 (String.ofList (wrap 2 (linesInBlocks "bfrange" (List.map String.toList
      ["<0041> <00 43> <0020ffff>\n", "<0042> <0045> [<0058> <5>]\n"]))))) = .ok m ∧
    read (utf8 (String.ofList (wrap 2 (linesInBlocks "bfchar" (List.map String.toList
      ["<0041> <0020FFFF>\n", "<0042> <00200000>\n", "<0043> <00200001>\n",
        "<0042> <0058>\n", "<0043> <5>\n"]))))) = .ok m ∧
    m.get? 0x41 = some " \uFFFF" ∧ m.get? 0x42 = some "X" ∧ m.get? 0x43 = some "P" ∧
    ∀ code text, m.get? code = some text → 0x41 ≤ code ∧ code ≤ 0x45 := by
  have toList_map (lines : List (List Char)) : (lines.map String.ofList).map String.toList = lines := by
    simp
  have hlines : overlapping.map Range.line = List.map String.toList
      ["<0041> <00 43> <0020ffff>\n", "<0042> <0045> [<0058> <5>]\n"] :=
    (toList_map _).symm
  have hpairs : (overlapping.flatMap Range.pairs).map pairLine = List.map String.toList
      ["<0041> <0020FFFF>\n", "<0042> <00200000>\n", "<0043> <00200001>\n", "<0042> <0058>\n",
        "<0043> <5>\n"] :=
    (toList_map _).symm
  obtain ⟨hranges, hchars, hcodes⟩ :=
    read_ranges (show 1 ≤ 2 by decide) (show 2 ≤ 4 by decide) overlapping
  rw [hlines] at hranges
  rw [hpairs] at hchars
  refine ⟨_, hranges, hchars, rfl, rfl, rfl, fun code text h => ?_⟩
  have hbetween : ∀ r ∈ overlapping, 0x41 ≤ r.low.code ∧ r.high.code ≤ 0x45 := by decide
  obtain ⟨r, hr, hlow, hhigh⟩ := hcodes code text h
  have := hbetween r hr
  omega

end ToUnicode

end AccessiblePdf
