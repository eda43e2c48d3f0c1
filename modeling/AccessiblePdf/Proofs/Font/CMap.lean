import AccessiblePdf.Font.ToUnicode
import AccessiblePdf.Proofs.Text.RoundTrip

/-!
The text of a CMap, which consists of lines. A search for a word passes over the lines that do not
have it (`cut?_line`), a string gives the bytes that its digits write (`tokens_inString`), and lines
in blocks are read block by block (`flatMap_blocks`). Of several entries for one code the last counts
(`get?_insertAll`).
-/
namespace AccessiblePdf

namespace ToUnicode

/-! ## Searching -/

theorem after?_eq_cut? (word cs : List Char) : after? word cs = (cut? word cs).map (·.2) := by
  induction cs with
  | nil => rw [after?, cut?]; split <;> rfl
  | cons c cs ih =>
    rw [after?, cut?, ih]
    split
    · rfl
    · rw [Option.map_map]; rfl

theorem cut?_self {word : List Char} (nonempty : word ≠ []) (rest : List Char) :
    cut? word (word ++ rest) = some ([], rest) := by
  cases word with
  | nil => exact absurd rfl nonempty
  | cons c word =>
    rw [List.cons_append, cut?, ← List.cons_append,
      if_pos (List.isPrefixOf_iff_prefix.mpr (List.prefix_append _ _)), List.drop_left]

theorem isPrefixOf_line {word line : List Char} {x : Char} (hx : x ∉ word) (rest : List Char) :
    word.isPrefixOf (line ++ x :: rest) = word.isPrefixOf (line ++ [x]) := by
  induction word generalizing line with
  | nil => rfl
  | cons c word ih =>
    rw [List.mem_cons, not_or] at hx
    cases line with
    | nil =>
      have hne : (c == x) = false := beq_eq_false_iff_ne.mpr (Ne.symm hx.1)
      simp [List.isPrefixOf, hne]
    | cons d line => simp only [List.cons_append, List.isPrefixOf, ih hx.2]

/-- A search passes over what does not have the word, up to a character that is not in it. -/
theorem cut?_append_cons {word line : List Char} {x : Char} (hx : x ∉ word)
    (free : cut? word (line ++ [x]) = none) (rest : List Char) :
    cut? word (line ++ x :: rest) = (cut? word rest).map fun p => (line ++ x :: p.1, p.2) := by
  induction line with
  | nil =>
    have hword : word ≠ [] := by
      rintro rfl
      exact absurd free (by simp [cut?, List.isPrefixOf])
    have hhere : word.isPrefixOf (x :: rest) = false := by
      cases word with
      | nil => exact absurd rfl hword
      | cons c word =>
        rw [List.mem_cons, not_or] at hx
        simp [List.isPrefixOf, Ne.symm hx.1]
    rw [List.nil_append, cut?, hhere, if_neg Bool.false_ne_true]
    rfl
  | cons c line ih =>
    rw [List.cons_append, cut?] at free
    split at free
    · exact absurd free (by simp)
    · next hhere =>
      rw [List.cons_append, cut?, ← List.cons_append, isPrefixOf_line hx, List.cons_append,
        if_neg hhere, ih (Option.map_eq_none_iff.mp free), Option.map_map]
      rfl

/-- A search passes over lines without the word. -/
theorem cut?_line {word line : List Char} {x : Char} (hx : x ∉ word)
    (last : line.getLast? = some x) (free : cut? word line = none) (rest : List Char) :
    cut? word (line ++ rest) = (cut? word rest).map fun p => (line ++ p.1, p.2) := by
  obtain ⟨line, rfl⟩ := List.getLast?_eq_some_iff.mp last
  simpa using cut?_append_cons hx free rest

theorem cut?_skip {c : Char} {word before : List Char} (head : word.head? = some c)
    (h : c ∉ before) (rest : List Char) :
    cut? word (before ++ rest) = (cut? word rest).map fun p => (before ++ p.1, p.2) := by
  obtain ⟨word, rfl⟩ := List.head?_eq_some_iff.mp head
  induction before with
  | nil => simp
  | cons b before ih =>
    rw [List.mem_cons, not_or] at h
    have hhere : (c :: word).isPrefixOf (b :: (before ++ rest)) = false := by
      simp [List.isPrefixOf, h.1]
    rw [List.cons_append, cut?, hhere, if_neg Bool.false_ne_true, ih h.2, Option.map_map]
    rfl

theorem eq_of_cut? {word cs before rest : List Char} (h : cut? word cs = some (before, rest)) :
    before ++ (word ++ rest) = cs := by
  induction cs generalizing before with
  | nil =>
    rw [cut?] at h
    split at h
    · next hword =>
      obtain ⟨rfl, rfl⟩ := Prod.mk.inj (Option.some.inj h)
      rw [List.isEmpty_iff.mp hword]
      rfl
    · cases h
  | cons c cs ih =>
    rw [cut?] at h
    split at h
    · next hhere =>
      obtain ⟨rfl, rfl⟩ := Prod.mk.inj (Option.some.inj h)
      exact List.prefix_iff_eq_append.mp (List.isPrefixOf_iff_prefix.mp hhere)
    · obtain ⟨⟨before, rest⟩, hcut, hpair⟩ := Option.map_eq_some_iff.mp h
      obtain ⟨rfl, rfl⟩ := Prod.mk.inj hpair
      rw [List.cons_append, ih hcut]

theorem cut?_eq_none {c : Char} {word cs : List Char} (hword : c ∈ word) (h : c ∉ cs) :
    cut? word cs = none := by
  cases hcut : cut? word cs with
  | none => rfl
  | some found =>
    rw [← eq_of_cut? hcut] at h
    exact absurd (List.mem_append_right _ (List.mem_append_left _ hword)) h

/-- A search for `word` passes over `part`, whatever follows it. -/
def Passes (word part : List Char) : Prop :=
  ∀ rest, cut? word (part ++ rest) = (cut? word rest).map fun p => (part ++ p.1, p.2)

theorem Passes.append {word part more : List Char} (h : Passes word part)
    (hmore : Passes word more) : Passes word (part ++ more) := by
  intro rest
  rw [List.append_assoc, h, hmore, Option.map_map]
  simp only [Function.comp_def, List.append_assoc]

theorem Passes.flatten {word : List Char} {parts : List (List Char)}
    (h : ∀ part ∈ parts, Passes word part) : Passes word parts.flatten := by
  induction parts with
  | nil => exact fun rest => by simp
  | cons part parts ih =>
    rw [List.forall_mem_cons] at h
    exact h.1.append (ih h.2)

theorem Passes.cut?_behind {word before : List Char} (nonempty : word ≠ [])
    (h : Passes word before) (rest : List Char) :
    cut? word (before ++ (word ++ rest)) = some (before, rest) := by
  rw [h, cut?_self nonempty, Option.map_some, List.append_nil]

theorem cut?_isSome {word cs : List Char} (h : word <:+: cs) : (cut? word cs).isSome = true := by
  induction cs with
  | nil =>
    obtain rfl := List.eq_nil_of_infix_nil h
    rfl
  | cons c cs ih =>
    rw [cut?]
    split
    · rfl
    · next hhere =>
      rw [List.isPrefixOf_iff_prefix] at hhere
      rw [Option.isSome_map]
      exact ih ((List.infix_cons_iff.mp h).resolve_left hhere)

/-- What is found stays found when something follows the text. -/
theorem cut?_append {word cs before rest : List Char} (h : cut? word cs = some (before, rest))
    (more : List Char) : cut? word (cs ++ more) = some (before, rest ++ more) := by
  induction cs generalizing before with
  | nil =>
    rw [cut?] at h
    split at h
    · next hword =>
      obtain ⟨rfl, rfl⟩ := Prod.mk.inj (Option.some.inj h)
      obtain rfl := List.isEmpty_iff.mp hword
      cases more <;> rfl
    · cases h
  | cons c cs ih =>
    rw [cut?] at h
    split at h
    · next hhere =>
      obtain ⟨rfl, rfl⟩ := Prod.mk.inj (Option.some.inj h)
      have hstart := List.isPrefixOf_iff_prefix.mp hhere
      have hmore : word.isPrefixOf (c :: (cs ++ more)) = true :=
        List.isPrefixOf_iff_prefix.mpr (hstart.trans (List.prefix_append (c :: cs) more))
      rw [List.cons_append, cut?, if_pos hmore, ← List.cons_append,
        List.drop_append_of_le_length hstart.length_le]
    · next hhere =>
      obtain ⟨⟨before, rest⟩, hcut, hpair⟩ := Option.map_eq_some_iff.mp h
      obtain ⟨rfl, rfl⟩ := Prod.mk.inj hpair
      -- The word stands further on in the text, so it is too short to end in what follows.
      have hlength : word.length ≤ (c :: cs).length := by
        rw [← eq_of_cut? hcut]
        simp only [List.length_cons, List.length_append]
        omega
      have hnot : ¬word.isPrefixOf (c :: (cs ++ more)) = true := by
        rw [List.isPrefixOf_iff_prefix] at hhere ⊢
        exact fun hword => hhere (List.prefix_of_prefix_length_le hword
          (List.prefix_append (c :: cs) more) hlength)
      rw [List.cons_append, cut?, if_neg hnot, ih hcut]
      rfl

theorem block?_append {first last cs block rest : List Char}
    (h : block? first last cs = some (block, rest)) (more : List Char) :
    block? first last (cs ++ more) = some (block, rest ++ more) := by
  obtain ⟨behind, hfirst, hlast⟩ := Option.bind_eq_some_iff.mp h
  rw [after?_eq_cut?] at hfirst
  obtain ⟨⟨before, behind'⟩, hcut, rfl⟩ := Option.map_eq_some_iff.mp hfirst
  rw [block?, after?_eq_cut?, cut?_append hcut, Option.map_some, Option.bind_some,
    cut?_append hlast]

/-! ## Strings of digits -/

theorem hexChar_digit : ∀ n < 16, digit? (hexChar n) = some (UInt8.ofNat n) := by decide

/-- A character that does not start a word or a string. -/
def Plain (c : Char) : Prop := c ∉ ['b', 'e', '[', ']', '<']

instance (c : Char) : Decidable (Plain c) := inferInstanceAs (Decidable (c ∉ _))

theorem hexChar_plain : ∀ n < 16, Plain (hexChar n) := by decide

theorem hexDigits_plain (width n : Nat) : ∀ c ∈ hexDigits width n, Plain c := by
  induction width generalizing n with
  | zero => exact fun c hc => absurd hc List.not_mem_nil
  | succ width ih =>
    intro c hc
    rcases List.mem_append.mp hc with hc | hc
    · exact ih _ c hc
    · obtain rfl := List.mem_singleton.mp hc
      exact hexChar_plain _ (Nat.mod_lt _ (by decide))

/-- The values of a number's digits. -/
def digitValues : Nat → Nat → List UInt8
  | 0, _ => []
  | width + 1, n => digitValues width (n / 16) ++ [UInt8.ofNat (n % 16)]

theorem map_hexDigits (width n : Nat) :
    (hexDigits width n).map digit? = (digitValues width n).map some := by
  induction width generalizing n with
  | zero => rfl
  | succ width ih =>
    rw [hexDigits, digitValues, List.map_append, List.map_append, ih, List.map_singleton,
      List.map_singleton, hexChar_digit _ (Nat.mod_lt _ (by decide))]

/-- A number in bytes, the highest one first. -/
def bigEndian : Nat → Nat → Bytes
  | 0, _ => []
  | width + 1, n => bigEndian width (n / 256) ++ [UInt8.ofNat n]

theorem digitBytes_digitValues (width n : Nat) (rest : List UInt8) :
    digitBytes (digitValues (2 * width) n ++ rest) = bigEndian width n ++ digitBytes rest := by
  induction width generalizing n rest with
  | zero => rfl
  | succ width ih =>
    have hbyte : UInt8.ofNat (n / 16 % 16) * 16 + UInt8.ofNat (n % 16) = UInt8.ofNat n := by
      apply UInt8.toNat_inj.mp
      simp only [UInt8.toNat_add, UInt8.toNat_mul, UInt8.toNat_ofNat', UInt8.reduceToNat]
      omega
    have hhigher : n / 16 / 16 = n / 256 := Nat.div_div_eq_div_mul n 16 16
    rw [Nat.mul_succ, digitValues, digitValues, List.append_assoc, List.append_assoc, ih, hhigher,
      List.singleton_append, List.singleton_append, digitBytes, hbyte, bigEndian, List.append_assoc,
      List.singleton_append]

theorem bigEndian_two (n : Nat) : bigEndian 2 n = Utf16.unitBytes n := rfl

theorem digitBytes_number (width n : Nat) : digitBytes (digitValues (2 * width) n) = bigEndian width n := by
  have hbytes := digitBytes_digitValues width n []
  rwa [List.append_nil, digitBytes, List.append_nil] at hbytes

theorem codeValue_bigEndian {width : Nat} (small : width ≤ 4) (n : Nat) :
    codeValue (bigEndian width n) = n % Nat.pow 256 width := by
  induction width generalizing n with
  | zero => exact (Nat.mod_one n).symm
  | succ width ih =>
    have hpos : 0 < Nat.pow 256 width := Nat.pow_pos (by decide)
    have hpow : Nat.pow 256 width ≤ Nat.pow 256 3 := Nat.pow_le_pow_right (by decide) (by omega)
    have hlow : n / 256 % Nat.pow 256 width < 16777216 := Nat.lt_of_lt_of_le (Nat.mod_lt _ hpos) hpow
    have hsplit : n % Nat.pow 256 (width + 1) =
        n / 256 % Nat.pow 256 width * 256 + n % 256 := by
      have hsucc : Nat.pow 256 (width + 1) = 256 * Nat.pow 256 width := Nat.pow_succ'
      rw [hsucc, Nat.mod_mul, Nat.mul_comm 256, Nat.add_comm]
    calc codeValue (bigEndian (width + 1) n)
        = (codeValue (bigEndian width (n / 256)) * 256 + (UInt8.ofNat n).toNat) % 0x100000000 := by
          rw [codeValue, bigEndian, List.foldl_append]
          rfl
      _ = n % Nat.pow 256 (width + 1) := by
          rw [ih (by omega), hsplit, UInt8.toNat_ofNat']
          omega

/-- What may stand in a string: digits and blanks. -/
def InString (c : Char) : Prop := (digit? c).isSome = true ∨ Text.isBlank c = true

instance (c : Char) : Decidable (InString c) := inferInstanceAs (Decidable (_ ∨ _))

theorem hexBody?_append {cs : List Char} (h : ∀ c ∈ cs, InString c) (done : List UInt8)
    (rest : List Char) :
    hexBody? done (cs ++ '>' :: rest) = some (done.reverse ++ cs.filterMap digit?) := by
  induction cs generalizing done with
  | nil => rw [List.nil_append, hexBody?, if_pos rfl, List.filterMap_nil, List.append_nil]
  | cons c cs ih =>
    rw [List.forall_mem_cons] at h
    have hc : c ≠ '>' := by
      rintro rfl
      exact absurd h.1 (by decide)
    rw [List.cons_append, hexBody?, if_neg hc]
    cases hdigit : digit? c with
    | some d =>
      simp only [ih h.2, List.filterMap_cons_some hdigit, List.reverse_cons, List.append_assoc,
        List.singleton_append]
    | none =>
      have hblank : Text.isBlank c = true := h.1.resolve_left (by simp [hdigit])
      simp only [hblank, if_true, ih h.2, List.filterMap_cons_none hdigit]

theorem tokens_skip {before : List Char} (other : ∀ c ∈ before, c ∉ ['[', ']', '<'])
    (rest : List Char) : tokens (before ++ rest) = tokens rest := by
  induction before with
  | nil => rfl
  | cons c before ih =>
    rw [List.forall_mem_cons] at other
    have hc := other.1
    simp only [List.mem_cons, List.not_mem_nil, or_false, not_or] at hc
    rw [List.cons_append, tokens, if_neg hc.1, if_neg hc.2.1, if_neg hc.2.2, ih other.2]

theorem tokens_cons {c : Char} (other : c ∉ ['[', ']', '<']) (rest : List Char) :
    tokens (c :: rest) = tokens rest :=
  tokens_skip (List.forall_mem_singleton.mpr other) rest

/-- A string is read as the bytes of its digits. -/
theorem tokens_inString {cs : List Char} (h : ∀ c ∈ cs, InString c) (rest : List Char) :
    tokens ('<' :: (cs ++ '>' :: rest)) = .hex (digitBytes (cs.filterMap digit?)) :: tokens rest := by
  have hother : ∀ c ∈ cs, c ∉ ['[', ']', '<'] := by
    intro c hc hmem
    simp only [List.mem_cons, List.not_mem_nil, or_false] at hmem
    rcases hmem with rfl | rfl | rfl <;> exact absurd (h _ hc) (by decide)
  have hrest : tokens (cs ++ '>' :: rest) = tokens rest := by
    rw [tokens_skip hother, tokens_cons (by decide)]
  rw [tokens, if_neg (by decide), if_neg (by decide), if_pos rfl, hexBody?_append h, hrest]
  rfl

/-- The inside of a string that writes bytes. -/
structure Writes (cs : List Char) (bytes : Bytes) : Prop where
  digits : ∃ ds, cs.map digit? = ds.map some ∧ digitBytes ds = bytes
  plain : ∀ c ∈ cs, Plain c

theorem writes_number (width n : Nat) : Writes (hexDigits (2 * width) n) (bigEndian width n) :=
  ⟨⟨_, map_hexDigits _ n, digitBytes_number width n⟩, hexDigits_plain _ n⟩

theorem inString_of_digits {cs : List Char} {digits : List UInt8}
    (h : cs.map digit? = digits.map some) : ∀ c ∈ cs, InString c := by
  intro c hc
  obtain ⟨d, -, hd⟩ := List.mem_map.mp (h ▸ List.mem_map_of_mem hc)
  exact Or.inl (by rw [← hd, Option.isSome_some])

theorem filterMap_of_digits {cs : List Char} {digits : List UInt8}
    (h : cs.map digit? = digits.map some) : cs.filterMap digit? = digits :=
  calc cs.filterMap digit? = (cs.map digit?).filterMap id := by rw [List.filterMap_map]; rfl
    _ = digits := by rw [h, List.filterMap_map]; exact List.filterMap_some

theorem Writes.tokens {cs : List Char} {bytes : Bytes} (h : Writes cs bytes) (rest : List Char) :
    tokens ('<' :: (cs ++ '>' :: rest)) = .hex bytes :: ToUnicode.tokens rest := by
  obtain ⟨digits, hdigits, rfl⟩ := h.digits
  rw [tokens_inString (inString_of_digits hdigits), filterMap_of_digits hdigits]

/-! ## Lines of strings -/

/-- Strings with a blank between them, as a line. -/
def stringLine : List (List Char) → List Char
  | [] => ['\n']
  | [cs] => '<' :: (cs ++ ['>', '\n'])
  | cs :: css => '<' :: (cs ++ '>' :: ' ' :: stringLine css)

theorem tokens_stringLine {strings : List (List Char)} {bytes : List Bytes}
    (h : List.Forall₂ Writes strings bytes) (rest : List Char) :
    tokens (stringLine strings ++ rest) = bytes.map .hex ++ tokens rest := by
  induction strings generalizing bytes with
  | nil =>
    cases h
    exact tokens_cons (by decide) rest
  | cons cs css ih =>
    cases h with
    | @cons _ b _ bs hcs hcss =>
      cases css with
      | nil =>
        cases hcss
        have hline : stringLine [cs] ++ rest = '<' :: (cs ++ '>' :: '\n' :: rest) := by
          simp [stringLine]
        rw [hline, hcs.tokens, tokens_cons (by decide)]
        rfl
      | cons ds css =>
        have hline : stringLine (cs :: ds :: css) ++ rest =
            '<' :: (cs ++ '>' :: ' ' :: (stringLine (ds :: css) ++ rest)) := by
          simp [stringLine]
        rw [hline, hcs.tokens, tokens_cons (by decide), ih hcss]
        rfl

/-- Lines of which none has a letter that starts a word for blocks. -/
def Wordless (lines : List (List Char)) : Prop := ∀ line ∈ lines, 'b' ∉ line ∧ 'e' ∉ line

theorem mem_stringLine {strings : List (List Char)} {c : Char} (h : c ∈ stringLine strings) :
    c ∈ ['<', '>', ' ', '\n'] ∨ ∃ cs ∈ strings, c ∈ cs := by
  induction strings with
  | nil =>
    obtain rfl := List.mem_singleton.mp h
    exact Or.inl (by decide)
  | cons cs css ih =>
    cases css with
    | nil =>
      simp only [stringLine, List.mem_cons, List.mem_append, List.not_mem_nil, or_false] at h
      rcases h with rfl | h | rfl | rfl
      · exact Or.inl (by decide)
      · exact Or.inr ⟨cs, List.mem_singleton_self cs, h⟩
      · exact Or.inl (by decide)
      · exact Or.inl (by decide)
    | cons ds css =>
      rw [stringLine, List.mem_cons, List.mem_append, List.mem_cons, List.mem_cons] at h
      · rcases h with rfl | h | rfl | rfl | h
        · exact Or.inl (by decide)
        · exact Or.inr ⟨cs, List.mem_cons_self, h⟩
        · exact Or.inl (by decide)
        · exact Or.inl (by decide)
        · exact (ih h).imp_right fun ⟨es, hes, hc⟩ => ⟨es, List.mem_cons_of_mem _ hes, hc⟩
      · simp

theorem plain_of_writes {strings : List (List Char)} {bytes : List Bytes}
    (h : List.Forall₂ Writes strings bytes) : ∀ cs ∈ strings, ∀ c ∈ cs, Plain c := by
  induction h with
  | nil => exact fun cs hcs => absurd hcs List.not_mem_nil
  | cons hcs _ ih => exact List.forall_mem_cons.mpr ⟨hcs.plain, ih⟩

theorem stringLine_wordless {α : Type} {strings : α → List (List Char)}
    {bytes : α → List Bytes} (h : ∀ a, List.Forall₂ Writes (strings a) (bytes a)) (items : List α) :
    Wordless (items.map fun a => stringLine (strings a)) := by
  intro line hline
  obtain ⟨a, -, rfl⟩ := List.mem_map.mp hline
  have hplain : ∀ c ∈ stringLine (strings a), c ≠ 'b' ∧ c ≠ 'e' := by
    intro c hc
    rcases mem_stringLine hc with hc | ⟨cs, hcs, hc⟩
    · simp only [List.mem_cons, List.not_mem_nil, or_false] at hc
      rcases hc with rfl | rfl | rfl | rfl <;> decide
    · have hc := plain_of_writes (h a) cs hcs c hc
      simp only [Plain, List.mem_cons, not_or] at hc
      exact ⟨hc.1, hc.2.1⟩
  exact ⟨fun hb => (hplain 'b' hb).1 rfl, fun he => (hplain 'e' he).2 rfl⟩

theorem tokens_lines {α : Type} {line : α → List Char} {ts : α → List Token}
    (h : ∀ a rest, tokens (line a ++ rest) = ts a ++ tokens rest) (items : List α) :
    tokens ('\n' :: (items.map line).flatten) = items.flatMap ts := by
  have hlines : tokens (items.map line).flatten = items.flatMap ts := by
    induction items with
    | nil => rfl
    | cons a items ih => rw [List.map_cons, List.flatten_cons, h, ih, List.flatMap_cons]
  rw [tokens_cons (by decide), hlines]

theorem tokens_stringLines {α : Type} {strings : α → List (List Char)} {bytes : α → List Bytes}
    (h : ∀ a, List.Forall₂ Writes (strings a) (bytes a)) (items : List α) :
    tokens ('\n' :: (items.map fun a => stringLine (strings a)).flatten) =
      items.flatMap fun a => (bytes a).map .hex :=
  tokens_lines (fun a => tokens_stringLine (h a)) items

theorem charEntries_pairs {α : Type} (code text : α → Bytes) (items : List α) :
    charEntries (items.flatMap fun a => [.hex (code a), .hex (text a)]) =
      items.map fun a => (codeValue (code a), unitsText (text a)) := by
  induction items with
  | nil => rfl
  | cons a items ih =>
    rw [List.flatMap_cons, List.cons_append, List.singleton_append, charEntries, ih, List.map_cons]

/-! ## Blocks -/

/-- The words around the lines of a block. -/
def blockBegin (kind : String) : List Char := "begin".toList ++ kind.toList

def blockEnd (kind : String) : List Char := "end".toList ++ kind.toList

section Blocks

variable {kind : String}

theorem blocks_line (single : '\n' ∉ blockBegin kind) {line : List Char}
    (last : line.getLast? = some '\n') (free : cut? (blockBegin kind) line = none) (fuel : Nat)
    (text : List Char) : blocks (blockBegin kind) (blockEnd kind) fuel (line ++ text) =
      blocks (blockBegin kind) (blockEnd kind) fuel text := by
  cases fuel with
  | zero => rfl
  | succ fuel =>
    have hblock : block? (blockBegin kind) (blockEnd kind) (line ++ text) =
        block? (blockBegin kind) (blockEnd kind) text := by
      rw [block?, block?, after?_eq_cut?, after?_eq_cut?, cut?_line single last free,
        Option.map_map]
      rfl
    rw [blocks, blocks, hblock]

theorem blocks_eq_nil {text : List Char} (free : cut? (blockBegin kind) text = none) (fuel : Nat) :
    blocks (blockBegin kind) (blockEnd kind) fuel text = [] := by
  have hnone : block? (blockBegin kind) (blockEnd kind) text = none := by
    rw [block?, after?_eq_cut?, free]
    rfl
  cases fuel with
  | zero => rfl
  | succ fuel => rw [blocks, hnone]

/-- Lines as a block, with what comes behind it. -/
def blockOf (kind : String) (count : Nat) (lines rest : List Char) : List Char :=
  ((toString count).toList ++ [' ']) ++
    (blockBegin kind ++ ('\n' :: lines ++ (blockEnd kind ++ '\n' :: rest)))

theorem linesInBlocks_nil (kind : String) : linesInBlocks kind [] = [] := by
  rw [linesInBlocks]
  rfl

theorem linesInBlocks_cons {lines : List (List Char)} (h : lines.isEmpty = false) (rest : List Char) :
    linesInBlocks kind lines ++ rest =
      blockOf kind (lines.take blockSize).length (lines.take blockSize).flatten
        (linesInBlocks kind (lines.drop blockSize) ++ rest) := by
  have hbegin : blockBegin kind = "begin".toList ++ kind.toList := rfl
  have hend : blockEnd kind = "end".toList ++ kind.toList := rfl
  rw [linesInBlocks, h, if_neg Bool.false_ne_true, blockOf, hbegin, hend]
  simp only [List.append_assoc, List.cons_append, List.nil_append]

theorem count_plain (count : Nat) : 'b' ∉ (toString count).toList ++ [' '] := by
  rw [List.mem_append, not_or]
  refine ⟨fun h => ?_, by decide⟩
  exact absurd (Nat.isDigit_of_mem_toDigits (by decide) (by decide) (Nat.toList_repr ▸ h))
    (by decide)

theorem head?_blockBegin : (blockBegin kind).head? = some 'b' := rfl

theorem head?_blockEnd : (blockEnd kind).head? = some 'e' := rfl

theorem blockBegin_ne_nil : blockBegin kind ≠ [] := by simp [blockBegin]

theorem blockEnd_ne_nil : blockEnd kind ≠ [] := by simp [blockEnd]

theorem block?_blockOf (count : Nat) {lines : List Char} (passes : Passes (blockEnd kind) lines)
    (rest : List Char) :
    block? (blockBegin kind) (blockEnd kind) (blockOf kind count lines rest) =
      some ('\n' :: lines, '\n' :: rest) := by
  have hcount : Passes (blockBegin kind) ((toString count).toList ++ [' ']) :=
    cut?_skip head?_blockBegin (count_plain count)
  have hnewline : Passes (blockEnd kind) ['\n'] := cut?_skip head?_blockEnd (by decide)
  rw [block?, blockOf, after?_eq_cut?, hcount.cut?_behind blockBegin_ne_nil, Option.map_some,
    Option.bind_some]
  exact (hnewline.append passes).cut?_behind blockEnd_ne_nil _

theorem Wordless.passes {lines : List (List Char)} (h : Wordless lines) (kind : String) :
    ∀ line ∈ lines, Passes (blockBegin kind) line ∧ Passes (blockEnd kind) line :=
  fun line hline => ⟨cut?_skip head?_blockBegin (h line hline).1,
    cut?_skip head?_blockEnd (h line hline).2⟩

/-- Lines in blocks are read block by block: what is read of each block's lines is read of all. -/
theorem flatMap_blocks {α β : Type} (single : '\n' ∉ blockBegin kind) {line : α → List Char}
    {read : List Char → List β} {entries : α → List β} {items : List α}
    (passes : ∀ a ∈ items, Passes (blockEnd kind) (line a))
    (hread : ∀ part, part ⊆ items → read ('\n' :: (part.map line).flatten) = part.flatMap entries)
    {rest : List Char} (free : cut? (blockBegin kind) rest = none) {fuel : Nat}
    (enough : (linesInBlocks kind (items.map line)).length ≤ fuel) :
    (blocks (blockBegin kind) (blockEnd kind) fuel
      (linesInBlocks kind (items.map line) ++ rest)).flatMap read = items.flatMap entries := by
  by_cases hempty : items = []
  · subst hempty
    rw [List.map_nil, linesInBlocks_nil, List.nil_append, blocks_eq_nil free]
    rfl
  · have hlines : (items.map line).isEmpty = false := by simpa using hempty
    have hblock := @linesInBlocks_cons kind _ hlines
    simp only [← List.map_take, ← List.map_drop] at hblock
    have hpasses : Passes (blockEnd kind) ((items.take blockSize).map line).flatten :=
      .flatten (List.forall_mem_map.mpr fun a ha => passes a (List.mem_of_mem_take ha))
    have hshorter : (linesInBlocks kind ((items.drop blockSize).map line)).length + 1 ≤
        (linesInBlocks kind (items.map line)).length := by
      have hlength := congrArg List.length (hblock [])
      simp only [blockOf, List.append_nil, List.length_append, List.length_cons] at hlength
      omega
    obtain ⟨fuel, rfl⟩ := Nat.exists_eq_add_of_le' (Nat.le_trans (Nat.le_add_left 1 _)
      (Nat.le_trans hshorter enough))
    have hfewer : (items.drop blockSize).length < items.length := by
      have := List.length_pos_of_ne_nil hempty
      rw [List.length_drop, blockSize]
      omega
    have ih := flatMap_blocks single (fun a ha => passes a (List.mem_of_mem_drop ha))
      (fun part hpart => hread part fun a ha => List.mem_of_mem_drop (hpart ha)) free
      (Nat.le_of_succ_le_succ (Nat.le_trans hshorter enough))
    have hnewline : cut? (blockBegin kind) ['\n'] = none := by
      have hskip := @cut?_skip 'b' (blockBegin kind) ['\n'] head?_blockBegin (by decide) []
      rw [List.append_nil] at hskip
      rw [hskip, cut?]
      rfl
    rw [hblock, blocks, block?_blockOf _ hpasses]
    simp only [List.flatMap_cons]
    rw [hread _ (List.take_subset _ _), ← List.singleton_append,
      blocks_line single rfl hnewline, ih, ← List.flatMap_append, List.take_append_drop]
termination_by items.length
decreasing_by exact hfewer

/-- A word that is not in the lines around blocks is not found in blocks either. -/
theorem cut?_linesInBlocks {word : List Char} (head : word.head? = some 'b') (single : '\n' ∉ word)
    (hbegin : cut? word (blockBegin kind ++ ['\n']) = none)
    (hend : cut? word (blockEnd kind ++ ['\n']) = none) {rest : List Char}
    (free : cut? word rest = none) (lines : List (List Char))
    (passes : ∀ line ∈ lines, Passes word line) :
    cut? word (linesInBlocks kind lines ++ rest) = none := by
  by_cases hempty : lines = []
  · rw [hempty, linesInBlocks_nil, List.nil_append, free]
  · have hlines : lines.isEmpty = false := by simpa using hempty
    have hpasses : Passes word (lines.take blockSize).flatten :=
      .flatten fun line hline => passes line (List.mem_of_mem_take hline)
    have hfewer : (lines.drop blockSize).length < lines.length := by
      have := List.length_pos_of_ne_nil hempty
      rw [List.length_drop, blockSize]
      omega
    have hrest := cut?_linesInBlocks head single hbegin hend free (lines.drop blockSize)
      fun line hline => passes line (List.mem_of_mem_drop hline)
    rw [linesInBlocks_cons hlines, blockOf, cut?_skip head (count_plain _), List.cons_append,
      cut?_append_cons single hbegin, hpasses, cut?_append_cons single hend, hrest]
    rfl
termination_by lines.length
decreasing_by exact hfewer

end Blocks

/-! ## Around the blocks -/

/-- What stands in front of the blocks. -/
def cmapIntro : String := "/CIDInit /ProcSet findresource begin\n12 dict begin\nbegincmap\n"

def cmapSystem : String :=
  "/CIDSystemInfo << /Registry (Adobe) /Ordering (UCS) /Supplement 0 >> def\n"

def cmapName : String :=
  "/CMapName /Adobe-Identity-UCS def\n/CMapType 2 def\n1 begincodespacerange\n"

/-- The codes of a number of bytes. -/
def cmapCodes (codeBytes : Nat) : List Char :=
  '<' :: List.replicate (2 * codeBytes) '0' ++ '>' :: ' ' :: '<' ::
    List.replicate (2 * codeBytes) 'F' ++ '>' :: '\n' :: "endcodespacerange\n".toList

def cmapHead (codeBytes : Nat) : List Char :=
  cmapIntro.toList ++ (cmapSystem.toList ++ (cmapName.toList ++ cmapCodes codeBytes))

/-- What stands behind the blocks. -/
def cmapTail : List Char :=
  "endcmap\nCMapName currentdict /CMap defineresource pop\nend\nend\n".toList

theorem wrap_eq (codeBytes : Nat) (body : List Char) :
    wrap codeBytes body = cmapHead codeBytes ++ (body ++ cmapTail) := by
  have hsplit : wrap codeBytes body = (cmapIntro ++ cmapSystem ++ cmapName).toList ++
      '<' :: List.replicate (2 * codeBytes) '0' ++ '>' :: ' ' :: '<' ::
      List.replicate (2 * codeBytes) 'F' ++ '>' :: '\n' :: "endcodespacerange\n".toList ++ body ++
      cmapTail := rfl
  rw [hsplit, String.toList_append, String.toList_append, cmapHead, cmapCodes]
  simp only [List.append_assoc, List.cons_append]

/-- The words that are looked for in a CMap. -/
structure Head (codeBytes : Nat) (head : List Char) : Prop where
  isCMap : "begincmap".toList <:+: head
  ends : head.getLast? = some '\n'
  noChars : cut? (blockBegin "bfchar") head = none
  noRanges : cut? (blockBegin "bfrange") head = none
  codes : codespaceBytes? head = some codeBytes

theorem head_cmapHead : ∀ codeBytes, 1 ≤ codeBytes → codeBytes ≤ 4 →
    Head codeBytes (cmapHead codeBytes) := by
  have hintro : cmapIntro.toList = _ := toList_literal rfl
  have hsystem : cmapSystem.toList = _ := toList_literal rfl
  have hname : cmapName.toList = _ := toList_literal rfl
  have hend : "endcodespacerange\n".toList = _ := toList_literal rfl
  intro codeBytes low high
  rw [cmapHead, cmapCodes, hintro, hsystem, hname, hend]
  obtain rfl | rfl | rfl | rfl : codeBytes = 1 ∨ codeBytes = 2 ∨ codeBytes = 3 ∨ codeBytes = 4 := by
    omega
  all_goals constructor <;> decide +kernel

theorem cmapTail_free : cut? (blockBegin "bfchar") cmapTail = none ∧
    cut? (blockBegin "bfrange") cmapTail = none := by
  have htail : cmapTail = _ := toList_literal rfl
  rw [htail]
  decide +kernel

/-! ## Reading -/

theorem textEntries_eq (text : List Char) : textEntries text =
    (blocks (blockBegin "bfchar") (blockEnd "bfchar") text.length text).flatMap
      (fun block => charEntries (tokens block)) ++
    (blocks (blockBegin "bfrange") (blockEnd "bfrange") text.length text).flatMap
      (fun block => rangeEntries (tokens block)) := by
  have hchars : blockBegin "bfchar" = "beginbfchar".toList ∧
      blockEnd "bfchar" = "endbfchar".toList := by decide
  have hranges : blockBegin "bfrange" = "beginbfrange".toList ∧
      blockEnd "bfrange" = "endbfrange".toList := by decide
  rw [textEntries, blockTokens, blockTokens, hchars.1, hchars.2, hranges.1, hranges.2,
    List.flatMap_map, List.flatMap_map]

theorem read_head {codeBytes : Nat} (low : 1 ≤ codeBytes) (high : codeBytes ≤ 4)
    {head : List Char} (hhead : Head codeBytes head) (rest : List Char) :
    read (utf8 (String.ofList (head ++ rest))) =
      .ok ((ToUnicode.mk codeBytes ∅).insertAll (textEntries (head ++ rest))) := by
  have hcmap : isCMap (head ++ rest) = true := by
    rw [isCMap, after?_eq_cut?, Option.isSome_map, cut?_isSome, Bool.true_or]
    exact hhead.isCMap.trans (List.prefix_append _ _).isInfix
  have hcodes : codespaceBytes? (head ++ rest) = some codeBytes := by
    obtain ⟨⟨block, behind⟩, hblock, htokens⟩ := Option.bind_eq_some_iff.mp hhead.codes
    rw [codespaceBytes?, block?_append hblock]
    exact htokens
  have hempty : empty codeBytes = ToUnicode.mk codeBytes ∅ := by
    rw [empty, Nat.min_eq_right high, Nat.max_eq_right low]
  rw [read, Utf8.decodeLossy_utf8, String.toList_ofList]
  simp only [hcmap, if_true, hcodes, Option.getD_some, hempty]

/-- The text of a CMap whose blocks are all of one kind. -/
def blocksText (codeBytes : Nat) (kind : String) (lines : List (List Char)) : List Char :=
  cmapHead codeBytes ++ (linesInBlocks kind lines ++ cmapTail)

theorem read_wrap {codeBytes : Nat} (low : 1 ≤ codeBytes) (high : codeBytes ≤ 4) (kind : String)
    (lines : List (List Char)) :
    read (utf8 (String.ofList (wrap codeBytes (linesInBlocks kind lines)))) =
      .ok ((ToUnicode.mk codeBytes ∅).insertAll (textEntries (blocksText codeBytes kind lines))) := by
  rw [wrap_eq, read_head low high (head_cmapHead codeBytes low high), blocksText]

section OneKind

variable {codeBytes : Nat} {α : Type} {line : α → List Char} {entries : α → List (Nat × String)}
  {items : List α}

theorem flatMap_blocksText {kind : String} {read : List Char → List (Nat × String)}
    (ends : (cmapHead codeBytes).getLast? = some '\n') (single : '\n' ∉ blockBegin kind)
    (noHead : cut? (blockBegin kind) (cmapHead codeBytes) = none)
    (noTail : cut? (blockBegin kind) cmapTail = none)
    (passes : ∀ a ∈ items, Passes (blockEnd kind) (line a))
    (hread : ∀ part, part ⊆ items →
      read ('\n' :: (part.map line).flatten) = part.flatMap entries) :
    (blocks (blockBegin kind) (blockEnd kind) (blocksText codeBytes kind (items.map line)).length
      (blocksText codeBytes kind (items.map line))).flatMap read = items.flatMap entries := by
  have henough : (linesInBlocks kind (items.map line)).length ≤
      (blocksText codeBytes kind (items.map line)).length := by
    simp only [blocksText, List.length_append]
    omega
  revert henough
  generalize (blocksText codeBytes kind (items.map line)).length = fuel
  intro henough
  rw [blocksText, blocks_line single ends noHead]
  exact flatMap_blocks single passes hread noTail henough

theorem textEntries_chars (head : Head codeBytes (cmapHead codeBytes))
    (passes : ∀ a ∈ items, Passes (blockEnd "bfchar") (line a) ∧
      Passes (blockBegin "bfrange") (line a))
    (hread : ∀ part, part ⊆ items →
      charEntries (tokens ('\n' :: (part.map line).flatten)) = part.flatMap entries) :
    textEntries (blocksText codeBytes "bfchar" (items.map line)) = items.flatMap entries := by
  obtain ⟨hchars, hranges⟩ := cmapTail_free
  have hnone : cut? (blockBegin "bfrange") (blocksText codeBytes "bfchar" (items.map line)) = none := by
    rw [blocksText, cut?_line (by decide) head.ends head.noRanges,
      cut?_linesInBlocks rfl (by decide) (by decide) (by decide) hranges _
        (List.forall_mem_map.mpr fun a ha => (passes a ha).2)]
    rfl
  rw [textEntries_eq, blocks_eq_nil hnone, List.flatMap_nil, List.append_nil,
    flatMap_blocksText head.ends (by decide) head.noChars hchars (fun a ha => (passes a ha).1) hread]

theorem textEntries_ranges (head : Head codeBytes (cmapHead codeBytes))
    (passes : ∀ a ∈ items, Passes (blockBegin "bfchar") (line a) ∧
      Passes (blockEnd "bfrange") (line a))
    (hread : ∀ part, part ⊆ items →
      rangeEntries (tokens ('\n' :: (part.map line).flatten)) = part.flatMap entries) :
    textEntries (blocksText codeBytes "bfrange" (items.map line)) = items.flatMap entries := by
  obtain ⟨hchars, hranges⟩ := cmapTail_free
  have hnone : cut? (blockBegin "bfchar") (blocksText codeBytes "bfrange" (items.map line)) = none := by
    rw [blocksText, cut?_line (by decide) head.ends head.noChars,
      cut?_linesInBlocks rfl (by decide) (by decide) (by decide) hchars _
        (List.forall_mem_map.mpr fun a ha => (passes a ha).1)]
    rfl
  rw [textEntries_eq, blocks_eq_nil hnone, List.flatMap_nil, List.nil_append,
    flatMap_blocksText head.ends (by decide) head.noRanges hranges (fun a ha => (passes a ha).2) hread]

end OneKind

/-! ## Looking codes up -/

variable {entries : List (Nat × String)} {code : Nat}

theorem get?_insert (m : ToUnicode) (e : Nat × String) :
    (m.insert e.1 e.2).get? code = if e.1 = code then some e.2 else m.get? code := by
  rw [ToUnicode.insert, get?, Std.TreeMap.getElem?_insert]
  by_cases h : e.1 = code <;> simp [h, get?]

theorem get?_insertAll_of_ne (other : ∀ e ∈ entries, e.1 ≠ code) (m : ToUnicode) :
    (m.insertAll entries).get? code = m.get? code := by
  induction entries generalizing m with
  | nil => rfl
  | cons e entries ih =>
    rw [List.forall_mem_cons] at other
    calc (m.insertAll (e :: entries)).get? code
        = ((m.insert e.1 e.2).insertAll entries).get? code := rfl
      _ = (m.insert e.1 e.2).get? code := ih other.2 _
      _ = m.get? code := by rw [get?_insert, if_neg other.1]

/-- Entries that agree on a code give it their text. -/
theorem get?_insertAll {text : String} (same : ∀ e ∈ entries, e.1 = code → e.2 = text)
    (m : ToUnicode) (found : m.get? code = some text ∨ ∃ e ∈ entries, e.1 = code) :
    (m.insertAll entries).get? code = some text := by
  induction entries generalizing m with
  | nil => simpa [insertAll] using found
  | cons e entries ih =>
    rw [List.forall_mem_cons] at same
    refine ih same.2 (m.insert e.1 e.2) ?_
    rw [get?_insert]
    by_cases he : e.1 = code
    · exact Or.inl (by rw [if_pos he, same.1 he])
    · rcases found with found | ⟨e', he', hcode⟩
      · exact Or.inl (by rw [if_neg he, found])
      · rcases List.mem_cons.mp he' with rfl | he'
        · exact absurd hcode he
        · exact Or.inr ⟨e', he', hcode⟩

theorem codeBytes_insertAll (m : ToUnicode) (entries : List (Nat × String)) :
    (m.insertAll entries).codeBytes = m.codeBytes := by
  induction entries generalizing m with
  | nil => rfl
  | cons e entries ih => exact ih (m.insert e.1 e.2)

theorem mem_toList (m : ToUnicode) (e : Nat × String) : e ∈ m.toList ↔ m.get? e.1 = some e.2 :=
  Std.TreeMap.mem_toList_iff_getElem?_eq_some

theorem get?_insertAll_filter (m base : ToUnicode) (keep : Nat → Bool) (code : Nat) :
    (base.insertAll (m.toList.filter fun e => keep e.1)).get? code =
      (if keep code then m.get? code else none).or (base.get? code) := by
  have hmem : ∀ e ∈ m.toList.filter fun e => keep e.1, keep e.1 = true ∧ m.get? e.1 = some e.2 :=
    fun e he => ⟨(List.mem_filter.mp he).2, (m.mem_toList e).mp (List.mem_filter.mp he).1⟩
  cases hcode : (if keep code then m.get? code else none) with
  | none =>
    refine get?_insertAll_of_ne (fun e he heq => ?_) base
    obtain ⟨hkeep, hget⟩ := hmem e he
    rw [← heq, if_pos hkeep, hget] at hcode
    cases hcode
  | some text =>
    obtain ⟨hkeep, hget⟩ : keep code = true ∧ m.get? code = some text := by
      split at hcode
      · next hkeep => exact ⟨hkeep, hcode⟩
      · cases hcode
    refine get?_insertAll (fun e he heq => ?_) base (Or.inr ⟨(code, text), ?_, rfl⟩)
    · rw [← heq, (hmem e he).2] at hget
      exact Option.some.inj hget
    · exact List.mem_filter.mpr ⟨(m.mem_toList _).mpr hget, hkeep⟩

end ToUnicode

end AccessiblePdf
