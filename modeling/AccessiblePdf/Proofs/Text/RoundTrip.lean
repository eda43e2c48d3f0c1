import AccessiblePdf.Object.TextString
import AccessiblePdf.Proofs.Text.Utf8

/-!
Texts that are written and read again. UTF-8 (`decodeLossy_utf8`), UTF-16 (`chars_encode`) and text
strings (`decode_encode`) all give back the text that was written, whatever its characters are.
-/
namespace AccessiblePdf

theorem char_bounds (c : Char) : c.toNat < 0xD800 ∨ (0xDFFF < c.toNat ∧ c.toNat < 0x110000) :=
  c.valid

namespace Utf8

/-! ## The bytes of a character -/

theorem tail_byte : ∀ n < 64, isTail (UInt8.ofNat (n + 0x80)) = true ∧
    tailBits (UInt8.ofNat (n + 0x80)) = n := by decide

theorem lead_two : ∀ n < 32, 2 ≤ n → ¬UInt8.ofNat (n + 0xC0) < 0x80 ∧
    (0xC2 ≤ UInt8.ofNat (n + 0xC0) && UInt8.ofNat (n + 0xC0) ≤ 0xDF) = true ∧
    (UInt8.ofNat (n + 0xC0) &&& 0x1F).toNat = n := by decide

theorem lead_three : ∀ n < 16, ¬UInt8.ofNat (n + 0xE0) < 0x80 ∧
    (0xC2 ≤ UInt8.ofNat (n + 0xE0) && UInt8.ofNat (n + 0xE0) ≤ 0xDF) = false ∧
    (0xE0 ≤ UInt8.ofNat (n + 0xE0) && UInt8.ofNat (n + 0xE0) ≤ 0xEF) = true ∧
    (UInt8.ofNat (n + 0xE0) &&& 0x0F).toNat = n := by decide

theorem lead_four : ∀ n < 5, ¬UInt8.ofNat (n + 0xF0) < 0x80 ∧
    (0xC2 ≤ UInt8.ofNat (n + 0xF0) && UInt8.ofNat (n + 0xF0) ≤ 0xDF) = false ∧
    (0xE0 ≤ UInt8.ofNat (n + 0xF0) && UInt8.ofNat (n + 0xF0) ≤ 0xEF) = false ∧
    (0xF0 ≤ UInt8.ofNat (n + 0xF0) && UInt8.ofNat (n + 0xF0) ≤ 0xF4) = true ∧
    (UInt8.ofNat (n + 0xF0) &&& 0x07).toNat = n := by decide

theorem second_three : ∀ n < 16, ∀ m < 64, (n = 0 → 32 ≤ m) → (n = 13 → m < 32) →
    secondOk (UInt8.ofNat (n + 0xE0)) (UInt8.ofNat (m + 0x80)) = true := by decide +kernel

theorem second_four : ∀ n < 5, ∀ m < 64, (n = 0 → 16 ≤ m) → (n = 4 → m < 16) →
    secondOk (UInt8.ofNat (n + 0xF0)) (UInt8.ofNat (m + 0x80)) = true := by decide +kernel

/-- A step reads the character that stands in front. -/
theorem step_utf8EncodeChar (c : Char) : ∃ lead more, String.utf8EncodeChar c = lead :: more ∧
    ∀ rest, step lead (more ++ rest) = (some c, more.length) := by
  have hbounds := char_bounds c
  have hchar : Char.ofNat c.toNat = c := Char.ofNat_toNat c
  generalize hv : c.toNat = v at hbounds hchar
  have hval : c.val.toNat = v := hv
  simp only [String.utf8EncodeChar, hval]
  split
  · next hone =>
    refine ⟨_, _, rfl, fun rest => ?_⟩
    have hbyte : (UInt8.ofNat v).toNat = v := by
      rw [UInt8.toNat_ofNat']
      omega
    have hlow : UInt8.ofNat v < 0x80 := UInt8.lt_iff_toNat_lt.mpr (by
      rw [hbyte]
      exact Nat.lt_succ_of_le hone)
    rw [step.eq_def, if_pos hlow, hbyte, hchar]
    rfl
  split
  · next hone htwo =>
    refine ⟨_, _, rfl, fun rest => ?_⟩
    obtain ⟨hlow, hlead, hbits⟩ := lead_two (v / 64 % 32) (by omega) (by omega)
    obtain ⟨htail, hbits'⟩ := tail_byte (v % 64) (by omega)
    have hsum : v / 64 % 32 * 64 + v % 64 = v := by omega
    rw [List.singleton_append, step.eq_def, if_neg hlow, if_pos hlead]
    simp only [htail, if_true, hbits, hbits', hsum, hchar]
    rfl
  split
  · next hone htwo hthree =>
    refine ⟨_, _, rfl, fun rest => ?_⟩
    obtain ⟨hlow, hother, hlead, hbits⟩ := lead_three (v / 4096 % 16) (by omega)
    obtain ⟨-, hbits₁⟩ := tail_byte (v / 64 % 64) (by omega)
    obtain ⟨htail, hbits₂⟩ := tail_byte (v % 64) (by omega)
    have hsecond := second_three (v / 4096 % 16) (by omega) (v / 64 % 64) (by omega) (by omega)
      (by omega)
    have hsum : (v / 4096 % 16 * 64 + v / 64 % 64) * 64 + v % 64 = v := by omega
    rw [List.cons_append, List.singleton_append, step.eq_def, if_neg hlow, hother,
      if_neg Bool.false_ne_true, if_pos hlead]
    simp only [hsecond, htail, Bool.not_true, Bool.false_eq_true, if_false, if_true, hbits, hbits₁,
      hbits₂, hsum, hchar]
    rfl
  · next hone htwo hthree =>
    refine ⟨_, _, rfl, fun rest => ?_⟩
    obtain ⟨hlow, hother, hother', hlead, hbits⟩ := lead_four (v / 262144 % 8) (by omega)
    obtain ⟨-, hbits₁⟩ := tail_byte (v / 4096 % 64) (by omega)
    obtain ⟨htail₂, hbits₂⟩ := tail_byte (v / 64 % 64) (by omega)
    obtain ⟨htail₃, hbits₃⟩ := tail_byte (v % 64) (by omega)
    have hsecond := second_four (v / 262144 % 8) (by omega) (v / 4096 % 64) (by omega) (by omega)
      (by omega)
    have hsum : ((v / 262144 % 8 * 64 + v / 4096 % 64) * 64 + v / 64 % 64) * 64 + v % 64 = v := by
      omega
    rw [List.cons_append, List.cons_append, List.singleton_append, step.eq_def, if_neg hlow, hother,
      if_neg Bool.false_ne_true, hother', if_neg Bool.false_ne_true, if_pos hlead]
    simp only [hsecond, htail₂, htail₃, Bool.not_true, Bool.false_eq_true, if_false, if_true, hbits,
      hbits₁, hbits₂, hbits₃, hsum, hchar]
    rfl

/-! ## The bytes of a text -/

theorem stepsOnto_encode (cs : List Char) (done : List (Option Char)) :
    stepsOnto done (encode cs) = (cs.map some).reverse ++ done := by
  induction cs generalizing done with
  | nil => rw [encode, List.flatMap_nil, stepsOnto]; rfl
  | cons c cs ih =>
    obtain ⟨lead, more, hbytes, hstep⟩ := step_utf8EncodeChar c
    rw [encode_cons, hbytes, List.cons_append, stepsOnto, hstep, List.drop_left, ih, List.map_cons,
      List.reverse_cons, List.append_assoc, List.singleton_append]

theorem steps_utf8 (s : String) : steps (utf8 s) = s.toList.map some := by
  rw [utf8_eq_flatMap, ← encode, steps, stepsOnto_encode, List.append_nil, List.reverse_reverse]

/-- A text is read as it was written. -/
theorem decodeLossy_utf8 (s : String) : decodeLossy (utf8 s) = s := by
  rw [decodeLossy, steps_utf8, List.map_map]
  have hid : (fun o : Option Char => o.getD replacement) ∘ some = id := rfl
  rw [hid, List.map_id, String.ofList_toList]

theorem decode?_utf8 (s : String) : decode? (utf8 s) = some s := by
  have hall : ∀ cs : List Char, (cs.map some).mapM id = some cs := by
    intro cs
    induction cs with
    | nil => rfl
    | cons c cs ih =>
      rw [List.map_cons, List.mapM_cons, ih]
      rfl
  rw [decode?, steps_utf8, hall, Option.map_some, String.ofList_toList]

end Utf8

namespace Utf16

/-! ## The code units of a character -/

theorem isSurrogate_eq_false {u : Nat} (h : u < 0xD800 ∨ 0xDFFF < u) :
    isHigh u = false ∧ isLow u = false := by
  simp only [isHigh, isLow, Bool.and_eq_false_iff, decide_eq_false_iff_not]
  omega

theorem unitsOfChar_lt (c : Char) : ∀ u ∈ unitsOfChar c, u < 65536 := by
  have hbounds := char_bounds c
  intro u hu
  rw [unitsOfChar] at hu
  split at hu <;> simp only [List.mem_cons, List.not_mem_nil, or_false] at hu <;> omega

/-- A character is read from its units, whatever follows them. -/
theorem chars_append (c : Char) (us : List Nat) : chars (unitsOfChar c ++ us) = c :: chars us := by
  have hbounds := char_bounds c
  have hchar : Char.ofNat c.toNat = c := Char.ofNat_toNat c
  rw [unitsOfChar]
  split
  · next hplane =>
    obtain ⟨hhigh, hlow⟩ := isSurrogate_eq_false (u := c.toNat) (by omega)
    cases us with
    | nil => simp [chars, hhigh, hlow, hchar]
    | cons v us => simp [chars, hhigh, hlow, hchar]
  · next hplane =>
    have hhigh : isHigh (0xD800 + (c.toNat - 0x10000) / 0x400) = true := by
      simp only [isHigh, Bool.and_eq_true, decide_eq_true_eq]
      omega
    have hlow : isLow (0xDC00 + (c.toNat - 0x10000) % 0x400) = true := by
      simp only [isLow, Bool.and_eq_true, decide_eq_true_eq]
      omega
    have hpair : pair (0xD800 + (c.toNat - 0x10000) / 0x400)
        (0xDC00 + (c.toNat - 0x10000) % 0x400) = c := by
      rw [pair, Nat.add_sub_cancel_left, Nat.add_sub_cancel_left]
      have hsum : 0x10000 + (c.toNat - 0x10000) / 0x400 * 0x400 + (c.toNat - 0x10000) % 0x400 =
          c.toNat := by omega
      rw [hsum, hchar]
    simp only [List.cons_append, List.nil_append, chars, hhigh, hlow, if_true, hpair]

theorem chars_flatMap (cs : List Char) : chars (cs.flatMap unitsOfChar) = cs := by
  induction cs with
  | nil => rfl
  | cons c cs ih => rw [List.flatMap_cons, chars_append, ih]

theorem decodeLossy_encode (s : String) : decodeLossy (encode s) = s := by
  rw [decodeLossy, encode, chars_flatMap, String.ofList_toList]

theorem encode_lt (s : String) : ∀ u ∈ encode s, u < 65536 := by
  intro u hu
  obtain ⟨c, -, hu⟩ := List.mem_flatMap.mp hu
  exact unitsOfChar_lt c u hu

/-! ## The bytes of code units -/

theorem unitBytes_value {u : Nat} (h : u < 65536) :
    (UInt8.ofNat (u / 256)).toNat * 256 + (UInt8.ofNat u).toNat = u := by
  simp only [UInt8.toNat_ofNat']
  omega

theorem unitsOfBytes_flatMap {us : List Nat} (h : ∀ u ∈ us, u < 65536) :
    unitsOfBytes (us.flatMap unitBytes) = us := by
  induction us with
  | nil => rfl
  | cons u us ih =>
    rw [List.forall_mem_cons] at h
    rw [List.flatMap_cons, unitBytes, List.cons_append, List.cons_append, List.nil_append,
      unitsOfBytes, unitBytes_value h.1, ih h.2]

end Utf16

namespace TextString

theorem utf8_ascii {s : String} (h : isAscii s = true) : ∀ b ∈ utf8 s, b.toNat < 128 := by
  intro b hb
  rw [utf8_eq_flatMap] at hb
  obtain ⟨c, hc, hb⟩ := List.mem_flatMap.mp hb
  have hascii : c.toNat < 128 := by simpa using List.all_eq_true.mp h c hc
  have hsize : c.utf8Size = 1 :=
    Char.utf8Size_eq_one_iff.mpr (UInt32.le_iff_toNat_le.mpr (Nat.le_of_lt_succ hascii))
  rw [String.utf8EncodeChar_eq_singleton hsize, List.mem_singleton] at hb
  rw [hb, UInt32.toNat_toUInt8]
  exact Nat.lt_of_le_of_lt (Nat.mod_le _ _) hascii

theorem decode_ascii {bs : Bytes} (ascii : ∀ b ∈ bs, b.toNat < 128) :
    decode bs = (Utf8.decode? bs).getD (latin1 bs) := by
  cases bs with
  | nil => rfl
  | cons b bs =>
    have hb : b.toNat < 128 := ascii b List.mem_cons_self
    have hmark : b ≠ 0xEF ∧ b ≠ 0xFE := by
      constructor <;> rintro rfl <;> exact absurd hb (by decide)
    have hdrop : dropUtf8Mark (b :: bs) = b :: bs := by
      simp [dropUtf8Mark, Bytes.dropLead?, Ne.symm hmark.1]
    rw [decode, hdrop]
    rintro rest ⟨⟩
    exact hmark.2 rfl

/-- A text string is read as the text that it was written for. -/
theorem decode_encode (s : String) : decode (encode s).1 = s := by
  rw [encode]
  split
  · next hascii => rw [decode_ascii (utf8_ascii hascii), Utf8.decode?_utf8, Option.getD_some]
  · rw [decode, Utf16.encodeBytes, Utf16.unitsOfBytes_flatMap (Utf16.encode_lt s),
      Utf16.decodeLossy_encode]

/-- Every text is written as a string that is read as this text, whatever its characters are. -/
theorem object_reads (s : String) : ∃ bytes style, object s = .string bytes style ∧ decode bytes = s :=
  ⟨(encode s).1, (encode s).2, rfl, decode_encode s⟩

end TextString

end AccessiblePdf
