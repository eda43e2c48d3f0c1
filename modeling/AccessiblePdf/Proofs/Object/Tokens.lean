import AccessiblePdf.Object.Reader
import AccessiblePdf.Object.Writer
import AccessiblePdf.Proofs.OrderedMap
import AccessiblePdf.Proofs.Text.RoundTrip
import Mathlib.Algebra.Group.Nat.Defs

/-!
Numbers, names and strings that are written and read again. What stands behind a token must not go on
with it (`Reader.Stops`). A real number is read as its digits say, without a point as a whole number
(`single_text`); a literal string is read if its parentheses, but for those with a backslash, are nested
(`Nested`), as the writer sees to it (`nested_marks`).
-/
namespace AccessiblePdf

theorem forall_byte {p : UInt8 → Prop} (h : ∀ n < 256, p (UInt8.ofNat n)) (b : UInt8) : p b := by
  simpa using h b.toNat b.toNat_lt

theorem forall_white {p : UInt8 → Prop} [DecidablePred p]
    (h : ([0, 9, 10, 12, 13, 32] : Bytes).all (fun b => p b) = true) (b : UInt8)
    (white : Byte.isWhite b = true) : p b := by
  apply of_decide_eq_true (List.all_eq_true.mp h b _)
  simpa [Byte.isWhite, or_assoc] using white

theorem forall_delimiter {p : UInt8 → Prop} [DecidablePred p]
    (h : ([0x28, 0x29, 0x3C, 0x3E, 0x5B, 0x5D, 0x7B, 0x7D, 0x2F, 0x25] : Bytes).all
      (fun b => p b) = true) (b : UInt8) (delimiter : Byte.isDelimiter b = true) : p b := by
  apply of_decide_eq_true (List.all_eq_true.mp h b _)
  simpa [Byte.isDelimiter, or_assoc] using delimiter

/-! ## Real numbers that can be read -/

namespace Decimal

/-- Whether a number is finite, and within 64 bits if it is written without a point. -/
def Reading.fits : Reading → Bool
  | .nan | .infinite _ => false
  | .zero _ => true
  | .finite _ b =>
    let s := b.shortest .up
    s.exponent < 0 || (s.digits * 10 ^ s.exponent.toNat : Nat) ≤ maxInt64

theorem isDigit_toDigits (n : Nat) : ∀ c ∈ Nat.toDigits 10 n, c.isDigit = true :=
  fun _ hc => Nat.isDigit_of_mem_toDigits (by decide) (by decide) hc

theorem toDigits_ne_nil (n : Nat) : Nat.toDigits 10 n ≠ [] := by
  intro h
  have hpos : 0 < (Nat.toDigits 10 n).length := Nat.length_toDigits_pos
  rw [h] at hpos
  exact absurd hpos (Nat.lt_irrefl 0)

theorem isDigit_zeros (n : Nat) : ∀ c ∈ zeros n, c.isDigit = true := by
  intro c hc
  rw [List.eq_of_mem_replicate hc]
  rfl

theorem ofDigitChars_zeros (n k : Nat) : Nat.ofDigitChars 10 (zeros k) n = n * 10 ^ k := by
  induction k generalizing n with
  | zero => exact (Nat.mul_one n).symm
  | succ k ih =>
    rw [zeros, List.replicate_succ, Nat.ofDigitChars_cons, ← zeros, ih, Nat.pow_succ]
    simp only [Nat.sub_self, Nat.add_zero]
    rw [Nat.mul_comm 10 n, Nat.mul_assoc, Nat.mul_comm 10]

/-- A number is written as digits, with a point if its exponent is negative. -/
theorem Scaled.positional_shape (s : Scaled) : ∃ whole, (∀ c ∈ whole, c.isDigit = true) ∧ whole ≠ [] ∧
    (s.positional = whole ∧ 0 ≤ s.exponent ∧
        Nat.ofDigitChars 10 whole 0 = s.digits * 10 ^ s.exponent.toNat ∨
      ∃ places, (∀ c ∈ places, c.isDigit = true) ∧ s.positional = whole ++ '.' :: places) := by
  have hdigits := isDigit_toDigits s.digits
  unfold positional digitsOf
  dsimp only
  split
  · next hexponent =>
    refine ⟨_, ?_, ?_, Or.inl ⟨rfl, hexponent, ?_⟩⟩
    · exact List.forall_mem_append.mpr ⟨hdigits, isDigit_zeros _⟩
    · exact List.append_ne_nil_of_left_ne_nil (toDigits_ne_nil _) _
    · rw [Nat.ofDigitChars_append, Nat.ofDigitChars_toDigits (by decide) (by decide),
        ofDigitChars_zeros]
  · split
    · next hplaces =>
      refine ⟨_, fun c hc => hdigits c (List.mem_of_mem_take hc), ?_, Or.inr
        ⟨_, fun c hc => hdigits c (List.mem_of_mem_drop hc), rfl⟩⟩
      intro hnil
      have hlength := congrArg List.length hnil
      rw [List.length_take, List.length_nil] at hlength
      omega
    · refine ⟨['0'], List.forall_mem_singleton.mpr rfl, List.cons_ne_nil _ _, Or.inr ⟨_, ?_, rfl⟩⟩
      exact List.forall_mem_append.mpr ⟨isDigit_zeros _, hdigits⟩

end Decimal

namespace Reader

open Decimal

variable {rest : Bytes}

/-! ## What stands behind a token -/

/-- What stands behind a token: nothing, white space or a delimiter. -/
def Stops (rest : Bytes) : Prop := ∀ b ∈ rest.head?, Byte.isRegular b = false

theorem stop_byte : ∀ b : UInt8, Byte.isRegular b = false →
    Byte.isDigit b = false ∧ b ≠ 0x2E ∧ b ≠ 0x23 := by
  have hwhite : ∀ b : UInt8, Byte.isWhite b = true →
      Byte.isDigit b = false ∧ b ≠ 0x2E ∧ b ≠ 0x23 := forall_white (by decide)
  have hdelimiter : ∀ b : UInt8, Byte.isDelimiter b = true →
      Byte.isDigit b = false ∧ b ≠ 0x2E ∧ b ≠ 0x23 := forall_delimiter (by decide)
  intro b h
  rw [Byte.isRegular, Bool.and_eq_false_iff, Bool.not_eq_false', Bool.not_eq_false'] at h
  rcases h with white | delimiter
  · exact hwhite b white
  · exact hdelimiter b delimiter

theorem Stops.not_digit (h : Stops rest) : ∀ b ∈ rest.head?, Byte.isDigit b = false :=
  fun b hb => (stop_byte b (h b hb)).1

/-! ## Digits -/

/-- The byte of a character below 256. -/
def byteOf (c : Char) : UInt8 := UInt8.ofNat c.toNat

theorem digit_char : ∀ c : Char, c.isDigit = true → String.utf8EncodeChar c = [byteOf c] ∧
    Byte.isDigit (byteOf c) = true ∧ (byteOf c - 0x30).toNat = c.toNat - '0'.toNat := by
  have hall : ∀ n < 58, 48 ≤ n → String.utf8EncodeChar (Char.ofNat n) = [byteOf (Char.ofNat n)] ∧
      Byte.isDigit (byteOf (Char.ofNat n)) = true ∧
      (byteOf (Char.ofNat n) - 0x30).toNat = (Char.ofNat n).toNat - '0'.toNat := by
    decide +kernel
  intro c hc
  have hbounds : 48 ≤ c.toNat ∧ c.toNat < 58 := by
    simp only [Char.isDigit, Bool.and_eq_true, decide_eq_true_eq] at hc
    exact ⟨hc.1, Nat.lt_succ_of_le hc.2⟩
  have h := hall c.toNat hbounds.2 hbounds.1
  rwa [Char.ofNat_toNat] at h

theorem utf8_digits {cs : List Char} (h : ∀ c ∈ cs, c.isDigit = true) (more : List Char) :
    utf8 (String.ofList (cs ++ more)) = cs.map byteOf ++ utf8 (String.ofList more) := by
  rw [utf8_eq_flatMap, utf8_eq_flatMap, String.toList_ofList, String.toList_ofList,
    List.flatMap_append]
  congr 1
  induction cs with
  | nil => rfl
  | cons c cs ih =>
    rw [List.forall_mem_cons] at h
    rw [List.flatMap_cons, (digit_char c h.1).1, ih h.2]
    rfl

theorem isDigit_map {cs : List Char} (h : ∀ c ∈ cs, c.isDigit = true) :
    ∀ b ∈ cs.map byteOf, Byte.isDigit b = true := by
  intro b hb
  obtain ⟨c, hc, rfl⟩ := List.mem_map.mp hb
  exact (digit_char c (h c hc)).2.1

theorem natOfDigits_map {cs : List Char} (h : ∀ c ∈ cs, c.isDigit = true) :
    natOfDigits (cs.map byteOf) = Nat.ofDigitChars 10 cs 0 := by
  have hfrom : ∀ n, (cs.map byteOf).foldl (fun n d => n * 10 + (d - 0x30).toNat) n =
      Nat.ofDigitChars 10 cs n := by
    induction cs with
    | nil => exact fun _ => rfl
    | cons c cs ih =>
      intro n
      rw [List.forall_mem_cons] at h
      rw [List.map_cons, List.foldl_cons, ih h.2, Nat.ofDigitChars_cons, (digit_char c h.1).2.2,
        Nat.mul_comm]
  exact hfrom 0

theorem takeDigits_append {ds : Bytes} (h : ∀ b ∈ ds, Byte.isDigit b = true)
    (stops : ∀ b ∈ rest.head?, Byte.isDigit b = false) : takeDigits (ds ++ rest) = (ds, rest) := by
  have htake : (ds ++ rest).takeWhile Byte.isDigit = ds ∧
      (ds ++ rest).dropWhile Byte.isDigit = rest := by
    rw [List.takeWhile_append_of_pos h, List.dropWhile_append_of_pos h]
    cases rest with
    | nil => simp
    | cons b rest => simp [stops b rfl]
  rw [takeDigits, htake.1, htake.2]

theorem takeDigits_eq_nil (h : ∀ b ∈ rest.head?, Byte.isDigit b = false) :
    takeDigits rest = ([], rest) :=
  @takeDigits_append rest [] (by simp) h

/-- The bytes of a number without sign. -/
def digits (n : Nat) : Bytes := (Nat.toDigits 10 n).map byteOf

theorem isDigit_digits (n : Nat) : ∀ b ∈ digits n, Byte.isDigit b = true :=
  isDigit_map (isDigit_toDigits n)

theorem natOfDigits_digits (n : Nat) : natOfDigits (digits n) = n := by
  rw [digits, natOfDigits_map (isDigit_toDigits n), Nat.ofDigitChars_toDigits (by decide) (by decide)]

theorem digits_ne_nil (n : Nat) : digits n ≠ [] :=
  fun h => toDigits_ne_nil n (List.map_eq_nil_iff.mp h)

theorem utf8_toString (n : Nat) : utf8 (toString n) = digits n := by
  have h := utf8_digits (isDigit_toDigits n) []
  rw [List.append_nil, ← Nat.toList_repr, String.ofList_toList] at h
  rw [digits, ← Nat.toList_repr]
  exact h.trans (List.append_nil _)

/-! ## Numbers -/

theorem natural_digits {n limit : Nat} (h : n < limit)
    (stops : ∀ b ∈ rest.head?, Byte.isDigit b = false) :
    natural limit (digits n ++ rest) = some (n, rest) := by
  have hlimit : ¬limit ≤ n := Nat.not_le_of_lt h
  simp [natural, takeDigits_append (isDigit_digits n) stops, natOfDigits_digits, digits_ne_nil, hlimit]

theorem natural_eq_none (limit : Nat) (h : ∀ b ∈ rest.head?, Byte.isDigit b = false) :
    natural limit rest = none := by
  simp [natural, takeDigits_eq_nil h]

section Unsigned

variable {b : UInt8} (sign : ¬(b = 0x2B ∨ b = 0x2D)) (digit : Byte.isDigit b = false)

include sign digit

theorem integer_eq_none : integer (b :: rest) = none := by
  have htake : takeDigits (b :: rest) = ([], b :: rest) :=
    takeDigits_eq_nil (by rintro _ ⟨⟩; exact digit)
  rw [integer, takeSign, if_neg sign]
  dsimp only
  rw [htake]
  rfl

theorem real_eq_none (point : b ≠ 0x2E) : real (b :: rest) = none := by
  have htake : takeDigits (b :: rest) = ([], b :: rest) :=
    takeDigits_eq_nil (by rintro _ ⟨⟩; exact digit)
  rw [real, takeSign, if_neg sign]
  dsimp only
  rw [htake]
  dsimp only
  split
  · next h => exact absurd (List.cons.inj h).1 point
  · rfl

end Unsigned

/-- A minus or nothing. -/
def signBytes (negative : Bool) : Bytes := if negative then [0x2D] else []

section Signed

variable {negative : Bool} {whole places : Bytes} (digitsOnly : ∀ b ∈ whole, Byte.isDigit b = true)
  (nonempty : whole ≠ [])

include digitsOnly nonempty

theorem takeSign_append (rest : Bytes) :
    takeSign (signBytes negative ++ (whole ++ rest)) = (signBytes negative, whole ++ rest) := by
  have hdigit : ∀ b : UInt8, Byte.isDigit b = true → ¬(b = 0x2B ∨ b = 0x2D) := by
    intro b hb h
    rcases h with rfl | rfl <;> exact absurd hb (by decide)
  cases negative with
  | true => rfl
  | false =>
    cases whole with
    | nil => exact absurd rfl nonempty
    | cons b whole =>
      exact if_neg (hdigit b (digitsOnly b List.mem_cons_self))

theorem real_point (placesOnly : ∀ b ∈ places, Byte.isDigit b = true)
    (stops : ∀ b ∈ rest.head?, Byte.isDigit b = false) :
    real (signBytes negative ++ (whole ++ 0x2E :: (places ++ rest))) =
      some ((Decimal.Written.mk negative (natOfDigits (whole ++ places))
        (-(places.length : Int))).toSingle, rest) := by
  have hpoint : ∀ b ∈ (0x2E :: (places ++ rest) : Bytes).head?, Byte.isDigit b = false := by
    intro b hb
    obtain rfl := Option.some.inj hb
    rfl
  have hsign : decide (signBytes negative = [0x2D]) = negative := by cases negative <;> rfl
  simp [real, takeSign_append digitsOnly nonempty, takeDigits_append digitsOnly hpoint,
    takeDigits_append placesOnly stops, nonempty, hsign]

theorem real_whole (stops : Stops rest) : real (signBytes negative ++ (whole ++ rest)) = none := by
  rw [real, takeSign_append digitsOnly nonempty]
  dsimp only
  rw [takeDigits_append digitsOnly stops.not_digit]
  dsimp only
  split
  · next more =>
    exact absurd rfl (stop_byte _ (stops _ rfl)).2.1
  · rfl

theorem integer_whole {n : Int}
    (value : n = if negative then -(natOfDigits whole : Int) else natOfDigits whole)
    (range : minInt64 ≤ n ∧ n ≤ maxInt64) (stops : ∀ b ∈ rest.head?, Byte.isDigit b = false) :
    integer (signBytes negative ++ (whole ++ rest)) = some (n, rest) := by
  rw [integer, takeSign_append digitsOnly nonempty]
  dsimp only
  rw [takeDigits_append digitsOnly stops]
  dsimp only
  rw [if_neg (by simpa using nonempty)]
  have hvalue : (if signBytes negative = [0x2D] then -(natOfDigits whole : Int)
      else natOfDigits whole) = n := by
    rw [value]
    cases negative <;> rfl
  rw [hvalue, if_neg (by omega)]

end Signed

theorem toString_int (n : Int) :
    utf8 (toString n) = signBytes (decide (n < 0)) ++ digits n.natAbs := by
  have hnat : ∀ m : Nat, utf8 m.repr = digits m := utf8_toString
  rw [Int.toString_eq_repr, Int.repr_eq_if]
  by_cases h : 0 ≤ n
  · rw [if_pos h, hnat, decide_eq_false (by omega), show n.toNat = n.natAbs by omega]
    rfl
  · rw [if_neg h, decide_eq_true (by omega), utf8_eq_flatMap, String.toList_append, List.flatMap_append,
      ← utf8_eq_flatMap, ← utf8_eq_flatMap, hnat, show (-n).toNat = n.natAbs by omega]
    rfl

/-- The text of a real number that can be read: digits behind a sign, and with a point or within 64
bits. -/
theorem single_text {x : Float32} (fits : (Reading.ofSingle x).fits = true) :
    ∃ negative whole, (∀ b ∈ whole, Byte.isDigit b = true) ∧ whole ≠ [] ∧
      (utf8 (ofSingle x) = signBytes negative ++ whole ∧ (natOfDigits whole : Int) ≤ maxInt64 ∨
        ∃ places, (∀ b ∈ places, Byte.isDigit b = true) ∧
          utf8 (ofSingle x) = signBytes negative ++ (whole ++ 0x2E :: places)) := by
  have hsign : ∀ negative cs, utf8 (String.ofList (sign negative ++ cs)) =
      signBytes negative ++ utf8 (String.ofList cs) := by
    intro negative cs
    rw [utf8_eq_flatMap, String.toList_ofList, List.flatMap_append, utf8_eq_flatMap,
      String.toList_ofList]
    cases negative <;> rfl
  have hdigits : ∀ cs : List Char, (∀ c ∈ cs, c.isDigit = true) →
      utf8 (String.ofList cs) = cs.map byteOf := by
    intro cs h
    have hutf8 := utf8_digits h []
    rw [List.append_nil] at hutf8
    exact hutf8.trans (List.append_nil _)
  have hne : ∀ cs : List Char, cs ≠ [] → cs.map byteOf ≠ [] :=
    fun cs h hnil => h (List.map_eq_nil_iff.mp hnil)
  rw [ofSingle]
  cases hreading : Reading.ofSingle x with
  | nan => rw [hreading] at fits; exact absurd fits Bool.false_ne_true
  | infinite negative => rw [hreading] at fits; exact absurd fits Bool.false_ne_true
  | zero negative =>
    refine ⟨negative, [0x30], List.forall_mem_singleton.mpr rfl, List.cons_ne_nil _ _,
      Or.inl ⟨?_, by decide⟩⟩
    rw [Reading.plain, hsign]
    rfl
  | finite negative b =>
    rw [hreading] at fits
    rw [Reading.plain, hsign]
    obtain ⟨whole, hwhole, hnonempty, ⟨htext, hexponent, hvalue⟩ | ⟨places, hplaces, htext⟩⟩ :=
      (b.shortest .up).positional_shape
    · refine ⟨negative, _, isDigit_map hwhole, hne _ hnonempty, Or.inl ⟨?_, ?_⟩⟩
      · rw [htext, hdigits _ hwhole]
      · rw [natOfDigits_map hwhole, hvalue]
        simp only [Reading.fits, Bool.or_eq_true, decide_eq_true_eq] at fits
        exact fits.resolve_left (by omega)
    · refine ⟨negative, _, isDigit_map hwhole, hne _ hnonempty, Or.inr
        ⟨_, isDigit_map hplaces, ?_⟩⟩
      have hpoint : utf8 (String.ofList ('.' :: places)) = 0x2E :: places.map byteOf := by
        rw [← hdigits _ hplaces, utf8_eq_flatMap, utf8_eq_flatMap, String.toList_ofList,
          String.toList_ofList, List.flatMap_cons]
        rfl
      rw [htext, utf8_digits hwhole, hpoint]

/-! ## Names -/

theorem hex_byte : ∀ b : UInt8, Byte.hexValue? (Byte.hexDigit (b >>> 4)) = some (b >>> 4) ∧
    Byte.hexValue? (Byte.hexDigit (b &&& 15)) = some (b &&& 15) ∧ (b >>> 4) * 16 + (b &&& 15) = b :=
  forall_byte (by decide +kernel)

theorem hexValue_byte : ∀ b : UInt8, (Byte.hexValue? b).isSome = true →
    Byte.isWhite b = false ∧ b ≠ 0x3E := by
  have hwhite : ∀ b : UInt8, Byte.isWhite b = true → Byte.hexValue? b = none :=
    forall_white (by decide)
  intro b h
  constructor
  · rw [← Bool.not_eq_true]
    intro white
    simp [hwhite b white] at h
  · intro hb
    exact absurd (hb ▸ h) (by decide)

theorem plain_byte : ∀ b : UInt8, ¬(b < 33 ∨ 126 < b ∨ Byte.isDelimiter b ∨ b = 0x23) →
    Byte.isRegular b = true := by
  have hwhite : ∀ b : UInt8, Byte.isWhite b = true → b < 33 := forall_white (by decide)
  intro b h
  rw [Byte.isRegular, Bool.and_eq_true, Bool.not_eq_true', Bool.not_eq_true', ← Bool.not_eq_true,
    ← Bool.not_eq_true]
  exact ⟨fun white => h (.inl (hwhite b white)), fun delimiter => h (.inr (.inr (.inl delimiter)))⟩

theorem nameFrom_escaped (done rest : Bytes) {h l high low : UInt8}
    (hhigh : Byte.hexValue? h = some high) (hlow : Byte.hexValue? l = some low) :
    nameFrom done (0x23 :: h :: l :: rest) = nameFrom ((high * 16 + low) :: done) rest := by
  rw [nameFrom, if_pos rfl, hhigh, hlow]

theorem nameFrom_plain (done rest : Bytes) {b : UInt8} (h : b ≠ 0x23) : nameFrom done (b :: rest) =
    if Byte.isRegular b then nameFrom (b :: done) rest else (done.reverse, b :: rest) := by
  rw [nameFrom.eq_def]
  exact if_neg h

/-- A name is read up to what stands behind it. -/
theorem nameFrom_append (bs done : Bytes) (stops : Stops rest) :
    nameFrom done (bs.flatMap Writer.nameByte ++ rest) = (done.reverse ++ bs, rest) := by
  induction bs generalizing done with
  | nil =>
    rw [List.flatMap_nil, List.nil_append, List.append_nil]
    cases rest with
    | nil => rfl
    | cons b rest =>
      have hb := stops b rfl
      rw [nameFrom_plain done rest (stop_byte b hb).2.2, hb, if_neg Bool.false_ne_true]
  | cons b bs ih =>
    rw [List.flatMap_cons, List.append_assoc, Writer.nameByte]
    by_cases hescaped : b < 33 ∨ 126 < b ∨ Byte.isDelimiter b ∨ b = 0x23
    · obtain ⟨hhigh, hlow, hvalue⟩ := hex_byte b
      rw [if_pos hescaped, Byte.hex]
      show nameFrom done (0x23 :: Byte.hexDigit (b >>> 4) :: Byte.hexDigit (b &&& 15) ::
        (bs.flatMap Writer.nameByte ++ rest)) = _
      rw [nameFrom_escaped done _ hhigh hlow, hvalue, ih, List.reverse_cons, List.append_assoc,
        List.singleton_append]
    · have hplain := plain_byte b hescaped
      rw [not_or, not_or, not_or] at hescaped
      rw [if_neg (by tauto), List.singleton_append, nameFrom_plain _ _ hescaped.2.2.2, if_pos hplain, ih,
        List.reverse_cons, List.append_assoc, List.singleton_append]

theorem name_append (bs : Bytes) (stops : Stops rest) :
    name (Writer.name bs ++ rest) = some (bs, rest) := by
  rw [Writer.name, List.cons_append, name, nameFrom_append bs [] stops]
  rfl

/-! ## Strings -/

/-- The two halves of a byte. -/
def halves (b : UInt8) : List UInt8 := [b >>> 4, b &&& 15]

theorem hexFrom_append (bs : Bytes) (digits : List UInt8) : hexFrom digits (bs.toHex ++ 0x3E :: rest) =
    some (hexBytes (digits.reverse ++ bs.flatMap halves), rest) := by
  induction bs generalizing digits with
  | nil => rw [Bytes.toHex, List.flatMap_nil, List.flatMap_nil, List.append_nil]; rfl
  | cons b bs ih =>
    obtain ⟨hhigh, hlow, -⟩ := hex_byte b
    obtain ⟨hwhite, hend⟩ := hexValue_byte _ (Option.isSome_of_eq_some hhigh)
    obtain ⟨hwhite', hend'⟩ := hexValue_byte _ (Option.isSome_of_eq_some hlow)
    rw [Bytes.toHex, List.flatMap_cons, Byte.hex, ← Bytes.toHex]
    simp only [List.cons_append, List.nil_append]
    rw [hexFrom, hwhite, if_neg Bool.false_ne_true, if_neg hend, hhigh]
    dsimp only
    rw [hexFrom, hwhite', if_neg Bool.false_ne_true, if_neg hend', hlow]
    dsimp only
    rw [ih]
    simp [halves]

theorem hexBytes_flatMap (bs : Bytes) : hexBytes (bs.flatMap halves) = bs := by
  induction bs with
  | nil => rfl
  | cons b bs ih =>
    rw [List.flatMap_cons, halves, List.cons_append, List.cons_append, List.nil_append, hexBytes, ih,
      (hex_byte b).2.2]

theorem hexadecimal_append (bs : Bytes) :
    hexadecimal (Writer.string bs .hexadecimal ++ rest) = some (bs, rest) := by
  show hexFrom [] ((bs.toHex ++ [0x3E]) ++ rest) = _
  rw [List.append_assoc, List.singleton_append, hexFrom_append, List.reverse_nil, List.nil_append,
    hexBytes_flatMap]

/-- Bytes with marks on those that have a backslash, such that the parentheses without one are nested
and, on top of some that are open, not too deep. -/
def Nested : Nat → List (UInt8 × Bool) → Prop
  | depth, [] => depth = 0
  | depth, (b, lone) :: bs =>
    if lone = false ∧ b = 0x28 then depth < nesting ∧ Nested (depth + 1) bs
    else if lone = false ∧ b = 0x29 then 0 < depth ∧ Nested (depth - 1) bs
    else (lone = true → b = 0x28 ∨ b = 0x29) ∧ Nested depth bs

theorem literalFrom_escaped (depth : Nat) (done rest : Bytes) {b c : UInt8}
    (h : (b = 0x28 ∨ b = 0x29 ∨ b = 0x5C) ∧ c = b ∨ b = 0x72 ∧ c = 0x0D) :
    literalFrom depth done (0x5C :: b :: rest) = literalFrom depth (c :: done) rest := by
  rw [literalFrom, if_neg (by decide), if_neg (by decide), if_pos rfl, if_neg (by simp)]
  have hescape : escape (b :: rest) = (some c, 1) := by
    rcases h with ⟨rfl | rfl | rfl, rfl⟩ | ⟨rfl, rfl⟩ <;> rfl
  rw [hescape]
  rfl

theorem literalFrom_append {depth : Nat} {bs : List (UInt8 × Bool)} (nested : Nested depth bs)
    (done : Bytes) : literalFrom depth done
      ((bs.flatMap fun e => Writer.literalByte e.2 e.1) ++ 0x29 :: rest) =
        some (done.reverse ++ bs.map (·.1), rest) := by
  induction bs generalizing depth done with
  | nil =>
    obtain rfl : depth = 0 := nested
    rw [List.flatMap_nil, List.nil_append, literalFrom]
    simp
  | cons e bs ih =>
    obtain ⟨b, lone⟩ := e
    rw [List.flatMap_cons, List.append_assoc]
    have hdone : (b :: done).reverse ++ bs.map (·.1) =
        done.reverse ++ ((b, lone) :: bs).map (·.1) := by
      rw [List.reverse_cons, List.append_assoc]
      rfl
    rw [← hdone]
    dsimp only
    rw [Nested] at nested
    split at nested
    · next hopen =>
      obtain ⟨rfl, rfl⟩ := hopen
      rw [show Writer.literalByte false 0x28 = [0x28] from rfl, List.singleton_append, literalFrom,
        if_pos rfl, if_neg (Nat.ne_of_lt nested.1), ih nested.2]
    · split at nested
      · next hclose =>
        obtain ⟨rfl, rfl⟩ := hclose
        rw [show Writer.literalByte false 0x29 = [0x29] from rfl, List.singleton_append, literalFrom,
          if_neg (by decide), if_pos rfl, if_neg (Nat.ne_of_gt nested.1), ih nested.2]
      · next hopen hclose =>
        obtain ⟨hlone, nested⟩ := nested
        by_cases hreturn : b = 0x0D
        · subst hreturn
          rw [Writer.literalByte, if_pos rfl, List.cons_append, List.singleton_append,
            literalFrom_escaped depth done _ (Or.inr ⟨rfl, rfl⟩), ih nested]
        · by_cases hescaped : lone = true ∨ b = 0x5C
          · have hb : b = 0x28 ∨ b = 0x29 ∨ b = 0x5C := by
              rcases hescaped with h | h
              · rcases hlone h with h | h <;> simp [h]
              · exact Or.inr (Or.inr h)
            rw [Writer.literalByte, if_neg hreturn, if_pos hescaped, List.cons_append,
              List.singleton_append, literalFrom_escaped depth done _ (Or.inl ⟨hb, rfl⟩), ih nested]
          · have hlone : lone = false := by simpa using fun h => hescaped (Or.inl h)
            have hslash : b ≠ 0x5C := fun h => hescaped (Or.inr h)
            rw [Writer.literalByte, if_neg hreturn, if_neg hescaped, List.singleton_append, literalFrom,
              if_neg fun h => hopen ⟨hlone, h⟩, if_neg fun h => hclose ⟨hlone, h⟩, if_neg hslash,
              ih nested]

/-- The marks that are written leave parentheses without backslash that are nested: of those that are
open, as many are read as get a partner. -/
theorem nested_marks (bs : Bytes) (opened : Nat) (few : opened + bs.count 0x28 ≤ nesting) :
    Nested (min opened (Writer.loneOpeners bs).2) (bs.zip
      ((Writer.loneClosers opened bs).zipWith (· || ·) (Writer.loneOpeners bs).1)) := by
  induction bs generalizing opened with
  | nil => exact Nat.min_zero opened
  | cons b bs ih =>
    rw [List.count_cons] at few
    rw [Writer.loneClosers, Writer.loneOpeners]
    generalize hrest : Writer.loneOpeners bs = rest at ih ⊢
    obtain ⟨marks, closers⟩ := rest
    dsimp only at ih ⊢
    by_cases hopen : b = 0x28
    · subst hopen
      have ih := ih (opened + 1) (by simpa [Nat.add_assoc, Nat.add_comm] using few)
      by_cases hpartner : closers = 0
      · subst hpartner
        simpa [Nested] using ih
      · have hdepth : min (opened + 1) closers = min opened (closers - 1) + 1 := by omega
        rw [hdepth] at ih
        have hlt : min opened (closers - 1) < nesting := by
          simp at few
          omega
        have hnested : Nested (min opened (closers - 1)) ((0x28, false) :: bs.zip
            ((Writer.loneClosers (opened + 1) bs).zipWith (· || ·) marks)) := by
          rw [Nested, if_pos ⟨rfl, rfl⟩]
          exact ⟨hlt, ih⟩
        simpa [hpartner] using hnested
    · replace few : opened + bs.count 0x28 ≤ nesting := by simpa [hopen] using few
      by_cases hclose : b = 0x29
      · subst hclose
        cases opened with
        | zero => simpa [Nested] using ih 0 few
        | succ opened =>
          have ih := ih opened (by omega)
          have hdepth : min (opened + 1) (closers + 1) - 1 = min opened closers := by omega
          have hpositive : 0 < min (opened + 1) (closers + 1) := by omega
          rw [← hdepth] at ih
          simpa [Nested] using ih
      · simpa [Nested, hopen, hclose] using ih opened few

theorem length_marks (bs : Bytes) (opened : Nat) : (Writer.loneClosers opened bs).length = bs.length ∧
    (Writer.loneOpeners bs).1.length = bs.length := by
  induction bs generalizing opened with
  | nil => exact ⟨rfl, rfl⟩
  | cons b bs ih =>
    refine ⟨?_, ?_⟩
    · rw [Writer.loneClosers]
      split
      · exact congrArg (· + 1) (ih _).1
      · split
        · split <;> exact congrArg (· + 1) (ih _).1
        · exact congrArg (· + 1) (ih _).1
    · have hrest := (ih 0).2
      rw [Writer.loneOpeners]
      generalize Writer.loneOpeners bs = rest at hrest ⊢
      obtain ⟨marks, closers⟩ := rest
      dsimp only at hrest ⊢
      split
      · exact congrArg (· + 1) hrest
      · split
        · split <;> exact congrArg (· + 1) hrest
        · exact congrArg (· + 1) hrest

theorem literal_append {bs : Bytes} (few : bs.count 0x28 ≤ nesting) :
    literal (Writer.string bs .literal ++ rest) = some (bs, rest) := by
  have nested := nested_marks bs 0 (by rwa [Nat.zero_add])
  rw [Nat.zero_min] at nested
  rw [Writer.string, Writer.literal, List.append_assoc, List.singleton_append]
  dsimp only
  rw [List.cons_append]
  show literalFrom 0 [] _ = _
  refine (literalFrom_append nested []).trans ?_
  obtain ⟨hclosers, hopeners⟩ := length_marks bs 0
  have hlength : bs.length ≤
      ((Writer.loneClosers 0 bs).zipWith (· || ·) (Writer.loneOpeners bs).1).length := by
    rw [List.length_zipWith, hclosers, hopeners, Nat.min_self]
  rw [List.reverse_nil, List.nil_append, List.map_fst_zip hlength]

end Reader

end AccessiblePdf
