import AccessiblePdf.Proofs.Object.Tokens
import AccessiblePdf.Proofs.OrderedMap

/-!
Objects that are written and read again (`objectFrom_append`). They are read as they were, but for real
numbers without a point (`Object.reread`). Integers that a reference could start with are told from one by
what stands behind them (`Follows`), which is a delimiter or another object.
-/
namespace AccessiblePdf

namespace Object

/-- What a real number is read as. -/
def rereadReal (x : Float32) : Object :=
  let text := utf8 (Decimal.ofSingle x)
  ((Reader.as .real (Reader.real text) <|> Reader.as .integer (Reader.integer text)).map (·.1)).getD
    (.real x)

mutual

/-- Whether an object can be read from what it is written as: numbers are within their limits, literal
strings have not too many parentheses, no key is repeated, and nothing is a stream. -/
def writable : Object → Bool
  | .null | .boolean _ | .name _ | .string _ .hexadecimal => true
  | .integer n => minInt64 ≤ n ∧ n ≤ maxInt64
  | .real x => (Decimal.Reading.ofSingle x).fits
  | .string bs .literal => bs.count 0x28 ≤ Reader.nesting
  | .array os => allWritable os
  | .dictionary ⟨es⟩ => (es.map (·.1)).Nodup && entriesWritable es
  | .stream .. => false
  | .reference id => id.number < 0x100000000 ∧ id.generation < 0x10000

def allWritable : List Object → Bool
  | [] => true
  | o :: os => o.writable && allWritable os

def entriesWritable : List (Bytes × Object) → Bool
  | [] => true
  | (_, o) :: es => o.writable && entriesWritable es

end

mutual

/-- What an object is read as after it was written. -/
def reread : Object → Object
  | .real x => rereadReal x
  | .array os => .array (rereadAll os)
  | .dictionary ⟨es⟩ => .dictionary ⟨rereadEntries es⟩
  | o => o

def rereadAll : List Object → List Object
  | [] => []
  | o :: os => o.reread :: rereadAll os

def rereadEntries : List (Bytes × Object) → List (Bytes × Object)
  | [] => []
  | (key, o) :: es => (key, o.reread) :: rereadEntries es

end

theorem rereadReal_cases (x : Float32) :
    (∃ y, rereadReal x = .real y) ∨ ∃ n, rereadReal x = .integer n := by
  rw [rereadReal]
  cases Reader.real (utf8 (Decimal.ofSingle x)) with
  | some found => exact Or.inl ⟨_, rfl⟩
  | none =>
    cases Reader.integer (utf8 (Decimal.ofSingle x)) with
    | some found => exact Or.inr ⟨_, rfl⟩
    | none => exact Or.inl ⟨_, rfl⟩

end Object

namespace Reader

variable {references : Bool} {fuel : Nat} {rest text bs : Bytes} {b : UInt8} {o : Object}

/-! ## What stands behind an object -/

/-- No number and letter that would make a reference of a number in front of them. -/
def Unreferenced (rest : Bytes) : Prop :=
  ∀ n after, natural 0x10000 (space rest) = some (n, after) → (space after).head? ≠ some 0x52

/-- What stands behind an object in an array or a dictionary. -/
structure Follows (rest : Bytes) : Prop where
  stops : Stops rest
  head : (space rest).head? ≠ some 0x52
  unreferenced : Unreferenced rest

/-- The bytes that objects start with. -/
def leads (b : UInt8) : Bool :=
  b == 0x6E || b == 0x74 || b == 0x66 || Byte.isDigit b || b == 0x2D || b == 0x2F || b == 0x28 ||
    b == 0x3C || b == 0x5B

theorem lead_byte : ∀ b : UInt8, leads b = true →
    Byte.isWhite b = false ∧ b ≠ 0x25 ∧ b ≠ 0x52 := by
  have hwhite : ∀ b : UInt8, Byte.isWhite b = true → leads b = false := forall_white (by decide)
  intro b h
  refine ⟨?_, fun hb => absurd (hb ▸ h) (by decide), fun hb => absurd (hb ▸ h) (by decide)⟩
  rw [← Bool.not_eq_true]
  intro white
  simp [hwhite b white] at h

theorem delimiter_byte : ∀ b : UInt8, Byte.isDelimiter b = true → Byte.isRegular b = false ∧
    Byte.isWhite b = false ∧ b ≠ 0x52 ∧ Byte.isDigit b = false :=
  forall_delimiter (by decide)

theorem space_cons (white : Byte.isWhite b = false) (comment : b ≠ 0x25) :
    space (b :: rest) = b :: rest := by
  rw [space, white, if_neg Bool.false_ne_true, if_neg comment]

theorem space_blank (rest : Bytes) : space (0x20 :: rest) = space rest := by
  rw [space, if_pos (by decide)]

theorem follows_delimiter (delimiter : Byte.isDelimiter b = true) (comment : b ≠ 0x25) :
    Follows (b :: rest) := by
  obtain ⟨hregular, hwhite, hletter, hdigit⟩ := delimiter_byte b delimiter
  refine ⟨?_, ?_, fun n after h => ?_⟩
  · rintro _ ⟨⟩
    exact hregular
  · rw [space_cons hwhite comment]
    simpa using hletter
  · rw [space_cons hwhite comment, natural_eq_none _ (by rintro _ ⟨⟩; exact hdigit)] at h
    cases h

theorem natural_append {limit n : Nat} {ds after : Bytes} (h : ∀ b ∈ ds, Byte.isDigit b = true)
    (stops : ∀ b ∈ rest.head?, Byte.isDigit b = false)
    (hnatural : natural limit (ds ++ rest) = some (n, after)) : after = rest := by
  rw [natural, takeDigits_append h stops] at hnatural
  dsimp only at hnatural
  split at hnatural
  · cases hnatural
  · exact (Prod.mk.inj (Option.some.inj hnatural)).2.symm

/-! ## Numbers and references -/

/-- A text that is read as a number: digits behind a sign, and with a point or not. -/
structure Numeral (text : Bytes) (o : Object) : Prop where
  shape : ∃ negative whole tail, (∀ b ∈ whole, Byte.isDigit b = true) ∧ whole ≠ [] ∧
    text = signBytes negative ++ (whole ++ tail) ∧ (tail = [] ∨ ∃ places, tail = 0x2E :: places)
  read : ∀ rest, Stops rest →
    (as .real (real (text ++ rest)) <|> as .integer (integer (text ++ rest))) = some (o, rest)

theorem numeral_integer {n : Int} (range : minInt64 ≤ n ∧ n ≤ maxInt64) :
    Numeral (Writer.object (.integer n)) (.integer n) := by
  have htext : Writer.object (.integer n) = signBytes (decide (n < 0)) ++ digits n.natAbs :=
    toString_int n
  refine ⟨⟨decide (n < 0), digits n.natAbs, [], isDigit_digits _, digits_ne_nil _, ?_, Or.inl rfl⟩,
    fun rest stops => ?_⟩
  · rw [htext, List.append_nil]
  · rw [htext, List.append_assoc, real_whole (isDigit_digits _) (digits_ne_nil _) stops,
      integer_whole (n := n) (isDigit_digits _) (digits_ne_nil _) ?_ range stops.not_digit]
    · rfl
    · rw [natOfDigits_digits]
      by_cases h : n < 0
      · rw [decide_eq_true h, if_pos rfl]
        omega
      · rw [decide_eq_false h, if_neg Bool.false_ne_true]
        omega

theorem numeral_real {x : Float32} (fits : (Decimal.Reading.ofSingle x).fits = true) :
    Numeral (Writer.object (.real x)) (Object.rereadReal x) := by
  have stops_nil : Stops [] := fun b hb => by cases hb
  obtain ⟨negative, whole, hwhole, hnonempty, ⟨htext, hsmall⟩ | ⟨places, hplaces, htext⟩⟩ :=
    single_text fits
  · refine ⟨⟨negative, whole, [], hwhole, hnonempty, ?_, Or.inl rfl⟩, fun rest stops => ?_⟩
    · rw [List.append_nil]
      exact htext
    · have hread : ∀ rest, Stops rest → (as .real (real (utf8 (Decimal.ofSingle x) ++ rest)) <|>
          as .integer (integer (utf8 (Decimal.ofSingle x) ++ rest))) =
            some (.integer (if negative then -(natOfDigits whole : Int) else natOfDigits whole),
              rest) := by
        intro rest stops
        rw [htext, List.append_assoc, real_whole hwhole hnonempty stops,
          integer_whole hwhole hnonempty rfl ?_ stops.not_digit]
        · rfl
        · have hmin : minInt64 = -0x8000000000000000 := rfl
          have hmax : maxInt64 = 0x8000000000000000 - 1 := rfl
          split <;> omega
      have hnil := hread [] stops_nil
      rw [List.append_nil] at hnil
      refine (hread rest stops).trans ?_
      rw [Object.rereadReal, hnil]
      rfl
  · refine ⟨⟨negative, whole, 0x2E :: places, hwhole, hnonempty, htext, Or.inr ⟨_, rfl⟩⟩,
      fun rest stops => ?_⟩
    have hread : ∀ rest, Stops rest → real (utf8 (Decimal.ofSingle x) ++ rest) =
        some ((Decimal.Written.mk negative (natOfDigits (whole ++ places))
          (-(places.length : Int))).toSingle, rest) := by
      intro rest stops
      rw [htext, List.append_assoc, List.append_assoc, List.cons_append]
      exact real_point hwhole hnonempty hplaces stops.not_digit
    have hnil := hread [] stops_nil
    rw [List.append_nil] at hnil
    rw [Object.rereadReal, hnil]
    show (as .real (real (utf8 (Decimal.ofSingle x) ++ rest)) <|> _) = _
    rw [hread rest stops]
    rfl

namespace Numeral

theorem head (h : Numeral text o) : ∃ b more, text = b :: more ∧ (Byte.isDigit b = true ∨ b = 0x2D) := by
  obtain ⟨negative, whole, tail, hwhole, hnonempty, rfl, -⟩ := h.shape
  cases negative with
  | true => exact ⟨_, _, rfl, Or.inr rfl⟩
  | false =>
    obtain ⟨b, more, rfl⟩ := List.exists_cons_of_ne_nil hnonempty
    exact ⟨b, _, rfl, Or.inl (hwhole b List.mem_cons_self)⟩

theorem natural (h : Numeral text o) (stops : Stops rest) {limit n : Nat} {after : Bytes}
    (hnatural : natural limit (text ++ rest) = some (n, after)) :
    after = rest ∨ ∃ more, after = 0x2E :: more := by
  obtain ⟨negative, whole, tail, hwhole, hnonempty, rfl, htail⟩ := h.shape
  cases negative with
  | true =>
    rw [show signBytes true = [0x2D] from rfl, List.append_assoc, List.singleton_append,
      natural_eq_none _ (by rintro _ ⟨⟩; rfl)] at hnatural
    cases hnatural
  | false =>
    rw [show signBytes false = [] from rfl, List.nil_append, List.append_assoc] at hnatural
    rcases htail with rfl | ⟨places, rfl⟩
    · exact Or.inl (natural_append hwhole stops.not_digit hnatural)
    · exact Or.inr ⟨_, natural_append hwhole (by rintro _ ⟨⟩; rfl) hnatural⟩

end Numeral

theorem unreferenced_point (more : Bytes) : Unreferenced (0x2E :: more) := by
  intro n after h
  rw [space_cons (by decide) (by decide), natural_eq_none _ (by rintro _ ⟨⟩; rfl)] at h
  cases h

theorem reference_eq_none (h : ∀ n after, natural 0x100000000 bs = some (n, after) → Unreferenced after) :
    reference bs = none := by
  rw [reference, Option.bind_eq_bind, Option.bind_eq_none_iff]
  rintro ⟨n, after⟩ hnumber
  refine Option.bind_eq_none_iff.mpr ?_
  rintro ⟨generation, after'⟩ hgeneration
  have hletter := h n after hnumber generation after' hgeneration
  dsimp only
  split
  · next hspace =>
    rw [hspace] at hletter
    exact absurd rfl hletter
  · rfl

theorem reference_text (id : ObjectId) : Writer.object (.reference id) =
    digits id.number ++ 0x20 :: (digits id.generation ++ [0x20, 0x52]) := by
  rw [← utf8_toString, ← utf8_toString]
  show utf8 (toString id.number ++ " " ++ toString id.generation ++ " R") = _
  simp only [utf8_eq_flatMap, String.toList_append, List.flatMap_append, List.append_assoc]
  rfl

theorem space_digits (n : Nat) (more : Bytes) : space (digits n ++ more) = digits n ++ more := by
  obtain ⟨b, ds, hdigits⟩ := List.exists_cons_of_ne_nil (digits_ne_nil n)
  have hb := isDigit_digits n b (by rw [hdigits]; exact List.mem_cons_self)
  obtain ⟨hwhite, hcomment, -⟩ := lead_byte b (by simp [leads, hb])
  rw [hdigits, List.cons_append, space_cons hwhite hcomment]

theorem reference_append {id : ObjectId} (number : id.number < 0x100000000)
    (generation : id.generation < 0x10000) :
    reference (Writer.object (.reference id) ++ rest) = some (id, rest) := by
  have htext : Writer.object (.reference id) ++ rest =
      digits id.number ++ 0x20 :: (digits id.generation ++ 0x20 :: 0x52 :: rest) := by
    rw [reference_text, List.append_assoc, List.cons_append, List.append_assoc]
    rfl
  rw [htext, reference, natural_digits number (by rintro _ ⟨⟩; rfl)]
  simp only [Option.bind_eq_bind, Option.bind_some]
  rw [space_blank, space_digits, natural_digits generation (by rintro _ ⟨⟩; rfl)]
  simp only [Option.bind_some]
  rw [space_blank, space_cons (by decide) (by decide)]
  rfl

/-! ## How objects start -/

theorem object_head (writable : o.writable = true) : ∃ b more, Writer.object o = b :: more ∧
    leads b = true ∧ (Writer.needsSpace o = false → Byte.isDelimiter b = true) := by
  cases o with
  | null => exact ⟨_, _, rfl, by decide, fun h => by cases h⟩
  | boolean b =>
    cases b with
    | true => exact ⟨_, _, rfl, by decide, fun h => by cases h⟩
    | false => exact ⟨_, _, rfl, by decide, fun h => by cases h⟩
  | integer n =>
    obtain ⟨b, more, htext, hb⟩ :=
      (numeral_integer (by simpa [Object.writable] using writable : minInt64 ≤ n ∧ n ≤ maxInt64)).head
    exact ⟨b, more, htext, by rcases hb with hb | rfl <;> simp [leads, *], fun h => by cases h⟩
  | real x =>
    obtain ⟨b, more, htext, hb⟩ := (numeral_real (by simpa [Object.writable] using writable)).head
    exact ⟨b, more, htext, by rcases hb with hb | rfl <;> simp [leads, *], fun h => by cases h⟩
  | name bytes => exact ⟨_, _, rfl, by decide, fun _ => by decide⟩
  | string bytes style =>
    cases style with
    | literal => exact ⟨_, _, rfl, by decide, fun _ => by decide⟩
    | hexadecimal => exact ⟨_, _, rfl, by decide, fun _ => by decide⟩
  | array items =>
    cases items with
    | nil => exact ⟨0x5B, [0x5D], rfl, by decide, fun _ => by decide⟩
    | cons => exact ⟨0x5B, _, by rw [Writer.object]; rfl, by decide, fun _ => by decide⟩
  | dictionary d => exact ⟨0x3C, _, by rw [Writer.object]; rfl, by decide, fun _ => by decide⟩
  | stream => cases writable
  | reference id =>
    obtain ⟨b, ds, hdigits⟩ := List.exists_cons_of_ne_nil (digits_ne_nil id.number)
    have hb := isDigit_digits id.number b (by rw [hdigits]; exact List.mem_cons_self)
    rw [reference_text, hdigits]
    exact ⟨b, _, rfl, by simp [leads, hb], fun h => by cases h⟩

theorem space_object (writable : o.writable = true) (rest : Bytes) :
    space (Writer.object o ++ rest) = Writer.object o ++ rest := by
  obtain ⟨b, more, htext, hleads, -⟩ := object_head writable
  obtain ⟨hwhite, hcomment, -⟩ := lead_byte b hleads
  rw [htext, List.cons_append, space_cons hwhite hcomment]

theorem space_spaced (writable : o.writable = true) (rest : Bytes) :
    space (Writer.spaced o (Writer.object o) ++ rest) = Writer.object o ++ rest := by
  rw [Writer.spaced]
  split
  · rw [List.cons_append, space_blank, space_object writable]
  · exact space_object writable rest

theorem length_spaced (writable : o.writable = true) : 0 < (Writer.object o).length ∧
    (Writer.object o).length ≤ (Writer.spaced o (Writer.object o)).length ∧
    (Writer.spaced o (Writer.object o)).length ≤ (Writer.object o).length + 1 := by
  obtain ⟨b, more, htext, -⟩ := object_head writable
  rw [Writer.spaced]
  refine ⟨?_, ?_, ?_⟩
  · rw [htext]
    exact Nat.succ_pos _
  · split <;> simp
  · split <;> simp

/-- An object that follows may stand behind another one. -/
theorem follows_spaced (writable : o.writable = true) (follows : Follows rest) :
    Follows (Writer.spaced o (Writer.object o) ++ rest) := by
  obtain ⟨b, more, htext, hleads, hdelimiter⟩ := object_head writable
  refine ⟨?_, ?_, fun n after hnatural => ?_⟩
  · cases hspace : Writer.needsSpace o with
    | true =>
      rw [Writer.spaced, hspace, if_pos rfl]
      rintro _ ⟨⟩
      rfl
    | false =>
      rw [Writer.spaced, hspace, if_neg Bool.false_ne_true, htext]
      rintro _ ⟨⟩
      exact (delimiter_byte b (hdelimiter hspace)).1
  · rw [space_spaced writable, htext]
    simpa using (lead_byte b hleads).2.2
  · rw [space_spaced writable] at hnatural
    have hnone : Byte.isDigit b = false → False := by
      intro hdigit
      rw [htext, List.cons_append, natural_eq_none _ (by rintro _ ⟨⟩; exact hdigit)] at hnatural
      cases hnatural
    have hnumeral : ∀ {o' : Object}, Numeral (Writer.object o) o' → (space after).head? ≠ some 0x52 := by
      intro o' hnumeral
      rcases hnumeral.natural follows.stops hnatural with rfl | ⟨places, rfl⟩
      · exact follows.head
      · rw [space_cons (by decide) (by decide)]
        simp
    cases o with
    | null =>
      obtain rfl : 0x6E = b := Option.some.inj (congrArg List.head? htext)
      exact (hnone rfl).elim
    | boolean value =>
      cases value with
      | true =>
        obtain rfl : 0x74 = b := Option.some.inj (congrArg List.head? htext)
        exact (hnone rfl).elim
      | false =>
        obtain rfl : 0x66 = b := Option.some.inj (congrArg List.head? htext)
        exact (hnone rfl).elim
    | integer n => exact hnumeral (numeral_integer (by simpa [Object.writable] using writable))
    | real x => exact hnumeral (numeral_real (by simpa [Object.writable] using writable))
    | reference id =>
      rw [reference_text, List.append_assoc, List.cons_append, List.append_assoc] at hnatural
      rw [natural_append (isDigit_digits _) (by rintro _ ⟨⟩; rfl) hnatural, space_blank, space_digits]
      obtain ⟨b, ds, hdigits⟩ := List.exists_cons_of_ne_nil (digits_ne_nil id.generation)
      have hb := isDigit_digits id.generation b (by rw [hdigits]; exact List.mem_cons_self)
      rw [hdigits]
      simpa using (lead_byte b (by simp [leads, hb])).2.2
    | _ => exact (hnone (delimiter_byte b (hdelimiter rfl)).2.2.2).elim

/-! ## Objects without parts -/

theorem word_eq_none {w : UInt8} {ws : Bytes} (h : b ≠ w) : word (w :: ws) o (b :: rest) = none := by
  rw [word, Bytes.dropLead?, if_neg (by simpa using h.symm)]
  rfl

theorem atom_word (writable : o = .null ∨ ∃ b, o = .boolean b) (rest : Bytes) :
    atom references (Writer.object o ++ rest) = some (o, rest) := by
  have hword : ∀ w o, word w o (w ++ rest) = some (o, rest) := by
    intro w o
    rw [word, Bytes.dropLead?_eq_some_iff.mpr rfl]
    rfl
  rcases writable with rfl | ⟨b, rfl⟩
  · show atom references (utf8 "null" ++ rest) = _
    rw [atom, hword]
    rfl
  · cases b with
    | true =>
      show atom references (utf8 "true" ++ rest) = _
      rw [atom, hword]
      rfl
    | false =>
      show atom references (utf8 "false" ++ rest) = _
      rw [atom, hword]
      rfl

theorem atom_cons (hnull : b ≠ 0x6E) (htrue : b ≠ 0x74) (hfalse : b ≠ 0x66) :
    atom references (b :: rest) =
      ((if references then as .reference (reference (b :: rest)) else none) <|>
      as .real (real (b :: rest)) <|> as .integer (integer (b :: rest)) <|>
      as .name (name (b :: rest)) <|> as (.string · .literal) (literal (b :: rest)) <|>
      as (.string · .hexadecimal) (hexadecimal (b :: rest))) := by
  have hwords : word (utf8 "null") .null (b :: rest) = none ∧
      word (utf8 "true") (.boolean true) (b :: rest) = none ∧
      word (utf8 "false") (.boolean false) (b :: rest) = none :=
    ⟨word_eq_none hnull, word_eq_none htrue, word_eq_none hfalse⟩
  rw [atom, hwords.1, hwords.2.1, hwords.2.2]
  rfl

theorem atom_numeral (h : Numeral text o) (stops : Stops rest)
    (follows : references = true → Follows rest) :
    atom references (text ++ rest) = some (o, rest) := by
  obtain ⟨b, more, htext, hb⟩ := h.head
  have hword : b ≠ 0x6E ∧ b ≠ 0x74 ∧ b ≠ 0x66 := by
    rcases hb with hb | rfl
    · refine ⟨?_, ?_, ?_⟩ <;> rintro rfl <;> cases hb
    · decide
  have hreference : (if references then as .reference (reference (text ++ rest)) else none) = none := by
    split
    · next hreferences =>
      rw [reference_eq_none fun n after hnatural => ?_]
      · rfl
      · rcases h.natural stops hnatural with rfl | ⟨places, rfl⟩
        · exact (follows hreferences).unreferenced
        · exact unreferenced_point _
    · rfl
  have hatom : atom references (b :: (more ++ rest)) = _ := atom_cons hword.1 hword.2.1 hword.2.2
  rw [← List.cons_append, ← htext, hreference] at hatom
  rw [hatom]
  have hread := h.read rest stops
  cases hreal : as .real (real (text ++ rest)) with
  | some found =>
    rw [hreal] at hread
    obtain rfl := Option.some.inj hread
    rfl
  | none =>
    rw [hreal] at hread
    rw [show as .integer (integer (text ++ rest)) = some (o, rest) from hread]
    rfl

theorem atom_reference {id : ObjectId} (number : id.number < 0x100000000)
    (generation : id.generation < 0x10000) :
    atom true (Writer.object (.reference id) ++ rest) = some (.reference id, rest) := by
  have hreference : reference (Writer.object (.reference id) ++ rest) = some (id, rest) :=
    reference_append number generation
  obtain ⟨b, ds, hdigits⟩ := List.exists_cons_of_ne_nil (digits_ne_nil id.number)
  have hb := isDigit_digits id.number b (by rw [hdigits]; exact List.mem_cons_self)
  have hword : b ≠ 0x6E ∧ b ≠ 0x74 ∧ b ≠ 0x66 := by
    refine ⟨?_, ?_, ?_⟩ <;> rintro rfl <;> cases hb
  rw [reference_text, hdigits, List.cons_append, List.cons_append] at hreference ⊢
  rw [atom_cons hword.1 hword.2.1 hword.2.2, hreference]
  rfl

theorem atom_delimiter (delimiter : Byte.isDelimiter b = true) :
    atom references (b :: rest) = (as .name (name (b :: rest)) <|>
      as (.string · .literal) (literal (b :: rest)) <|>
      as (.string · .hexadecimal) (hexadecimal (b :: rest))) := by
  have hbyte : ∀ b : UInt8, Byte.isDelimiter b = true → b ≠ 0x6E ∧ b ≠ 0x74 ∧ b ≠ 0x66 ∧
      ¬(b = 0x2B ∨ b = 0x2D) ∧ b ≠ 0x2E ∧ Byte.isDigit b = false :=
    forall_delimiter (by decide)
  obtain ⟨hnull, htrue, hfalse, hsign, hpoint, hdigit⟩ := hbyte b delimiter
  have hreference : reference (b :: rest) = none := by
    rw [reference, natural_eq_none _ (by rintro _ ⟨⟩; exact hdigit)]
    rfl
  rw [atom_cons hnull htrue hfalse, real_eq_none hsign hdigit hpoint, integer_eq_none hsign hdigit,
    hreference]
  cases references <;> rfl

theorem atom_name (bytes : Bytes) (stops : Stops rest) :
    atom references (Writer.object (.name bytes) ++ rest) = some (.name bytes, rest) := by
  have hname : name (Writer.object (.name bytes) ++ rest) = some (bytes, rest) := name_append bytes stops
  obtain ⟨more, htext⟩ : ∃ more, Writer.object (.name bytes) ++ rest = 0x2F :: more := ⟨_, rfl⟩
  rw [htext] at hname ⊢
  rw [atom_delimiter (by decide), hname]
  rfl

theorem atom_string {bytes : Bytes} {style : StringStyle}
    (writable : (Object.string bytes style).writable = true) (rest : Bytes) :
    atom references (Writer.object (.string bytes style) ++ rest) = some (.string bytes style, rest) := by
  cases style with
  | literal =>
    have hliteral : literal (Writer.object (.string bytes .literal) ++ rest) = some (bytes, rest) :=
      literal_append (by simpa [Object.writable] using writable)
    obtain ⟨more, htext⟩ : ∃ more, Writer.object (.string bytes .literal) ++ rest = 0x28 :: more :=
      ⟨_, rfl⟩
    rw [htext] at hliteral ⊢
    rw [atom_delimiter (by decide), hliteral]
    rfl
  | hexadecimal =>
    have hhexadecimal : hexadecimal (Writer.object (.string bytes .hexadecimal) ++ rest) =
        some (bytes, rest) :=
      hexadecimal_append bytes
    obtain ⟨more, htext⟩ : ∃ more, Writer.object (.string bytes .hexadecimal) ++ rest = 0x3C :: more :=
      ⟨_, rfl⟩
    rw [htext] at hhexadecimal ⊢
    rw [atom_delimiter (by decide), hhexadecimal]
    rfl

theorem atom_bracket (h : bs.head? = some 0x5B ∨ bs.head? = some 0x5D ∨ bs.head? = some 0x3E ∨
    ∃ more, bs = 0x3C :: 0x3C :: more) : atom references bs = none := by
  rcases h with h | h | h | ⟨more, rfl⟩
  · obtain ⟨more, rfl⟩ := List.head?_eq_some_iff.mp h
    rw [atom_delimiter (by decide)]
    rfl
  · obtain ⟨more, rfl⟩ := List.head?_eq_some_iff.mp h
    rw [atom_delimiter (by decide)]
    rfl
  · obtain ⟨more, rfl⟩ := List.head?_eq_some_iff.mp h
    rw [atom_delimiter (by decide)]
    rfl
  · rw [atom_delimiter (by decide)]
    rfl

/-! ## Objects -/

theorem objectFrom_atom (h : atom references bs = some (o, rest)) :
    objectFrom references (fuel + 1) bs = some (o, rest) := by
  rw [objectFrom.eq_def]
  dsimp only
  rw [h]

theorem objectFrom_close : objectFrom references fuel (0x5D :: rest) = none := by
  cases fuel with
  | zero => rfl
  | succ fuel =>
    rw [objectFrom.eq_def]
    dsimp only
    rw [atom_bracket (Or.inr (Or.inl rfl))]
    rfl

theorem itemsFrom_close : itemsFrom fuel (0x5D :: rest) = ([], 0x5D :: rest) := by
  cases fuel with
  | zero => rfl
  | succ fuel => rw [itemsFrom, objectFrom_close]

theorem entriesFrom_close (d : Dict Object) : entriesFrom fuel d (0x3E :: rest) = (d, 0x3E :: rest) := by
  cases fuel <;> rfl

theorem objectFrom_array {os : List Object}
    (h : itemsFrom fuel (space (text ++ 0x5D :: rest)) = (os, 0x5D :: rest)) :
    objectFrom references (fuel + 1) (0x5B :: (text ++ 0x5D :: rest)) = some (.array os, rest) := by
  rw [objectFrom, atom_bracket (Or.inl rfl)]
  dsimp only
  rw [h]
  rfl

theorem objectFrom_dictionary {d : Dict Object}
    (h : entriesFrom fuel ∅ (space (text ++ 0x3E :: 0x3E :: rest)) = (d, 0x3E :: 0x3E :: rest)) :
    objectFrom references (fuel + 1) (0x3C :: 0x3C :: (text ++ 0x3E :: 0x3E :: rest)) =
      some (.dictionary d, rest) := by
  rw [objectFrom, atom_bracket (Or.inr (Or.inr (Or.inr ⟨_, rfl⟩)))]
  dsimp only
  rw [h]
  rfl

/-- What may stand behind an object in an array or a dictionary, or behind one that is no reference. -/
def Bounded (references : Bool) (o : Object) (rest : Bytes) : Prop :=
  Stops rest ∧ if references then Follows rest else o.reference? = none

theorem Follows.bounded (h : Follows rest) (o : Object) : Bounded true o rest := ⟨h.stops, h⟩

theorem follows_items {os : List Object} (writable : Object.allWritable os = true) (rest : Bytes) :
    Follows (Writer.items os ++ 0x5D :: rest) := by
  induction os with
  | nil => exact follows_delimiter (by decide) (by decide)
  | cons o os ih =>
    rw [Object.allWritable, Bool.and_eq_true] at writable
    rw [Writer.items, List.append_assoc]
    exact follows_spaced writable.1 (ih writable.2)

theorem follows_entries (es : List (Bytes × Object)) (rest : Bytes) :
    Follows (Writer.entries es ++ 0x3E :: 0x3E :: rest) := by
  cases es with
  | nil => exact follows_delimiter (by decide) (by decide)
  | cons e es =>
    rw [Writer.entries]
    exact follows_delimiter (b := 0x2F) (by decide) (by decide)

mutual

/-- An object is read from what it is written as, if what stands behind it does not go on with it. -/
theorem objectFrom_append (o : Object) {references : Bool} {fuel : Nat} {rest : Bytes}
    (writable : o.writable = true) (bounded : Bounded references o rest)
    (enough : 2 * (Writer.object o).length < fuel) :
    objectFrom references fuel (Writer.object o ++ rest) = some (o.reread, rest) := by
  obtain ⟨fuel, rfl⟩ := Nat.exists_eq_succ_of_ne_zero (Nat.ne_of_gt (Nat.zero_lt_of_lt enough))
  have follows : references = true → Follows rest := by
    rintro rfl
    exact bounded.2
  match o with
  | .null => exact objectFrom_atom (atom_word (Or.inl rfl) rest)
  | .boolean b => exact objectFrom_atom (atom_word (Or.inr ⟨b, rfl⟩) rest)
  | .integer n =>
    exact objectFrom_atom (atom_numeral (numeral_integer (by simpa [Object.writable] using writable))
      bounded.1 follows)
  | .real x =>
    exact objectFrom_atom (atom_numeral (numeral_real (by simpa [Object.writable] using writable))
      bounded.1 follows)
  | .name bytes => exact objectFrom_atom (atom_name bytes bounded.1)
  | .string bytes style => exact objectFrom_atom (atom_string writable rest)
  | .reference id =>
    cases references with
    | false => cases bounded.2
    | true =>
      simp only [Object.writable, decide_eq_true_eq] at writable
      exact objectFrom_atom (atom_reference writable.1 writable.2)
  | .stream .. => cases writable
  | .array [] =>
    show objectFrom references (fuel + 1) (0x5B :: ([] ++ 0x5D :: rest)) = _
    exact objectFrom_array itemsFrom_close
  | .array (o :: os) =>
    have hall : Object.allWritable (o :: os) = true := writable
    rw [Object.writable, Object.allWritable, Bool.and_eq_true] at writable
    have hlength := length_spaced writable.1
    simp only [Writer.object, List.length_append, List.length_cons, List.length_nil] at enough
    have hitems : itemsFrom fuel (space (Writer.items (o :: os) ++ 0x5D :: rest)) =
        (Object.rereadAll (o :: os), 0x5D :: rest) :=
      itemsFrom_append (o :: os) hall (by rw [Writer.items, List.length_append]; omega)
    rw [Writer.items, List.append_assoc, space_spaced writable.1, ← space_object writable.1,
      ← List.append_assoc] at hitems
    rw [Writer.object, List.append_assoc, List.cons_append, List.cons_append, List.singleton_append]
    exact objectFrom_array hitems
  | .dictionary ⟨es⟩ =>
    simp only [Object.writable, Bool.and_eq_true, decide_eq_true_eq] at writable
    simp only [Writer.object, List.length_append, List.length_cons, List.length_nil] at enough
    have hentries : entriesFrom fuel ∅ (space (Writer.entries es ++ 0x3E :: 0x3E :: rest)) =
        (⟨Object.rereadEntries es⟩, 0x3E :: 0x3E :: rest) :=
      entriesFrom_append es writable.2 writable.1 (by omega)
    rw [Writer.object, List.append_assoc, List.cons_append, List.cons_append]
    exact objectFrom_dictionary hentries

theorem itemsFrom_append (os : List Object) {fuel : Nat} {rest : Bytes}
    (writable : Object.allWritable os = true) (enough : 2 * (Writer.items os).length + 2 ≤ fuel) :
    itemsFrom fuel (space (Writer.items os ++ 0x5D :: rest)) = (Object.rereadAll os, 0x5D :: rest) := by
  match os with
  | [] => exact itemsFrom_close
  | o :: os =>
    obtain ⟨fuel, rfl⟩ : ∃ n, fuel = n + 1 := Nat.exists_eq_succ_of_ne_zero (by omega)
    rw [Object.allWritable, Bool.and_eq_true] at writable
    have hlength := length_spaced writable.1
    rw [Writer.items, List.length_append] at enough
    rw [Writer.items, List.append_assoc, space_spaced writable.1, itemsFrom,
      objectFrom_append o writable.1 ((follows_items writable.2 rest).bounded o) (by omega)]
    dsimp only
    rw [itemsFrom_append os writable.2 (by omega)]
    rfl

theorem entriesFrom_append (es : List (Bytes × Object)) {fuel : Nat} {d : Dict Object} {rest : Bytes}
    (writable : Object.entriesWritable es = true) (distinct : (d.keys ++ es.map (·.1)).Nodup)
    (enough : 2 * (Writer.entries es).length + 2 ≤ fuel) :
    entriesFrom fuel d (space (Writer.entries es ++ 0x3E :: 0x3E :: rest)) =
      (⟨d.entries ++ Object.rereadEntries es⟩, 0x3E :: 0x3E :: rest) := by
  match es with
  | [] =>
    rw [Object.rereadEntries, List.append_nil]
    exact entriesFrom_close d
  | (key, o) :: es =>
    obtain ⟨fuel, rfl⟩ : ∃ n, fuel = n + 1 := Nat.exists_eq_succ_of_ne_zero (by omega)
    simp only [Object.entriesWritable, Bool.and_eq_true] at writable
    have hnot : key ∉ d.keys := fun h =>
      List.disjoint_of_nodup_append distinct h List.mem_cons_self
    have hinsert : d.insert key o.reread = ⟨d.entries ++ [(key, o.reread)]⟩ :=
      OrderedMap.insert_of_not_mem hnot _
    have hlength := length_spaced writable.1
    have hfollows := follows_entries es rest
    have hstops := (follows_spaced writable.1 hfollows).stops
    have hname : ∀ rest, space (Writer.name key ++ rest) = Writer.name key ++ rest :=
      space_object (o := .name key) rfl
    simp only [Writer.entries, List.length_append] at enough
    rw [Writer.entries, List.append_assoc, List.append_assoc, hname, entriesFrom, name_append key hstops]
    dsimp only
    rw [space_spaced writable.1, objectFrom_append o writable.1 (hfollows.bounded o) (by omega)]
    dsimp only
    rw [hinsert, entriesFrom_append es writable.2 ?_ (by omega)]
    · simp [Object.rereadEntries]
    · simpa [OrderedMap.keys] using distinct

end

theorem object_object (writable : o.writable = true) :
    object (Writer.object o) = some (o.reread, []) := by
  have follows : Follows [] := by
    refine ⟨fun b hb => ?_, ?_, fun n after h => ?_⟩
    · cases hb
    · rw [space]
      exact Option.some_ne_none _ |>.symm
    · rw [space] at h
      cases h
  have hread := objectFrom_append o writable (follows.bounded o)
    (Nat.lt_of_lt_of_le (Nat.lt_succ_self _) (Nat.le_succ _))
  rw [List.append_nil] at hread
  exact hread

end Reader

end AccessiblePdf
