import AccessiblePdf.Bytes
import AccessiblePdf.Text.Utf8
import Mathlib.Data.List.Infix

/-!
The bytes of texts. Each character starts with a byte that no other byte of a character can be taken
for, so the bytes of a text stand in those of another one just when its characters do
(`utf8_infix_iff`).
-/
namespace AccessiblePdf

theorem toList_literal {s : String} {cs : List Char} (h : s = String.ofList cs) :
    s.toList = cs := by
  rw [h, String.toList_ofList]

theorem utf8_eq_flatMap (s : String) : utf8 s = s.toList.flatMap String.utf8EncodeChar := by
  have htext : s = String.ofList s.toList := String.ofList_toList.symm
  rw [htext, utf8, String.toUTF8_eq_toByteArray, String.toByteArray_ofList, String.toList_ofList,
    List.utf8Encode, List.toList_data_toByteArray]

namespace Bytes

theorem find?_isSome (needle : Bytes) (bs : Bytes) :
    (find? needle bs).isSome = true ↔ needle <:+: bs := by
  induction bs with
  | nil => cases needle <;> simp [find?]
  | cons b bs ih =>
    rw [find?, List.infix_cons_iff, ← ih, ← List.isPrefixOf_iff_prefix]
    cases needle.isPrefixOf (b :: bs) <;> simp

theorem dropLead?_eq_some_iff {lead bs rest : Bytes} :
    dropLead? lead bs = some rest ↔ bs = lead ++ rest := by
  induction lead generalizing bs with
  | nil => simp [dropLead?]
  | cons l lead ih =>
    cases bs with
    | nil => simp [dropLead?]
    | cons b bs =>
      by_cases hb : l = b
      · simp [dropLead?, hb, ih]
      · simp [dropLead?, hb, Ne.symm hb]

end Bytes

/-! ## Characters -/

namespace Utf8

variable {cs ds : List Char} {bs : Bytes}

/-- The bytes of characters. -/
def encode (cs : List Char) : Bytes := cs.flatMap String.utf8EncodeChar

theorem encode_cons (c : Char) (cs : List Char) :
    encode (c :: cs) = String.utf8EncodeChar c ++ encode cs := rfl

theorem encode_append (front back : List Char) : encode (front ++ back) = encode front ++ encode back :=
  List.flatMap_append

theorem utf8EncodeChar_eq_cons (c : Char) : ∃ first rest, String.utf8EncodeChar c = first :: rest ∧
    first.IsUTF8FirstByte ∧ ∀ b ∈ rest, ¬b.IsUTF8FirstByte := by
  have hbyte : ∀ {i : Nat} (hi : i < (String.utf8EncodeChar c).length),
      ((String.utf8EncodeChar c)[i]).IsUTF8FirstByte ↔ i = 0 := fun hi =>
    UInt8.isUTF8FirstByte_getElem_utf8EncodeChar
  have hlength : 0 < (String.utf8EncodeChar c).length := by
    rw [String.length_utf8EncodeChar]
    exact c.utf8Size_pos
  obtain ⟨first, rest, hcons⟩ := List.exists_cons_of_length_pos hlength
  refine ⟨first, rest, hcons, ?_, ?_⟩
  · simpa [hcons] using (hbyte hlength).mpr rfl
  · intro b hb
    obtain ⟨i, hi, rfl⟩ := List.mem_iff_getElem.mp hb
    have hi' : i + 1 < (String.utf8EncodeChar c).length := by
      rw [hcons, List.length_cons]
      omega
    simpa [hcons] using (hbyte hi').not.mpr (Nat.succ_ne_zero i)

theorem utf8EncodeChar_append_inj {c d : Char} {bs bs' : Bytes}
    (h : String.utf8EncodeChar c ++ bs = String.utf8EncodeChar d ++ bs') : c = d := by
  have hread : ∀ (c : Char) (bs : Bytes),
      (String.utf8EncodeChar c ++ bs).toByteArray.utf8DecodeChar? 0 = some c := by
    intro c bs
    rw [List.toByteArray_append]
    exact ByteArray.utf8DecodeChar?_utf8EncodeChar_append
  have hc := hread c bs
  rw [h, hread d bs'] at hc
  exact (Option.some.inj hc).symm

theorem prefix_of_encode (h : encode cs <+: encode ds) : cs <+: ds := by
  induction cs generalizing ds with
  | nil => exact List.nil_prefix
  | cons c cs ih =>
    obtain ⟨more, hmore⟩ := h
    cases ds with
    | nil =>
      obtain ⟨first, rest, hfirst, -⟩ := utf8EncodeChar_eq_cons c
      rw [encode_cons, hfirst] at hmore
      exact absurd hmore (by simp [encode])
    | cons d ds =>
      rw [encode_cons, encode_cons, List.append_assoc] at hmore
      obtain rfl := utf8EncodeChar_append_inj hmore
      exact (List.prefix_cons_inj c).mpr (ih ⟨more, List.append_cancel_left hmore⟩)

theorem encode_injective : Function.Injective encode := fun _ _ h =>
  (prefix_of_encode (h ▸ List.prefix_refl _)).eq_of_length_le
    (prefix_of_encode (h ▸ List.prefix_refl _)).length_le

theorem infix_of_infix_append {first : UInt8} {needle inner : Bytes}
    (hfirst : first.IsUTF8FirstByte) (hinner : ∀ b ∈ inner, ¬b.IsUTF8FirstByte)
    (h : first :: needle <:+: inner ++ bs) : first :: needle <:+: bs := by
  induction inner with
  | nil => exact h
  | cons b inner ih =>
    rw [List.forall_mem_cons] at hinner
    rcases List.infix_cons_iff.mp h with h | h
    · obtain ⟨rfl, -⟩ := List.cons_prefix_cons.mp h
      exact absurd hfirst hinner.1
    · exact ih hinner.2 h

theorem infix_of_encode (h : encode cs <:+: encode ds) : cs <:+: ds := by
  cases cs with
  | nil => exact List.nil_infix
  | cons c cs =>
    induction ds with
    | nil =>
      obtain ⟨first, rest, hfirst, -⟩ := utf8EncodeChar_eq_cons c
      rw [encode_cons, hfirst] at h
      exact absurd (List.eq_nil_of_infix_nil h) (by simp)
    | cons d ds ih =>
      -- It stands in front, or behind the first byte and then behind the first character.
      obtain ⟨first, rest, hd, -, hrest⟩ := utf8EncodeChar_eq_cons d
      have hsplit : encode (d :: ds) = first :: (rest ++ encode ds) := by
        rw [encode_cons, hd, List.cons_append]
      rw [hsplit] at h
      rcases List.infix_cons_iff.mp h with h | h
      · rw [← hsplit] at h
        exact (prefix_of_encode h).isInfix
      · obtain ⟨first', rest', hc, hfirst, -⟩ := utf8EncodeChar_eq_cons c
        rw [encode_cons, hc, List.cons_append] at h ih
        exact (ih (infix_of_infix_append hfirst hrest h)).trans (List.suffix_cons d ds).isInfix

theorem encode_infix (h : cs <:+: ds) : encode cs <:+: encode ds := by
  obtain ⟨before, behind, rfl⟩ := h
  exact ⟨encode before, encode behind, by simp [encode]⟩

end Utf8

/-- The bytes of a text stand in those of another one just when its characters do. -/
theorem utf8_infix_iff {s t : String} : utf8 s <:+: utf8 t ↔ s.toList <:+: t.toList := by
  rw [utf8_eq_flatMap, utf8_eq_flatMap]
  exact ⟨Utf8.infix_of_encode, Utf8.encode_infix⟩

end AccessiblePdf
