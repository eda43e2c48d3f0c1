import AccessiblePdf.Proofs.Text.RoundTrip
import Mathlib.Data.List.Lex

/-!
Texts as keys that are written as UTF-8 and read as text strings. The bytes of texts are in the order of
the texts (`utf8_lt`). A byte-order mark in front of a text is lost when it is read, and nothing else
(`decode_utf8`).
-/
namespace AccessiblePdf

/-! ## Order -/

namespace Utf8

section Bytes

variable {a b : Nat} {as bs : Bytes}

theorem cons_lt_of_lt (hb : b < 256) (h : a < b) : UInt8.ofNat a :: as < UInt8.ofNat b :: bs := by
  refine List.cons_lt_cons_iff.mpr (Or.inl (UInt8.lt_iff_toNat_lt.mpr ?_))
  rw [UInt8.toNat_ofNat', UInt8.toNat_ofNat', Nat.mod_eq_of_lt hb]
  exact Nat.lt_of_le_of_lt (Nat.mod_le _ _) h

theorem cons_lt_of_le (hb : b < 256) (hle : a ≤ b) (h : a = b → as < bs) :
    UInt8.ofNat a :: as < UInt8.ofNat b :: bs := by
  rcases Nat.lt_or_eq_of_le hle with hlt | rfl
  · exact cons_lt_of_lt hb hlt
  · exact List.cons_lt_cons_iff.mpr (Or.inr ⟨rfl, h rfl⟩)

end Bytes

/-- The bytes of a lesser character decide, whatever follows them. -/
theorem utf8EncodeChar_append_lt {c d : Char} (h : c < d) (bs bs' : Bytes) :
    String.utf8EncodeChar c ++ bs < String.utf8EncodeChar d ++ bs' := by
  have hlt : c.val.toNat < d.val.toNat := UInt32.lt_iff_toNat_lt.mp h
  have hbound : d.val.toNat < 0x110000 := by
    have hvalid : d.toNat < 0x110000 := by
      have := char_bounds d
      omega
    exact hvalid
  simp only [String.utf8EncodeChar]
  generalize c.val.toNat = v at hlt
  generalize d.val.toNat = w at hlt hbound
  -- A longer encoding starts with a greater byte; equally long ones differ first in a greater digit.
  split
  · split
    · exact cons_lt_of_lt (by omega) hlt
    split
    · exact cons_lt_of_lt (by omega) (by omega)
    split
    · exact cons_lt_of_lt (by omega) (by omega)
    · exact cons_lt_of_lt (by omega) (by omega)
  split
  · rw [if_neg (by omega)]
    split
    · exact cons_lt_of_le (by omega) (by omega) fun hlead => cons_lt_of_lt (by omega) (by omega)
    split
    · exact cons_lt_of_lt (by omega) (by omega)
    · exact cons_lt_of_lt (by omega) (by omega)
  split
  · rw [if_neg (by omega), if_neg (by omega)]
    split
    · exact cons_lt_of_le (by omega) (by omega) fun hlead =>
        cons_lt_of_le (by omega) (by omega) fun hsecond => cons_lt_of_lt (by omega) (by omega)
    · exact cons_lt_of_lt (by omega) (by omega)
  · rw [if_neg (by omega), if_neg (by omega), if_neg (by omega)]
    exact cons_lt_of_le (by omega) (by omega) fun hlead =>
      cons_lt_of_le (by omega) (by omega) fun hsecond =>
        cons_lt_of_le (by omega) (by omega) fun hthird => cons_lt_of_lt (by omega) (by omega)

theorem encode_lt {cs ds : List Char} (h : cs < ds) : encode cs < encode ds := by
  induction cs generalizing ds with
  | nil =>
    cases ds with
    | nil => exact absurd h (List.not_lt_nil _)
    | cons d ds =>
      obtain ⟨first, rest, hfirst, -⟩ := utf8EncodeChar_eq_cons d
      rw [encode_cons, hfirst]
      exact List.nil_lt_cons _ _
  | cons c cs ih =>
    cases ds with
    | nil => exact absurd h (List.not_lt_nil _)
    | cons d ds =>
      rw [encode_cons, encode_cons]
      rcases List.cons_lt_cons_iff.mp h with hlt | ⟨rfl, hrest⟩
      · exact utf8EncodeChar_append_lt hlt _ _
      · exact List.append_left_lt (ih hrest)

end Utf8

/-- The bytes of texts are in the order of the texts. -/
theorem utf8_lt {s t : String} (h : s < t) : utf8 s < utf8 t := by
  rw [utf8_eq_flatMap, utf8_eq_flatMap]
  exact Utf8.encode_lt (String.lt_iff.mp h)

theorem utf8_injective {s t : String} (h : utf8 s = utf8 t) : s = t := by
  have hread := Utf8.decode?_utf8 s
  rw [h, Utf8.decode?_utf8] at hread
  exact (Option.some.inj hread).symm

/-! ## Byte-order marks -/

theorem Bytes.eq_append_of_dropLead? {lead bs rest : Bytes} (h : dropLead? lead bs = some rest) :
    bs = lead ++ rest := by
  induction lead generalizing bs with
  | nil => exact Option.some.inj h
  | cons l lead ih =>
    cases bs with
    | nil => cases h
    | cons b bs =>
      rw [dropLead?] at h
      split at h
      · next hl => rw [List.cons_append, ← ih h, eq_of_beq hl]
      · cases h

namespace TextString

/-- The character that marks the order of bytes. -/
def mark : Char := '\uFEFF'

/-- A mark stands in front. -/
def Marked (s : String) : Prop := s.toList.head? = some mark

instance (s : String) : Decidable (Marked s) := inferInstanceAs (Decidable (_ = _))

/-- Without a mark in front. -/
def unmark (s : String) : String := if Marked s then String.ofList s.toList.tail else s

theorem unmark_of_not_marked {s : String} (h : ¬Marked s) : unmark s = s := if_neg h

theorem toList_of_marked_unmark {s : String} (h : Marked (unmark s)) :
    s.toList = mark :: (unmark s).toList := by
  rw [unmark] at h ⊢
  split at h
  · next hmarked =>
    rw [if_pos hmarked, String.toList_ofList]
    obtain ⟨cs, hcs⟩ := List.head?_eq_some_iff.mp hmarked
    rw [hcs, List.tail_cons]
  · next hmarked => exact absurd h hmarked

theorem marked_of_marked_unmark {s : String} (h : Marked (unmark s)) : Marked s := by
  rw [Marked, toList_of_marked_unmark h]
  rfl

theorem utf8_mark : String.utf8EncodeChar mark = [0xEF, 0xBB, 0xBF] := by decide

/-- What follows a mark, and what is read of a text without one. -/
theorem dropUtf8Mark_utf8 (s : String) : dropUtf8Mark (utf8 s) = utf8 (unmark s) := by
  rw [dropUtf8Mark, unmark]
  split
  · next h =>
    obtain ⟨cs, hcs⟩ := List.head?_eq_some_iff.mp h
    rw [utf8_eq_flatMap, utf8_eq_flatMap, String.toList_ofList, hcs, List.tail_cons,
      List.flatMap_cons, utf8_mark]
    rfl
  · next h =>
    have hnone : Bytes.dropLead? [0xEF, 0xBB, 0xBF] (utf8 s) = none := by
      by_contra hsome
      obtain ⟨rest, hrest⟩ := Option.ne_none_iff_exists'.mp hsome
      have hbytes := Bytes.eq_append_of_dropLead? hrest
      rw [utf8_eq_flatMap] at hbytes
      cases hs : s.toList with
      | nil =>
        rw [hs] at hbytes
        cases hbytes
      | cons c cs =>
        rw [hs, List.flatMap_cons, ← utf8_mark] at hbytes
        refine h ?_
        rw [Marked, hs, Utf8.utf8EncodeChar_append_inj hbytes]
        rfl
    rw [hnone, Option.getD_none]

/-- A text that was written as UTF-8 is read without its mark. -/
theorem decode_utf8 (s : String) : decode (utf8 s) = unmark s := by
  have hread : (Utf8.decode? (dropUtf8Mark (utf8 s))).getD (latin1 (dropUtf8Mark (utf8 s))) =
      unmark s := by
    rw [dropUtf8Mark_utf8, Utf8.decode?_utf8, Option.getD_some]
  rw [decode.eq_def]
  split
  · next rest hbytes =>
    rw [utf8_eq_flatMap] at hbytes
    cases hs : s.toList with
    | nil =>
      rw [hs] at hbytes
      cases hbytes
    | cons c cs =>
      obtain ⟨lead, more, hlead, hstep⟩ := Utf8.step_utf8EncodeChar c
      rw [hs, List.flatMap_cons, hlead, List.cons_append, List.cons.injEq] at hbytes
      have hnone : Utf8.step 0xFE (more ++ []) = (none, 0) := rfl
      rw [← hbytes.1, hstep] at hnone
      cases hnone
  · exact hread

theorem utf8_decode_utf8_iff (s : String) : utf8 (decode (utf8 s)) = utf8 s ↔ ¬Marked s := by
  rw [decode_utf8]
  constructor
  · intro h hmarked
    have hsame := utf8_injective h
    have hlist := toList_of_marked_unmark (s := s) (by rw [hsame]; exact hmarked)
    rw [hsame] at hlist
    exact absurd (congrArg List.length hlist) (by simp)
  · intro h
    rw [unmark_of_not_marked h]

end TextString

end AccessiblePdf
