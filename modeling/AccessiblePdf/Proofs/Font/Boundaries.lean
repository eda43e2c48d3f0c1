import AccessiblePdf.Font.Glyph
import AccessiblePdf.Proofs.Text.RoundTrip
import Mathlib.Data.List.Basic

/-!
Glyph names that cannot be read. The bytes after `uni` are taken four at a time, and every stretch has to
end between two characters (`isBoundary_encode`, `isBoundary_within`). So reading a name breaks off just
when a part of it, behind parts that have a text, goes on after `uni` with numbers of four digits and then
with four bytes that end within a character, a multiple of four bytes in all (`read_ok_iff`).
-/
namespace AccessiblePdf

namespace Utf8

/-! ## Places in the bytes of a text -/

theorem length_encode_cons (c : Char) (cs : List Char) :
    (encode (c :: cs)).length = c.utf8Size + (encode cs).length := by
  rw [encode_cons, List.length_append, String.length_utf8EncodeChar]

theorem lead_not_tail : ∀ n < 64, isTail (UInt8.ofNat (n + 0xC0)) = false := by decide

/-- The first byte of a character continues no character, and its other bytes do. -/
theorem utf8EncodeChar_tails (c : Char) : ∃ first rest, String.utf8EncodeChar c = first :: rest ∧
    isTail first = false ∧ ∀ b ∈ rest, isTail b = true := by
  have hbounds := char_bounds c
  generalize hv : c.toNat = v at hbounds
  have hval : c.val.toNat = v := hv
  have htail : ∀ n, isTail (UInt8.ofNat (n % 64 + 0x80)) = true :=
    fun n => (tail_byte (n % 64) (Nat.mod_lt n (by decide))).1
  simp only [String.utf8EncodeChar, hval]
  split
  · next hone =>
    refine ⟨_, _, rfl, ?_, by simp⟩
    have hbyte : (UInt8.ofNat v).toNat = v := by
      rw [UInt8.toNat_ofNat']
      omega
    have hlow : ¬0x80 ≤ UInt8.ofNat v := fun h => by
      have := UInt8.le_iff_toNat_le.mp h
      rw [hbyte] at this
      exact absurd hone (Nat.not_le_of_lt this)
    rw [isTail]
    exact Bool.and_eq_false_iff.mpr (.inl (decide_eq_false hlow))
  split
  · exact ⟨_, _, rfl, lead_not_tail (v / 64 % 32) (by omega), List.forall_mem_singleton.mpr (htail _)⟩
  split
  · refine ⟨_, _, rfl, ?_, List.forall_mem_cons.mpr ⟨htail _, List.forall_mem_singleton.mpr (htail _)⟩⟩
    have hlead := lead_not_tail (v / 4096 % 16 + 32) (by omega)
    rwa [Nat.add_assoc] at hlead
  · refine ⟨_, _, rfl, ?_, List.forall_mem_cons.mpr ⟨htail _,
      List.forall_mem_cons.mpr ⟨htail _, List.forall_mem_singleton.mpr (htail _)⟩⟩⟩
    have hlead := lead_not_tail (v / 262144 % 8 + 48) (by omega)
    rwa [Nat.add_assoc] at hlead

theorem place_cases (cs : List Char) {k : Nat} (h : k ≤ (encode cs).length) :
    (∃ front back, cs = front ++ back ∧ (encode front).length = k) ∨
      ∃ front c back, cs = front ++ c :: back ∧ (encode front).length < k ∧
        k < (encode front).length + c.utf8Size := by
  induction cs generalizing k with
  | nil => exact .inl ⟨[], [], rfl, (Nat.le_zero.mp h).symm⟩
  | cons d cs ih =>
    rcases Nat.eq_zero_or_pos k with rfl | hpos
    · exact .inl ⟨[], d :: cs, rfl, rfl⟩
    rcases Nat.lt_or_ge k d.utf8Size with hlt | hge
    · exact .inr ⟨[], d, cs, rfl, hpos, by simpa [encode] using hlt⟩
    · rw [length_encode_cons] at h
      rcases ih (k := k - d.utf8Size) (by omega) with
        ⟨front, back, rfl, hk⟩ | ⟨front, c, back, rfl, hlow, hhigh⟩
      · exact .inl ⟨d :: front, back, rfl, by rw [length_encode_cons]; omega⟩
      · exact .inr ⟨d :: front, c, back, rfl, by rw [length_encode_cons]; omega,
          by rw [length_encode_cons]; omega⟩

end Utf8

namespace Glyph

open Utf8 (encode)

theorem isBoundary_encode (cs : List Char) : isBoundary (encode cs) = true := by
  cases cs with
  | nil => rfl
  | cons c cs =>
    obtain ⟨first, rest, hbytes, hfirst, -⟩ := Utf8.utf8EncodeChar_tails c
    rw [Utf8.encode_cons, hbytes, List.cons_append, isBoundary, hfirst, Bool.not_false]

/-- No place within a character is a boundary. -/
theorem isBoundary_within {front : List Char} {c : Char} {k : Nat} (back : List Char)
    (hlow : (encode front).length < k) (hhigh : k < (encode front).length + c.utf8Size) :
    isBoundary ((encode (front ++ c :: back)).drop k) = false := by
  obtain ⟨first, rest, hbytes, -, hrest⟩ := Utf8.utf8EncodeChar_tails c
  obtain ⟨i, rfl⟩ := Nat.exists_eq_add_of_lt hlow
  have hsize : rest.length + 1 = c.utf8Size := by
    rw [← String.length_utf8EncodeChar, hbytes, List.length_cons]
  have hi : i < rest.length := by omega
  rw [Utf8.encode_append, Nat.add_assoc, List.drop_append, List.drop_of_length_le (by omega),
    Nat.add_sub_cancel_left, List.nil_append, Utf8.encode_cons, hbytes, List.cons_append,
    List.drop_succ_cons, List.drop_append_of_le_length (Nat.le_of_lt hi), List.drop_eq_getElem_cons hi,
    List.cons_append, isBoundary, hrest _ (List.getElem_mem hi), Bool.not_true]

/-! ## Numbers of four digits -/

variable {front back inner behind cs : List Char} {c : Char}

theorem units_front (back : List Char) (h : (encode front).length = 4) :
    units (encode (front ++ back)) = (Numeral.hex? 65536 (encode front)).elim (.ok none) fun unit =>
      (units (encode back)).map (Option.map (unit :: ·)) := by
  have hstart := isBoundary_encode (front ++ back)
  rw [Utf8.encode_append] at hstart ⊢
  match hfront : encode front, h with
  | [b₀, b₁, b₂, b₃], _ =>
    rw [hfront] at hstart
    simp only [List.cons_append, List.nil_append] at hstart ⊢
    rw [units, hstart, isBoundary_encode, Bool.and_self, if_pos rfl]
    cases Numeral.hex? 65536 [b₀, b₁, b₂, b₃] <;> rfl

theorem units_within (behind : List Char) (hlow : (encode inner).length < 4)
    (hhigh : 4 < (encode inner).length + c.utf8Size) :
    units (encode (inner ++ c :: behind)) = .error .withinCharacter := by
  have hplace := isBoundary_within behind hlow hhigh
  have hlength : 4 < (encode (inner ++ c :: behind)).length := by
    rw [Utf8.encode_append, List.length_append, Utf8.length_encode_cons]
    omega
  match hbytes : encode (inner ++ c :: behind), hlength with
  | b₀ :: b₁ :: b₂ :: b₃ :: rest, _ =>
    rw [hbytes] at hplace
    simp only [List.drop_succ_cons, List.drop_zero] at hplace
    rw [units, hplace, Bool.and_false, if_neg Bool.false_ne_true]

/-- Numbers of four bytes each, and then four bytes that end within a character. -/
def CutsGroup (cs : List Char) : Prop :=
  ∃ (groups : List (List Char)) (inner : List Char) (c : Char) (behind : List Char),
    cs = groups.flatten ++ (inner ++ c :: behind) ∧
    (∀ group ∈ groups,
      (encode group).length = 4 ∧ (Numeral.hex? 65536 (encode group)).isSome = true) ∧
    (encode inner).length < 4 ∧ 4 < (encode inner).length + c.utf8Size

theorem not_cutsGroup_nil : ¬CutsGroup [] := by
  rintro ⟨groups, inner, c, behind, heq, -⟩
  simp at heq

/-- Behind four bytes that are characters a cut is one of the rest. -/
theorem cutsGroup_front (h : (encode front).length = 4) :
    CutsGroup (front ++ back) ↔
      (Numeral.hex? 65536 (encode front)).isSome = true ∧ CutsGroup back := by
  constructor
  · rintro ⟨groups, inner, c, behind, heq, hgroups, hlow, hhigh⟩
    cases groups with
    | nil =>
      -- A cut in the first group would put the end of `front` within a character.
      rw [List.flatten_nil, List.nil_append] at heq
      have hwithin := isBoundary_within behind hlow hhigh
      rw [← heq, Utf8.encode_append, List.drop_append_of_le_length (Nat.le_of_eq h.symm),
        List.drop_of_length_le (Nat.le_of_eq h), List.nil_append, isBoundary_encode] at hwithin
      exact absurd hwithin (by decide)
    | cons group groups =>
      rw [List.forall_mem_cons] at hgroups
      rw [List.flatten_cons, List.append_assoc] at heq
      have hbytes := congrArg encode heq
      rw [Utf8.encode_append, Utf8.encode_append] at hbytes
      have hfront := (List.append_inj hbytes (h.trans hgroups.1.1.symm)).1
      obtain rfl : front = group := Utf8.encode_injective hfront
      exact ⟨hgroups.1.2, groups, inner, c, behind, List.append_cancel_left heq, hgroups.2, hlow, hhigh⟩
  · rintro ⟨hnumber, groups, inner, c, behind, rfl, hgroups, hlow, hhigh⟩
    refine ⟨front :: groups, inner, c, behind, ?_, List.forall_mem_cons.mpr ⟨⟨h, hnumber⟩, hgroups⟩,
      hlow, hhigh⟩
    rw [List.flatten_cons, List.append_assoc]

theorem map_eq_error_iff {α β : Type} {x : Except Cut α} {f : α → β} {cut : Cut} :
    x.map f = .error cut ↔ x = .error cut := by
  cases x <;> simp [Except.map]

theorem units_eq_error_iff (h : (encode cs).length % 4 = 0) (cut : Cut) :
    units (encode cs) = .error cut ↔ CutsGroup cs := by
  -- The induction is on the number of bytes, since a group has four bytes and any number of characters.
  induction hn : (encode cs).length using Nat.strong_induction_on generalizing cs with
  | _ n ih =>
    subst hn
    rcases Nat.eq_zero_or_pos (encode cs).length with hzero | hpos
    · obtain rfl : cs = [] := Utf8.encode_injective (List.eq_nil_of_length_eq_zero hzero)
      exact iff_of_false (by rintro ⟨⟩) not_cutsGroup_nil
    rcases Utf8.place_cases cs (k := 4) (by omega) with
      ⟨front, back, rfl, hfront⟩ | ⟨inner, c, behind, rfl, hlow, hhigh⟩
    · rw [cutsGroup_front hfront, units_front back hfront]
      rw [Utf8.encode_append, List.length_append, hfront] at h ih
      cases hnumber : Numeral.hex? 65536 (encode front) with
      | none => simp
      | some unit =>
        have hback := ih (encode back).length (by omega) (by omega) rfl
        rw [Option.elim_some, map_eq_error_iff, hback]
        simp
    · rw [units_within behind hlow hhigh]
      exact iff_of_true (by cases cut; rfl) ⟨[], inner, c, behind, rfl, by simp, hlow, hhigh⟩

/-! ## Names -/

theorem unitsText_eq_error_iff (cs : List Char) (cut : Cut) :
    unitsText (encode cs) = .error cut ↔ (encode cs).length % 4 = 0 ∧ CutsGroup cs := by
  rw [unitsText]
  split
  · next hnone =>
    refine iff_of_false (by rintro ⟨⟩) ?_
    rintro ⟨hfours, hcut⟩
    rw [hfours, bne_self_eq_false, Bool.or_false, List.isEmpty_iff] at hnone
    obtain rfl : cs = [] := Utf8.encode_injective hnone
    exact not_cutsGroup_nil hcut
  · next hsome =>
    have hfours : (encode cs).length % 4 = 0 := by
      by_contra hne
      exact hsome (by simp [hne])
    rw [map_eq_error_iff, units_eq_error_iff hfours]
    exact (and_iff_right hfours).symm

theorem partText_eq_error_iff (part : List Char) (cut : Cut) :
    partText (String.ofList part) = .error cut ↔
      ∃ digits, part = "uni".toList ++ digits ∧ (encode digits).length % 4 = 0 ∧ CutsGroup digits := by
  have hutf8 : utf8 (String.ofList part) = encode part := by
    rw [utf8_eq_flatMap, String.toList_ofList, encode]
  have huni : utf8 "uni" = encode "uni".toList := utf8_eq_flatMap "uni"
  rw [partText, map_eq_error_iff, uniText, hutf8, huni]
  cases hlead : Bytes.dropLead? (encode "uni".toList) (encode part) with
  | none =>
    refine iff_of_false (by rintro ⟨⟩) ?_
    rintro ⟨digits, rfl, -⟩
    rw [Bytes.dropLead?_eq_some_iff.mpr (Utf8.encode_append _ digits)] at hlead
    cases hlead
  | some rest =>
    rw [Bytes.dropLead?_eq_some_iff] at hlead
    obtain ⟨digits, rfl⟩ := Utf8.prefix_of_encode ⟨rest, hlead.symm⟩
    rw [Utf8.encode_append] at hlead
    obtain rfl : encode digits = rest := List.append_cancel_left hlead
    simp only [unitsText_eq_error_iff, List.append_cancel_left_eq, exists_eq_left']

/-- A part that reading comes to: all parts before it have a text. -/
def Reached (parts : List (List Char)) (part : List Char) : Prop :=
  ∃ before behind, parts = before ++ part :: behind ∧
    ∀ p ∈ before, ∃ text, partText (String.ofList p) = .ok (some text)

theorem not_reached_nil (part : List Char) : ¬Reached [] part := by
  rintro ⟨before, behind, heq, -⟩
  exact List.append_ne_nil_of_right_ne_nil before (List.cons_ne_nil part behind) heq.symm

theorem reached_cons {p part : List Char} {parts : List (List Char)} : Reached (p :: parts) part ↔
    part = p ∨ (∃ text, partText (String.ofList p) = .ok (some text)) ∧ Reached parts part := by
  constructor
  · rintro ⟨before, behind, heq, htexts⟩
    cases before with
    | nil => exact .inl (List.cons.inj heq).1.symm
    | cons q before =>
      obtain ⟨rfl, hparts⟩ := List.cons.inj heq
      rw [List.forall_mem_cons] at htexts
      exact .inr ⟨htexts.1, before, behind, hparts, htexts.2⟩
  · rintro (rfl | ⟨htext, before, behind, rfl, htexts⟩)
    · exact ⟨[], parts, rfl, by simp⟩
    · exact ⟨p :: before, behind, rfl, List.forall_mem_cons.mpr ⟨htext, htexts⟩⟩

theorem partTexts_eq_error_iff (parts : List (List Char)) (cut : Cut) : partTexts parts = .error cut ↔
    ∃ part, Reached parts part ∧ partText (String.ofList part) = .error cut := by
  induction parts with
  | nil => exact iff_of_false (by rintro ⟨⟩) fun ⟨part, hpart, _⟩ => not_reached_nil part hpart
  | cons p parts ih =>
    rw [partTexts]
    cases hp : partText (String.ofList p) with
    | error cut' => simp [reached_cons, hp]
    | ok text =>
      cases text with
      | none => simp [reached_cons, hp]
      | some text => simp [reached_cons, hp, map_eq_error_iff, ih]

theorem read_eq_error_iff (name : String) (cut : Cut) : read name = .error cut ↔
    ∃ digits, Reached (split '_' (base name)) ("uni".toList ++ digits) ∧
      (encode digits).length % 4 = 0 ∧ CutsGroup digits := by
  rw [read]
  split
  · next hempty =>
    rw [List.isEmpty_iff.mp hempty]
    refine iff_of_false (by rintro ⟨⟩) ?_
    rintro ⟨digits, hreached, -⟩
    simp [split, reached_cons, not_reached_nil] at hreached
  · rw [map_eq_error_iff, partTexts_eq_error_iff]
    constructor
    · rintro ⟨part, hreached, hpart⟩
      obtain ⟨digits, rfl, hcut⟩ := (partText_eq_error_iff part cut).mp hpart
      exact ⟨digits, hreached, hcut⟩
    · rintro ⟨digits, hreached, hcut⟩
      exact ⟨_, hreached, (partText_eq_error_iff _ cut).mpr ⟨digits, rfl, hcut⟩⟩

/-- A name has a result unless a part of it, behind parts that have a text, goes on after `uni` with
numbers of four bytes and then four bytes that end within a character, a multiple of four in all. -/
theorem read_ok_iff (name : String) : (∃ text, read name = .ok text) ↔
    ¬∃ digits, Reached (split '_' (base name)) ("uni".toList ++ digits) ∧
      (encode digits).length % 4 = 0 ∧ CutsGroup digits := by
  rw [← read_eq_error_iff name .withinCharacter]
  cases read name with
  | ok text => simp
  | error cut =>
    cases cut
    simp

/-- The first four bytes end within the fourth character. -/
theorem read_within_character : read "uniabc\u00e9def" = .error .withinCharacter := rfl

end Glyph

end AccessiblePdf
