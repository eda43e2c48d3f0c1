import AccessiblePdf.Ocr.Layer
import AccessiblePdf.Proofs.Text.Utf8

/-!
What can be read of the words of a text layer: a word is shown without the characters that have no code
(`text_of_ofText?`).
-/
namespace AccessiblePdf

/-! ## Codes of Latin characters -/

namespace WinAnsi

theorem high_rows : ∀ e ∈ Glyph.winAnsiHigh, isPlain e.1.toNat = false ∧
    Glyph.winAnsiHigh.find? (·.1 == e.1) = some e ∧
    Ocr.ShownWord.isUniversal e.2.1.toNat = true := by
  decide

theorem decode?_of_encode? {c : Char} {b : UInt8} (h : encode? c = some b) :
    decode? b = some c := by
  rw [encode?] at h
  split at h
  · next hplain =>
    obtain rfl := Option.some.inj h
    have hsize : c.toNat < 256 := by
      simp only [isPlain, Bool.or_eq_true, Bool.and_eq_true, decide_eq_true_eq] at hplain
      omega
    have hcode : (UInt8.ofNat c.toNat).toNat = c.toNat := by
      rw [UInt8.toNat_ofNat', Nat.mod_eq_of_lt hsize]
    rw [decode?, hcode, if_pos hplain, Char.ofNat_toNat]
  · obtain ⟨e, he, rfl⟩ := Option.map_eq_some_iff.mp h
    obtain ⟨hplain, hfind, -⟩ := high_rows e (List.mem_of_find?_eq_some he)
    rw [decode?, hplain, if_neg Bool.false_ne_true, hfind, Option.map_some]
    simpa using List.find?_some he

theorem isUniversal_of_encode? {c : Char} {b : UInt8} (h : encode? c = some b) :
    Ocr.ShownWord.isUniversal c.toNat = true := by
  rw [encode?] at h
  split at h
  · next hplain =>
    simp only [isPlain, Bool.or_eq_true, Bool.and_eq_true, decide_eq_true_eq] at hplain
    simp only [Ocr.ShownWord.isUniversal, Bool.and_eq_true, bne_iff_ne, decide_eq_true_eq]
    omega
  · obtain ⟨e, he, rfl⟩ := Option.map_eq_some_iff.mp h
    obtain ⟨-, -, huniversal⟩ := high_rows e (List.mem_of_find?_eq_some he)
    have hchar : e.2.1 = c := by simpa using List.find?_some he
    exact hchar ▸ huniversal

end WinAnsi

/-! ## Words -/

namespace Ocr

/-- The characters of a text that have a code. -/
def coded (s : String) : String :=
  String.ofList (s.toList.filter fun c => ShownWord.isUniversal c.toNat)

/-- The character that a font has under a code. -/
def LayerFont.char? : LayerFont → Nat → Option Char
  | latin, code => Encoding.decode? (some "WinAnsiEncoding") code
  | universal, code =>
    if ShownWord.isUniversal code && decide code.isValidChar then some (Char.ofNat code) else none

namespace ShownWord

variable {s : String} {w w' : ShownWord}

/-- What the codes of a word stand for. -/
def text (w : ShownWord) : String := String.ofList (w.codes.filterMap w.font.char?)

theorem latin_codes {cs : List Char} {bytes : Bytes} (h : cs.mapM WinAnsi.encode? = some bytes) :
    (bytes.map UInt8.toNat).map LayerFont.latin.char? = cs.map some := by
  induction cs generalizing bytes with
  | nil =>
    obtain rfl := Option.some.inj h
    rfl
  | cons c cs ih =>
    rw [List.mapM_cons] at h
    obtain ⟨b, hb, h⟩ := Option.bind_eq_some_iff.mp h
    obtain ⟨more, hmore, h⟩ := Option.bind_eq_some_iff.mp h
    obtain rfl := Option.some.inj h
    have hread : Encoding.decode? (some "WinAnsiEncoding") b.toNat = some c := by
      rw [Encoding.decode?, if_neg (Nat.not_le.mpr b.toNat_lt), if_pos rfl, UInt8.ofNat_toNat]
      exact WinAnsi.decode?_of_encode? hb
    simp only [List.map_cons, ih hmore, LayerFont.char?, hread]

theorem isUniversal_of_mapM {cs : List Char} {bytes : Bytes}
    (h : cs.mapM WinAnsi.encode? = some bytes) : ∀ c ∈ cs, isUniversal c.toNat = true := by
  induction cs generalizing bytes with
  | nil => exact fun c hc => absurd hc List.not_mem_nil
  | cons c cs ih =>
    rw [List.mapM_cons] at h
    obtain ⟨b, hb, h⟩ := Option.bind_eq_some_iff.mp h
    obtain ⟨more, hmore, -⟩ := Option.bind_eq_some_iff.mp h
    exact List.forall_mem_cons.mpr ⟨WinAnsi.isUniversal_of_encode? hb, ih hmore⟩

theorem universal_codes (cs : List Char) :
    ((cs.map Char.toNat).filter isUniversal).map LayerFont.universal.char? =
      (cs.filter fun c => isUniversal c.toNat).map some := by
  rw [List.filter_map, List.map_map]
  refine List.map_congr_left fun c hc => ?_
  have hcode := (List.mem_filter.mp hc).2
  simp only [Function.comp_apply, LayerFont.char?]
  rw [if_pos (by simpa using ⟨hcode, c.valid⟩), Char.ofNat_toNat]

theorem map_char?_of_ofText? (h : ofText? s = some w') :
    w'.codes.map w'.font.char? = (coded s).toList.map some := by
  have hcodes : ∀ w : ShownWord, (if w.codes.isEmpty then none else some w) = some w' → w = w' := by
    intro w hw
    split at hw
    · exact absurd hw (by simp)
    · exact Option.some.inj hw
  rw [ofText?] at h
  obtain rfl := hcodes _ h
  rw [coded, String.toList_ofList]
  split
  · next bytes hbytes =>
    rw [WinAnsi.encodeText?] at hbytes
    rw [List.filter_eq_self.mpr (isUniversal_of_mapM hbytes)]
    exact latin_codes hbytes
  · exact universal_codes s.toList

/-- A word stands for the characters of its text that have a code. -/
theorem text_of_ofText? (h : ofText? s = some w) : w.text = coded s := by
  have hread := congrArg (List.filterMap id) (map_char?_of_ofText? h)
  rw [List.filterMap_map, List.filterMap_map] at hread
  rw [text, show w.codes.filterMap w.font.char? = (coded s).toList by simpa using hread,
    String.ofList_toList]

end ShownWord

/-! ## Parts of texts -/

theorem coded_toList (s : String) :
    (coded s).toList = s.toList.filter fun c => ShownWord.isUniversal c.toNat :=
  String.toList_ofList

theorem occursIn_iff {needle s : String} :
    Edit.occursIn needle s = true ↔ needle.toList <:+: s.toList := by
  rw [Edit.occursIn, Bytes.find?_isSome, utf8_infix_iff]

end Ocr

end AccessiblePdf
