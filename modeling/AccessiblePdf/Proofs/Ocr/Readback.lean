import AccessiblePdf.Proofs.Ocr.Laying
import AccessiblePdf.Proofs.Ocr.Recognition

/-!
Words of a text layer as they are read again. A word whose characters all have a code goes through its font
and back: what is drawn for it is one invisible text, which is the word (`Ocr.word_readsBack`).
-/
namespace AccessiblePdf

open Edit Document

/-- A scan finds one thing drawn: an invisible text, which each code has a part in. -/
def PageScan.ShowsInvisibly (scan : PageScan) (s : String) : Prop :=
  ∃ shown, scan.operators = [shown] ∧ shown.figure.kind = .text ∧
    shown.figure.renderMode = 3 ∧ shown.figure.text = some s ∧ shown.figure.mapped = true

/-- Resources have a font under a name. -/
def Document.BindsFont (doc : Document) (entries : Dict Object) (resource : String) (font : ObjectId) :
    Prop :=
  ∃ fonts, doc.entryDict? entries "Font" = some fonts ∧
    fonts.get? (utf8 resource) = some (.reference font)

theorem Document.BindsFont.loadFont {doc : Document} {entries x : Dict Object} {resource : String}
    {font : ObjectId} (binds : doc.BindsFont entries resource font) (hx : doc.dict? font = some x) :
    ContentResources.loadFont doc entries (utf8 resource) = Font.load doc x (some font) := by
  obtain ⟨fonts, hfonts, hfont⟩ := binds
  rw [ContentResources.loadFont, hfonts, Option.bind_some, hfont]
  simp only [resolve_reference (get?_of_dict? hx)]
  rfl

namespace Ocr

/-- A text that one of the two fonts has all characters of. -/
def Showable (s : String) : Prop :=
  (WinAnsi.encodeText? s).isSome = true ∨
    ∀ c ∈ s.toList, c.toNat < 0x10000 ∧ c.toNat ≠ 0 ∧ c.toNat ∉ [0xFFFD, 0xFFFE, 0xFFFF]

variable {s : String} {w : ShownWord}

/-! ## Codes -/

theorem Showable.isUniversal (h : Showable s) : ∀ c ∈ s.toList, ShownWord.isUniversal c.toNat = true := by
  rcases h with hlatin | hplane
  · obtain ⟨bytes, hbytes⟩ := Option.isSome_iff_exists.mp hlatin
    exact ShownWord.isUniversal_of_mapM hbytes
  · intro c hc
    obtain ⟨hbound, hzero, hlast⟩ := hplane c hc
    simp only [List.mem_cons, List.not_mem_nil, or_false, not_or] at hlast
    simp only [ShownWord.isUniversal, Bool.and_eq_true, bne_iff_ne, decide_eq_true_eq]
    omega

theorem Showable.coded_eq (h : Showable s) : coded s = s := by
  rw [coded, List.filter_eq_self.mpr h.isUniversal, String.ofList_toList]

theorem isEmpty_codes {layer : LayerFont} {codes : List Nat} (nonempty : s ≠ "")
    (h : codes.map layer.char? = s.toList.map some) : codes.isEmpty = false := by
  cases codes with
  | nil =>
    have hchars : s.toList = [] := by simpa using h.symm
    exact absurd (String.toList_inj.mp (hchars.trans String.toList_empty.symm)) nonempty
  | cons code codes => rfl

theorem Showable.exists_ofText? (h : Showable s) (nonempty : s ≠ "") :
    ∃ w, ShownWord.ofText? s = some w := by
  rw [ShownWord.ofText?]
  cases hbytes : WinAnsi.encodeText? s with
  | some bytes =>
    have hcodes := isEmpty_codes nonempty (ShownWord.latin_codes hbytes)
    exact ⟨⟨.latin, bytes.map UInt8.toNat⟩, by simp only [hcodes]; rfl⟩
  | none =>
    have hread := ShownWord.universal_codes s.toList
    rw [List.filter_eq_self.mpr h.isUniversal] at hread
    have hcodes := isEmpty_codes nonempty hread
    exact ⟨⟨.universal, (s.toList.map Char.toNat).filter ShownWord.isUniversal⟩, by simp only [hcodes]; rfl⟩

/-! ## Scanning -/

variable {r : ContentResources} {resource : String} {box : Box Float}

theorem showsInvisibly_word (shows : (r.font (utf8 resource)).Shows w.font) (readable : w.Readable)
    (coded : w.codes.isEmpty = false) :
    (PageScan.ofOperations r (wordOperations resource box w)).ShowsInvisibly w.text := by
  obtain ⟨f, hfigure, hfigures, -⟩ := @draw_word r {} (placed id box w) w resource shows readable rfl rfl
  rw [← command_wordOperations] at hfigures
  have hone := Pen.run_figures r {} 0 (wordOperations resource box w)
  rw [hfigures] at hone
  obtain ⟨shown, hshown, rfl⟩ := List.map_eq_singleton_iff.mp hone
  refine ⟨shown, hshown, hfigure.kind, hfigure.renderMode, hfigure.text, ?_⟩
  rw [hfigure.mapped, coded, Bool.not_false]

/-- A text of characters that have a code in one of the fonts can be shown as a word. Scanned with the font
that is made for it, under whatever name, in whatever box, and whatever text layers go on to change, its
operations draw one thing: an invisible text, which is the text that was to be shown. -/
theorem word_readsBack (showable : Showable s) (nonempty : s ≠ "") :
    ∃ w, ShownWord.ofText? s = some w ∧ ∀ (d : Draft) (fonts : LayerFonts), d.doc.Numbered →
      fonts.made? w.font = none → ∃ font fonts' d₁,
        (layerFont fonts w.font).run d = .ok (font, fonts') d₁ ∧
        ∀ homes doc entries resource box, Overlays homes d₁.doc doc →
          doc.BindsFont entries resource font →
            (PageScan.ofContent doc entries (wordOperations resource box w)).ShowsInvisibly s := by
  obtain ⟨w, hw⟩ := showable.exists_ofText? nonempty
  have htext : w.text = s := (ShownWord.text_of_ofText? hw).trans showable.coded_eq
  have hreadable := ShownWord.readable_of_ofText? hw
  have hcoded : w.codes.isEmpty = false := by
    apply isEmpty_codes nonempty
    rw [← htext]
    exact hreadable
  refine ⟨w, hw, fun d fonts hnumbered hunmade => ?_⟩
  obtain ⟨font, fonts', d₁, hrun, -, ⟨x, hx, hfont⟩, -⟩ :=
    @layerFont_made d (fun _ => False) fonts w.font hnumbered hunmade
  refine ⟨font, fonts', d₁, hrun, fun homes doc entries resource box hlaid hbinds => ?_⟩
  obtain ⟨t, y, -, hy, hpainted⟩ := hlaid.dict? hx
  have hshows := (hfont.painted hlaid hpainted).shows (some font)
  rw [← htext]
  refine showsInvisibly_word ?_ hreadable hcoded
  rw [ScanState.font_ofDict, hbinds.loadFont hy]
  exact hshows

/-! ## A word that is not Latin -/

/-- A word of Cyrillic letters, with its font under another name. -/
theorem word_readsBack_cyrillic :
    let old : Draft := { doc := ⟨"1.7", ∅, ∅, 0⟩ }
    Showable "Привет" ∧ "Привет" ≠ "" ∧ old.doc.Numbered ∧
      ∃ w font fonts d₁, ShownWord.ofText? "Привет" = some w ∧
        (layerFont {} w.font).run old = .ok (font, fonts) d₁ ∧
        (PageScan.ofContent d₁.doc
          (.ofList [(utf8 "Font", .ofEntries [(utf8 "F1", .reference font)])])
          (wordOperations "F1" ⟨72, 700, 40, 12⟩ w)).ShowsInvisibly "Привет" := by
  intro old
  have hshowable : Showable "Привет" := .inr (by simp)
  have hnonempty : "Привет" ≠ "" := by decide
  have hnumbered : old.doc.Numbered := by
    intro id o ho
    cases ho
  obtain ⟨w, hw, hreads⟩ := word_readsBack hshowable hnonempty
  have hunmade : LayerFonts.made? {} w.font = none := by cases w.font <;> rfl
  obtain ⟨font, fonts, d₁, hrun, hscan⟩ := hreads old {} hnumbered hunmade
  obtain ⟨_, _, _, hrun', hover, -⟩ := @layerFont_made old (fun _ => False) {} w.font hnumbered hunmade
  rw [hrun] at hrun'
  cases hrun'
  exact ⟨hshowable, hnonempty, hnumbered, w, font, fonts, d₁, hw, hrun,
    hscan (fun _ => False) _ _ "F1" _ (.refl hover.numbered) ⟨_, rfl, rfl⟩⟩

end Ocr

end AccessiblePdf
