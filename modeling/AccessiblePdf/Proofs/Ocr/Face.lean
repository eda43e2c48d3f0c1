import AccessiblePdf.Proofs.Document.Overlay
import AccessiblePdf.Proofs.Document.Entry
import AccessiblePdf.Proofs.Font.Identity
import AccessiblePdf.Proofs.Ocr.Word

/-!
The two fonts of a text layer as they are found in a document. Both are read as what they are meant to
be (`FontAt.shows`): each code stands for its character, and all codes are of one width.
-/
namespace AccessiblePdf

open Edit Ocr

/-! ## Fonts that show words -/

/-- A font with the characters of a font of the layer, all of the width of codes without one. -/
structure Font.Shows (f : Font) (layer : LayerFont) : Prop where
  composite : f.composite = (layer == .universal)
  advance : ∀ code, f.advance code = Font.absent.advance code
  text : ∀ code c, layer.char? code = some c → f.text? code = some (String.singleton c)

namespace Font.Shows

variable {f : Font} {layer : LayerFont}

theorem map_text? (shows : f.Shows layer) {codes : List Nat} {cs : List Char}
    (h : codes.map layer.char? = cs.map some) :
    codes.map f.text? = cs.map fun c => some (String.singleton c) := by
  induction codes generalizing cs with
  | nil =>
    cases cs with
    | nil => rfl
    | cons c cs => exact absurd h (by simp)
  | cons code codes ih =>
    cases cs with
    | nil => exact absurd h (by simp)
    | cons c cs =>
      rw [List.map_cons, List.map_cons, List.cons.injEq] at h
      rw [List.map_cons, List.map_cons, shows.text code c h.1, ih h.2]

theorem decode (shows : f.Shows layer) {codes : List Nat} {cs : List Char}
    (h : codes.map layer.char? = cs.map some) : f.decode codes = (String.ofList cs, true) := by
  rw [Font.decode, shows.map_text? h]
  refine Prod.ext ?_ ?_
  · apply String.toList_inj.mp
    simp [List.flatMap_map]
  · simp

end Font.Shows

/-! ## The entries of the fonts -/

/-- The font for WinAnsiEncoding. -/
def latinEntries : Dict Object := latinFont.entries?.getD ∅

/-- The font for all characters. -/
def universalEntries (toUnicode descendant : ObjectId) : Dict Object :=
  .ofList [(utf8 "Type", .name "Font"), (utf8 "Subtype", .name "Type0"),
    (utf8 "BaseFont", .name layerFontName), (utf8 "Encoding", .name "Identity-H"),
    (utf8 "DescendantFonts", .array [.reference descendant]),
    (utf8 "ToUnicode", .reference toUnicode)]

/-- The font that it takes its glyphs from. -/
def descendantEntries (descriptor : ObjectId) : Dict Object :=
  .ofList [(utf8 "Type", .name "Font"),
    (utf8 "Subtype", .name "CIDFontType2"), (utf8 "BaseFont", .name layerFontName),
    (utf8 "CIDSystemInfo", .ofEntries [(utf8 "Registry", .string "Adobe" .literal),
      (utf8 "Ordering", .string "Identity" .literal), (utf8 "Supplement", .integer 0)]),
    (utf8 "FontDescriptor", .reference descriptor), (utf8 "DW", .ofFloat glyphWidth),
    (utf8 "CIDToGIDMap", .name "Identity")]

/-- A dictionary is a font of the layer. -/
inductive FontAt (doc : Document) : LayerFont → Dict Object → Prop where
  | latin {x : Dict Object} (same : Resembles IsLayerKey latinEntries x) : FontAt doc .latin x
  | universal {x y : Dict Object} {toUnicode descendant descriptor : ObjectId} {z : Compressor}
      (same : Resembles IsLayerKey (universalEntries toUnicode descendant) x)
      (map : doc.get? toUnicode = some (contentStream z ToUnicode.identity))
      (glyphs : doc.dict? descendant = some y)
      (like : Resembles IsLayerKey (descendantEntries descriptor) y) : FontAt doc .universal x

theorem FontAt.painted {old doc : Document} {homes : ObjectId → Prop} {layer : LayerFont}
    {t : ObjectId} {x y : Dict Object} (h : FontAt old layer x) (laid : Document.Overlays homes old doc)
    (painted : old.Painted homes t x y) : FontAt doc layer y := by
  cases h with
  | latin same => exact .latin (same.trans painted.resembles)
  | universal same map glyphs like =>
    obtain ⟨_, y', -, hglyphs, hpainted⟩ := laid.dict? glyphs
    exact .universal (same.trans painted.resembles) (laid.get? map rfl) hglyphs
      (like.trans hpainted.resembles)

/-- Fonts of the layer have names of their own. -/
theorem FontAt.exists_entryName (doc : Document) (layer : LayerFont) :
    ∀ key ∈ [utf8 "Subtype", utf8 "BaseFont", utf8 "Encoding"], ∃ name, ∀ x, FontAt doc layer x →
      doc.entryName? x key = some name := by
  have hlatin {name : String} {key : Bytes} (hkey : ¬IsLayerKey key)
      (h : latinEntries.get? key = some (.name (utf8 name))) :
      ∀ x, FontAt doc .latin x → doc.entryName? x key = some name := by
    rintro x ⟨same⟩
    exact Document.entryName?_utf8 ((same key hkey).trans h)
  have huniversal {name : String} {key : Bytes} (hkey : ¬IsLayerKey key)
      (h : ∀ toUnicode descendant,
        (universalEntries toUnicode descendant).get? key = some (.name (utf8 name))) :
      ∀ x, FontAt doc .universal x → doc.entryName? x key = some name := by
    rintro x (_ | ⟨same⟩)
    exact Document.entryName?_utf8 ((same key hkey).trans (h _ _))
  intro key hkey
  simp only [List.mem_cons, List.not_mem_nil, or_false] at hkey
  cases layer with
  | latin =>
    rcases hkey with rfl | rfl | rfl
    · exact ⟨"Type1", hlatin (by decide) rfl⟩
    · exact ⟨"Helvetica", hlatin (by decide) rfl⟩
    · exact ⟨"WinAnsiEncoding", hlatin (by decide) rfl⟩
  | universal =>
    rcases hkey with rfl | rfl | rfl
    · exact ⟨"Type0", huniversal (by decide) fun _ _ => rfl⟩
    · exact ⟨layerFontName, huniversal (by decide) fun _ _ => rfl⟩
    · exact ⟨"Identity-H", huniversal (by decide) fun _ _ => rfl⟩

/-! ## Reading the fonts -/

section Loading

variable {doc : Document} {x y : Dict Object}

theorem glyphWidth_number : (Object.ofFloat glyphWidth).number? = some Font.simpleWidth := rfl

theorem getElem?_foldl_insert {α : Type} {entries : List (Nat × α)} {a b : α} {code : Nat}
    (same : ∀ e ∈ entries, e.2 = a) {t : CodeTable α} (ht : ∀ b, t[code]? = some b → b = a)
    (h : (entries.foldl (fun t e => t.insert e.1 e.2) t)[code]? = some b) : b = a := by
  induction entries generalizing t with
  | nil => exact ht b h
  | cons e entries ih =>
    rw [List.forall_mem_cons] at same
    refine ih same.2 (fun b hb => ?_) h
    rw [Std.TreeMap.getElem?_insert] at hb
    split at hb
    · rw [← Option.some.inj hb, same.1]
    · exact ht b hb

theorem simpleWidths_latin (same : Resembles IsLayerKey latinEntries x) {code : Nat} {w : Number}
    (h : (Font.simpleWidths doc x)[code]? = some w) : w = Font.simpleWidth := by
  have hwidths : doc.entryArray? x "Widths" = some (List.replicate 224 (.ofFloat glyphWidth)) := by
    rw [Document.entryArray?, same.value? doc (by decide)]
    rfl
  rw [Font.simpleWidths, hwidths, Option.getD_some] at h
  refine getElem?_foldl_insert (fun e he => ?_) (fun b hb => absurd hb (by simp)) h
  obtain ⟨⟨o, i⟩, ho, he⟩ := List.mem_filterMap.mp he
  have hitem : o = .ofFloat glyphWidth :=
    List.eq_of_mem_replicate (List.fst_mem_of_mem_zipIdx ho)
  rw [hitem] at he
  obtain ⟨w, hw, rfl⟩ := Option.map_eq_some_iff.mp he
  exact Option.some.inj (hw.symm.trans glyphWidth_number)

theorem latin_shows (same : Resembles IsLayerKey latinEntries x) (id : Option ObjectId) :
    (Font.load doc x id).Shows .latin := by
  have hsubtype : doc.entryName? x "Subtype" = some "Type1" :=
    Document.entryName?_utf8 (same (utf8 "Subtype") (by decide))
  have hencoding : Font.encoding doc x = (some "WinAnsiEncoding", ∅) := by
    rw [Font.encoding, same.value? doc (by decide)]
    show (some (Utf8.decodeLossy (utf8 "WinAnsiEncoding")), ∅) = _
    rw [Utf8.decodeLossy_utf8]
  have htoUnicode : Font.toUnicode? doc x = none := by
    rw [Font.toUnicode?, same.value? doc (by decide)]
    rfl
  have hmissing : Font.missingWidth doc x = Font.simpleWidth := by
    rw [Font.missingWidth, Document.entryDict?, same.value? doc (by decide)]
    rfl
  have hload : Font.load doc x id = {
      id := id, subtype := "Type1", baseFont := (doc.entryName? x "BaseFont").getD ""
      composite := false, widths := Font.simpleWidths doc x, defaultWidth := Font.simpleWidth
      scale := none, toUnicode := none, baseEncoding := some "WinAnsiEncoding"
      differences := ∅ } := by
    simp only [Font.load, hsubtype, hencoding, htoUnicode, hmissing, Option.getD_some]
    rfl
  rw [hload]
  refine ⟨rfl, fun code => ?_, fun code c h => ?_⟩
  · have hwidth : (Font.simpleWidths doc x)[code]?.getD Font.simpleWidth = Font.simpleWidth := by
      cases hw : (Font.simpleWidths doc x)[code]? with
      | none => rfl
      | some w => exact simpleWidths_latin same hw
    simp only [Font.advance, Font.width, hwidth, Font.absent]
    rfl
  · have hread : Encoding.decode? (some "WinAnsiEncoding") code = some c := h
    simp [Font.text?, hread]

theorem universal_toUnicode {toUnicode descendant : ObjectId} {z : Compressor}
    (same : Resembles IsLayerKey (universalEntries toUnicode descendant) x)
    (map : doc.get? toUnicode = some (contentStream z ToUnicode.identity)) :
    ∃ m, ToUnicode.read ToUnicode.identity = .ok m ∧ Font.toUnicode? doc x = some m := by
  have hvalue : doc.value? x "ToUnicode" = some (contentStream z ToUnicode.identity) := by
    rw [same.value? doc (by decide)]
    show some (doc.resolve (.reference toUnicode)) = _
    rw [Document.resolve, map, Option.getD_some]
  refine ⟨_, ToUnicode.read_identity, ?_⟩
  rw [Font.toUnicode?, hvalue]
  simp only [contentStream, Stream.data_contentEntries, ToUnicode.read_identity]
  rfl

theorem universal_shows {toUnicode descendant descriptor : ObjectId} {z : Compressor}
    (same : Resembles IsLayerKey (universalEntries toUnicode descendant) x)
    (map : doc.get? toUnicode = some (contentStream z ToUnicode.identity))
    (glyphs : doc.dict? descendant = some y)
    (like : Resembles IsLayerKey (descendantEntries descriptor) y)
    (id : Option ObjectId) : (Font.load doc x id).Shows .universal := by
  obtain ⟨m, hread, htoUnicode⟩ := universal_toUnicode same map
  have hsubtype : doc.entryName? x "Subtype" = some "Type0" :=
    Document.entryName?_utf8 (same (utf8 "Subtype") (by decide))
  have hencoding : Font.encoding doc x = (some "Identity-H", ∅) := by
    rw [Font.encoding, same.value? doc (by decide)]
    show (some (Utf8.decodeLossy (utf8 "Identity-H")), ∅) = _
    rw [Utf8.decodeLossy_utf8]
  have hdescendant : Font.descendant? doc x = some y := by
    have hitems : doc.entryArray? x "DescendantFonts" = some [.reference descendant] := by
      rw [Document.entryArray?, same.value? doc (by decide)]
      rfl
    have hresolve : doc.resolve (.reference descendant) = .dictionary y := by
      rw [Document.resolve, Document.get?_of_dict? glyphs, Option.getD_some]
    simp only [Font.descendant?, hitems, bind, Option.bind_some, List.head?_cons, hresolve]
    rfl
  have hwidths : Font.compositeWidths doc x = (∅, Font.simpleWidth) := by
    have hw : doc.entryArray? y "W" = none := by
      rw [Document.entryArray?, like.value? doc (by decide)]
      rfl
    have hdefault : doc.entryNumber? y "DW" = some Font.simpleWidth := by
      rw [Document.entryNumber?, like.value? doc (by decide)]
      rfl
    simp only [Font.compositeWidths, hdescendant, hw, hdefault, Option.map_none, Option.getD_none,
      Option.getD_some]
  have hload : Font.load doc x id = {
      id := id, subtype := "Type0", baseFont := (doc.entryName? x "BaseFont").getD ""
      composite := true, widths := ∅, defaultWidth := Font.simpleWidth
      scale := none, toUnicode := some m, baseEncoding := some "Identity-H"
      differences := ∅ } := by
    simp only [Font.load, hsubtype, hencoding, htoUnicode, hwidths, Option.getD_some]
    rfl
  rw [hload]
  refine ⟨rfl, fun code => rfl, fun code c h => ?_⟩
  rw [LayerFont.char?] at h
  split at h
  · next hcode =>
    simp only [ShownWord.isUniversal, Bool.and_eq_true, bne_iff_ne, decide_eq_true_eq] at hcode
    obtain rfl := Option.some.inj h
    exact ToUnicode.get?_read_identity hread hcode.2 hcode.1.1 hcode.1.2
  · exact absurd h (by simp)

/-- A font of the layer shows what it is meant to show. -/
theorem FontAt.shows {layer : LayerFont} (h : FontAt doc layer x) (id : Option ObjectId) :
    (Font.load doc x id).Shows layer := by
  cases h with
  | latin same => exact latin_shows same id
  | universal same map glyphs like => exact universal_shows same map glyphs like id

end Loading

end AccessiblePdf
