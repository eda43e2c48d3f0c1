import AccessiblePdf.Ocr.Layer
import AccessiblePdf.Proofs.Font.Finding
import AccessiblePdf.Proofs.Text.Keys

/-!
The names that fonts get in the resources of pages. A font gets the first of a name and its numbered forms
that does not stand for another font. There are more of these than there are fonts, so there is one
(`Edit.resourceName_first`), and no other font is lost (`Edit.addFontResource_registers`).
-/
namespace AccessiblePdf

/-- A reference to a font, or another font with the same type, name and encoding. -/
def Document.SameFont (doc : Document) (font : ObjectId) (entry : Object) : Prop :=
  entry = .reference font ∨ ∃ theirs ours, doc.resolve entry = .dictionary theirs ∧
    doc.dict? font = some ours ∧ ∀ key ∈ [utf8 "Subtype", utf8 "BaseFont", utf8 "Encoding"],
      ∃ name, doc.entryName? ours key = some name ∧ doc.entryName? theirs key = some name

/-- A name stands for another font. -/
def Document.Taken (doc : Document) (fonts : Dict Object) (font : ObjectId) (name : String) : Prop :=
  ∃ entry, fonts.get? (utf8 name) = some entry ∧ ¬doc.SameFont font entry

/-- The fonts in the resources of a page. -/
def Document.pageFonts? (doc : Document) (page : ObjectId) : Option (Dict Object) :=
  (doc.value? (doc.pageResources page) "Font").bind Object.dictionary?

namespace Edit

variable {d : Draft} {page font resources : ObjectId} {x fonts : Dict Object} {name : String}

/-! ## Numbered names -/

theorem numbered_injective (name : String) : Function.Injective (numbered name) := by
  intro i j h
  have hlist := congrArg String.toList h
  unfold numbered at hlist
  split at hlist
  · next hi =>
    split at hlist
    · next hj => rw [hi, hj]
    · -- A number has digits.
      rw [String.toList_append] at hlist
      simp at hlist
  · split at hlist
    · rw [String.toList_append] at hlist
      simp at hlist
    · rw [String.toList_append, String.toList_append] at hlist
      have hdigits := List.append_cancel_left hlist
      have hnumber := congrArg (fun digits => Nat.ofDigitChars 10 digits 0) hdigits
      simpa [Nat.toString_eq_ofList_toDigits] using hnumber

theorem exists_not_mem_keys (fonts : Dict Object) (name : String) :
    ∃ i ≤ fonts.size, utf8 (numbered name i) ∉ fonts.keys := by
  by_contra hall
  push Not at hall
  have hdistinct : ((List.range (fonts.size + 1)).map fun i => utf8 (numbered name i)).Nodup := by
    apply List.Nodup.map _ List.nodup_range
    intro i j h
    exact numbered_injective name (utf8_injective h)
  have hsub : ((List.range (fonts.size + 1)).map fun i => utf8 (numbered name i)) ⊆ fonts.keys := by
    intro key hkey
    obtain ⟨i, hi, rfl⟩ := List.mem_map.mp hkey
    exact hall i (Nat.le_of_lt_succ (List.mem_range.mp hi))
  have hle := (List.subperm_of_subset hdistinct hsub).length_le
  rw [List.length_map, List.length_range, OrderedMap.keys, List.length_map] at hle
  exact absurd hle (Nat.not_succ_le_self _)

/-! ## The search -/

theorem isSameFont_iff {doc : Document} {entry : Object} :
    isSameFont doc font entry = true ↔ doc.SameFont font entry := by
  have hreference : (entry.reference? == some font) = true ↔ entry = .reference font := by
    cases entry <;> simp [Object.reference?]
  rw [isSameFont, Document.SameFont, Bool.or_eq_true, hreference]
  apply or_congr_right
  split
  · next theirs ours htheirs hours =>
    rw [htheirs, hours, List.all_eq_true]
    simp only [Object.dictionary.injEq, Option.some_inj, exists_and_left, exists_eq_left']
    apply forall₂_congr
    intro key hkey
    cases doc.entryName? ours key with
    | none => simp
    | some s => simp
  · next hno =>
    constructor
    · intro h
      cases h
    · intro h
      obtain ⟨theirs, ours, htheirs, hours, -⟩ := h
      exact absurd hours (hno theirs ours htheirs)

theorem isFree_iff {doc : Document} :
    (((fonts.get? (utf8 name)).map (isSameFont doc font)).getD true) = true ↔
      ¬doc.Taken fonts font name := by
  rw [Document.Taken]
  cases hentry : fonts.get? (utf8 name) with
  | none => simp
  | some entry => simp [← isSameFont_iff]

/-- The first numbered form of a name that is not taken is found. -/
theorem resourceName_first (doc : Document) (fonts : Dict Object) (font : ObjectId) (name : String) :
    ∃ i ≤ fonts.size, resourceName doc fonts font name = numbered name i ∧
      ¬doc.Taken fonts font (numbered name i) ∧ ∀ j < i, doc.Taken fonts font (numbered name j) := by
  rw [resourceName, List.find?_map]
  cases hfind : (List.range (fonts.size + 1)).find? _ with
  | none =>
    obtain ⟨i, hi, hfree⟩ := exists_not_mem_keys fonts name
    have hnot := List.find?_eq_none.mp hfind i (List.mem_range.mpr (Nat.lt_succ_of_le hi))
    refine absurd (isFree_iff.mpr ?_) hnot
    intro htaken
    obtain ⟨entry, hentry, -⟩ := htaken
    rw [OrderedMap.get?_of_not_mem_keys hfree] at hentry
    cases hentry
  | some i =>
    obtain ⟨hi, hmem, hbefore⟩ := List.find?_range_eq_some.mp hfind
    refine ⟨i, Nat.le_of_lt_succ (List.mem_range.mp hmem), rfl, isFree_iff.mp hi, fun j hj => ?_⟩
    by_contra hfree
    have hpassed := hbefore j hj
    rw [Function.comp_apply, isFree_iff.mpr hfree] at hpassed
    cases hpassed

theorem resourceName_of_sameFont {doc : Document}
    (same : ∀ entry, fonts.get? (utf8 name) = some entry → doc.SameFont font entry) :
    resourceName doc fonts font name = name := by
  obtain ⟨i, -, hi, -, htaken⟩ := resourceName_first doc fonts font name
  obtain rfl : i = 0 := by
    by_contra hne
    obtain ⟨entry, hentry, hother⟩ := htaken 0 (Nat.pos_of_ne_zero hne)
    exact hother (same entry hentry)
  exact hi

/-! ## The fonts of a page -/

/-- The fonts of a page stand in an object that the resources of the page refer to. -/
def FontsAt (doc : Document) (page resources : ObjectId) : Prop :=
  ∃ x id z, doc.dict? page = some x ∧ x.get? "Resources" = some (.reference id) ∧
    doc.dict? id = some z ∧ z.get? "Font" = some (.reference resources)

theorem FontsAt.pageFonts?_eq {doc : Document} (h : FontsAt doc page resources) :
    doc.pageFonts? page = doc.dict? resources := by
  obtain ⟨x, id, z, hx, hid, hz, hresources⟩ := h
  have hvalue : doc.value? x "Resources" = some (.dictionary z) := by
    rw [Document.value?, hid, Option.map_some, Document.resolve_reference (Document.get?_of_dict? hz)]
  rw [Document.pageFonts?, Document.pageResources, pageResources?_of_stated hx hid, hvalue,
    Option.bind_some, Object.dictionary?, Option.getD_some, Document.value?, hresources, Option.map_some,
    Option.bind_some, Document.dictionary?_resolve]

theorem FontsAt.retained {free : Bytes → Bool → Prop} {old doc : Document}
    (h : FontsAt old page resources) (retains : old.Retains free doc)
    (hresources : ¬free "Resources" true) (hfont : ¬free "Font" true) : FontsAt doc page resources := by
  obtain ⟨x, id, z, hx, hid, hz, href⟩ := h
  obtain ⟨x', hx', hxx'⟩ := retains.dict? hx
  obtain ⟨z', hz', hzz'⟩ := retains.dict? hz
  exact ⟨x', id, z', hx', hxx'.reference_entry hresources hid, hz', hzz'.reference_entry hfont href⟩

/-- The fonts of a page, as an object of their own. -/
def pageFonts (page : ObjectId) : Edit ObjectId := do indirectDict (← pageResources page) "Font"

/-- Every page can get an object of its own for its fonts. The fonts that it has are retained. -/
theorem exists_pageFonts (hd : d.doc.Numbered) (hx : d.doc.dict? page = some x) :
    ∃ resources d₁ fonts, (pageFonts page).run d = .ok resources d₁ ∧
      d.doc.Retains (Under ["Resources", "Font"]) d₁.doc ∧ FontsAt d₁.doc page resources ∧
      d₁.doc.dict? resources = some fonts ∧ ∀ old, d.doc.pageFonts? page = some old →
        (Object.dictionary old).Retained (Under ["Resources", "Font"]) d₁.doc (.dictionary fonts) := by
  obtain ⟨id, d₁, howner⟩ := exists_pageResources hd hx
  obtain ⟨hretains₁, hz, x₁, hx₁, hid⟩ : d.doc.Retains (Under ["Resources"]) d₁.doc ∧ _ :=
    pageResources_own hd hx (fun _ => List.mem_cons_self) howner
  have hd₁ : d₁.doc.Numbered := numbered_pageResources hd howner
  obtain ⟨resources, d₂, hfont⟩ := exists_indirectDict hd₁.unused hz "Font"
  obtain ⟨hretains₂, hfonts, z₂, hz₂, hresources, -⟩ : d₁.doc.Retains (Under ["Font"]) d₂.doc ∧ _ :=
    indirectDict_own hd₁.unused hz (fun _ => List.mem_cons_self) hfont
  obtain ⟨x₂, hx₂, hx₁x₂⟩ := hretains₂.dict? hx₁
  have hlater : d₁.doc.Retains (Under ["Resources", "Font"]) d₂.doc :=
    hretains₂.mono (Under.mono (by decide))
  refine ⟨resources, d₂, _, (run_bind howner).trans hfont, ?_, ?_, hfonts, fun old hold => ?_⟩
  · exact (hretains₁.mono (Under.mono (by decide))).trans hlater
  · exact ⟨x₂, id, z₂, hx₂, hx₁x₂.reference_entry (not_under (by decide) _) hid, hz₂, hresources⟩
  · obtain ⟨o, ho, hdictionary⟩ := Option.bind_eq_some_iff.mp hold
    rw [Object.dictionary?_eq_some.mp hdictionary] at ho
    obtain ⟨fonts, hvalue, hsame⟩ :=
      hretains₁.exists_dictionary (.same _) (not_under (by decide) _) ho
    rw [hvalue]
    exact (hsame.mono (Under.mono (by decide))).trans hlater (.same _)

/-! ## Fonts that get a name -/

/-- Finds the name for a font, and sets it if it is free. -/
def nameFont (resources font : ObjectId) (name : String) : Edit String := do
  let fonts ← dict resources
  let name := resourceName (← doc) fonts font name
  if !fonts.contains name then setEntry resources name (.reference font)
  return name

theorem addFontResource_eq (page font : ObjectId) (name : String) :
    addFontResource page font name = pageFonts page >>= fun resources => nameFont resources font name := by
  unfold addFontResource pageFonts
  rw [bind_assoc]
  rfl

theorem run_nameFont (hfonts : d.doc.dict? resources = some fonts) (font : ObjectId) (name : String) :
    (nameFont resources font name).run d = (do
      if !fonts.contains (resourceName d.doc fonts font name) then
        setEntry resources (resourceName d.doc fonts font name) (.reference font)
      return resourceName d.doc fonts font name : Edit String).run d := by
  unfold nameFont
  rw [run_bind (dict_ok.mpr ⟨hfonts, rfl⟩), run_bind (doc_ok.mpr ⟨rfl, rfl⟩)]

/-- An entry under a name, where there was none. -/
def Fresh (name : String) (key : Bytes) (present : Bool) : Prop := key = utf8 name ∧ present = false

/-- A font gets the first numbered form of a name that is not taken. No entry changes, and the one under that
name is the font, or was the same font. -/
theorem nameFont_run (hfonts : d.doc.dict? resources = some fonts) (font : ObjectId) (name : String) :
    ∃ i d' fonts', (nameFont resources font name).run d = .ok (numbered name i) d' ∧ i ≤ fonts.size ∧
      ¬d.doc.Taken fonts font (numbered name i) ∧ (∀ j < i, d.doc.Taken fonts font (numbered name j)) ∧
      d.doc.Retains (Fresh (numbered name i)) d'.doc ∧ d'.doc.dict? resources = some fonts' ∧
      (∀ key entry, fonts.get? key = some entry → fonts'.get? key = some entry) ∧
      ∃ entry, fonts'.get? (utf8 (numbered name i)) = some entry ∧ d'.doc.SameFont font entry := by
  obtain ⟨i, hi, hname, hfree, htaken⟩ := resourceName_first d.doc fonts font name
  have hrun := run_nameFont hfonts font name
  rw [hname] at hrun
  cases hentry : fonts.get? (utf8 (numbered name i)) with
  | some entry =>
    have hsame : d.doc.SameFont font entry := by
      by_contra hother
      exact hfree ⟨entry, hentry, hother⟩
    refine ⟨i, d, fonts, ?_, hi, hfree, htaken, .refl _, hfonts, fun _ _ h => h, entry, hentry, hsame⟩
    rw [hrun, OrderedMap.contains, hentry]
    rfl
  | none =>
    obtain ⟨d', hset⟩ := exists_setEntry hfonts (numbered name i) (.reference font)
    have hother {key : Bytes} (hne : key ≠ utf8 (numbered name i)) :
        (fonts.insert (numbered name i) (.reference font)).get? key = fonts.get? key :=
      OrderedMap.get?_insert_of_ne _ hne _
    have hkeep : ∀ key, ¬Fresh (numbered name i) key (fonts.get? key).isSome →
        (fonts.insert (numbered name i) (.reference font)).get? key = fonts.get? key := by
      intro key hkey
      apply hother
      intro hnew
      rw [hnew, hentry] at hkey
      exact hkey ⟨rfl, rfl⟩
    obtain ⟨hretains, hfonts'⟩ := modifyDict_retains hfonts hkeep hset
    refine ⟨i, d', _, ?_, hi, hfree, htaken, hretains, hfonts', fun key entry hkey => ?_, .reference font,
      OrderedMap.get?_insert_self .., .inl rfl⟩
    · rw [hrun, OrderedMap.contains, hentry]
      exact run_bind hset
    · have hne : key ≠ utf8 (numbered name i) := by
        rintro rfl
        rw [hentry] at hkey
        cases hkey
      rw [hother hne, hkey]

/-- What changes when a font gets a name: resources and fonts come to objects of their own, and there is an
entry under the name where there was none. -/
def Registering (name : String) (key : Bytes) (present : Bool) : Prop :=
  Under ["Resources", "Font"] key present ∨ Fresh name key present

/-- Every font can get a name on every page: the first of the requested name and its numbered forms that is
not taken there. The page then has the font under it, or a font that is the same. Every entry that the fonts
of the page have when the name is chosen stays as it is, and what they had before is retained. -/
theorem addFontResource_registers (hd : d.doc.Numbered) (hx : d.doc.dict? page = some x)
    (font : ObjectId) (name : String) :
    ∃ resources d₁ fonts i d' fonts', (pageFonts page).run d = .ok resources d₁ ∧
      d₁.doc.dict? resources = some fonts ∧
      (addFontResource page font name).run d = .ok (numbered name i) d' ∧ i ≤ fonts.size ∧
      ¬d₁.doc.Taken fonts font (numbered name i) ∧ (∀ j < i, d₁.doc.Taken fonts font (numbered name j)) ∧
      d'.doc.dict? resources = some fonts' ∧ d'.doc.pageFonts? page = some fonts' ∧
      (∃ entry, fonts'.get? (utf8 (numbered name i)) = some entry ∧ d'.doc.SameFont font entry) ∧
      (∀ key entry, fonts.get? key = some entry → fonts'.get? key = some entry) ∧
      (∀ old, d.doc.pageFonts? page = some old →
        (Object.dictionary old).Retained (Registering (numbered name i)) d'.doc (.dictionary fonts')) ∧
      d.doc.Retains (Registering (numbered name i)) d'.doc := by
  obtain ⟨resources, d₁, fonts, hfontsRun, hretains, hat, hfonts, hold⟩ := exists_pageFonts hd hx
  obtain ⟨i, d', fonts', hnameRun, hi, hfree, htaken, hfresh, hfonts', hkept, hentry⟩ :=
    nameFont_run hfonts font name
  have hpage : FontsAt d'.doc page resources :=
    hat.retained hfresh (fun h => Bool.noConfusion h.2) (fun h => Bool.noConfusion h.2)
  have hlater : d₁.doc.Retains (Registering (numbered name i)) d'.doc := hfresh.mono fun _ _ => .inr
  refine ⟨resources, d₁, fonts, i, d', fonts', hfontsRun, hfonts, ?_, hi, hfree, htaken, hfonts',
    hpage.pageFonts?_eq.trans hfonts', hentry, hkept, fun old holdFonts => ?_, ?_⟩
  · rw [addFontResource_eq, run_bind hfontsRun]
    exact hnameRun
  · have hadded : (Object.dictionary fonts).Retained (Registering (numbered name i)) d'.doc
        (.dictionary fonts') := by
      obtain ⟨y, hy, hfontsy⟩ := hfresh.dict? hfonts
      obtain rfl : fonts' = y := Option.some.inj (hfonts'.symm.trans hy)
      exact hfontsy.mono fun _ _ => .inr
    exact ((hold old holdFonts).mono fun _ _ => .inl).trans hlater hadded
  · exact (hretains.mono fun _ _ => .inl).trans hlater

/-! ## A foreign font under the name -/

/-- A font of another name. -/
def foreignFont : Dict Object :=
  .ofList [(utf8 "Subtype", .name "Type1"), (utf8 "BaseFont", .name "Courier"),
    (utf8 "Encoding", .name "WinAnsiEncoding")]

/-- A page that has this font under the name of the layer. -/
def foreignPage : Draft :=
  { doc := ⟨"1.7", ∅, .ofList [(⟨1, 0⟩, .ofEntries [(utf8 "Resources", .reference ⟨2, 0⟩)]),
      (⟨2, 0⟩, .ofEntries [(utf8 "Font", .reference ⟨3, 0⟩)]),
      (⟨3, 0⟩, .ofEntries [(utf8 "OcrLatin", .reference ⟨4, 0⟩)]), (⟨4, 0⟩, .dictionary foreignFont),
      (⟨5, 0⟩, latinFont)], 5⟩ }

/-- The font keeps its name, and the one for the layer gets a number. -/
theorem addFontResource_registers_foreign : ∃ d' fonts', foreignPage.doc.Numbered ∧
    foreignPage.doc.dict? ⟨1, 0⟩ = some (.ofList [(utf8 "Resources", .reference ⟨2, 0⟩)]) ∧
    (addFontResource ⟨1, 0⟩ ⟨5, 0⟩ "OcrLatin").run foreignPage = .ok "OcrLatin1" d' ∧
    d'.doc.pageFonts? ⟨1, 0⟩ = some fonts' ∧
    fonts'.get? (utf8 "OcrLatin") = some (.reference ⟨4, 0⟩) ∧
    ∃ entry, fonts'.get? (utf8 "OcrLatin1") = some entry ∧ d'.doc.SameFont ⟨5, 0⟩ entry := by
  have hd : foreignPage.doc.Numbered := Document.numbered_of_entries (by
    simp [foreignPage, OrderedMap.ofList, OrderedMap.insert, OrderedMap.put, OrderedMap.empty])
  have hx : foreignPage.doc.dict? ⟨1, 0⟩ = some (.ofList [(utf8 "Resources", .reference ⟨2, 0⟩)]) := rfl
  obtain ⟨resources, d₁, fonts, i, d', fonts', hfontsRun, hfonts, hrun, -, hfree, htaken, -, hpage, hentry,
    hkept, -⟩ := addFontResource_registers hd hx ⟨5, 0⟩ "OcrLatin"
  have hplace : (pageFonts ⟨1, 0⟩).run foreignPage = .ok ⟨3, 0⟩ foreignPage := by rfl
  rw [hplace] at hfontsRun
  cases hfontsRun
  have hforeign : foreignPage.doc.dict? ⟨3, 0⟩ = some (.ofList [(utf8 "OcrLatin", .reference ⟨4, 0⟩)]) := rfl
  obtain rfl := Option.some.inj (hforeign.symm.trans hfonts)
  have hfirst : foreignPage.doc.Taken (.ofList [(utf8 "OcrLatin", .reference ⟨4, 0⟩)]) ⟨5, 0⟩
      (numbered "OcrLatin" 0) := by
    by_contra h
    exact absurd (isFree_iff.mpr h) (by decide +kernel)
  have hsecond : ¬foreignPage.doc.Taken (.ofList [(utf8 "OcrLatin", .reference ⟨4, 0⟩)]) ⟨5, 0⟩
      (numbered "OcrLatin" 1) := isFree_iff.mp (by decide)
  obtain rfl : i = 1 := by
    rcases Nat.lt_trichotomy i 1 with h | h | h
    · obtain rfl : i = 0 := by omega
      exact absurd hfirst hfree
    · exact h
    · exact absurd (htaken 1 h) hsecond
  exact ⟨d', fonts', hd, hx, hrun, hpage, hkept _ _ rfl, hentry⟩

end Edit

end AccessiblePdf
