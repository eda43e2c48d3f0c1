import AccessiblePdf.Proofs.Ocr.Bindings
import AccessiblePdf.Proofs.Ocr.Recognition

/-!
How a text layer comes into a document. Every step makes only changes that a text layer may make, keeps the
fonts that were made so far ready to show their characters, and sets names of the layer to fonts of the layer
(`Edit.Lays`). On a page whose content can be added to, all steps succeed: the words that are to be shown come
behind the content, each with its font under the name of that font (`addPageText_lays`), and so page after
page (`foldlM_lays`).
-/
namespace AccessiblePdf.Edit

open Ocr Document

variable {d d' : Draft} {homes : ObjectId → Prop}

/-! ## Resources -/

theorem indirectDict_overlays {owner id : ObjectId} {key : Bytes} (numbered : d.doc.Numbered)
    (hkey : key = utf8 "Resources" ∨ key = utf8 "Font")
    (hrun : (indirectDict owner key).run d = .ok id d') : Overlays homes d.doc d'.doc := by
  obtain ⟨x, hx, hcases⟩ := indirectDict_ok.mp hrun
  split at hcases
  · obtain ⟨-, rfl⟩ := hcases
    exact .refl numbered
  · next hown =>
    obtain ⟨t, y, ht, hy, rfl⟩ := setEntry_ok.mp hcases.2
    obtain ⟨t', ht', hx'⟩ := target?_of_dict? hx
    obtain rfl : t = t' := Option.some.inj (ht.symm.trans (target?_add numbered.unused _ ht'))
    refine (Overlays.add numbered _).setEntry hy fun x₀ hx₀ => Or.inr (Or.inl ⟨hkey, ?_⟩)
    obtain rfl := Object.dictionary.inj (Option.some.inj (hx'.symm.trans hx₀))
    exact hown

theorem setEntry_overlays {id : ObjectId} {x : Dict Object} {key : Bytes} {v : Object} {u : Unit}
    (numbered : d.doc.Numbered) (hx : d.doc.dict? id = some x)
    (allowed : ∀ t, d.doc.target? id = some t → d.doc.Open homes t key (x.get? key))
    (hrun : (setEntry id key v).run d = .ok u d') : Overlays homes d.doc d'.doc := by
  obtain ⟨t, y, ht, hy, rfl⟩ := setEntry_ok.mp hrun
  obtain ⟨t', ht', hx'⟩ := target?_of_dict? hx
  obtain rfl : t = t' := Option.some.inj (ht.symm.trans ht')
  refine (Overlays.refl numbered).setEntry hy fun x₀ hx₀ => ?_
  obtain rfl := Object.dictionary.inj (Option.some.inj (hx'.symm.trans hx₀))
  exact allowed t ht

theorem pageResources_overlays {page id : ObjectId} (numbered : d.doc.Numbered)
    (hrun : (pageResources page).run d = .ok id d') : Overlays homes d.doc d'.doc := by
  obtain ⟨x, _, hdict, -⟩ := bind_ok.mp hrun
  obtain ⟨hx, -⟩ := dict_ok.mp hdict
  rw [run_pageResources hx] at hrun
  split at hrun
  · exact indirectDict_overlays numbered (Or.inl rfl) hrun
  · next habsent =>
    obtain ⟨_, d₁, hset, hown⟩ := bind_ok.mp hrun
    have hopen (t : ObjectId) : d.doc.Open homes t "Resources" (x.get? "Resources") := by
      rw [Option.not_isSome_iff_eq_none.mp habsent]
      exact Or.inr (Or.inl ⟨Or.inl rfl, rfl⟩)
    have hcopied : Overlays homes d.doc d₁.doc :=
      setEntry_overlays numbered hx (fun t _ => hopen t) hset
    exact hcopied.trans (indirectDict_overlays hcopied.numbered (Or.inl rfl) hown)

theorem pageFonts_overlays {page resources : ObjectId} (numbered : d.doc.Numbered)
    (hrun : (pageFonts page).run d = .ok resources d') : Overlays homes d.doc d'.doc := by
  obtain ⟨owner, d₁, hpage, hfonts⟩ := bind_ok.mp hrun
  have howner : Overlays homes d.doc d₁.doc := pageResources_overlays numbered hpage
  exact howner.trans (indirectDict_overlays howner.numbered (Or.inr rfl) hfonts)

/-! ## Fonts -/

/-- The font that was made for a kind of words. -/
def LayerFonts.made? (fonts : LayerFonts) : LayerFont → Option ObjectId
  | .latin => fonts.latin
  | .universal => fonts.universal

/-- The fonts that were made are in the document. -/
def LayerFonts.Ready (doc : Document) (fonts : LayerFonts) : Prop :=
  ∀ layer id, fonts.made? layer = some id → ∃ x, doc.dict? id = some x ∧ FontAt doc layer x

theorem LayerFonts.ready_empty (doc : Document) : LayerFonts.Ready doc {} := by
  intro layer id h
  cases layer <;> cases h

theorem LayerFonts.Ready.overlays {old doc : Document} {fonts : LayerFonts} (ready : fonts.Ready old)
    (laid : Overlays homes old doc) : fonts.Ready doc := by
  intro layer id h
  obtain ⟨x, hx, hfont⟩ := ready layer id h
  obtain ⟨_, y, -, hy, hpainted⟩ := laid.dict? hx
  exact ⟨y, hy, hfont.painted laid hpainted⟩

theorem LayerFonts.Ready.made {doc : Document} {fonts fonts' : LayerFonts} {layer : LayerFont}
    {id : ObjectId} (ready : fonts.Ready doc) (here : fonts'.made? layer = some id)
    (others : ∀ l, l ≠ layer → fonts'.made? l = fonts.made? l)
    (font : ∃ x, doc.dict? id = some x ∧ FontAt doc layer x) : fonts'.Ready doc := by
  intro l id' h
  by_cases hl : l = layer
  · subst hl
    obtain rfl := Option.some.inj (here.symm.trans h)
    exact font
  · rw [others l hl] at h
    exact ready l id' h

/-- The universal font comes with the three objects that it refers to. -/
theorem addUniversalFont_overlays {id : ObjectId} (numbered : d.doc.Numbered)
    (hrun : addUniversalFont.run d = .ok id d') : Overlays homes d.doc d'.doc ∧
      ∃ x, d'.doc.dict? id = some x ∧ FontAt d'.doc .universal x := by
  unfold addUniversalFont at hrun
  rw [run_bind (run_stream d _), run_bind (run_add d _), run_bind (run_add _ _),
    run_bind (run_add _ _), add_ok] at hrun
  obtain ⟨rfl, rfl⟩ := hrun
  set map := contentStream d.packing ToUnicode.identity
  set descriptor := plainDescriptor layerFontName
  set doc₁ := d.doc.add map
  set doc₂ := doc₁.add descriptor
  set glyphs : Object := .dictionary (descendantEntries doc₁.nextId)
  set doc₃ := doc₂.add glyphs
  set font : Object := .dictionary (universalEntries d.doc.nextId doc₂.nextId)
  have numbered₁ : doc₁.Numbered := numbered.add map
  have numbered₂ : doc₂.Numbered := numbered₁.add descriptor
  have numbered₃ : doc₃.Numbered := numbered₂.add glyphs
  constructor
  · exact (((Overlays.add numbered map).trans (.add numbered₁ descriptor)).trans
      (.add numbered₂ glyphs)).trans (.add numbered₃ font)
  · have hmap : (doc₃.add font).get? d.doc.nextId = some map :=
      get?_add numbered₃.unused _ (get?_add numbered₂.unused _
        (get?_add numbered₁.unused _ (get?_add_nextId rfl)))
    have hglyphs : (doc₃.add font).dict? doc₂.nextId = some (descendantEntries doc₁.nextId) :=
      dict?_of_get? (get?_add numbered₃.unused _ (get?_add_nextId rfl))
    exact ⟨_, dict?_of_get? (get?_add_nextId rfl),
      .universal (fun _ _ => rfl) hmap hglyphs fun _ _ => rfl⟩

theorem exists_addUniversalFont (d : Draft) : ∃ id d', addUniversalFont.run d = .ok id d' := by
  unfold addUniversalFont
  rw [run_bind (run_stream d _), run_bind (run_add d _), run_bind (run_add _ _), run_bind (run_add _ _)]
  exact ⟨_, _, rfl⟩

/-- A font that was not made yet is made. -/
theorem layerFont_made {fonts : LayerFonts} {layer : LayerFont} (numbered : d.doc.Numbered)
    (unmade : fonts.made? layer = none) :
    ∃ id fonts' d', (layerFont fonts layer).run d = .ok (id, fonts') d' ∧
      Overlays homes d.doc d'.doc ∧ (∃ x, d'.doc.dict? id = some x ∧ FontAt d'.doc layer x) ∧
      fonts'.made? layer = some id ∧ ∀ l, l ≠ layer → fonts'.made? l = fonts.made? l := by
  cases layer with
  | latin =>
    have hnone : fonts.latin = none := unmade
    have hadd : Overlays homes d.doc (d.doc.add latinFont) := .add numbered latinFont
    have hfont : (d.doc.add latinFont).dict? d.doc.nextId = some latinEntries :=
      dict?_of_get? (get?_add_nextId rfl)
    refine ⟨d.doc.nextId, { fonts with latin := some d.doc.nextId },
      { d with doc := d.doc.add latinFont }, ?_, hadd, ⟨_, hfont, .latin fun _ _ => rfl⟩, rfl,
      fun l hl => ?_⟩
    · simp only [layerFont, hnone]
      exact run_bind (run_add d latinFont)
    · cases l with
      | latin => exact absurd rfl hl
      | universal => rfl
  | universal =>
    have hnone : fonts.universal = none := unmade
    obtain ⟨id, d', hadd⟩ := exists_addUniversalFont d
    obtain ⟨hover, hfont⟩ : Overlays homes d.doc d'.doc ∧ _ := addUniversalFont_overlays numbered hadd
    refine ⟨id, { fonts with universal := some id }, d', ?_, hover, hfont, rfl, fun l hl => ?_⟩
    · simp only [layerFont, hnone]
      exact run_bind hadd
    · cases l with
      | latin => rfl
      | universal => exact absurd rfl hl

theorem layerFont_of_made {fonts : LayerFonts} {layer : LayerFont} {id : ObjectId}
    (made : fonts.made? layer = some id) : (layerFont fonts layer).run d = .ok (id, fonts) d := by
  cases layer with
  | latin =>
    have hsome : fonts.latin = some id := made
    simp only [layerFont, hsome]
    rfl
  | universal =>
    have hsome : fonts.universal = some id := made
    simp only [layerFont, hsome]
    rfl

/-! ## What every step leaves -/

/-- An edit of a text layer made only changes that it may make. The fonts that were made are ready, names of
the layer stand for fonts of the layer, and no object is lost. -/
structure Lays (homes : ObjectId → Prop) (fonts : LayerFonts) (d d' : Draft) : Prop where
  overlays : Overlays homes d.doc d'.doc
  ready : fonts.Ready d'.doc
  binds : d'.doc.Binds d'.doc.LayerEntry
  size : d.doc.objects.size ≤ d'.doc.objects.size

namespace Lays

variable {fonts fonts' : LayerFonts} {d₁ : Draft}

theorem refl (numbered : d.doc.Numbered) (ready : fonts.Ready d.doc)
    (binds : d.doc.Binds d.doc.LayerEntry) : Lays homes fonts d d :=
  ⟨.refl numbered, ready, binds, Nat.le_refl _⟩

theorem trans (h : Lays homes fonts d d₁) (h' : Lays homes fonts' d₁ d') : Lays homes fonts' d d' :=
  ⟨h.overlays.trans h'.overlays, h'.ready, h'.binds, Nat.le_trans h.size h'.size⟩

theorem mono {homes' : ObjectId → Prop} (h : Lays homes fonts d d') (sub : ∀ t, homes t → homes' t) :
    Lays homes' fonts d d' :=
  { h with overlays := h.overlays.mono sub }

theorem of_binding {α : Type} {e : Edit α} {a : α} (binding : Binding d.doc.LayerEntry e)
    (binds : d.doc.Binds d.doc.LayerEntry) (ready : fonts.Ready d'.doc)
    (overlays : Overlays homes d.doc d'.doc) (hrun : e.run d = .ok a d') : Lays homes fonts d d' := by
  obtain ⟨hbinds, hsize⟩ := binding d d' a hrun binds
  exact ⟨overlays, ready, hbinds.mono fun _ _ h => h.overlays overlays, hsize⟩

end Lays

/-! ## Words -/

theorem layerFont_lays {fonts : LayerFonts} (layer : LayerFont) (numbered : d.doc.Numbered)
    (ready : fonts.Ready d.doc) (binds : d.doc.Binds d.doc.LayerEntry) :
    ∃ id fonts' d', (layerFont fonts layer).run d = .ok (id, fonts') d' ∧ Lays homes fonts' d d' ∧
      d'.doc.Face layer (.reference id) := by
  cases hmade : fonts.made? layer with
  | none =>
    obtain ⟨id, fonts', d', hrun, hover, hfont, hhere, hothers⟩ :=
      layerFont_made numbered hmade
    have hready : fonts'.Ready d'.doc := (ready.overlays hover).made hhere hothers hfont
    obtain ⟨x, hx, hface⟩ := hfont
    exact ⟨id, fonts', d', hrun, .of_binding (.layerFont fonts layer) binds hready hover hrun, id, x, rfl,
      hx, hface⟩
  | some id =>
    obtain ⟨x, hx, hface⟩ := ready layer id hmade
    exact ⟨id, fonts, d, layerFont_of_made hmade, .refl numbered ready binds, id, x, rfl, hx, hface⟩

/-- A font of the layer gets its name on every page: no other font can stand there. -/
theorem addFontResource_lays {fonts : LayerFonts} {page font : ObjectId} {x : Dict Object}
    {layer : LayerFont} (numbered : d.doc.Numbered) (ready : fonts.Ready d.doc)
    (binds : d.doc.Binds d.doc.LayerEntry) (hx : d.doc.dict? page = some x)
    (face : d.doc.Face layer (.reference font)) :
    ∃ d', (addFontResource page font layer.resource).run d = .ok layer.resource d' ∧
      Lays homes fonts d d' ∧ d'.doc.FaceAt page layer := by
  obtain ⟨resources, d₁, entries, hplace, -, hat, hentries, -⟩ := exists_pageFonts numbered hx
  have hover₁ : Overlays homes d.doc d₁.doc := pageFonts_overlays numbered hplace
  have hlays₁ : Lays homes fonts d d₁ :=
    .of_binding (.pageFonts page) binds (ready.overlays hover₁) hover₁ hplace
  have hface₁ := face.overlays hover₁
  have hbound : ∀ entry, entries.get? (utf8 layer.resource) = some entry → d₁.doc.Face layer entry :=
    fun entry hentry => (hlays₁.binds.dict? hentries _ (.here rfl) _ _
      (isLayerName layer List.prefix_rfl) hentry).face
  have hname : resourceName d₁.doc entries font layer.resource = layer.resource :=
    resourceName_of_sameFont fun entry hentry => (hbound entry hentry).sameFont hface₁
  have hrun := run_nameFont hentries font layer.resource
  rw [hname] at hrun
  rw [addFontResource_eq, run_bind hplace, hrun]
  cases hentry : entries.get? (utf8 layer.resource) with
  | some entry =>
    rw [OrderedMap.contains, hentry]
    exact ⟨d₁, rfl, hlays₁, resources, entries, entry, hat, hentries, hentry, hbound entry hentry⟩
  | none =>
    obtain ⟨d', hset⟩ := exists_setEntry hentries layer.resource (.reference font)
    have hover : Overlays homes d₁.doc d'.doc := setEntry_overlays hover₁.numbered hentries
      (fun t _ => Or.inr (Or.inr ⟨isLayerName layer List.prefix_rfl, hentry⟩)) hset
    have hlays : Lays homes fonts d₁ d' :=
      .of_binding (.setEntry (Object.binds_of_other rfl) (fun _ => ⟨layer, rfl, hface₁⟩) resources)
        hlays₁.binds (hlays₁.ready.overlays hover) hover hset
    obtain ⟨-, -, -, hentries'⟩ := dict?_of_modifyDict hentries hset
    rw [OrderedMap.contains, hentry]
    exact ⟨d', run_bind hset, hlays₁.trans hlays, resources, _, _, hat.overlays hover hentries, hentries',
      OrderedMap.get?_insert_self .., hface₁.overlays hover⟩

theorem wordsOperations_lays {page : ObjectId} {x : Dict Object} {fonts : LayerFonts}
    (words : List (Box Float × ShownWord)) (numbered : d.doc.Numbered) (ready : fonts.Ready d.doc)
    (binds : d.doc.Binds d.doc.LayerEntry) (hx : d.doc.dict? page = some x) :
    ∃ fonts' d', (wordsOperations page fonts words).run d = .ok (layerOperations words, fonts') d' ∧
      Lays homes fonts' d d' ∧ ∀ word ∈ words, d'.doc.FaceAt page word.2.font := by
  induction words generalizing fonts d x with
  | nil => exact ⟨fonts, d, rfl, .refl numbered ready binds, fun word h => absurd h List.not_mem_nil⟩
  | cons word words ih =>
    obtain ⟨box, w⟩ := word
    obtain ⟨font, fonts₁, d₁, hfont, hlays₁, hface⟩ :=
      layerFont_lays w.font numbered ready binds
    obtain ⟨_, x₁, -, hx₁, -⟩ := hlays₁.overlays.dict? hx
    obtain ⟨d₂, hname, hlays₂, hat⟩ := @addFontResource_lays d₁ homes fonts₁ page font x₁ w.font
      hlays₁.overlays.numbered hlays₁.ready hlays₁.binds hx₁ hface
    obtain ⟨_, x₂, -, hx₂, -⟩ := hlays₂.overlays.dict? hx₁
    obtain ⟨fonts', d', hwords, hlays, hfaces⟩ :=
      ih hlays₂.overlays.numbered hlays₂.ready hlays₂.binds hx₂
    refine ⟨fonts', d', ?_, (hlays₁.trans hlays₂).trans hlays, ?_⟩
    · rw [wordsOperations, run_bind hfont, run_bind hname, run_bind hwords]
      rfl
    · exact List.forall_mem_cons.mpr ⟨hat.overlays hlays.overlays, hfaces⟩

/-! ## Content -/

theorem setContents_overlays {page t : ObjectId} {v : Object} {u : Unit} (numbered : d.doc.Numbered)
    (ht : d.doc.target? page = some t) (home : homes t)
    (hrun : (setEntry page "Contents" v).run d = .ok u d') : Overlays homes d.doc d'.doc := by
  obtain ⟨t', y, ht', hy, rfl⟩ := setEntry_ok.mp hrun
  obtain rfl : t = t' := Option.some.inj (ht.symm.trans ht')
  exact (Overlays.refl numbered).setEntry hy fun _ _ => Or.inl ⟨rfl, home⟩

theorem appendContent_overlays {page t : ObjectId} {content : Bytes} {u : Unit}
    (numbered : d.doc.Numbered) (ht : d.doc.target? page = some t) (home : homes t)
    (hrun : (appendContent page content).run d = .ok u d') :
    Overlays homes d.doc d'.doc ∧ d.doc.maxId < d'.doc.maxId := by
  rw [appendContent_eq, bind_ok] at hrun
  obtain ⟨x, d₁, hdict, hrun⟩ := hrun
  obtain ⟨-, rfl⟩ := dict_ok.mp hdict
  unfold appendBehind at hrun
  split at hrun
  · rw [run_bind (run_stream d₁ _), run_bind (run_add d₁ _)] at hrun
    have htail : Overlays homes d₁.doc (d₁.doc.add (contentStream d₁.packing content)) :=
      .add numbered _
    have hset := setContents_overlays htail.numbered (htail.target? ht) home hrun
    exact ⟨htail.trans hset, hset.maxId⟩
  · rw [run_bind (run_add d₁ _), run_bind (run_stream _ _), run_bind (run_add _ _)] at hrun
    have hlead : Overlays homes d₁.doc (d₁.doc.add (.ofStream ∅ (utf8 "q\n"))) := .add numbered _
    have htail : Overlays homes (d₁.doc.add (.ofStream ∅ (utf8 "q\n")))
        ((d₁.doc.add (.ofStream ∅ (utf8 "q\n"))).add (contentStream d₁.packing (utf8 "Q\n" ++ content))) :=
      .add hlead.numbered _
    have hset := setContents_overlays htail.numbered (htail.target? (hlead.target? ht)) home hrun
    exact ⟨(hlead.trans htail).trans hset, (htail.trans hset).maxId⟩

/-! ## Pages -/

variable {o : Options} {fonts : LayerFonts} {p : OcrPage} {page t : ObjectId}
  {entry : Option Object} {content : Bytes} {words : List (Box Float × ShownWord)}

/-- The content of a page behind which words are laid. -/
def laidContent (entry : Option Object) (content : Bytes) (words : List (Box Float × ShownWord)) : Bytes :=
  if words.isEmpty then content
  else appended (keptItems entry) content (Operation.writeAll (layerOperations words))

/-- A page behind whose content words were laid: it has their fonts, and more can be added. -/
structure Relaid (doc : Document) (page : ObjectId) (entry : Option Object) (content : Bytes)
    (words : List (Box Float × ShownWord)) (entry' : Option Object) : Prop where
  extendable : doc.Extendable page entry' (laidContent entry content words)
  same : words = [] → entry' = entry
  kept : words ≠ [] → keptItems entry' ≠ []
  faces : ∀ word ∈ words, doc.FaceAt page word.2.font

/-- A page gets the words that are to be shown, and stays as it is if there are none. -/
theorem addPageText_lays {before : List Operation} (numbered : d.doc.Numbered)
    (ready : fonts.Ready d.doc) (binds : d.doc.Binds d.doc.LayerEntry)
    (found : (Edit.page p.page).run d = .ok page d) (ht : d.doc.target? page = some t) (home : homes t)
    (extendable : d.doc.Extendable page entry content) (read : Operation.readAll content = .ok before)
    (hwords : p.words.filterMap
      (wordToShow? o (d.doc.pageBox page) (shownTexts (d.doc.scan page before))) = words) :
    ∃ fonts' d' entry', (addPageText o fonts p).run d = .ok fonts' d' ∧ Lays homes fonts' d d' ∧
      Relaid d'.doc page entry content words entry' ∧
      (words = [] → d' = d) ∧ (words ≠ [] → d.doc.maxId < d'.doc.maxId) := by
  obtain ⟨x, hx, -⟩ := extendable.stated
  have hread : d.doc.pageOperations page = .ok before := by
    rw [pageOperations, extendable.read]
    exact read
  obtain ⟨fonts', d₁, hops, hlays₁, hfaces⟩ :=
    @wordsOperations_lays d (fun _ => False) page x fonts words numbered ready binds hx
  have hrun : (addPageText o fonts p).run d = (do
      if !(layerOperations words).isEmpty then
        appendContent page (Operation.writeAll (layerOperations words))
      return fonts' : Edit LayerFonts).run d₁ := by
    unfold addPageText
    rw [run_bind found, run_bind (doc_ok.mpr ⟨rfl, rfl⟩), run_bind (lift_ok.mpr ⟨hread, rfl⟩)]
    dsimp only
    rw [hwords, run_bind hops]
  by_cases hnone : words = []
  · subst hnone
    cases hops
    exact ⟨fonts, d, entry, hrun, .refl numbered ready binds,
      ⟨extendable, fun _ => rfl, fun h => absurd rfl h, hfaces⟩, fun _ => rfl, fun h => absurd rfl h⟩
  · obtain ⟨word, more, rfl⟩ := List.exists_cons_of_ne_nil hnone
    have hextendable : d₁.doc.Extendable page entry content :=
      hlays₁.overlays.extendable extendable fun _ _ h => h
    obtain ⟨d', items, happend, hitems, hlaid⟩ :=
      appendContent_extends hlays₁.overlays.numbered hextendable
        (Operation.writeAll (layerOperations (word :: more)))
    obtain ⟨hover, hgrown⟩ : Overlays homes d₁.doc d'.doc ∧ _ :=
      appendContent_overlays hlays₁.overlays.numbered (hlays₁.overlays.target? ht) home happend
    have hlays : Lays homes fonts' d₁ d' :=
      .of_binding (.appendContent page _) hlays₁.binds (hlays₁.ready.overlays hover) hover happend
    refine ⟨fonts', d', some (.array items), hrun.trans (run_bind happend),
      (hlays₁.mono fun _ h => h.elim).trans hlays,
      ⟨hlaid, fun h => absurd h hnone, fun _ => hitems, fun w hw => (hfaces w hw).overlays hover⟩,
      fun h => absurd h hnone, fun _ => Nat.lt_of_le_of_lt hlays₁.overlays.maxId hgrown⟩

end AccessiblePdf.Edit
