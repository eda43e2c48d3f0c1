import AccessiblePdf.Proofs.Content.Painting
import AccessiblePdf.Proofs.Ocr.Readback
import AccessiblePdf.Proofs.Text.Composed

/-!
Text layers that are laid twice. The first time all words that can be shown come to a page without text. The
second time those are found again whose characters all have codes; the other ones come to the page once more
(`applyOcr_again`).
-/
namespace AccessiblePdf

open Edit Ocr Document

/-! ## A page with a layer -/

/-- Behind some operations the graphics state is the one at the start, and none is saved. -/
def Operation.Fresh (ops : List Operation) : Prop :=
  ∀ r, let q := (({} : Pen).draw r (ops.map Operation.command)).1
    q.graphics = {} ∧ q.saved = []

/-- The content of a page shows the words of a layer, each with its font, and no other text. -/
structure Document.ShowsLayer (doc : Document) (page : ObjectId) (words : List (Box Float × ShownWord))
    (entry : Option Object) (content : Bytes) : Prop where
  extendable : doc.Extendable page entry content
  read : ∃ lead, Operation.readAll content = .ok (lead ++ (layerOperations words).map Operation.reread) ∧
    (∀ op ∈ lead, op.command.showsText = false) ∧ (words ≠ [] → Operation.Fresh lead)
  readable : ∀ word ∈ words, word.2.Readable
  faces : ∀ word ∈ words, doc.FaceAt page word.2.font

variable {doc old : Document} {homes : ObjectId → Prop} {page : ObjectId} {layer : LayerFont}
  {words : List (Box Float × ShownWord)} {entry : Option Object} {content : Bytes}

theorem Document.FaceAt.shows (h : doc.FaceAt page layer) (ops : List Operation) :
    ((ContentResources.ofDict doc (doc.pageResources page) ops).font (utf8 layer.resource)).Shows layer := by
  obtain ⟨resources, fonts, _, hat, hfonts, hentry, font, x, rfl, hx, hfont⟩ := h
  have hbinds : doc.BindsFont (doc.pageResources page) layer.resource font := by
    have hpage : doc.pageFonts? page = some fonts := hat.pageFonts?_eq.trans hfonts
    obtain ⟨o, ho, hdictionary⟩ := Option.bind_eq_some_iff.mp hpage
    obtain rfl := Object.dictionary?_eq_some.mp hdictionary
    exact ⟨fonts, by rw [entryDict?, ho]; rfl, hentry⟩
  rw [ScanState.font_ofDict, hbinds.loadFont hx]
  exact hfont.shows (some font)

theorem Document.ShowsLayer.shownTexts (h : doc.ShowsLayer page words entry content) :
    ∃ before, Operation.readAll content = .ok before ∧
      Edit.shownTexts (doc.scan page before) = words.filterMap shownWord? := by
  obtain ⟨lead, hread, untexted, fresh⟩ := h.read
  exact ⟨_, hread, shownTexts_layer (fun word hword => ⟨(h.faces word hword).shows _, h.readable word hword⟩)
    untexted fun hwords => fresh hwords _⟩

theorem Document.ShowsLayer.overlays (h : old.ShowsLayer page words entry content)
    (laid : Overlays homes old doc) (elsewhere : ∀ t, old.target? page = some t → ¬homes t) :
    doc.ShowsLayer page words entry content :=
  { h with
    extendable := laid.extendable h.extendable elsewhere
    faces := fun word hword => (h.faces word hword).overlays laid }

theorem Edit.Relaid.overlays {entry' : Option Object} (h : Relaid old page entry content words entry')
    (laid : Overlays homes old doc) (elsewhere : ∀ t, old.target? page = some t → ¬homes t) :
    Relaid doc page entry content words entry' :=
  { h with
    extendable := laid.extendable h.extendable elsewhere
    faces := fun word hword => (h.faces word hword).overlays laid }

/-! ## Page after page -/

namespace Edit

variable {o : Options} {d d' d₁ : Draft} {fonts : LayerFonts} {n : Int}

theorem page_overlays {homes' : ObjectId → Prop} (closed : old.Closed) (laid : Overlays homes old d.doc)
    (laid' : Overlays homes' d.doc d'.doc) (size : d.doc.objects.size ≤ d'.doc.objects.size)
    (found : (Edit.page n).run d = .ok page d) : (Edit.page n).run d' = .ok page d' := by
  obtain ⟨hnumber, hpage, -⟩ := page_iff.mp found
  refine page_iff.mpr ⟨hnumber, ?_, rfl⟩
  rw [laid.pages_eq closed] at hpage
  have hlater : Overlays (fun _ => True) old d'.doc :=
    (laid.mono fun _ _ => trivial).trans (laid'.mono fun _ _ => trivial)
  obtain ⟨more, hmore⟩ := old.pagesWithin_mono size
  rw [hlater.pages_eq closed, ← hmore, List.getElem?_append_left (List.getElem?_eq_some_iff.mp hpage).1,
    hpage]

/-- The words that are to be laid on a page that shows some words already. -/
def wordsToLay (o : Options) (pageBox : Box Float) (shown : List (Box Float × ShownWord))
    (words : List OcrWord) : List (Box Float × ShownWord) :=
  words.filterMap (wordToShow? o pageBox (shown.filterMap shownWord?))

/-- Words are laid page after page, each page apart from the others. If there are none for any page, the
document stays as it is, and otherwise it grows. -/
theorem foldlM_lays (closed : old.Closed) {pages : List OcrPage} {page : OcrPage → ObjectId}
    {entry : OcrPage → Option Object} {content : OcrPage → Bytes}
    {shown words : OcrPage → List (Box Float × ShownWord)} (laid : Overlays homes old d.doc)
    (ready : fonts.Ready d.doc) (binds : d.doc.Binds d.doc.LayerEntry)
    (found : ∀ p ∈ pages, (Edit.page p.page).run d = .ok (page p) d)
    (apart : pages.Pairwise fun p q => d.doc.target? (page p) ≠ d.doc.target? (page q))
    (shows : ∀ p ∈ pages, d.doc.ShowsLayer (page p) (shown p) (entry p) (content p))
    (hwords : ∀ p ∈ pages, wordsToLay o (old.pageBox (page p)) (shown p) p.words = words p) :
    ∃ fonts' d', (pages.foldlM (addPageText o) fonts).run d = .ok fonts' d' ∧
      Lays (fun t => ∃ p ∈ pages, d.doc.target? (page p) = some t) fonts' d d' ∧
      (∀ p ∈ pages, ∃ entry', Relaid d'.doc (page p) (entry p) (content p) (words p) entry') ∧
      ((∀ p ∈ pages, words p = []) → d' = d) ∧ ∀ p ∈ pages, words p ≠ [] → d.doc.maxId < d'.doc.maxId := by
  induction pages generalizing d fonts homes with
  | nil =>
    exact ⟨fonts, d, rfl, .refl laid.numbered ready binds, fun p h => absurd h List.not_mem_nil,
      fun _ => rfl, fun p h => absurd h List.not_mem_nil⟩
  | cons p pages ih =>
    rw [List.forall_mem_cons] at found shows hwords
    rw [List.pairwise_cons] at apart
    obtain ⟨x, hx, -⟩ := shows.1.extendable.stated
    obtain ⟨t, ht, -⟩ := target?_of_dict? hx
    have hbox : d.doc.pageBox (page p) = old.pageBox (page p) := by
      obtain ⟨-, hpage, -⟩ := page_iff.mp found.1
      rw [laid.pages_eq closed] at hpage
      have hisPage : old.IsPage (page p) := ⟨_, List.mem_of_getElem? hpage⟩
      exact laid.like.pageBox_eq closed (by decide) (by decide) (hisPage.below closed)
    obtain ⟨before, hread, hshown⟩ := shows.1.shownTexts
    have hlaid : p.words.filterMap (wordToShow? o (d.doc.pageBox (page p))
        (shownTexts (d.doc.scan (page p) before))) = words p := by
      rw [hbox, hshown]
      exact hwords.1
    obtain ⟨fonts₁, d₁, entry₁, hrun, hlays₁, hrelaid, hnone, hgrown⟩ :=
      @addPageText_lays d (fun t => d.doc.target? (page p) = some t) o fonts p (page p) t (entry p)
        (content p) (words p) before laid.numbered ready binds found.1 ht ht shows.1.extendable hread hlaid
    have hplace : ∀ q ∈ pages, d₁.doc.target? (page q) = d.doc.target? (page q) := by
      intro q hq
      obtain ⟨y, hy, -⟩ := (shows.2 q hq).extendable.stated
      obtain ⟨s, hs, -⟩ := target?_of_dict? hy
      rw [hs, hlays₁.overlays.target? hs]
    have hlaid₁ : Overlays (fun _ => True) old d₁.doc :=
      (laid.mono fun _ _ => trivial).trans (hlays₁.overlays.mono fun _ _ => trivial)
    obtain ⟨fonts', d', hrest, hlays, hrelaids, hnones, hgrowns⟩ := ih hlaid₁ hlays₁.ready hlays₁.binds
      (fun q hq => page_overlays closed laid hlays₁.overlays hlays₁.size (found.2 q hq))
      (apart.2.imp_of_mem fun ha hb h => by rwa [hplace _ ha, hplace _ hb])
      (fun q hq => (shows.2 q hq).overlays hlays₁.overlays fun s hs h => apart.1 q hq (h.trans hs.symm))
      hwords.2
    refine ⟨fonts', d', ?_, ?_, ?_, ?_, ?_⟩
    · rw [List.foldlM_cons, run_bind hrun]
      exact hrest
    · refine (hlays₁.mono fun s hs => ⟨p, List.mem_cons_self, hs⟩).trans (hlays.mono fun s hs => ?_)
      obtain ⟨q, hq, hs⟩ := hs
      exact ⟨q, List.mem_cons_of_mem _ hq, (hplace q hq).symm.trans hs⟩
    · refine List.forall_mem_cons.mpr ⟨⟨entry₁, hrelaid.overlays hlays.overlays fun s hs h => ?_⟩, hrelaids⟩
      obtain ⟨q, hq, hqs⟩ := h
      rw [hlays₁.overlays.target? ht] at hs
      exact apart.1 q hq (ht.trans (hs.trans (hqs.symm.trans (hplace q hq))))
    · intro h
      rw [List.forall_mem_cons] at h
      rw [hnones h.2, hnone h.1]
    · refine List.forall_mem_cons.mpr ⟨fun h => ?_, fun q hq h => ?_⟩
      · exact Nat.lt_of_lt_of_le (hgrown h) hlays.overlays.maxId
      · exact Nat.lt_of_le_of_lt hlays₁.overlays.maxId (hgrowns q hq h)

end Edit

/-! ## A layer that is read again -/

namespace Ocr

/-- All operands of a word can be read again. -/
def Legible (word : Box Float × ShownWord) : Prop :=
  ∀ op ∈ wordOperations word.2.font.resource word.1 word.2, ∀ o ∈ op.operands, o.writable = true

instance (word : Box Float × ShownWord) : Decidable (Legible word) :=
  inferInstanceAs (Decidable (∀ op ∈ wordOperations _ _ _, ∀ o ∈ op.operands, o.writable = true))

/-- The operators that show a word. -/
def operators : List String := ["q", "BT", "Tr", "Tf", "Tz", "Td", "Tj", "ET", "Q"]

theorem plain_operators : ∀ s ∈ operators, utf8 s ≠ [] ∧ (∀ b ∈ utf8 s, Operation.isOperatorByte b = true) ∧
    (∀ w ∈ [utf8 "null", utf8 "true", utf8 "false"], ¬w <+: utf8 s) ∧ ¬utf8 "BI" <+: utf8 s := by
  decide +kernel

theorem reference?_rounded (x : Float) : (rounded x).reference? = none := by
  rw [rounded, Object.ofFloat]
  split <;> rfl

theorem Legible.plain {word : Box Float × ShownWord} (legible : Legible word) :
    ∀ op ∈ wordOperations word.2.font.resource word.1 word.2, op.Plain := by
  intro op hop
  have hshape : op.operator ∈ operators ∧ ∀ o ∈ op.operands, o.reference? = none := by
    have hstring : word.2.string.reference? = none := by
      rw [ShownWord.string]
      split <;> rfl
    have hmode : (Object.integer invisible).reference? = none := rfl
    have hname : (Object.name (utf8 word.2.font.resource)).reference? = none := rfl
    simp only [wordOperations, List.mem_cons, List.not_mem_nil, or_false] at hop
    rcases hop with rfl | rfl | rfl | rfl | rfl | rfl | rfl | rfl | rfl <;>
      simp [operators, hmode, hname, reference?_rounded, hstring]
  obtain ⟨hnonempty, hword, hobject, himage⟩ := plain_operators _ hshape.1
  exact ⟨hnonempty, hword, hobject, fun _ => himage, fun o ho => ⟨legible op hop o ho, hshape.2 o ho⟩⟩

theorem plain_layer (legible : ∀ word ∈ words, Legible word) : ∀ op ∈ layerOperations words, op.Plain := by
  intro op hop
  obtain ⟨word, hword, hop⟩ := List.mem_flatMap.mp hop
  exact (legible word hword).plain op hop

theorem layerOperations_ne_nil (h : words ≠ []) : layerOperations words ≠ [] := by
  obtain ⟨word, more, rfl⟩ := List.exists_cons_of_ne_nil h
  exact List.cons_ne_nil _ _

theorem readable_layerWords {o : Options} {pageBox : Box Float} {ws : List OcrWord} :
    ∀ word ∈ layerWords o pageBox ws, word.2.Readable := by
  intro word hword
  obtain ⟨w, -, hw⟩ := List.mem_filterMap.mp hword
  exact ShownWord.readable_of_ofText? (wordToShow?_eq_some.mp hw).2.2.2.2

end Ocr

/-- A page that shows no text, more can be added to, and restores the states that it saves. -/
structure Document.Blank (doc : Document) (page : ObjectId) (entry : Option Object) (content : Bytes) :
    Prop where
  extendable : doc.Extendable page entry content
  read : ∃ ops, Operation.ReadsOn content ops ∧ Operation.Restored ops ∧
    ∀ op ∈ ops, op.command.showsText = false

theorem Document.Blank.showsLayer (blank : doc.Blank page entry content) :
    doc.ShowsLayer page [] entry content := by
  obtain ⟨ops, hread, -, huntexted⟩ := blank.read
  refine ⟨blank.extendable, ⟨ops, ?_, huntexted, fun h => absurd rfl h⟩, ?_, ?_⟩
  · rw [hread.alone, show layerOperations [] = [] from rfl, List.map_nil, List.append_nil]
  · exact fun word h => absurd h List.not_mem_nil
  · exact fun word h => absurd h List.not_mem_nil

/-- A page without text on which words were laid shows them. -/
theorem Document.Blank.relaid {entry' : Option Object} (blank : old.Blank page entry content)
    (legible : ∀ word ∈ words, Legible word) (readable : ∀ word ∈ words, word.2.Readable)
    (h : Relaid doc page entry content words entry') :
    doc.ShowsLayer page words entry' (laidContent entry content words) := by
  by_cases hnone : words = []
  · subst hnone
    obtain rfl := h.same rfl
    exact { blank.showsLayer with extendable := h.extendable, faces := h.faces }
  · have hops := layerOperations_ne_nil hnone
    have hplain := plain_layer legible
    have hcontent : laidContent entry content words =
        appended (keptItems entry) content (Operation.writeAll (layerOperations words)) := by
      rw [laidContent, if_neg (by simpa using hnone)]
    refine ⟨h.extendable, ?_, readable, h.faces⟩
    rw [hcontent, appended]
    split
    · exact ⟨[], Operation.readAll_writeAll hplain, fun op hop => absurd hop List.not_mem_nil,
        fun _ r => ⟨rfl, rfl⟩⟩
    · obtain ⟨ops, hread, hrestored, huntexted⟩ := blank.read
      refine ⟨⟨"q", []⟩ :: (ops ++ [⟨"Q", []⟩]), ?_, ?_, fun _ r => ?_⟩
      · rw [List.append_assoc _ (Operation.writeAll _), Operation.writeAll_eq_lines hops, hread.on _ hplain,
          List.cons_append, List.append_assoc, List.singleton_append]
      · intro op hop
        rcases List.mem_cons.mp hop with rfl | hop
        · rfl
        · rcases List.mem_append.mp hop with hop | hop
          · exact huntexted op hop
          · obtain rfl := List.mem_singleton.mp hop
            rfl
      · have hdraw := Pen.draw_bracket (r := r) (p := {}) hrestored rfl
        rw [List.map_cons, List.map_append]
        exact hdraw

/-! ## Applied again -/

/-- No name of a text layer stands in a document. -/
def Document.Unnamed (doc : Document) : Prop := doc.Binds fun _ _ => False

namespace Edit

/-- A page that shows no text yet, and words that are read again as they are written, in their boxes. -/
structure Scanned (o : Options) (d : Draft) (p : OcrPage) (page : ObjectId) : Prop where
  found : (Edit.page p.page).run d = .ok page d
  blank : ∃ entry content, d.doc.Blank page entry content
  composed : ∀ w ∈ p.words, Text.composed (coded (wordText w)) = coded (wordText w)
  legible : ∀ word ∈ layerWords o (d.doc.pageBox page) p.words, Legible word
  fits : ∀ word ∈ layerWords o (d.doc.pageBox page) p.words, Fits o.matching word

/-- The words of a page that are written with some of their characters left out. -/
def lossyWords (o : Options) (pageBox : Box Float) (p : OcrPage) : List (Box Float × ShownWord) :=
  layerWords o pageBox (p.words.filter fun w => ¬Coded w)

variable {o : Options} {d : Draft} {pages : List OcrPage} {page : OcrPage → ObjectId} {pageBox : Box Float}

theorem lossyWords_eq_nil {p : OcrPage} : lossyWords o pageBox p = [] ↔
    ∀ w ∈ p.words, (wordToShow? o pageBox [] w).isSome = true → Coded w := by
  rw [lossyWords, layerWords, List.filterMap_eq_nil_iff]
  constructor
  · intro h w hw hwritten
    by_contra huncoded
    rw [h w (List.mem_filter.mpr ⟨hw, by simpa using huncoded⟩)] at hwritten
    cases hwritten
  · intro h w hw
    obtain ⟨hw, huncoded⟩ := List.mem_filter.mp hw
    exact Option.not_isSome_iff_eq_none.mp fun hwritten => by simp [h w hw hwritten] at huncoded

theorem layerWords_ne_nil {p : OcrPage} (h : lossyWords o pageBox p ≠ []) :
    layerWords o pageBox p.words ≠ [] := by
  rw [lossyWords, layerWords] at h
  obtain ⟨word, hword⟩ := List.exists_mem_of_ne_nil _ h
  obtain ⟨w, hw, hwritten⟩ := List.mem_filterMap.mp hword
  exact List.ne_nil_of_mem (List.mem_filterMap.mpr ⟨w, List.mem_of_mem_filter hw, hwritten⟩)

theorem applyOcr_ok {d' : Draft} {fonts : LayerFonts}
    (hrun : (pages.foldlM (addPageText o) {}).run d = .ok fonts d') :
    (applyOcr o pages).run d = .ok () d' := by
  rw [applyOcr, run_bind hrun]
  rfl

/-- The content of a page on which words are laid once more. -/
def laidAgain (content : Bytes) (words : List (Box Float × ShownWord)) : Bytes :=
  if words.isEmpty then content
  else utf8 "q\n\n" ++ content ++ utf8 "Q\n" ++ Operation.writeAll (layerOperations words) ++ [0x0A]

/-- The words of pages without text are laid, and then those once more that lost characters. -/
theorem applyOcr_twice (closed : d.doc.Closed) (unnamed : d.doc.Unnamed)
    (apart : pages.Pairwise fun p q => d.doc.target? (page p) ≠ d.doc.target? (page q))
    (scanned : ∀ p ∈ pages, Scanned o d p (page p)) :
    ∃ d₁ d₂, (applyOcr o pages).run d = .ok () d₁ ∧ (applyOcr o pages).run d₁ = .ok () d₂ ∧
      (∀ p ∈ pages, ∃ content, d₁.doc.pageContent (page p) = .ok content ∧
        d₂.doc.pageContent (page p) =
          .ok (laidAgain content (lossyWords o (d.doc.pageBox (page p)) p))) ∧
      ((∀ p ∈ pages, lossyWords o (d.doc.pageBox (page p)) p = []) → d₂ = d₁) ∧
      ∀ p ∈ pages, lossyWords o (d.doc.pageBox (page p)) p ≠ [] → d₁.doc.maxId < d₂.doc.maxId := by
  let lossy (p : OcrPage) := lossyWords o (d.doc.pageBox (page p)) p
  let words (p : OcrPage) := layerWords o (d.doc.pageBox (page p)) p.words
  choose! entry content blank using fun p hp => (scanned p hp).blank
  have hstart : Overlays (fun _ => True) d.doc d.doc := .refl closed.numbered
  obtain ⟨fonts₁, d₁, hrun₁, hlays₁, hrelaid₁, -, -⟩ :=
    @foldlM_lays d.doc _ o d {} closed pages page entry content (fun _ => []) words hstart
      (LayerFonts.ready_empty d.doc) (unnamed.mono fun _ _ h => h.elim)
      (fun p hp => (scanned p hp).found) apart (fun p hp => (blank p hp).showsLayer) fun _ _ => rfl
  choose! entry₁ hrelaid₁ using hrelaid₁
  have hplace : ∀ p ∈ pages, d₁.doc.target? (page p) = d.doc.target? (page p) := by
    intro p hp
    obtain ⟨x, hx, -⟩ := (blank p hp).extendable.stated
    obtain ⟨t, ht, -⟩ := target?_of_dict? hx
    rw [ht, hlays₁.overlays.target? ht]
  obtain ⟨fonts₂, d₂, hrun₂, -, hrelaid₂, hnone, hgrown⟩ :=
    @foldlM_lays d.doc _ o d₁ {} closed pages page entry₁
      (fun p => laidContent (entry p) (content p) (words p)) words lossy hlays₁.overlays
      (LayerFonts.ready_empty d₁.doc) hlays₁.binds
      (fun p hp => page_overlays closed hstart hlays₁.overlays hlays₁.size (scanned p hp).found)
      (apart.imp_of_mem fun ha hb h => by rwa [hplace _ ha, hplace _ hb])
      (fun p hp => (blank p hp).relaid (scanned p hp).legible readable_layerWords (hrelaid₁ p hp))
      fun p hp => wordsToShow_layer (scanned p hp).composed (scanned p hp).fits
  refine ⟨d₁, d₂, applyOcr_ok hrun₁, applyOcr_ok hrun₂, fun p hp => ?_, hnone, hgrown⟩
  obtain ⟨entry₂, hrelaid⟩ := hrelaid₂ p hp
  refine ⟨_, (hrelaid₁ p hp).extendable.read, hrelaid.extendable.read.trans (congrArg _ ?_)⟩
  rw [laidContent, laidAgain]
  split
  · rfl
  · next hlossy =>
    have hkept := (hrelaid₁ p hp).kept (layerWords_ne_nil (by simpa using hlossy))
    rw [appended, if_neg (by simpa using hkept)]

/-- The words of pages without text are laid. Laid once more, those come to each page again that were
written with some of their characters left out. So the document stays as it is just when all characters of
the words that were written have codes. -/
theorem applyOcr_again (closed : d.doc.Closed) (unnamed : d.doc.Unnamed)
    (apart : pages.Pairwise fun p q => d.doc.target? (page p) ≠ d.doc.target? (page q))
    (scanned : ∀ p ∈ pages, Scanned o d p (page p)) :
    ∃ d₁ d₂, (applyOcr o pages).run d = .ok () d₁ ∧ (applyOcr o pages).run d₁ = .ok () d₂ ∧
      (∀ p ∈ pages, ∃ content, d₁.doc.pageContent (page p) = .ok content ∧
        d₂.doc.pageContent (page p) =
          .ok (laidAgain content (lossyWords o (d.doc.pageBox (page p)) p))) ∧
      (d₂ = d₁ ↔ ∀ p ∈ pages, ∀ w ∈ p.words,
        (wordToShow? o (d.doc.pageBox (page p)) [] w).isSome = true → Coded w) := by
  obtain ⟨d₁, d₂, hrun₁, hrun₂, hcontent, hnone, hgrown⟩ := applyOcr_twice closed unnamed apart scanned
  refine ⟨d₁, d₂, hrun₁, hrun₂, hcontent, ?_, fun hcoded => ?_⟩
  · rintro rfl p hp
    rw [← lossyWords_eq_nil]
    by_contra h
    exact Nat.lt_irrefl _ (hgrown p hp h)
  · exact hnone fun p hp => lossyWords_eq_nil.mpr (hcoded p hp)

/-! ## A character without a code -/

/-- A document of one page without content. -/
def emptyPage : Draft where
  doc := ⟨"1.7", .ofList [(utf8 "Root", .reference ⟨1, 0⟩)],
    .ofList [(⟨1, 0⟩, .ofEntries [(utf8 "Pages", .reference ⟨2, 0⟩)]),
      (⟨2, 0⟩, .ofEntries [(utf8 "Kids", .array [.reference ⟨3, 0⟩])]),
      (⟨3, 0⟩, .ofEntries [(utf8 "Type", .name "Page")])], 3⟩

/-- A word whose first character has no code. -/
def halfCoded : OcrWord := { text := "😀a", box := some ⟨10, 20, 5, 10⟩ }

def latinWord : OcrWord := { text := "ab", box := some ⟨30, 20, 10, 10⟩ }

theorem closed_emptyPage : emptyPage.doc.Closed := by
  have hall : ∀ e ∈ emptyPage.doc.objects.entries,
      e.1.number ≤ 3 ∧ ∀ id ∈ e.2.references, id.number ≤ 3 := by decide
  have htrailer : ∀ id ∈ (Object.dictionary emptyPage.doc.trailer).references, id.number ≤ 3 := by decide
  exact ⟨fun id o ho => hall _ (OrderedMap.mem_of_get? ho), htrailer⟩

theorem unnamed_emptyPage : emptyPage.doc.Unnamed := by
  have hone {E : Bytes → Object → Prop} {key : Bytes} {o : Object} (hkey : ¬IsLayerName key)
      (ho : o.entries? = none) : (Object.ofEntries [(key, o)]).Binds E :=
    Object.binds_ofEntries fun e he => by
      obtain rfl := List.mem_singleton.mp he
      exact ⟨hkey, Object.binds_of_other ho⟩
  have hall : ∀ e ∈ emptyPage.doc.objects.entries, e.2.Binds fun _ _ => False := by
    rintro e (_ | ⟨_, _ | ⟨_, _ | ⟨_, h⟩⟩⟩)
    · exact hone (by decide) rfl
    · exact hone (by decide) rfl
    · exact hone (by decide) rfl
    · cases h
  exact fun id o ho => hall _ (OrderedMap.mem_of_get? ho)

theorem blank_emptyPage : emptyPage.doc.Blank ⟨3, 0⟩ none [] := by
  have hnone : ∀ op ∈ ([] : List Operation), op.Plain := fun op hop => absurd hop List.not_mem_nil
  exact ⟨⟨⟨_, rfl, rfl⟩, .absent, rfl, rfl⟩, [], Operation.readsOn_lines hnone, rfl,
    fun op hop => absurd hop List.not_mem_nil⟩

/-- A word on the page, as it is shown. -/
def shownOn (b : Box Float) (w : ShownWord) : Box Float × ShownWord :=
  (Matching.default.toUserSpace b (emptyPage.doc.pageBox ⟨3, 0⟩), w)

def halfShown : Box Float × ShownWord := shownOn ⟨10, 20, 5, 10⟩ ⟨.universal, [0x61]⟩

def latinShown : Box Float × ShownWord := shownOn ⟨30, 20, 10, 10⟩ ⟨.latin, [0x61, 0x62]⟩

theorem wordToShow?_emptyPage {w : OcrWord} {s : String} {b : Box Float} {shown : ShownWord}
    (certain : w.confidence = none) (hbox : w.box = some b) (htext : wordText w = s)
    (nonempty : s.isEmpty = false) (hshown : ShownWord.ofText? s = some shown) :
    wordToShow? {} (emptyPage.doc.pageBox ⟨3, 0⟩) [] w = some (shownOn b shown) := by
  subst htext
  refine wordToShow?_eq_some.mpr ⟨?_, ?_, nonempty, ?_, hshown⟩
  · rw [certain]
    decide +kernel
  · rw [hbox]
    rfl
  · exact isShown_of_absent fun s hs => absurd hs List.not_mem_nil

theorem composed_letters {s : String} (letters : s.toList ⊆ ['😀', 'a', 'b']) : Text.composed s = s := by
  have hall : ∀ c ∈ ['😀', 'a', 'b'], Text.isUnlisted c.toNat = true :=
    List.all_eq_true.mp (by decide +kernel)
  exact Text.composed_of_unlisted fun c hc => Text.unlisted_of_isUnlisted (hall c (letters hc))

theorem wordText_halfCoded : wordText halfCoded = "😀a" := by
  rw [wordText, halfCoded, composed_letters (by decide)]
  decide

theorem wordText_latinWord : wordText latinWord = "ab" := by
  rw [wordText, latinWord, composed_letters (by decide)]
  decide

theorem wordToShow?_halfCoded : wordToShow? {} (emptyPage.doc.pageBox ⟨3, 0⟩) [] halfCoded =
    some halfShown :=
  wordToShow?_emptyPage rfl rfl wordText_halfCoded (by decide) (by decide +kernel)

theorem wordToShow?_latinWord : wordToShow? {} (emptyPage.doc.pageBox ⟨3, 0⟩) [] latinWord =
    some latinShown :=
  wordToShow?_emptyPage rfl rfl wordText_latinWord (by decide) (by decide +kernel)

theorem scanned_emptyPage {words : List OcrWord} (sub : words ⊆ [latinWord, halfCoded]) :
    Scanned {} emptyPage { page := 1, words := words } ⟨3, 0⟩ := by
  have hword : ∀ word ∈ layerWords {} (emptyPage.doc.pageBox ⟨3, 0⟩) words,
      word ∈ [latinShown, halfShown] := by
    intro word hword
    obtain ⟨w, hw, hwritten⟩ := List.mem_filterMap.mp hword
    rcases List.mem_pair.mp (sub hw) with rfl | rfl
    · rw [wordToShow?_latinWord] at hwritten
      simp [Option.some.inj hwritten]
    · rw [wordToShow?_halfCoded] at hwritten
      simp [Option.some.inj hwritten]
  constructor
  · have hpages : emptyPage.doc.pages = [⟨3, 0⟩] := pages_of_leaves rfl rfl (by decide) (by decide)
    exact page_iff.mpr ⟨(by decide : 0 < (1 : Int) ∧ (1 : Int) < 0x100000000), by rw [hpages]; rfl, rfl⟩
  · exact ⟨none, [], blank_emptyPage⟩
  · intro w hw
    rcases List.mem_pair.mp (sub hw) with rfl | rfl
    · rw [wordText_latinWord]
      exact composed_letters (by decide)
    · rw [wordText_halfCoded]
      exact composed_letters (by decide)
  · intro word h
    exact (by decide +kernel : ∀ word ∈ [_, _], Legible word) word (hword word h)
  · intro word h
    exact (by decide +kernel : ∀ word ∈ [_, _], Fits .default word) word (hword word h)

theorem coded_latinWord : Coded latinWord := by
  rw [Coded, wordText_latinWord]
  exact List.all_eq_true.mp (by decide +kernel)

theorem not_coded_halfCoded : ¬Coded halfCoded := by
  rw [Coded, wordText_halfCoded]
  exact fun h => absurd (h '😀' (by decide)) (by decide)

theorem writeAll_halfCoded :
    Operation.writeAll (layerOperations [halfShown]) =
      utf8 "q\nBT\n3 Tr\n/OcrUnicode 10 Tf\n100 Tz\n10 22 Td\n<0061> Tj\nET\nQ" := by
  decide +kernel

/-- A second run leaves the Latin word alone, and shows once more what there is of the other one. -/
theorem applyOcr_again_halfCoded :
    let p : OcrPage := { page := 1, words := [latinWord, halfCoded] }
    emptyPage.doc.Closed ∧ emptyPage.doc.Unnamed ∧ Scanned {} emptyPage p ⟨3, 0⟩ ∧
      ∃ d₁ d₂ content, (applyOcr {} [p]).run emptyPage = .ok () d₁ ∧
        (applyOcr {} [p]).run d₁ = .ok () d₂ ∧ d₂ ≠ d₁ ∧ d₁.doc.pageContent ⟨3, 0⟩ = .ok content ∧
          d₂.doc.pageContent ⟨3, 0⟩ = .ok (utf8 "q\n\n" ++ content ++ utf8 "Q\n" ++
            utf8 "q\nBT\n3 Tr\n/OcrUnicode 10 Tf\n100 Tz\n10 22 Td\n<0061> Tj\nET\nQ" ++ [0x0A]) := by
  intro p
  have scanned : Scanned {} emptyPage p ⟨3, 0⟩ := scanned_emptyPage (List.Subset.refl _)
  obtain ⟨d₁, d₂, hrun₁, hrun₂, hcontent, hsame⟩ :=
    @applyOcr_again {} emptyPage [p] (fun _ => ⟨3, 0⟩) closed_emptyPage unnamed_emptyPage
      (List.pairwise_singleton _ p) (by simpa using scanned)
  obtain ⟨content, hcontent₁, hcontent₂⟩ := hcontent p List.mem_cons_self
  have hlossy : lossyWords {} (emptyPage.doc.pageBox ⟨3, 0⟩) p = [halfShown] := by
    simp [lossyWords, layerWords, p, coded_latinWord, not_coded_halfCoded, wordToShow?_halfCoded]
  refine ⟨closed_emptyPage, unnamed_emptyPage, scanned, d₁, d₂, content, hrun₁, hrun₂, fun h => ?_,
    hcontent₁, hcontent₂.trans ?_⟩
  · refine not_coded_halfCoded (hsame.mp h p List.mem_cons_self halfCoded (by simp [p]) ?_)
    rw [wordToShow?_halfCoded]
    rfl
  · rw [hlossy, laidAgain, writeAll_halfCoded]
    rfl

/-- Of a word whose first character has no code, the other one is written by the first run. The second run
does not find the word, and writes that character again. -/
theorem applyOcr_writesAgain :
    let p : OcrPage := { page := 1, words := [halfCoded] }
    ∃ d₁ d₂, (applyOcr {} [p]).run emptyPage = .ok () d₁ ∧ (applyOcr {} [p]).run d₁ = .ok () d₂ ∧
      d₂.doc.pageContent ⟨3, 0⟩ ≠ d₁.doc.pageContent ⟨3, 0⟩ := by
  intro p
  have scanned : Scanned {} emptyPage p ⟨3, 0⟩ := scanned_emptyPage (by simp)
  obtain ⟨d₁, d₂, hrun₁, hrun₂, hcontent, -⟩ :=
    @applyOcr_twice {} emptyPage [p] (fun _ => ⟨3, 0⟩) closed_emptyPage unnamed_emptyPage
      (List.pairwise_singleton _ p) (by simpa using scanned)
  obtain ⟨content, hcontent₁, hcontent₂⟩ := hcontent p List.mem_cons_self
  have hlossy : lossyWords {} (emptyPage.doc.pageBox ⟨3, 0⟩) p = [halfShown] := by
    simp [lossyWords, layerWords, p, not_coded_halfCoded, wordToShow?_halfCoded]
  refine ⟨d₁, d₂, hrun₁, hrun₂, fun h => ?_⟩
  rw [hcontent₁, hcontent₂, hlossy] at h
  have hlength := congrArg List.length (Except.ok.inj h)
  simp only [laidAgain, List.isEmpty_cons, Bool.false_eq_true, if_false, List.length_append,
    List.length_cons] at hlength
  omega

end Edit

end AccessiblePdf
