import AccessiblePdf.Font.Repair
import AccessiblePdf.Proofs.Document.Appending
import AccessiblePdf.Proofs.Document.Entry
import AccessiblePdf.Proofs.Font.Finding
import AccessiblePdf.Proofs.Font.RoundTrip
import AccessiblePdf.Proofs.Structure.Regions

/-!
Texts that are declared for the codes of a font. A font that is loaded again has the declared texts, and
for all other codes those of the map that it had (`applyFont_text?`). That map is lost when its stream
has an entry for filters that cannot be undone, be it for the reason that there are none
(`applyFont_loses_map`).
-/
namespace AccessiblePdf

namespace Font

variable {doc : Document} {font : Dict Object}

/-! ## The map that a font has -/

/-- The texts that the map of a font gives. -/
def mapText? (doc : Document) (font : Dict Object) (code : Nat) : Option String :=
  (toUnicode? doc font).bind (·.get? code)

/-- Whether the map of a font is taken over into a new one: its stream has no entry for filters, or
they can be undone. -/
def mapKept (doc : Document) (font : Dict Object) : Bool :=
  match doc.value? font "ToUnicode" with
  | some (.stream entries content) =>
    !entries.contains "Filter" || (Stream.decoded? entries content).isSome
  | _ => true

theorem data_of_not_contains {entries : Dict Object} (h : entries.contains "Filter" = false)
    (content : Bytes) : Stream.data entries content = content := by
  have hnone : entries.get? "Filter" = none := by
    rw [OrderedMap.contains, Option.isSome_eq_false_iff, Option.isNone_iff_eq_none] at h
    exact h
  rw [Stream.data, Stream.decoded?, Stream.filters?, hnone]
  rfl

theorem toUnicode?_eq (doc : Document) (font : Dict Object) : Edit.toUnicode? doc font =
    if mapKept doc font then toUnicode? doc font else none := by
  rw [Edit.toUnicode?, toUnicode?, mapKept]
  cases hvalue : doc.value? font "ToUnicode" with
  | none => rfl
  | some o =>
    cases o with
    | stream entries content =>
      cases hfilter : entries.contains "Filter" with
      | false => simp [hfilter, data_of_not_contains hfilter]
      | true =>
        cases hdecoded : Stream.decoded? entries content with
        | none => simp [hfilter, hdecoded]
        | some data => simp [hfilter, hdecoded, Stream.data]
    | _ => rfl

end Font

namespace ToUnicode

/-! ## The new map -/

theorem get?_insertAll_toList (m base : ToUnicode) (code : Nat) :
    (base.insertAll m.toList).get? code = (m.get? code).or (base.get? code) := by
  have hfilter := get?_insertAll_filter m base (fun _ => true) code
  rwa [List.filter_true, if_pos rfl] at hfilter

theorem get?_empty (codeBytes code : Nat) : (empty codeBytes).get? code = none :=
  Std.TreeMap.getElem?_emptyc

/-- The map of a font with declared texts. -/
def declaring (codeBytes : Nat) (old : Option ToUnicode) (declared : CodeTable String) : ToUnicode :=
  ((empty codeBytes).merge (old.getD (empty codeBytes))).insertAll declared.toList

theorem get?_declaring (codeBytes : Nat) (old : Option ToUnicode) (declared : CodeTable String)
    (code : Nat) : (declaring codeBytes old declared).get? code =
      declared[code]?.or (old.bind (·.get? code)) := by
  rw [declaring, merge]
  refine (get?_insertAll_toList ⟨codeBytes, declared⟩ _ code).trans ?_
  rw [get?_insertAll_toList, get?_empty, Option.or_none]
  cases old with
  | none => rw [Option.getD_none, get?_empty]; rfl
  | some m => rfl

theorem codeBytes_declaring {codeBytes : Nat} (low : 1 ≤ codeBytes) (high : codeBytes ≤ 4)
    (old : Option ToUnicode) (declared : CodeTable String) :
    (declaring codeBytes old declared).codeBytes = codeBytes := by
  rw [declaring, codeBytes_insertAll, merge, codeBytes_insertAll, empty, Nat.min_eq_right high,
    Nat.max_eq_right low]

end ToUnicode

namespace Edit

variable {d d' : Draft} {font : ObjectId} {x : Dict Object} {u : Unit}

/-! ## Writing the map -/

/-- The bytes of a code. -/
def codeWidth (composite : Bool) : Nat := if composite then 2 else 1

/-- The map goes into a new stream, which the font refers to. -/
theorem run_writeToUnicode (unused : d.doc.Unused) (hx : d.doc.dict? font = some x)
    {composite : Bool} (hcomposite : composite = (d.doc.entryName? x "Subtype" == some "Type0"))
    (declared : CodeTable String) :
    ∃ d' x', (writeToUnicode font declared).run d = .ok () d' ∧ d'.doc.dict? font = some x' ∧
      Font.toUnicode? d'.doc x' =
        (ToUnicode.read (ToUnicode.declaring (codeWidth composite) (Edit.toUnicode? d.doc x)
          declared).write).toOption := by
  set m := ToUnicode.declaring (codeWidth composite) (Edit.toUnicode? d.doc x) declared with hm
  set s := contentStream d.packing m.write with hs
  obtain ⟨t, htarget, hxadd⟩ := Document.target?_of_dict? (Document.dict?_add unused s hx)
  set x' := x.insert "ToUnicode" (.reference d.doc.nextId) with hx'
  set doc' := (d.doc.add s).put t (.dictionary x') with hdoc'
  have hstream : doc'.resolve (.reference d.doc.nextId) = s :=
    Document.resolve_add_put hxadd rfl (by simp [hs, contentStream])
  refine ⟨{ d with doc := doc' }, x', ?_, ?_, ?_⟩
  · have hrun : (writeToUnicode font declared).run d =
        (setEntry font "ToUnicode" (.reference d.doc.nextId)).run { d with doc := d.doc.add s } := by
      rw [writeToUnicode, run_bind (isComposite_ok.mpr ⟨x, hx, hcomposite, rfl⟩)]
      rw [run_bind (doc_ok.mpr ⟨rfl, rfl⟩), run_bind (dict_ok.mpr ⟨hx, rfl⟩),
        run_bind (run_stream d _), run_bind (run_add d _)]
      rfl
    rw [hrun]
    exact setEntry_ok.mpr ⟨t, x, htarget, hxadd, rfl⟩
  · rw [hdoc', Document.dict?_put hxadd, if_pos htarget]
  · have hvalue : doc'.value? x' "ToUnicode" = some s := by
      rw [Document.value?, hx', OrderedMap.get?_insert_self, Option.map_some, hstream]
    rw [Font.toUnicode?, hvalue]
    simp only [hs, contentStream, Stream.data_contentEntries]

theorem maxCode_eq_codeLimit {m : ToUnicode} {composite : Bool}
    (h : m.codeBytes = codeWidth composite) : m.maxCode = codeLimit composite := by
  rw [ToUnicode.maxCode, h]
  cases composite <;> rfl

theorem text?_of_toUnicode? {doc : Document} {x : Dict Object} {m : ToUnicode}
    (h : Font.toUnicode? doc x = some m) (id : Option ObjectId) (code : Nat) :
    (Font.load doc x id).text? code = m.get? code := by
  have hmap : (Font.load doc x id).toUnicode = some m := h
  rw [Font.text?, hmap]

/-- A font has the declared texts, and for other codes those of the map that is taken over. -/
theorem repairFont_text? (unused : d.doc.Unused) (hx : d.doc.dict? font = some x) {composite : Bool}
    (hcomposite : composite = (d.doc.entryName? x "Subtype" == some "Type0")) {f : FontEdit}
    (codes : ∀ code ∈ f.mappings.keys, code ≤ codeLimit composite) :
    ∃ d' x', (repairFont f font composite .writeToUnicode).run d = .ok () d' ∧
      d'.doc.dict? font = some x' ∧ ∀ id, ∀ code ≤ codeLimit composite,
        (Font.load d'.doc x' id).text? code = f.mappings[code]?.or
          (if Font.mapKept d.doc x then Font.mapText? d.doc x code else none) := by
  obtain ⟨d', x', hrun, hx', hmap⟩ := run_writeToUnicode unused hx hcomposite f.mappings
  have hwidth : 1 ≤ codeWidth composite ∧ codeWidth composite ≤ 4 := by cases composite <;> decide
  set m := ToUnicode.declaring (codeWidth composite) (Edit.toUnicode? d.doc x) f.mappings with hm
  have hbytes : m.codeBytes = codeWidth composite :=
    ToUnicode.codeBytes_declaring hwidth.1 hwidth.2 _ _
  have hread := ToUnicode.read_write_eq m (hbytes ▸ hwidth.1) (hbytes ▸ hwidth.2)
  rw [hread] at hmap
  refine ⟨d', x', ?_, hx', fun id code hcode => ?_⟩
  · have hcheck : (checkCodes f f.mappings.keys (codeLimit composite)).run d = .ok () d :=
      checkCodes_ok.mpr ⟨codes, rfl⟩
    rw [← hrun]
    exact run_bind hcheck
  · have hfits : code ≤ m.maxCode := by
      rw [maxCode_eq_codeLimit hbytes]
      exact hcode
    have hempty : (ToUnicode.mk m.codeBytes ∅).get? code = none := Std.TreeMap.getElem?_emptyc
    rw [text?_of_toUnicode? hmap,
      ToUnicode.get?_insertAll_filter m _ (fun code => decide (code ≤ m.maxCode)), hempty,
      Option.or_none, if_pos (decide_eq_true hfits), hm, ToUnicode.get?_declaring,
      Font.toUnicode?_eq]
    cases Font.mapKept d.doc x <;> rfl

/-! ## The font with the declared texts -/

theorem run_applyFont {f : FontEdit} (hop : FontOp.ofName? f.op = some .writeToUnicode)
    {page : ObjectId} {d₁ : Draft} (hpage : (Edit.page f.page).run d = .ok page d)
    (hfont : (fontId page f.font).run d = .ok font d₁) (hx : d₁.doc.dict? font = some x)
    {composite : Bool} (hcomposite : composite = (d₁.doc.entryName? x "Subtype" == some "Type0"))
    (hrun : (repairFont f font composite .writeToUnicode).run d₁ = .ok () d') :
    (applyFont f).run d = .ok () d' := by
  have hfound : (isComposite font).run d₁ = .ok composite d₁ :=
    isComposite_ok.mpr ⟨x, hx, hcomposite, rfl⟩
  unfold applyFont
  rw [hop]
  exact (run_bind hpage).trans ((run_bind hfont).trans ((run_bind hfound).trans hrun))

/-- When texts have been declared for codes of a font, it is loaded with them. For the other codes that
it can have it is loaded with the texts of its old map, unless the stream of that has an entry for
filters that cannot be undone. -/
theorem applyFont_text? (numbered : d.doc.Numbered) {f : FontEdit}
    (hop : FontOp.ofName? f.op = some .writeToUnicode) (hrun : (applyFont f).run d = .ok u d') :
    ∃ page font d₁ x x', (Edit.page f.page).run d = .ok page d ∧
      (fontId page f.font).run d = .ok font d₁ ∧ d₁.doc.dict? font = some x ∧
      d'.doc.dict? font = some x' ∧
      (∀ code text, f.mappings[code]? = some text →
        (Font.load d'.doc x' (some font)).text? code = some text) ∧
      ∀ code, f.mappings[code]? = none →
        code ≤ codeLimit (Font.load d₁.doc x (some font)).composite →
          (Font.load d'.doc x' (some font)).text? code =
            if Font.mapKept d₁.doc x then Font.mapText? d₁.doc x code else none := by
  obtain ⟨page, font, d₁, x, composite, hpage, hfont, hx, hname, hrepair⟩ := applyFont_ok hop hrun
  have hunused : d₁.doc.Unused := (sparing_fontId page f.font _ _ _ hfont numbered).numbered.unused
  have hcodes : ∀ code ∈ f.mappings.keys, code ≤ codeLimit composite := by
    obtain ⟨_, _, hcheck, -⟩ := bind_ok.mp hrepair
    exact (checkCodes_ok.mp hcheck).1
  obtain ⟨d₂, x', hrun', hx', htexts⟩ := repairFont_text? hunused hx hname hcodes
  obtain rfl : d' = d₂ := by
    rw [hrepair] at hrun'
    cases hrun'
    rfl
  refine ⟨page, font, d₁, x, x', hpage, hfont, hx, hx', fun code text hcode => ?_,
    fun code hcode hlimit => ?_⟩
  · have hmem : code ∈ f.mappings.keys :=
      Std.TreeMap.mem_keys.mpr (Std.TreeMap.mem_iff_isSome_getElem?.mpr (by rw [hcode]; rfl))
    rw [htexts _ code (hcodes code hmem), hcode, Option.some_or]
  · rw [composite_load, ← hname] at hlimit
    rw [htexts _ code hlimit, hcode, Option.none_or]

/-! ## A map without filters -/

/-- The map of a font. -/
def mappedText : Bytes := utf8 "begincmap 1 beginbfchar <41> <0041> endbfchar"

/-- A page with a font that has a text for code 0x41, in a stream with these entries. -/
def mappedFont (entries : Dict Object) : Draft :=
  { doc := ⟨"1.7", .ofList [(utf8 "Root", .reference ⟨1, 0⟩)], .ofList [
      (⟨1, 0⟩, .ofEntries [(utf8 "Pages", .reference ⟨2, 0⟩)]),
      (⟨2, 0⟩, .ofEntries [(utf8 "Type", .name "Pages"), (utf8 "Kids", .array [.reference ⟨3, 0⟩])]),
      (⟨3, 0⟩, .ofEntries [(utf8 "Type", .name "Page"), (utf8 "Resources", .ofEntries
        [(utf8 "Font", .ofEntries [(utf8 "F1", .reference ⟨4, 0⟩)])])]),
      (⟨4, 0⟩, .ofEntries [(utf8 "Subtype", .name "Type1"), (utf8 "ToUnicode", .reference ⟨5, 0⟩)]),
      (⟨5, 0⟩, .stream entries mappedText)], 5⟩
    compress := false }

/-- Declares a text for code 0x42 of the font. -/
def declaration : FontEdit :=
  { op := "write_tounicode", font := "F1", page := 1
    mappings := (∅ : CodeTable String).insert 0x42 "B" }

theorem declaration_codes : ∀ code ∈ declaration.mappings.keys, code ≤ codeLimit false := by
  decide

theorem get?_mappedText : (ToUnicode.read mappedText).toOption.bind (·.get? 0x41) = some "A" := by
  decide +kernel

theorem found_mappedFont (entries : Dict Object) : ∃ d₁ x,
    (Edit.page declaration.page).run (mappedFont entries) = .ok ⟨3, 0⟩ (mappedFont entries) ∧
      (fontId ⟨3, 0⟩ declaration.font).run (mappedFont entries) = .ok ⟨4, 0⟩ d₁ ∧
      (mappedFont entries).doc.dict? ⟨4, 0⟩ = some x ∧ d₁.doc.dict? ⟨4, 0⟩ = some x ∧
      (mappedFont entries).doc.value? x "ToUnicode" = some (.stream entries mappedText) ∧
      d₁.doc.value? x "ToUnicode" = some (.stream entries mappedText) ∧
      d₁.doc.entryName? x "Subtype" = some "Type1" := by
  have hpages : (mappedFont entries).doc.pages = [⟨3, 0⟩] :=
    Document.pages_of_leaves rfl rfl (List.forall_mem_singleton.mpr rfl) (Nat.le_of_ble_eq_true rfl)
  exact ⟨_, _, page_iff.mpr ⟨by decide, by rw [hpages]; rfl, rfl⟩, rfl, rfl, rfl, rfl, rfl,
    Document.entryName?_utf8 rfl⟩

theorem numbered_mappedFont (entries : Dict Object) : (mappedFont entries).doc.Numbered :=
  Document.numbered_of_entries (by
    simp [mappedFont, OrderedMap.ofList, OrderedMap.insert, OrderedMap.put, OrderedMap.empty])

theorem declare_mappedFont (entries : Dict Object) : ∃ d₁ x d' x',
    (fontId ⟨3, 0⟩ declaration.font).run (mappedFont entries) = .ok ⟨4, 0⟩ d₁ ∧
      d₁.doc.dict? ⟨4, 0⟩ = some x ∧ d₁.doc.value? x "ToUnicode" = some (.stream entries mappedText) ∧
      (applyFont declaration).run (mappedFont entries) = .ok () d' ∧
      d'.doc.dict? ⟨4, 0⟩ = some x' ∧ ∀ code ≤ 0xFF,
        (Font.load d'.doc x' (some ⟨4, 0⟩)).text? code = declaration.mappings[code]?.or
          (if Font.mapKept d₁.doc x then Font.mapText? d₁.doc x code else none) := by
  obtain ⟨d₁, x, hpage, hfont, -, hx, -, hvalue, hname⟩ := found_mappedFont entries
  have hunused : d₁.doc.Unused :=
    (sparing_fontId _ _ _ _ _ hfont (numbered_mappedFont entries)).numbered.unused
  have hsimple : false = (d₁.doc.entryName? x "Subtype" == some "Type0") := by
    rw [hname]
    decide
  obtain ⟨d', x', hrepair, hx', htexts⟩ := repairFont_text? hunused hx hsimple declaration_codes
  exact ⟨d₁, x, d', x', hfont, hx, hvalue, run_applyFont rfl hpage hfont hx hsimple hrepair, hx',
    htexts (some ⟨4, 0⟩)⟩

/-- The map of the font has no filters, and is kept. -/
theorem applyFont_text?_unfiltered : ∃ d' font x',
    (mappedFont ∅).doc.Numbered ∧ FontOp.ofName? declaration.op = some .writeToUnicode ∧
      (applyFont declaration).run (mappedFont ∅) = .ok () d' ∧ d'.doc.dict? font = some x' ∧
      (Font.load d'.doc x' (some font)).text? 0x42 = some "B" ∧
      (Font.load d'.doc x' (some font)).text? 0x41 = some "A" := by
  obtain ⟨d₁, x, d', -, hfont, hx, hvalue, hrun, -, -⟩ := declare_mappedFont ∅
  have numbered := numbered_mappedFont ∅
  obtain ⟨page, font, d₁', y, y', hpage', hfont', hy, hy', hdeclared, hother⟩ :=
    applyFont_text? numbered rfl hrun
  obtain ⟨_, _, hpage, -⟩ := found_mappedFont ∅
  rw [hpage] at hpage'
  cases hpage'
  rw [hfont] at hfont'
  cases hfont'
  rw [hx] at hy
  cases hy
  have hkept : Font.mapKept d₁.doc x = true := by
    rw [Font.mapKept, hvalue]
    rfl
  have hold : Font.mapText? d₁.doc x 0x41 = some "A" := by
    rw [Font.mapText?, Font.toUnicode?, hvalue]
    exact get?_mappedText
  refine ⟨d', ⟨4, 0⟩, y', numbered, rfl, hrun, hy', hdeclared 0x42 "B" (by decide), ?_⟩
  have hlimit : ∀ composite, 0x41 ≤ codeLimit composite := by decide
  rw [hother 0x41 (by decide) (hlimit _), if_pos hkept, hold]

/-- With a null for its filters, which is as good as no entry, the map is lost, although the font was
loaded with it. -/
theorem applyFont_loses_map : ∃ x d' x',
    (mappedFont (.ofList [(utf8 "Filter", .null)])).doc.dict? ⟨4, 0⟩ = some x ∧
      (Font.load (mappedFont (.ofList [(utf8 "Filter", .null)])).doc x (some ⟨4, 0⟩)).text? 0x41 =
        some "A" ∧
      (applyFont declaration).run (mappedFont (.ofList [(utf8 "Filter", .null)])) = .ok () d' ∧
      d'.doc.dict? ⟨4, 0⟩ = some x' ∧ declaration.mappings[0x41]? = none ∧
      (Font.load d'.doc x' (some ⟨4, 0⟩)).text? 0x41 = none := by
  set entries : Dict Object := .ofList [(utf8 "Filter", .null)] with hentries
  obtain ⟨d₁, x, -, hfont, hx, hx₁, hvalue, hvalue₁, -⟩ := found_mappedFont entries
  obtain ⟨d₁', y, d', x', hfont', hy, -, hrun, hx', htexts⟩ := declare_mappedFont entries
  rw [hfont] at hfont'
  cases hfont'
  rw [hx₁] at hy
  cases hy
  obtain ⟨m, hmap, hget⟩ := Option.bind_eq_some_iff.mp get?_mappedText
  have hold : Font.toUnicode? (mappedFont entries).doc x = some m := by
    rw [Font.toUnicode?, hvalue]
    exact hmap
  have hlost : Font.mapKept d₁.doc x = false := by
    rw [Font.mapKept, hvalue₁]
    rfl
  refine ⟨x, d', x', hx, ?_, hrun, hx', by decide, ?_⟩
  · rw [text?_of_toUnicode? hold, hget]
  · rw [htexts 0x41 (by decide), hlost]
    rfl

end Edit

end AccessiblePdf
