import AccessiblePdf.Font.Repair
import AccessiblePdf.Proofs.Document.Entry
import AccessiblePdf.Proofs.Document.Retention
import AccessiblePdf.Proofs.Document.Sparing

/-!
The font that a repair is about: the one that a page has under a name. When it is found it comes to an
object of its own, and the document retains everything, but for a page that gets resources of its own
(`fontId_retains`).
-/
namespace AccessiblePdf

/-- The dictionary that is the font of a page under a name. -/
def Document.fontOf? (doc : Document) (page : ObjectId) (name : String) : Option (Dict Object) :=
  ((doc.value? (doc.pageResources page) "Font").bind Object.dictionary?).bind fun fonts =>
    (doc.value? fonts (CharSet.bare name)).bind Object.dictionary?

/-- Resources where there were none. -/
def OwnResources (key : Bytes) (present : Bool) : Prop := key = utf8 "Resources" ∧ present = false

theorem not_ownResources_of_ne {key : Bytes} (hne : key ≠ utf8 "Resources") (present : Bool) :
    ¬OwnResources key present := fun hown => hne hown.1

/-- What a repair changes: the entries under some keys, beside resources where there were none. -/
def Repairing (keys : List String) (key : Bytes) (present : Bool) : Prop :=
  OwnResources key present ∨ Under keys key present

theorem not_repairing {keys : List String} {key : Bytes} (hkey : key ∉ keys.map utf8)
    (resources : key ≠ utf8 "Resources") (present : Bool) : ¬Repairing keys key present := by
  rintro (hown | hunder)
  · exact resources hown.1
  · exact hkey hunder

theorem Object.dictionary?_eq_some {o : Object} {x : Dict Object} :
    o.dictionary? = some x ↔ o = .dictionary x := by
  cases o <;> simp [Object.dictionary?]

theorem Document.fontOf?_eq_some {doc : Document} {page : ObjectId} {name : String} {x : Dict Object} :
    doc.fontOf? page name = some x ↔ ∃ z fonts, doc.pageResources? page = some z ∧
      doc.value? z "Font" = some (.dictionary fonts) ∧
      doc.value? fonts (CharSet.bare name) = some (.dictionary x) := by
  simp only [fontOf?, Option.bind_eq_some_iff, Object.dictionary?_eq_some]
  constructor
  · rintro ⟨fonts, ⟨_, hfonts, rfl⟩, _, hx, rfl⟩
    cases hz : doc.pageResources? page with
    | none =>
      have hnone : doc.value? ∅ "Font" = none := rfl
      rw [pageResources, hz, Option.getD_none, hnone] at hfonts
      cases hfonts
    | some z =>
      rw [pageResources, hz, Option.getD_some] at hfonts
      exact ⟨z, fonts, rfl, hfonts, hx⟩
  · rintro ⟨z, fonts, hz, hfonts, hx⟩
    exact ⟨fonts, ⟨_, by rw [pageResources, hz, Option.getD_some, hfonts], rfl⟩, _, hx, rfl⟩

theorem not_ownResources {doc : Document} {x : Dict Object} {key : Bytes} {o : Object}
    (h : doc.value? x key = some o) : ¬OwnResources key (x.get? key).isSome := by
  obtain ⟨o', ho', -⟩ := Option.map_eq_some_iff.mp h
  rw [ho']
  exact fun hfree => Bool.noConfusion hfree.2

theorem Document.Retains.repaired {old doc doc' : Document} {x y z : Dict Object} {keys : List String}
    (found : old.Retains OwnResources doc)
    (hxy : (Object.dictionary x).Retained OwnResources doc (.dictionary y))
    (changed : doc.Retains (Under keys) doc')
    (hyz : (Object.dictionary y).Retained (Under keys) doc' (.dictionary z)) :
    old.Retains (Repairing keys) doc' ∧
      (Object.dictionary x).Retained (Repairing keys) doc' (.dictionary z) := by
  have hchanged : doc.Retains (Repairing keys) doc' := changed.mono fun _ _ => Or.inr
  exact ⟨(found.mono fun _ _ => Or.inl).trans hchanged,
    (hxy.mono fun _ _ => Or.inl).trans hchanged (hyz.mono fun _ _ => Or.inr)⟩

/-! ## Loading the font -/

namespace Document.Retains

variable {free : Bytes → Bool → Prop} {old doc : Document} {x y : Dict Object}
  (h : old.Retains free doc) (hxy : (Object.dictionary x).Retained free doc (.dictionary y))
  {id : Option ObjectId}

include h hxy

theorem subtype_eq (subtype : ∀ present, ¬free "Subtype" present) :
    (Font.load doc y id).subtype = (Font.load old x id).subtype :=
  congrArg (·.getD "") (h.entryName?_eq hxy (subtype _))

theorem composite_eq (subtype : ∀ present, ¬free "Subtype" present) :
    (Font.load doc y id).composite = (Font.load old x id).composite := by
  show ((Font.load doc y id).subtype == "Type0") = _
  rw [h.subtype_eq hxy subtype]
  rfl

theorem scale_eq (subtype : ∀ present, ¬free "Subtype" present)
    (matrix : ∀ present, ¬free "FontMatrix" present) :
    (Font.load doc y id).scale = (Font.load old x id).scale := by
  have hunit : (((doc.entryArray? y "FontMatrix").bind List.head?).map doc.resolve).bind Object.float? =
      (((old.entryArray? x "FontMatrix").bind List.head?).map old.resolve).bind Object.float? := by
    rw [Option.map_eq_bind, Option.map_eq_bind]
    refine Option.Rel.bind_eq (R := Object.Seen free doc) ?_ fun a b hab => ?_
    · refine ((h.entryArray?_rel hxy (matrix _)).bind fun _ _ hitems => ?_).bind fun a b hab =>
        .some (h.resolve hab)
      cases hitems with
      | nil => exact .none
      | cons hab _ => exact .some hab
    · rw [Object.float?, Object.float?, hab.number?_eq]
  show (if (Font.load doc y id).subtype == "Type3" then _ else none) =
    if (Font.load old x id).subtype == "Type3" then _ else none
  rw [h.subtype_eq hxy subtype, hunit]

theorem toUnicode?_eq (unicode : ∀ present, ¬free "ToUnicode" present) :
    Font.toUnicode? doc y = Font.toUnicode? old x := by
  have hrel := h.value?_rel hxy (unicode _)
  rw [Font.toUnicode?, Font.toUnicode?]
  revert hrel
  generalize old.value? x "ToUnicode" = a
  generalize doc.value? y "ToUnicode" = b
  intro hrel
  cases hrel with
  | none => rfl
  | some hab =>
    cases hab with
    | fresh z => rfl
    | retained hab direct =>
      cases hab with
      | same => rfl
      | dictionary => rfl
      | array => rfl
      | moved => exact absurd direct Bool.false_ne_true

end Document.Retains

namespace Edit

variable {d d' : Draft} {page font id : ObjectId} {x z : Dict Object} {name : String} {u : Unit}

/-! ## Finding the font -/

theorem pageResources?_of_stated {doc : Document} (hx : doc.dict? page = some x) {o : Object}
    (hkey : x.get? "Resources" = some o) :
    doc.pageResources? page = (doc.value? x "Resources").bind Object.dictionary? := by
  have hown : doc.value? x "Resources" = some (doc.resolve o) := by
    rw [Document.value?, hkey, Option.map_some]
  rw [Document.pageResources?, Document.inherited?, hx, Option.bind_some, Document.inheritanceDepth,
    Document.inheritedFrom, hown]

theorem numbered_setEntry {key : Bytes} {o : Object} (numbered : d.doc.Numbered)
    (hrun : (setEntry id key o).run d = .ok u d') : d'.doc.Numbered := by
  have hspares : Sparing (fun _ => True) (setEntry id key o) := Sparing.setEntry trivial _ _
  exact (hspares _ _ _ hrun numbered).numbered

theorem numbered_indirectDict {key : Bytes} (numbered : d.doc.Numbered)
    (hrun : (indirectDict page key).run d = .ok id d') : d'.doc.Numbered := by
  have hspares : Sparing (fun _ => True) (indirectDict page key) := Sparing.indirectDict trivial _
  exact (hspares _ _ _ hrun numbered).numbered

theorem numbered_pageResources (numbered : d.doc.Numbered)
    (hrun : (pageResources page).run d = .ok id d') : d'.doc.Numbered := by
  have hspares : Sparing (fun _ => True) (pageResources page) := Sparing.pageResources trivial _
  exact (hspares _ _ _ hrun numbered).numbered

theorem run_pageResources (hx : d.doc.dict? page = some x) :
    (pageResources page).run d =
      if (x.get? "Resources").isSome then (indirectDict page "Resources").run d
      else (do
        setEntry page "Resources" (.dictionary (d.doc.pageResources page))
        indirectDict page "Resources" : Edit ObjectId).run d := by
  unfold pageResources
  rw [run_bind (dict_ok.mpr ⟨hx, rfl⟩), OrderedMap.contains]
  cases (x.get? (utf8 "Resources")).isSome <;> rfl

/-- The resources of a page come to an object of their own, which the page refers to. The entry for them has
to be free, unless the page states a dictionary there. -/
theorem pageResources_own {free : Bytes → Bool → Prop} (numbered : d.doc.Numbered)
    (hx : d.doc.dict? page = some x)
    (hfree : x.get? "Resources" = none ∨ d.doc.pageResources? page = none →
      free "Resources" (x.get? "Resources").isSome)
    (hrun : (pageResources page).run d = .ok id d') :
    d.doc.Retains free d'.doc ∧ d'.doc.dict? id = some (d.doc.pageResources page) ∧
      ∃ y, d'.doc.dict? page = some y ∧ y.get? "Resources" = some (.reference id) := by
  rw [run_pageResources hx] at hrun
  cases hkey : x.get? "Resources" with
  | none =>
    rw [hkey] at hrun hfree
    obtain ⟨_, d₁, hset, howner⟩ := bind_ok.mp hrun
    have hkeep : ∀ key, ¬free key (x.get? key).isSome →
        (x.insert "Resources" (.dictionary (d.doc.pageResources page))).get? key = x.get? key := by
      intro key hkept
      apply OrderedMap.get?_insert_of_ne
      rintro rfl
      rw [hkey] at hkept
      exact hkept (hfree (.inl rfl))
    obtain ⟨hcopied, hx₁⟩ := modifyDict_retains hx hkeep hset
    have hunused : d₁.doc.Unused := (numbered_setEntry numbered hset).unused
    have hvalue : (d₁.doc.value? (x.insert "Resources" (.dictionary (d.doc.pageResources page)))
        "Resources").bind Object.dictionary? = some (d.doc.pageResources page) := by
      rw [Document.value?_of_direct (OrderedMap.get?_insert_self ..) rfl]
      rfl
    obtain ⟨hmoved, hid, y, hy, hentry, -⟩ :=
      indirectDict_own hunused hx₁ (fun hnone => by rw [hvalue] at hnone; cases hnone) howner
    rw [hvalue, Option.getD_some] at hid
    exact ⟨hcopied.trans hmoved, hid, y, hy, hentry⟩
  | some o =>
    rw [hkey] at hrun
    have hstated := pageResources?_of_stated hx hkey
    obtain ⟨hretains, hid, y, hy, hentry, -⟩ := indirectDict_own numbered.unused hx
      (fun hnone => hfree (.inr (hstated.trans hnone))) hrun
    rw [← hstated] at hid
    exact ⟨hretains, hid, y, hy, hentry⟩

theorem exists_pageResources (numbered : d.doc.Numbered) (hx : d.doc.dict? page = some x) :
    ∃ id d', (pageResources page).run d = .ok id d' := by
  rw [run_pageResources hx]
  split
  · exact exists_indirectDict numbered.unused hx "Resources"
  · obtain ⟨d₁, hset⟩ := exists_setEntry hx "Resources" (.dictionary (d.doc.pageResources page))
    have hunused : d₁.doc.Unused := (numbered_setEntry numbered hset).unused
    obtain ⟨-, -, -, hx₁⟩ := dict?_of_modifyDict hx hset
    obtain ⟨id, d', hown⟩ := exists_indirectDict hunused hx₁ "Resources"
    exact ⟨id, d', (run_bind hset).trans hown⟩

theorem pageResources_retains (numbered : d.doc.Numbered) (hz : d.doc.pageResources? page = some z)
    (hrun : (pageResources page).run d = .ok id d') :
    d.doc.Retains OwnResources d'.doc ∧ d'.doc.dict? id = some z := by
  obtain ⟨x, d₁, hx, -⟩ := bind_ok.mp hrun
  have hfree : x.get? "Resources" = none ∨ d.doc.pageResources? page = none →
      OwnResources "Resources" (x.get? "Resources").isSome := by
    intro h
    rcases h with hnone | hnone
    · rw [hnone]
      exact ⟨rfl, rfl⟩
    · rw [hz] at hnone
      cases hnone
  obtain ⟨hretains, hid, -⟩ := pageResources_own numbered (dict_ok.mp hx).1 hfree hrun
  rw [Document.pageResources, hz, Option.getD_some] at hid
  exact ⟨hretains, hid⟩

theorem sparing_fontId (page : ObjectId) (name : String) :
    Sparing (fun _ => True) (fontId page name) := by
  unfold fontId
  refine Sparing.doc.bind fun _ => ?_
  split
  · exact Sparing.throw _
  · split
    · exact (Sparing.pageResources trivial page).bind fun _ =>
        (Sparing.indirectDict trivial _).bind fun _ => Sparing.indirectDict trivial _
    · exact Sparing.throw _

/-- The font is found, and what it holds is retained. -/
theorem fontId_retains (numbered : d.doc.Numbered) (hx : d.doc.fontOf? page name = some x)
    (hrun : (fontId page name).run d = .ok font d') :
    d'.doc.Numbered ∧ d.doc.Retains OwnResources d'.doc ∧ ∃ y, d'.doc.dict? font = some y ∧
      (Object.dictionary x).Retained OwnResources d'.doc (.dictionary y) := by
  have hnumbered := (sparing_fontId page name _ _ _ hrun numbered).numbered
  obtain ⟨z, fonts, hz, hfonts, hfont⟩ := Document.fontOf?_eq_some.mp hx
  unfold fontId at hrun
  obtain ⟨doc, d₀, hdoc, hrest⟩ := bind_ok.mp hrun
  obtain ⟨rfl, rfl⟩ := doc_ok.mp hdoc
  have hentry : d₀.doc.entryDict? (d₀.doc.pageResources page) "Font" = some fonts := by
    rw [Document.entryDict?, Document.pageResources, hz, Option.getD_some, hfonts]
    rfl
  simp only [hentry] at hrest
  split at hrest
  case isFalse => exact absurd hrest throw_ok.mp
  case isTrue =>
    obtain ⟨resources, d₁, hresources, hmiddle⟩ := bind_ok.mp hrest
    obtain ⟨fontsId, d₂, hfontsId, hlast⟩ := bind_ok.mp hmiddle
    have hnumbered₁ := numbered_pageResources numbered hresources
    have hnumbered₂ := numbered_indirectDict hnumbered₁ hfontsId
    obtain ⟨hretains₁, hresources⟩ := pageResources_retains numbered hz hresources
    obtain ⟨fonts₁, hfonts₁, hretained₁⟩ :=
      hretains₁.exists_dictionary (.same _) (not_ownResources hfonts) hfonts
    obtain ⟨hretains₂, hfontsId⟩ :=
      indirectDict_retains hnumbered₁.unused hresources hfonts₁ hfontsId
    have hretains := hretains₁.trans hretains₂
    obtain ⟨y, hy, hretained⟩ := hretains.exists_dictionary
      (hretained₁.trans hretains₂ (.same _)) (not_ownResources hfont) hfont
    obtain ⟨hretains₃, hfontId⟩ := indirectDict_retains hnumbered₂.unused hfontsId hy hlast
    exact ⟨hnumbered, hretains.trans hretains₃, y, hfontId, hretained.trans hretains₃ (.same _)⟩

/-! ## Carrying out a repair -/

/-- The highest code of a font. -/
def codeLimit (composite : Bool) : Nat := if composite then compositeLimit else simpleLimit

theorem isComposite_ok {composite : Bool} : (isComposite font).run d = .ok composite d' ↔
    ∃ x, d.doc.dict? font = some x ∧ composite = (d.doc.entryName? x "Subtype" == some "Type0") ∧
      d' = d := by
  unfold isComposite
  simp only [bind_ok, doc_ok, dict_ok, pure_ok]
  constructor
  · rintro ⟨_, _, ⟨rfl, rfl⟩, x, _, ⟨hx, rfl⟩, rfl, rfl⟩
    exact ⟨x, hx, rfl, rfl⟩
  · rintro ⟨x, hx, rfl, rfl⟩
    exact ⟨_, _, ⟨rfl, rfl⟩, x, _, ⟨hx, rfl⟩, rfl, rfl⟩

theorem checkCodes_ok {f : FontEdit} {codes : List Nat} {limit : Nat} :
    (checkCodes f codes limit).run d = .ok u d' ↔ (∀ code ∈ codes, code ≤ limit) ∧ d' = d := by
  rw [checkCodes]
  cases hfind : codes.find? (limit < ·) with
  | some code =>
    have hmem := List.mem_of_find?_eq_some hfind
    have hover : limit < code := by simpa using List.find?_some hfind
    refine throw_ok.trans ⟨False.elim, fun h => ?_⟩
    exact absurd (h.1 code hmem) (Nat.not_le.mpr hover)
  | none =>
    have hall : ∀ code ∈ codes, code ≤ limit := by
      intro code hcode
      have hnot := List.find?_eq_none.mp hfind code hcode
      simpa using hnot
    exact pure_ok.trans ⟨fun h => ⟨hall, h.2⟩, fun h => ⟨rfl, h.2⟩⟩

theorem checkCodes_table {α : Type} {f : FontEdit} {t : CodeTable α} {limit : Nat}
    (hrun : (checkCodes f t.keys limit).run d = .ok u d') :
    (∀ code a, t[code]? = some a → code ≤ limit) ∧ d' = d := by
  obtain ⟨hcodes, hd⟩ := checkCodes_ok.mp hrun
  refine ⟨fun code a hcode => hcodes code ?_, hd⟩
  exact Std.TreeMap.mem_keys.mpr (Std.TreeMap.mem_iff_isSome_getElem?.mpr (by rw [hcode]; rfl))

theorem composite_load (doc : Document) (x : Dict Object) (id : Option ObjectId) :
    (Font.load doc x id).composite = (doc.entryName? x "Subtype" == some "Type0") := by
  show ((doc.entryName? x "Subtype").getD "" == "Type0") = _
  cases doc.entryName? x "Subtype" with
  | none => rfl
  | some s => rfl

theorem applyFont_ok {f : FontEdit} {op : FontOp} (hop : FontOp.ofName? f.op = some op)
    (hrun : (applyFont f).run d = .ok u d') : ∃ page font d₁ x composite,
      (Edit.page f.page).run d = .ok page d ∧ (fontId page f.font).run d = .ok font d₁ ∧
      d₁.doc.dict? font = some x ∧
      composite = (d₁.doc.entryName? x "Subtype" == some "Type0") ∧
      (repairFont f font composite op).run d₁ = .ok u d' := by
  unfold applyFont at hrun
  rw [hop] at hrun
  obtain ⟨page, d₀, hpage, hfonts⟩ := bind_ok.mp hrun
  obtain rfl : d₀ = d := (page_ok hpage).2
  obtain ⟨font, d₁, hfont, hrest⟩ := bind_ok.mp hfonts
  obtain ⟨composite, d₂, hcomposite, hrepair⟩ := bind_ok.mp hrest
  obtain ⟨x, hx, hname, rfl⟩ := isComposite_ok.mp hcomposite
  exact ⟨page, font, d₂, x, composite, hpage, hfont, hx, hname, hrepair⟩

theorem applyFont_retains (numbered : d.doc.Numbered) {f : FontEdit} {op : FontOp}
    (hop : FontOp.ofName? f.op = some op) (hpage : (Edit.page f.page).run d = .ok page d)
    (hx : d.doc.fontOf? page f.font = some x) (hrun : (applyFont f).run d = .ok u d') :
    ∃ font d₁ y, (fontId page f.font).run d = .ok font d₁ ∧ d₁.doc.Numbered ∧
      d.doc.Retains OwnResources d₁.doc ∧ d₁.doc.dict? font = some y ∧
      (Object.dictionary x).Retained OwnResources d₁.doc (.dictionary y) ∧
      (repairFont f font (Font.load d.doc x none).composite op).run d₁ = .ok u d' := by
  obtain ⟨page', font, d₁, y, composite, hpage', hfont, hy, rfl, hrepair⟩ := applyFont_ok hop hrun
  rw [hpage] at hpage'
  cases hpage'
  obtain ⟨hnumbered, hretains, y', hy', hretained⟩ := fontId_retains numbered hx hfont
  obtain rfl : y = y' := Option.some.inj (hy.symm.trans hy')
  refine ⟨font, d₁, y, hfont, hnumbered, hretains, hy, hretained, ?_⟩
  rwa [← hretains.composite_eq hretained (not_ownResources_of_ne (by decide)), composite_load]

theorem exists_of_result {e : Edit Unit} (h : (result e d).isOk = true) :
    ∃ d', e.run d = .ok () d' := by
  rw [result] at h
  split at h
  · next d' hrun => exact ⟨d', hrun⟩
  · cases h

/-- A document of one page, with a font in place and further objects. -/
def fontPage (font : Dict Object) (others : List (ObjectId × Object)) : Draft :=
  { doc := ⟨"1.7", .ofList [(utf8 "Root", .reference ⟨1, 0⟩)], .ofList ([
      (⟨1, 0⟩, .ofEntries [(utf8 "Pages", .reference ⟨2, 0⟩)]),
      (⟨2, 0⟩, .ofEntries [(utf8 "Type", .name "Pages"), (utf8 "Kids", .array [.reference ⟨3, 0⟩])]),
      (⟨3, 0⟩, .ofEntries [(utf8 "Type", .name "Page"), (utf8 "Resources", .ofEntries
        [(utf8 "Font", .ofEntries [(utf8 "F1", .dictionary font)])])])] ++ others), 9⟩
    compress := false }

end Edit

end AccessiblePdf
