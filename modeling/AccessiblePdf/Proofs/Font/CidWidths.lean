import AccessiblePdf.Proofs.Font.Differences
import AccessiblePdf.Proofs.Font.Widths
import AccessiblePdf.Proofs.Runs

/-!
Widths that are declared for the character ids of a composite font. The array that is written gives each
id its width again (`cidWidths_cidWidthsArray`), and what was there is taken over. The array belongs to
the descendant of the font, which for this comes to an object of its own (`descriptorOwner_retains`). So
a font that is loaded again has the declared widths, and for all other ids the widths that it had
(`applyFont_cidWidths`).
-/
namespace AccessiblePdf

/-! ## Arrays of widths -/

namespace Font

variable {free : Bytes → Bool → Prop} {old doc : Document} {a b c : Object} {items rest : List Object}
  {first : Number}

theorem cidWidthPairs_skip (doc : Document) (ha : a.number? = none) (b : Object) (rest : List Object) :
    cidWidthPairs doc (a :: b :: rest) = cidWidthPairs doc (b :: rest) := by
  rw [cidWidthPairs.eq_def]
  simp only [ha]

theorem cidWidthPairs_list (doc : Document) (ha : a.number? = some first) (ws rest : List Object) :
    cidWidthPairs doc (a :: .array ws :: rest) =
      widthsFrom doc (Encoding.codeOf first) ws ++ cidWidthPairs doc rest := by
  rw [cidWidthPairs.eq_def]
  simp only [ha]

theorem cidWidthPairs_pair (doc : Document) (hb : b.array? = none) (a : Object) :
    cidWidthPairs doc [a, b] = [] := by
  cases ha : a.number? with
  | none =>
    rw [cidWidthPairs_skip doc ha]
    rfl
  | some first =>
    rw [cidWidthPairs.eq_def]
    simp only [ha]
    cases b with
    | array ws => cases hb
    | _ => rfl

/-- The entries of a range that is stated by two ids and a width. -/
def rangeEntries (first : Number) (last w : Option Number) : List (Nat × Number) :=
  match last, w with
  | some last, some w => rangeWidths (Encoding.codeOf first) (Encoding.codeOf last) w
  | _, _ => []

theorem cidWidthPairs_range (doc : Document) (ha : a.number? = some first) (hb : b.array? = none)
    (c : Object) (rest : List Object) : cidWidthPairs doc (a :: b :: c :: rest) =
      rangeEntries first b.number? c.number? ++ cidWidthPairs doc rest := by
  rw [cidWidthPairs.eq_def]
  simp only [ha]
  cases b with
  | array ws => cases hb
  | integer n => cases hc : c.number? <;> simp only [hc] <;> rfl
  | real x => cases hc : c.number? <;> simp only [hc] <;> rfl
  | _ => rfl

theorem array?_eq_none (h : ∀ ws, b = .array ws → False) : b.array? = none := by
  cases b with
  | array ws => exact (h ws rfl).elim
  | _ => rfl

theorem cidWidthPairs_range_eq (ha : a.number? = some first) (hb : b.array? = none)
    (ih : ∀ rest', List.Forall₂ (Object.Seen free doc) rest rest' →
      cidWidthPairs doc rest' = cidWidthPairs old rest) {items' : List Object}
    (hitems : List.Forall₂ (Object.Seen free doc) (a :: b :: c :: rest) items') :
    cidWidthPairs doc items' = cidWidthPairs old (a :: b :: c :: rest) := by
  obtain ⟨a', _, haa', hbc, rfl⟩ := List.forall₂_cons_left_iff.mp hitems
  obtain ⟨b', _, hbb', hc, rfl⟩ := List.forall₂_cons_left_iff.mp hbc
  obtain ⟨c', rest', hcc', hrest, rfl⟩ := List.forall₂_cons_left_iff.mp hc
  rw [cidWidthPairs_range old ha hb, cidWidthPairs_range doc (haa'.number?_eq.trans ha)
    (hbb'.array?_eq_none hb), hbb'.number?_eq, hcc'.number?_eq, ih rest' hrest]

/-- Items that stand for what they stood for have the same ids and widths. -/
theorem cidWidthPairs_eq (h : old.Retains free doc) {items' : List Object}
    (hitems : List.Forall₂ (Object.Seen free doc) items items') :
    cidWidthPairs doc items' = cidWidthPairs old items := by
  induction items using cidWidthPairs.induct generalizing items' with
  | case1 =>
    cases hitems
    rfl
  | case2 a =>
    obtain ⟨a', _, haa', hnil, rfl⟩ := List.forall₂_cons_left_iff.mp hitems
    cases hnil
    rfl
  | case3 a b rest ha ih =>
    obtain ⟨a', _, haa', hrest, rfl⟩ := List.forall₂_cons_left_iff.mp hitems
    obtain ⟨b', rest', -, -, rfl⟩ := List.forall₂_cons_left_iff.mp hrest
    rw [cidWidthPairs_skip old ha, cidWidthPairs_skip doc (haa'.number?_eq.trans ha), ih hrest]
  | case4 a first ha ws rest ih =>
    obtain ⟨a', _, haa', htail, rfl⟩ := List.forall₂_cons_left_iff.mp hitems
    obtain ⟨b', rest', hbb', hrest, rfl⟩ := List.forall₂_cons_left_iff.mp htail
    obtain ⟨ws', rfl, hws⟩ := hbb'.exists_array
    rw [cidWidthPairs_list old ha, cidWidthPairs_list doc (haa'.number?_eq.trans ha),
      widthsFrom_eq h hws, ih hrest]
  | case5 a b first ha hb =>
    obtain ⟨a', _, haa', htail, rfl⟩ := List.forall₂_cons_left_iff.mp hitems
    obtain ⟨b', _, hbb', hnil, rfl⟩ := List.forall₂_cons_left_iff.mp htail
    cases hnil
    have hnone := array?_eq_none hb
    rw [cidWidthPairs_pair old hnone, cidWidthPairs_pair doc (hbb'.array?_eq_none hnone)]
  | case6 a first ha b c rest hb last w hc hlast ih =>
    exact cidWidthPairs_range_eq ha (array?_eq_none hb) (fun _ => ih) hitems
  | case7 a first ha b c rest hb _ ih =>
    exact cidWidthPairs_range_eq ha (array?_eq_none hb) (fun _ => ih) hitems

theorem lt_of_mem_rangeEntries {last w : Option Number} {e : Nat × Number}
    (h : e ∈ rangeEntries first last w) : e.1 < 0x100000000 := by
  unfold rangeEntries at h
  split at h
  · obtain ⟨i, hi, rfl⟩ := List.mem_map.mp h
    rw [List.mem_range] at hi
    simp only
    omega
  · cases h

theorem lt_of_mem_cidWidthPairs {e : Nat × Number} (h : e ∈ cidWidthPairs doc items) :
    e.1 < 0x100000000 := by
  induction items using cidWidthPairs.induct with
  | case1 => cases h
  | case2 a => cases h
  | case3 a b rest ha ih =>
    rw [cidWidthPairs_skip doc ha] at h
    exact ih h
  | case4 a first ha ws rest ih =>
    rw [cidWidthPairs_list doc ha] at h
    exact (List.mem_append.mp h).elim lt_of_mem_widthsFrom ih
  | case5 a b first ha hb =>
    rw [cidWidthPairs_pair doc (array?_eq_none hb)] at h
    cases h
  | case6 a first ha b c rest hb last w hc hlast ih =>
    rw [cidWidthPairs_range doc ha (array?_eq_none hb)] at h
    exact (List.mem_append.mp h).elim lt_of_mem_rangeEntries ih
  | case7 a first ha b c rest hb _ ih =>
    rw [cidWidthPairs_range doc ha (array?_eq_none hb)] at h
    exact (List.mem_append.mp h).elim lt_of_mem_rangeEntries ih

theorem cidWidthPairs_runs (doc : Document) {runs : List (Nat × List Number)}
    (codes : ∀ run ∈ runs, run.1 < 0x100000000 ∧ run.1 + run.2.length ≤ 0x100000000) :
    cidWidthPairs doc (runs.flatMap fun run => [.integer run.1, .array (run.2.map Object.ofNumber)]) =
      (Runs.entries runs).map fun e => (e.1, e.2.reread) := by
  induction runs with
  | nil => rfl
  | cons run runs ih =>
    rw [List.forall_mem_cons] at codes
    have hfirst : (Object.integer run.1).number? = some (.ofInt run.1) := rfl
    rw [List.flatMap_cons, List.cons_append, List.cons_append, List.nil_append,
      cidWidthPairs_list doc hfirst, Encoding.codeOf_ofInt codes.1.1, widthsFrom_ofNumber doc codes.1.2,
      ih codes.2, Runs.entries, Runs.entries, List.flatMap_cons, List.map_append, List.map_map]
    rfl

/-- A table of ids is written as an array of widths that gives it again. -/
theorem cidWidths_cidWidthsArray (doc : Document) {t : CodeTable Number}
    (codes : ∀ e ∈ t.toList, e.1 < 0x100000000) (cid : Nat) :
    (cidWidths doc (cidWidthsArray t))[cid]? = t[cid]?.map Number.reread := by
  have hdirect : (cidWidthsArray t).map doc.resolve = cidWidthsArray t := by
    refine (List.map_congr_left fun o ho => ?_).trans (List.map_id' _)
    obtain ⟨run, -, hrun⟩ := List.mem_flatMap.mp ho
    simp only [List.mem_cons, List.not_mem_nil, or_false] at hrun
    rcases hrun with rfl | rfl <;> rfl
  rw [cidWidths, hdirect, cidWidthsArray, cidWidthPairs_runs doc fun run => Runs.le_of_mem_ofList codes,
    Runs.entries_ofList, Table.getElem?_ofList_map]

/-! ## The descendant -/

/-- The widths that a dictionary states for ids. -/
def statedWidths (doc : Document) (x : Dict Object) : CodeTable Number :=
  ((doc.entryArray? x "W").map (cidWidths doc)).getD ∅

theorem statedWidths_eq_of_rel {x y : Dict Object} (h : old.Retains free doc)
    (hrel : Option.Rel (List.Forall₂ (Object.Retained free doc))
      (old.entryArray? x "W") (doc.entryArray? y "W")) : statedWidths doc y = statedWidths old x := by
  rw [statedWidths, statedWidths]
  revert hrel
  generalize old.entryArray? x "W" = a
  generalize doc.entryArray? y "W" = b
  intro hrel
  cases hrel with
  | none => rfl
  | some hitems =>
    have hseen := List.forall₂_map_left_iff.mpr (List.forall₂_map_right_iff.mpr
      (hitems.imp fun _ _ hab => h.resolve hab))
    rw [Option.map_some, Option.map_some, cidWidths, cidWidths, cidWidthPairs_eq h hseen]

theorem lt_of_statedWidths {x : Dict Object} {cid : Nat} {w : Number}
    (h : (statedWidths doc x)[cid]? = some w) : cid < 0x100000000 := by
  rw [statedWidths] at h
  cases harray : doc.entryArray? x "W" with
  | none => rw [harray] at h; cases h
  | some items =>
    rw [harray, Option.map_some, Option.getD_some, cidWidths] at h
    exact lt_of_mem_cidWidthPairs (Table.mem_of_getElem?_foldl h)

/-- The width that a dictionary states for the ids without one. -/
def statedDefault (doc : Document) (x : Dict Object) : Number :=
  (doc.entryNumber? x "DW").getD cidWidth

theorem compositeWidths_eq {x z : Dict Object} (h : descendant? doc x = some z) :
    compositeWidths doc x = (statedWidths doc z, statedDefault doc z) := by
  rw [compositeWidths, h]
  rfl

theorem descendant?_eq_some {x z : Dict Object} : descendant? doc x = some z ↔
    ∃ o items, doc.entryArray? x "DescendantFonts" = some (o :: items) ∧
      doc.resolve o = .dictionary z := by
  simp only [descendant?, Option.bind_eq_bind, Option.bind_eq_some_iff, Object.dictionary?_eq_some,
    List.head?_eq_some_iff]
  constructor
  · rintro ⟨_, hitems, o, ⟨items, rfl⟩, ho⟩
    exact ⟨o, items, hitems, ho⟩
  · rintro ⟨o, items, hitems, ho⟩
    exact ⟨_, hitems, o, ⟨items, rfl⟩, ho⟩

theorem exists_descendant {x y z : Dict Object} (h : old.Retains free doc)
    (hxy : (Object.dictionary x).Retained free doc (.dictionary y))
    (hkey : ∀ present, ¬free "DescendantFonts" present) (hz : descendant? old x = some z) :
    ∃ z', descendant? doc y = some z' ∧ (Object.dictionary z).Retained free doc (.dictionary z') := by
  obtain ⟨o, items, hitems, ho⟩ := descendant?_eq_some.mp hz
  obtain ⟨_, hitems', hrel⟩ := (h.entryArray?_rel hxy (hkey _)).exists_right hitems
  obtain ⟨o', items', hoo', -, rfl⟩ := List.forall₂_cons_left_iff.mp hrel
  have hseen := h.resolve hoo'
  rw [ho] at hseen
  obtain ⟨z', hz', hretained⟩ := hseen.exists_dictionary
  exact ⟨z', descendant?_eq_some.mpr ⟨o', items', hitems', hz'⟩, hretained⟩

end Font

namespace Edit

variable {d d' : Draft} {page font owner : ObjectId} {x y z : Dict Object} {declared : CodeTable Number}
  {u : Unit}

/-- The descendant of a font comes to an object of its own. -/
theorem descriptorOwner_retains (free : Bytes → Bool → Prop) (unused : d.doc.Unused) (hx : d.doc.dict? font = some x)
    (composite : (Font.load d.doc x none).composite = true) (hz : Font.descendant? d.doc x = some z)
    (hrun : (descriptorOwner font).run d = .ok owner d') :
    d.doc.Retains free d'.doc ∧ d'.doc.dict? owner = some z ∧
      ∃ y items, d'.doc.dict? font = some y ∧
        (Object.dictionary x).Retained free d'.doc (.dictionary y) ∧
        d'.doc.entryArray? y "DescendantFonts" = some (.reference owner :: items) := by
  obtain ⟨o, items, hitems, ho⟩ := Font.descendant?_eq_some.mp hz
  unfold descriptorOwner at hrun
  obtain ⟨c, d₀, hc, hrest⟩ := bind_ok.mp hrun
  obtain ⟨x', hx', rfl, rfl⟩ := isComposite_ok.mp hc
  obtain rfl : x = x' := Option.some.inj (hx.symm.trans hx')
  rw [composite_load] at composite
  rw [composite] at hrest
  obtain ⟨doc, d₁, hdoc, hrest⟩ := bind_ok.mp hrest
  obtain ⟨rfl, rfl⟩ := doc_ok.mp hdoc
  obtain ⟨x', d₂, hdict, hrest⟩ := bind_ok.mp hrest
  obtain ⟨hx', rfl⟩ := dict_ok.mp hdict
  obtain rfl : x = x' := Option.some.inj (hx.symm.trans hx')
  rw [hitems, Option.getD_some, List.head?_cons] at hrest
  cases o with
  | reference id =>
    have hid : d₂.doc.dict? id = some z := by
      rw [← Document.dictionary?_resolve, ho]
      rfl
    simp only [hid, Option.isSome_some, if_true] at hrest
    obtain ⟨rfl, rfl⟩ := pure_ok.mp hrest
    exact ⟨.refl _, hid, x, items, hx, .same _, hitems⟩
  | dictionary w =>
    obtain rfl : w = z := Object.dictionary.inj ho
    obtain ⟨id, d₃, hadd, hrest⟩ := bind_ok.mp hrest
    obtain ⟨rfl, rfl⟩ := add_ok.mp hadd
    obtain ⟨_, d₄, hmodify, hlast⟩ := bind_ok.mp hrest
    obtain ⟨rfl, rfl⟩ := pure_ok.mp hlast
    obtain ⟨hretains, hid, y, hy, hxy, harray⟩ := modifyArray_new unused hx hitems
      (fun later hnew => .set_moved (List.getElem?_cons_zero ..) hnew) hmodify
    exact ⟨hretains, hid, y, items, hy, hxy, harray⟩
  | _ => cases ho

theorem setCompositeWidths_ok (hrun : (setCompositeWidths font declared).run d = .ok u d') :
    ∃ owner d₁ z, (descriptorOwner font).run d = .ok owner d₁ ∧ d₁.doc.dict? owner = some z ∧
      (modifyDict owner (·.insert "W" (.array (Font.cidWidthsArray
        (mergeWidths (Font.statedWidths d₁.doc z) declared))))).run d₁ = .ok u d' := by
  unfold setCompositeWidths at hrun
  obtain ⟨owner, d₁, howner, hrest⟩ := bind_ok.mp hrun
  obtain ⟨doc, d₂, hdoc, hrest⟩ := bind_ok.mp hrest
  obtain ⟨rfl, rfl⟩ := doc_ok.mp hdoc
  obtain ⟨z, d₃, hdict, hset⟩ := bind_ok.mp hrest
  obtain ⟨hz, rfl⟩ := dict_ok.mp hdict
  exact ⟨owner, d₃, z, howner, hz, hset⟩

/-- The descendant then has its widths with those that are added, and the width for all other ids. -/
theorem setCompositeWidths_retains (unused : d.doc.Unused) (hx : d.doc.dict? font = some x)
    (composite : (Font.load d.doc x none).composite = true) (hz : Font.descendant? d.doc x = some z)
    (codes : ∀ cid w, declared[cid]? = some w → cid < 0x100000000)
    (hrun : (setCompositeWidths font declared).run d = .ok u d') :
    d.doc.Retains (Under ["W"]) d'.doc ∧ ∃ y z', d'.doc.dict? font = some y ∧
      (Object.dictionary x).Retained (Under ["W"]) d'.doc (.dictionary y) ∧
      Font.descendant? d'.doc y = some z' ∧
      Font.statedDefault d'.doc z' = Font.statedDefault d.doc z ∧
      ∀ cid : Nat, (Font.statedWidths d'.doc z')[cid]? =
        (declared[cid]?.or (Font.statedWidths d.doc z)[cid]?).map Number.reread := by
  obtain ⟨owner, d₁, z₁, howner, hz₁, hmodify⟩ := setCompositeWidths_ok hrun
  obtain ⟨hfound, hz', y₁, items, hy₁, hxy₁, harray₁⟩ :=
    descriptorOwner_retains (Under ["W"]) unused hx composite hz howner
  obtain rfl : z = z₁ := Option.some.inj (hz'.symm.trans hz₁)
  set table := mergeWidths (Font.statedWidths d₁.doc z) declared with htable
  set written := z.insert "W" (.array (Font.cidWidthsArray table)) with hwritten
  have hkeep : ∀ key, ¬Under ["W"] key (z.get? key).isSome → written.get? key = z.get? key :=
    fun key hkey => OrderedMap.get?_insert_of_ne _ (fun heq => hkey (List.mem_singleton.mpr heq)) _
  obtain ⟨hchange, hz₂⟩ := modifyDict_retains hz₁ hkeep hmodify
  have hretains := hfound.trans hchange
  obtain ⟨y, hy, hyy₁⟩ := hchange.dict? hy₁
  refine ⟨hretains, y, written, hy, hxy₁.trans hchange hyy₁, ?_, ?_, fun cid => ?_⟩
  · -- The font still refers to its descendant.
    obtain ⟨_, hitems, hrel⟩ :=
      (hchange.entryArray?_rel hyy₁ (not_under (by decide) _)).exists_right harray₁
    obtain ⟨o, rest, hsame, -, rfl⟩ := List.forall₂_cons_left_iff.mp hrel
    cases hsame
    exact Font.descendant?_eq_some.mpr ⟨_, rest, hitems,
      Document.resolve_reference (Document.get?_of_dict? hz₂)⟩
  · have hnumber : d'.doc.entryNumber? written "DW" = d.doc.entryNumber? z "DW" := by
      rw [Document.entryNumber?, Document.value?, hwritten, OrderedMap.get?_insert_of_ne _ (by decide)]
      exact (hretains.value?_same _ _).bind_eq fun _ _ hseen => hseen.number?_eq
    rw [Font.statedDefault, Font.statedDefault, hnumber]
  · have harray : d'.doc.entryArray? written "W" = some (Font.cidWidthsArray table) := by
      rw [Document.entryArray?, hwritten,
        Document.value?_of_direct (OrderedMap.get?_insert_self _ _ _) rfl]
      rfl
    have hstated : Font.statedWidths d₁.doc z = Font.statedWidths d.doc z :=
      Font.statedWidths_eq_of_rel hfound
        ((hfound.value?_same _ _).bind fun _ _ hseen => hseen.array?_rel)
    have hcodes : ∀ e ∈ table.toList, e.1 < 0x100000000 := by
      intro e he
      have hcid := Std.TreeMap.mem_toList_iff_getElem?_eq_some.mp he
      rw [htable, getElem?_mergeWidths, Option.or_eq_some_iff] at hcid
      rcases hcid with hnew | ⟨-, hold⟩
      · exact codes _ _ hnew
      · exact Font.lt_of_statedWidths hold
    rw [Font.statedWidths, harray, Option.map_some, Option.getD_some,
      Font.cidWidths_cidWidthsArray _ hcodes, htable, getElem?_mergeWidths, hstated]

/-- A table of plain widths, written and read again, is the same. When widths have been declared for ids
of a composite font with such widths, it is loaded with them, and for all other ids with the widths that
it had. -/
theorem applyFont_cidWidths (numbered : d.doc.Numbered) {f : FontEdit}
    (hop : FontOp.ofName? f.op = some .setWidths) (hpage : (Edit.page f.page).run d = .ok page d)
    (hx : d.doc.fontOf? page f.font = some x) (composite : (Font.load d.doc x none).composite = true)
    (hz : Font.descendant? d.doc x = some z)
    (plain : ∀ (cid : Nat) w, (Font.load d.doc x none).widths[cid]? = some w → w.Plain)
    (declared : ∀ (cid : Nat) w, f.widths[cid]? = some w → w.Plain)
    (hrun : (applyFont f).run d = .ok u d') :
    (∀ (doc : Document) (m : CodeTable Number),
      (∀ (cid : Nat) w, m[cid]? = some w → cid < 0x100000000 ∧ w.Plain) →
      ∀ cid : Nat, (Font.cidWidths doc (Font.cidWidthsArray m))[cid]? = m[cid]?) ∧
    ∃ font d₁ y, (fontId page f.font).run d = .ok font d₁ ∧ d'.doc.dict? font = some y ∧
      (∀ cid w, f.widths[cid]? = some w → (Font.load d'.doc y font).width cid = w) ∧
      ∀ cid, f.widths[cid]? = none →
        (Font.load d'.doc y font).width cid = (Font.load d.doc x font).width cid := by
  refine ⟨fun doc m hm cid => ?_, ?_⟩
  · rw [Font.cidWidths_cidWidthsArray doc fun e he =>
      (hm _ _ (Std.TreeMap.mem_toList_iff_getElem?_eq_some.mp he)).1]
    cases hcid : m[cid]? with
    | none => rfl
    | some w => exact congrArg some (Number.reread_of_plain (hm _ _ hcid).2)
  obtain ⟨font, d₁, y₁, hfont, hnumbered, hfound, hy₁, hxy₁, hrepair⟩ :=
    applyFont_retains numbered hop hpage hx hrun
  obtain ⟨_, d₂, hcheck, hset⟩ := bind_ok.mp hrepair
  rw [composite] at hcheck hset
  obtain ⟨hcodes, rfl⟩ := checkCodes_table hcheck
  have hdeclared : ∀ cid w, f.widths[cid]? = some w → cid < 0x100000000 :=
    fun cid w hcid => Nat.lt_of_le_of_lt (hcodes cid w hcid) (by decide)
  have hown {key : Bytes} (hne : key ≠ utf8 "Resources") (present : Bool) :
      ¬OwnResources key present := not_ownResources_of_ne hne present
  have hcomposite₁ := (hfound.composite_eq hxy₁ (hown (by decide))).trans composite
  obtain ⟨z₁, hz₁, hzz₁⟩ := Font.exists_descendant hfound hxy₁ (hown (by decide)) hz
  have hwidths₁ := Font.statedWidths_eq_of_rel hfound (hfound.entryArray?_rel hzz₁ (hown (by decide) _))
  have hdefault₁ : Font.statedDefault d₂.doc z₁ = Font.statedDefault d.doc z :=
    congrArg (·.getD Font.cidWidth) (hfound.entryNumber?_eq hzz₁ (hown (by decide) _))
  obtain ⟨hchange, y, z', hy, hyy₁, hz', hdefault, hwidths⟩ :=
    setCompositeWidths_retains hnumbered.unused hy₁ hcomposite₁ hz₁ hdeclared hset
  have hcomposite : (Font.load d'.doc y font).composite = true :=
    (hchange.composite_eq hyy₁ (not_under (by decide))).trans hcomposite₁
  obtain ⟨hold, holdDefault⟩ := Font.widths_of_composite composite
  obtain ⟨hnew, hnewDefault⟩ := Font.widths_of_composite hcomposite
  rw [Font.compositeWidths_eq hz] at hold holdDefault
  rw [Font.compositeWidths_eq hz'] at hnew hnewDefault
  rw [hold] at plain
  refine ⟨font, d₂, y, hfont, hy, fun cid w hcid => ?_, fun cid hcid => ?_⟩
  · rw [Font.width, hnew, hwidths, hcid, Option.some_or, Option.map_some, Option.getD_some,
      Number.reread_of_plain (declared cid w hcid)]
  · have hsame : (Font.load d.doc x font).width cid =
        (Font.statedWidths d.doc z)[cid]?.getD (Font.statedDefault d.doc z) :=
      congrArg₂ (fun (t : CodeTable Number) w => t[cid]?.getD w) hold holdDefault
    rw [hsame, Font.width, hnew, hnewDefault, hwidths, hcid, Option.none_or, hwidths₁, hdefault,
      hdefault₁]
    cases hw : (Font.statedWidths d.doc z)[cid]? with
    | none => rfl
    | some w => exact Number.reread_of_plain (plain cid w hw)

/-! ## A descendant in place -/

/-- The descendant of a font, with widths in a list and in a range. -/
def listedDescendant : Dict Object :=
  .ofList [(utf8 "Subtype", .name "CIDFontType2"), (utf8 "W", .array [.integer 1,
    .array [.integer 500, .integer 600], .integer 10, .integer 12, .integer 700])]

/-- A font with this descendant. -/
def listedFont : Dict Object :=
  .ofList [(utf8 "Subtype", .name "Type0"),
    (utf8 "DescendantFonts", .array [.dictionary listedDescendant])]

/-- Declares the widths of two ids, one of which had another one. -/
def widerIds : FontEdit :=
  { op := "set_widths", font := "F1", page := 1
    widths := ((∅ : CodeTable Number).insert 2 (.whole 650)).insert 20 (.whole 800) }

theorem numbered_listedPage : (fontPage listedFont []).doc.Numbered :=
  Document.numbered_of_entries (by
    simp [fontPage, OrderedMap.ofList, OrderedMap.insert, OrderedMap.put, OrderedMap.empty])

/-- The declared ids have their widths, and ids of the list, of the range and without a width have
theirs. -/
theorem applyFont_cidWidths_listed : ∃ d' font y,
    (fontPage listedFont []).doc.Numbered ∧ FontOp.ofName? widerIds.op = some .setWidths ∧
      (Edit.page widerIds.page).run (fontPage listedFont []) = .ok ⟨3, 0⟩ (fontPage listedFont []) ∧
      (fontPage listedFont []).doc.fontOf? ⟨3, 0⟩ widerIds.font = some listedFont ∧
      (Font.load (fontPage listedFont []).doc listedFont none).composite = true ∧
      Font.descendant? (fontPage listedFont []).doc listedFont = some listedDescendant ∧
      (∀ (cid : Nat) w, (Font.load (fontPage listedFont []).doc listedFont none).widths[cid]? = some w →
        w.Plain) ∧
      (∀ (cid : Nat) w, widerIds.widths[cid]? = some w → w.Plain) ∧
      (applyFont widerIds).run (fontPage listedFont []) = .ok () d' ∧ d'.doc.dict? font = some y ∧
      (Font.load d'.doc y font).width 2 = .whole 650 ∧ (Font.load d'.doc y font).width 20 = .whole 800 ∧
      (Font.load d'.doc y font).width 1 = .whole 500 ∧ (Font.load d'.doc y font).width 11 = .whole 700 ∧
      (Font.load d'.doc y font).width 13 = .whole 1000 := by
  have hpage : (Edit.page widerIds.page).run (fontPage listedFont []) =
      .ok ⟨3, 0⟩ (fontPage listedFont []) := by cbv
  have hfont : (fontPage listedFont []).doc.fontOf? ⟨3, 0⟩ widerIds.font = some listedFont := by rfl
  have hcomposite : (Font.load (fontPage listedFont []).doc listedFont none).composite = true := by
    decide +kernel
  have hdescendant : Font.descendant? (fontPage listedFont []).doc listedFont =
      some listedDescendant := by rfl
  have hplain := CodeTable.plain_of_toList
    (t := (Font.load (fontPage listedFont []).doc listedFont none).widths) (by decide +kernel)
  have hdeclared := CodeTable.plain_of_toList (t := widerIds.widths) (by decide +kernel)
  have hold : (Font.load (fontPage listedFont []).doc listedFont none).width 1 = .whole 500 ∧
      (Font.load (fontPage listedFont []).doc listedFont none).width 11 = .whole 700 ∧
      (Font.load (fontPage listedFont []).doc listedFont none).width 13 = .whole 1000 :=
    ⟨by cbv, by cbv, by cbv⟩
  obtain ⟨d', hrun⟩ : ∃ d', (applyFont widerIds).run (fontPage listedFont []) = .ok () d' :=
    exists_of_result (by cbv)
  obtain ⟨-, font, -, y, -, hy, hnew, hother⟩ := applyFont_cidWidths numbered_listedPage rfl hpage
    hfont hcomposite hdescendant hplain hdeclared hrun
  exact ⟨d', font, y, numbered_listedPage, rfl, hpage, hfont, hcomposite, hdescendant, hplain,
    hdeclared, hrun, hy, hnew 2 _ (by cbv), hnew 20 _ (by cbv),
    (hother 1 (by decide)).trans hold.1, (hother 11 (by decide)).trans hold.2.1,
    (hother 13 (by decide)).trans hold.2.2⟩

end Edit

end AccessiblePdf
