import AccessiblePdf.Annotation.Edit
import AccessiblePdf.Proofs.Document.Retention
import AccessiblePdf.Report.Page

/-!
Descriptions and tooltips that are given to annotations, as a report on the page has them
(`annotate_reads`). An annotation that stands in the page's list moves to an object and is the
same there (`annotationId_ok`), and all others are as they were (`Retains.annotationAt?`). A tooltip is
written to the dictionary of the field (`fieldOf_ok`), which is the one that the report reads, unless the
parent of a widget without a name stands in the widget itself (`entryText?_fieldDict`).
-/
namespace AccessiblePdf

/-- The annotation with an index in the facts about a page. -/
def PageFacts.annotationAt? (p : PageFacts) (i : Nat) : Option AnnotationFacts :=
  p.annotations.find? (·.index == i)

theorem PageFacts.mem_of_annotationAt? {p : PageFacts} {i : Nat} {f : AnnotationFacts}
    (h : p.annotationAt? i = some f) : f ∈ p.annotations ∧ f.index = i := by
  rw [annotationAt?] at h
  exact ⟨List.mem_of_find?_eq_some h, by simpa using List.find?_some h⟩

namespace Document

variable {free : Bytes → Bool → Prop} {old doc : Document} {page : ObjectId} {x z : Dict Object} {i : Nat}
  {f : AnnotationFacts}

/-! ## Annotations of a page -/

/-- What the list of a page's annotations holds. -/
def annots (doc : Document) (page : ObjectId) : List Object :=
  (doc.entryArray? ((doc.dict? page).getD ∅) "Annots").getD []

/-- The dictionary of an annotation of a page. -/
def annot? (doc : Document) (page : ObjectId) (i : Nat) : Option (Dict Object) :=
  ((doc.annots page)[i]?).bind fun item => (doc.resolve item).dictionary?

theorem annot?_eq_some : doc.annot? page i = some z ↔
    ∃ item, (doc.annots page)[i]? = some item ∧ doc.resolve item = .dictionary z := by
  rw [annot?, Option.bind_eq_some_iff]
  refine exists_congr fun item => and_congr_right fun _ => ?_
  cases doc.resolve item <;> simp [Object.dictionary?]

theorem exists_page {item : Object} (h : (doc.annots page)[i]? = some item) :
    ∃ x, doc.dict? page = some x := by
  cases hx : doc.dict? page with
  | some x => exact ⟨x, rfl⟩
  | none =>
    rw [annots, hx] at h
    cases h

theorem mem_annotations : f ∈ doc.annotations x ↔ ∃ item z,
    ((doc.entryArray? x "Annots").getD [])[f.index]? = some item ∧ doc.resolve item = .dictionary z ∧
      f = doc.annotationFacts f.index item z := by
  simp only [annotations, List.mem_filterMap, Prod.exists, List.mem_zipIdx_iff_getElem?,
    Option.map_eq_some_iff]
  constructor
  · rintro ⟨item, i, hitem, z, hz, rfl⟩
    refine ⟨item, z, hitem, ?_, rfl⟩
    cases hresolve : doc.resolve item with
    | dictionary z' =>
      rw [hresolve] at hz
      rw [Option.some.inj hz]
    | _ =>
      rw [hresolve] at hz
      cases hz
  · rintro ⟨item, z, hitem, hz, hf⟩
    exact ⟨item, f.index, hitem, z, by rw [hz]; rfl, hf.symm⟩

/-- The facts about the annotation with an index. -/
theorem annotationAt?_eq_some {parents : Std.TreeMap Int Object} {number : Nat} :
    (doc.pageFacts parents number page).annotationAt? i = some f ↔
      ∃ item z, (doc.annots page)[i]? = some item ∧ doc.resolve item = .dictionary z ∧
        f = doc.annotationFacts i item z := by
  have hfound (f : AnnotationFacts)
      (h : (doc.pageFacts parents number page).annotationAt? i = some f) :
      ∃ item z, (doc.annots page)[i]? = some item ∧ doc.resolve item = .dictionary z ∧
        f = doc.annotationFacts i item z := by
    obtain ⟨hmem, rfl⟩ := PageFacts.mem_of_annotationAt? h
    exact mem_annotations.mp hmem
  constructor
  · exact hfound f
  · rintro ⟨item, z, hitem, hz, rfl⟩
    have hmem : doc.annotationFacts i item z ∈ (doc.pageFacts parents number page).annotations :=
      mem_annotations.mpr ⟨item, z, hitem, hz, rfl⟩
    obtain ⟨g, hg⟩ : ∃ g, (doc.pageFacts parents number page).annotationAt? i = some g :=
      Option.isSome_iff_exists.mp (List.find?_isSome.mpr ⟨_, hmem, beq_self_eq_true i⟩)
    obtain ⟨item', z', hitem', hz', rfl⟩ := hfound g hg
    obtain rfl := Option.some.inj (hitem.symm.trans hitem')
    obtain rfl := Object.dictionary.inj (hz.symm.trans hz')
    exact hg

/-! ## What other edits leave of them -/

namespace Retains

variable (h : old.Retains free doc) (hannots : ∀ present, ¬free "Annots" present)

include h hannots

theorem exists_item (hx : old.dict? page = some x) {a : Object}
    (ha : (old.annots page)[i]? = some a) :
    ∃ b, (doc.annots page)[i]? = some b ∧ a.Retained free doc b := by
  obtain ⟨y, hy, hxy⟩ := h.dict? hx
  have hrel : List.Forall₂ (Object.Retained free doc) (old.annots page) (doc.annots page) := by
    rw [annots, annots, hx, hy, Option.getD_some, Option.getD_some]
    exact (h.entryArray?_rel hxy (hannots _)).getD .nil
  obtain ⟨hi, rfl⟩ := List.getElem?_eq_some_iff.mp ha
  have hi' : i < (doc.annots page).length := hrel.length_eq ▸ hi
  exact ⟨_, List.getElem?_eq_getElem hi', (List.forall₂_iff_get.mp hrel).2 i hi hi'⟩

theorem annots_reference (hx : old.dict? page = some x) {id : ObjectId}
    (hitem : (old.annots page)[i]? = some (.reference id)) :
    (doc.annots page)[i]? = some (.reference id) := by
  obtain ⟨b, hb, hretained⟩ := h.exists_item hannots hx hitem
  cases hretained
  exact hb

theorem exists_annot (hx : old.dict? page = some x) {item : Object}
    (hitem : (old.annots page)[i]? = some item) (hz : old.resolve item = .dictionary z) :
    ∃ item' z', (doc.annots page)[i]? = some item' ∧ doc.resolve item' = .dictionary z' ∧
      (Object.dictionary z).Retained free doc (.dictionary z') := by
  obtain ⟨item', hitem', hretained⟩ := h.exists_item hannots hx hitem
  have hseen := h.resolve hretained
  rw [hz] at hseen
  obtain ⟨z', hz', hretained'⟩ := hseen.exists_dictionary
  exact ⟨item', z', hitem', hz', hretained'⟩

/-- An annotation keeps its index and its subtype. -/
theorem annotationAt? (hsubtype : ∀ present, ¬free "Subtype" present)
    {parents : Std.TreeMap Int Object} {number : Nat}
    (hf : (old.pageFacts parents number page).annotationAt? i = some f) :
    ∃ f', (doc.pageFacts parents number page).annotationAt? i = some f' ∧ f'.index = f.index ∧
      f'.subtype = f.subtype := by
  obtain ⟨item, z, hitem, hz, rfl⟩ := annotationAt?_eq_some.mp hf
  obtain ⟨x, hx⟩ := exists_page hitem
  obtain ⟨item', z', hitem', hz', hretained⟩ := h.exists_annot hannots hx hitem hz
  refine ⟨_, annotationAt?_eq_some.mpr ⟨item', z', hitem', hz', rfl⟩, rfl, ?_⟩
  exact h.entryName?_eq hretained (hsubtype _)

end Retains

/-- The text of a string or a name. -/
def textOf? : Object → Option String
  | .string bytes _ => some (TextString.decode bytes)
  | .name bytes => some (Utf8.decodeLossy bytes)
  | _ => none

theorem entryText?_eq (doc : Document) (x : Dict Object) (key : Bytes) :
    doc.entryText? x key = (doc.value? x key).bind textOf? := by
  rw [entryText?]
  cases doc.value? x key with
  | none => rfl
  | some o => cases o <;> rfl

theorem Retains.entryText?_same (h : old.Retains free doc) (x : Dict Object) (key : Bytes) :
    doc.entryText? x key = old.entryText? x key := by
  rw [entryText?_eq, entryText?_eq]
  exact (h.value?_same x key).bind_eq fun _ _ hseen => hseen.eq rfl (fun _ => rfl) fun _ => rfl

/-- One annotation of a page has changed as `P` says, and all annotations of all pages have kept their
index and subtype. -/
def Edited (old doc : Document) (page : ObjectId) (i : Nat)
    (P : AnnotationFacts → AnnotationFacts → Prop) : Prop :=
  ∀ parents number,
    (∃ f f', (old.pageFacts parents number page).annotationAt? i = some f ∧
      (doc.pageFacts parents number page).annotationAt? i = some f' ∧ P f f') ∧
    ∀ other j f, (old.pageFacts parents number other).annotationAt? j = some f →
      ∃ f', (doc.pageFacts parents number other).annotationAt? j = some f' ∧ f'.index = f.index ∧
        f'.subtype = f.subtype

theorem Retains.edited {mid : Document} {annot : ObjectId} {y : Dict Object}
    {P : AnnotationFacts → AnnotationFacts → Prop} (moved : old.Retains free mid)
    (h : mid.Retains free doc) (hannots : ∀ present, ¬free "Annots" present)
    (hsubtype : ∀ present, ¬free "Subtype" present) (hx : old.dict? page = some x)
    (hz : old.annot? page i = some z) (hitem : (mid.annots page)[i]? = some (.reference annot))
    (hy : doc.dict? annot = some y)
    (changed : ∀ item, P (old.annotationFacts i item z) (doc.annotationFacts i (.reference annot) y)) :
    old.Edited doc page i P := by
  intro parents number
  obtain ⟨item, holdItem, hz⟩ := annot?_eq_some.mp hz
  obtain ⟨x', hx', -⟩ := moved.dict? hx
  refine ⟨⟨_, _, annotationAt?_eq_some.mpr ⟨item, z, holdItem, hz, rfl⟩,
    annotationAt?_eq_some.mpr ⟨_, y, h.annots_reference hannots hx' hitem,
      resolve_reference (get?_of_dict? hy), rfl⟩, changed item⟩, fun other j f hf => ?_⟩
  exact (moved.trans h).annotationAt? hannots hsubtype hf

/-! ## Fields -/

/-- The parent of a widget without a name, if it stands in the widget itself. -/
def inlineParent? (x : Dict Object) : Option (Dict Object) :=
  if x.contains "T" then none else (x.get? "Parent").bind Object.dictionary?

theorem fieldDict_of_inline (h : inlineParent? x = some z) : doc.fieldDict x = z := by
  rw [inlineParent?] at h
  split at h
  · cases h
  · next hname =>
    obtain ⟨o, ho, hz⟩ := Option.bind_eq_some_iff.mp h
    cases o with
    | dictionary w =>
      obtain rfl := Option.some.inj hz
      rw [fieldDict, value?_of_direct ho rfl]
      simp only [if_neg hname]
    | _ => cases hz

theorem fieldDict_of_own (own : x.contains "T" = true ∨ (x.get? "Parent").bind Object.reference? = none)
    (inline : inlineParent? x = none) : doc.fieldDict x = x := by
  rw [fieldDict]
  split
  · next z hz =>
    rw [ite_eq_left_iff]
    intro hname
    rw [inlineParent?, if_neg hname] at inline
    have href := own.resolve_left hname
    obtain ⟨o, ho, hresolve⟩ := Option.map_eq_some_iff.mp hz
    rw [ho] at href inline
    cases o with
    | reference id => cases href
    | dictionary w => cases inline
    | _ => cases hresolve
  · rfl

theorem fieldDict_insert (own : x.contains "T" = true ∨ (x.get? "Parent").bind Object.reference? = none)
    (o : Object) : doc.fieldDict (x.insert "TU" o) = (inlineParent? x).getD (x.insert "TU" o) := by
  have hother (key : String) (hkey : utf8 key ≠ utf8 "TU") : (x.insert "TU" o).get? key = x.get? key :=
    OrderedMap.get?_insert_of_ne _ hkey _
  have hname : (x.insert "TU" o).contains "T" = x.contains "T" := by
    rw [OrderedMap.contains, hother "T" (by decide), OrderedMap.contains]
  have hparent := hother "Parent" (by decide)
  have hinline : inlineParent? (x.insert "TU" o) = inlineParent? x := by
    rw [inlineParent?, hname, hparent, inlineParent?]
  rw [← hname, ← hparent] at own
  cases hcase : inlineParent? x with
  | some z => exact fieldDict_of_inline (hinline.trans hcase)
  | none => exact fieldDict_of_own own (hinline.trans hcase)

theorem fieldDict_of_reference {y : Dict Object} {id : ObjectId} (name : x.contains "T" = false)
    (hparent : x.get? "Parent" = some (.reference id))
    (hxy : (Object.dictionary x).Retained (Under ["TU"]) doc (.dictionary y))
    (hz : doc.dict? id = some z) : doc.fieldDict y = z := by
  have hname : y.contains "T" = false := by
    have hrel : Option.Rel _ (x.get? "T") (y.get? "T") := hxy.entry_rel (not_under (by decide) _)
    rw [OrderedMap.contains, Option.isSome_eq_false_iff, Option.isNone_iff_eq_none] at name ⊢
    rw [name] at hrel
    cases hy : y.get? "T" with
    | none => rfl
    | some o =>
      rw [hy] at hrel
      cases hrel
  have hparent' := hxy.reference_entry (not_under (by decide) _) hparent
  rw [fieldDict, value?, hparent', Option.map_some, resolve_reference (get?_of_dict? hz)]
  simp only [hname, Bool.false_eq_true, if_false]

end Document

namespace Edit

variable {d d' : Draft} {page annot field : ObjectId} {x a : Dict Object} {u : Unit}

/-- The place that an edit states for its annotation; a number below 0 does not count. -/
def place (index : Option Int) : Nat := ((index.filter (0 ≤ ·)).getD 0).toNat

/-- An annotation is found at its place. It is an object of its own then, and the same as before. -/
theorem annotationId_ok (free : Bytes → Bool → Prop) (unused : d.doc.Unused) {number : Int}
    {index : Option Int} (hrun : (annotationId number page index).run d = .ok annot d') :
    ∃ x a, d.doc.dict? page = some x ∧ d.doc.annot? page (place index) = some a ∧
      d.doc.Retains free d'.doc ∧ d'.doc.dict? annot = some a ∧
      (d'.doc.annots page)[place index]? = some (.reference annot) := by
  unfold annotationId at hrun
  obtain ⟨doc, d₀, hdoc, hrest⟩ := bind_ok.mp hrun
  obtain ⟨rfl, rfl⟩ := doc_ok.mp hdoc
  obtain ⟨x, d₁, hdict, hrest⟩ := bind_ok.mp hrest
  obtain ⟨hx, rfl⟩ := dict_ok.mp hdict
  have hannots : (d₁.doc.entryArray? x "Annots").getD [] = d₁.doc.annots page := by
    rw [Document.annots, hx, Option.getD_some]
  rw [hannots, ← place] at hrest
  split at hrest
  · -- The annotation is an object already, and nothing changes.
    next id hitem =>
    split at hrest
    · next hsome =>
      obtain ⟨rfl, rfl⟩ := pure_ok.mp hrest
      obtain ⟨a, ha⟩ := Option.isSome_iff_exists.mp hsome
      refine ⟨x, a, hx, Document.annot?_eq_some.mpr ⟨_, hitem, ?_⟩, .refl _, ha, hitem⟩
      exact Document.resolve_reference (Document.get?_of_dict? ha)
    · exact (throw_ok.mp hrest).elim
  · -- The annotation stands in the list, where a reference takes its place.
    next a hitem =>
    obtain ⟨id, d₂, hadd, hrest⟩ := bind_ok.mp hrest
    obtain ⟨rfl, rfl⟩ := add_ok.mp hadd
    obtain ⟨_, d₃, hmodify, hlast⟩ := bind_ok.mp hrest
    obtain ⟨rfl, rfl⟩ := pure_ok.mp hlast
    obtain ⟨items, hitems⟩ : ∃ items, d₁.doc.entryArray? x "Annots" = some items := by
      cases harray : d₁.doc.entryArray? x "Annots" with
      | some items => exact ⟨items, rfl⟩
      | none =>
        rw [← hannots, harray] at hitem
        cases hitem
    rw [hitems, Option.getD_some] at hannots
    subst hannots
    obtain ⟨hretains, hid, y, hy, -, hset⟩ := modifyArray_new unused hx hitems
      (fun later hnew => .set_moved hitem hnew) hmodify
    refine ⟨x, a, hx, Document.annot?_eq_some.mpr ⟨_, hitem, rfl⟩, hretains, hid, ?_⟩
    rw [Document.annots, hy, Option.getD_some, hset, Option.getD_some, List.getElem?_set_self]
    exact (List.getElem?_eq_some_iff.mp hitem).1
  · exact (throw_ok.mp hrest).elim

/-- The field of a widget: its parent, if the widget refers to it and has no name. -/
theorem fieldOf_ok (ha : d.doc.dict? annot = some a) (hrun : (fieldOf annot).run d = .ok field d') :
    d' = d ∧ field = if a.contains "T" then annot
      else ((a.get? "Parent").bind Object.reference?).getD annot := by
  unfold fieldOf at hrun
  obtain ⟨x, d₁, hdict, hrest⟩ := bind_ok.mp hrun
  obtain ⟨hx, rfl⟩ := dict_ok.mp hdict
  obtain rfl := Option.some.inj (ha.symm.trans hx)
  split at hrest
  · next parent hparent =>
    obtain ⟨rfl, rfl⟩ := pure_ok.mp hrest
    rw [hparent]
    exact ⟨rfl, rfl⟩
  · next hparent =>
    obtain ⟨rfl, rfl⟩ := pure_ok.mp hrest
    rw [hparent]
    exact ⟨rfl, (ite_self _).symm⟩

theorem setEntry_retains {id : ObjectId} {name : String} {o : Object}
    (hrun : (setEntry id name o).run d = .ok u d') :
    ∃ z, d.doc.dict? id = some z ∧ d'.doc.dict? id = some (z.insert name o) ∧
      d.doc.Retains (Under [name]) d'.doc := by
  obtain ⟨t, z, ht, hz, -⟩ := setEntry_ok.mp hrun
  have hdict : d.doc.dict? id = some z :=
    Document.dict?_of_get? ((Document.get?_eq_of_target? ht).trans hz)
  obtain ⟨hretains, hchanged⟩ : d.doc.Retains (Under [name]) d'.doc ∧ _ :=
    modifyDict_retains hdict (fun key hkey => OrderedMap.get?_insert_of_ne _ (by
      rintro rfl
      exact hkey List.mem_cons_self) _) hrun
  exact ⟨z, hdict, hchanged, hretains⟩

/-- The field of a widget gets a tooltip, which is the widget's in a report, unless its parent stands in
the widget itself. -/
theorem tooltip_retains {text : String} (ha : d.doc.dict? annot = some a)
    (hrun : (do setEntry (← fieldOf annot) "TU" (TextString.object text)).run d = .ok u d') :
    d.doc.Retains (Under ["TU"]) d'.doc ∧ ∃ y, d'.doc.dict? annot = some y ∧
      d'.doc.entryText? (d'.doc.fieldDict y) "TU" =
        match Document.inlineParent? a with
        | some parent => d'.doc.entryText? parent "TU"
        | none => some text := by
  obtain ⟨field, d₁, hfieldOf, hset⟩ := bind_ok.mp hrun
  obtain ⟨rfl, hfield⟩ := fieldOf_ok ha hfieldOf
  obtain ⟨z, hz, hz', hretains⟩ := setEntry_retains hset
  refine ⟨hretains, ?_⟩
  have htext : d'.doc.entryText? (z.insert "TU" (TextString.object text)) "TU" = some text :=
    Document.entryText?_map (s := some text) (OrderedMap.get?_insert_self _ _ _)
  by_cases own : a.contains "T" = true ∨ (a.get? "Parent").bind Object.reference? = none
  · -- The tooltip is in the widget.
    obtain rfl : annot = field := by
      rw [hfield]
      rcases own with hname | hparent
      · rw [if_pos hname]
      · rw [hparent, Option.getD_none, ite_self]
    obtain rfl := Option.some.inj (ha.symm.trans hz)
    refine ⟨_, hz', ?_⟩
    rw [Document.fieldDict_insert own]
    cases Document.inlineParent? a with
    | some parent => rfl
    | none => exact htext
  · -- The tooltip is in the parent, which the widget still refers to.
    obtain ⟨hname, hparent⟩ := not_or.mp own
    rw [Bool.not_eq_true] at hname
    obtain ⟨parent, hparent⟩ := Option.ne_none_iff_exists'.mp hparent
    obtain ⟨o, ho, hreference⟩ := Option.bind_eq_some_iff.mp hparent
    obtain rfl : o = .reference parent := by
      cases o with
      | reference id => rw [Option.some.inj hreference]
      | _ => cases hreference
    rw [hname, hparent, if_neg Bool.false_ne_true, Option.getD_some] at hfield
    subst hfield
    obtain ⟨y, hy, hay⟩ := hretains.dict? ha
    have hinline : Document.inlineParent? a = none := by
      rw [Document.inlineParent?, hname, ho]
      rfl
    refine ⟨y, hy, ?_⟩
    rw [hinline, Document.fieldDict_of_reference hname ho hay hz', htext]

/-- What edits of texts come to in a report on the page, whatever is stored there. A description is the
one that was given. So is a tooltip, unless the widget has no name and its parent stands in the widget
itself: then it is the one that there was. All annotations keep their index and their subtype. -/
theorem annotate_reads (o : Options) (e : AnnotationEdit) (unused : d.doc.Unused)
    (hrun : (annotate o e).run d = .ok u d') :
    ∃ page, d.doc.pages[e.page.toNat - 1]? = some page ∧
      (AnnotationOp.ofName? e.op = some .setContents →
        d.doc.Edited d'.doc page (place e.index) fun _ f' => f'.contents = some (e.value.getD "")) ∧
      (AnnotationOp.ofName? e.op = some .setTooltip →
        ∃ a, d.doc.annot? page (place e.index) = some a ∧
          d.doc.Edited d'.doc page (place e.index) fun f f' => f'.tooltip =
            if (Document.inlineParent? a).isSome then f.tooltip else some (e.value.getD "")) := by
  unfold annotate at hrun
  obtain ⟨page, d₁, hpage, hrest⟩ := bind_ok.mp hrun
  obtain ⟨⟨-, hpage⟩, rfl⟩ := page_ok hpage
  refine ⟨page, hpage, fun hop => ?_, fun hop => ?_⟩
  · simp only [hop] at hrest
    obtain ⟨annot, d₂, hannot, hset⟩ := bind_ok.mp hrest
    obtain ⟨x, a, hx, ha, hmoved, ha', hitem⟩ := annotationId_ok (Under ["Contents"]) unused hannot
    obtain ⟨z, hz, hz', hretains⟩ := setEntry_retains hset
    obtain rfl := Option.some.inj (ha'.symm.trans hz)
    refine hmoved.edited hretains (not_under (by decide)) (not_under (by decide)) hx ha hitem hz'
      fun item => ?_
    exact Document.entryText?_map (s := some (e.value.getD "")) (OrderedMap.get?_insert_self _ _ _)
  · simp only [hop] at hrest
    obtain ⟨annot, d₂, hannot, hset⟩ := bind_ok.mp hrest
    obtain ⟨x, a, hx, ha, hmoved, ha', hitem⟩ := annotationId_ok (Under ["TU"]) unused hannot
    obtain ⟨hretains, y, hy, htooltip⟩ := tooltip_retains ha' hset
    refine ⟨a, ha, hmoved.edited hretains (not_under (by decide)) (not_under (by decide)) hx ha hitem
      hy fun item => ?_⟩
    show d'.doc.entryText? (d'.doc.fieldDict y) "TU" =
      if (Document.inlineParent? a).isSome then d₁.doc.entryText? (d₁.doc.fieldDict a) "TU"
      else some (e.value.getD "")
    rw [htooltip]
    -- A parent in the widget is the field before and after, and its tooltip is not touched.
    cases hinline : Document.inlineParent? a with
    | none => rfl
    | some parent =>
      rw [Document.fieldDict_of_inline hinline, Option.isSome_some, if_pos rfl]
      exact (hmoved.trans hretains).entryText?_same parent "TU"

/-! ## A page with a link and a widget -/

/-- A page with annotations, and more objects. -/
def formPage (annots : List Object) (more : List (ObjectId × Object)) : Draft where
  doc := {
    version := "1.7"
    trailer := .ofList [(utf8 "Root", .reference ⟨1, 0⟩)]
    objects := .ofList ([(⟨1, 0⟩, .ofEntries [(utf8 "Pages", .reference ⟨2, 0⟩)]),
      (⟨2, 0⟩, .ofEntries [(utf8 "Type", .name "Pages"), (utf8 "Kids", .array [.reference ⟨3, 0⟩])]),
      (⟨3, 0⟩, .ofEntries [(utf8 "Type", .name "Page"), (utf8 "Annots", .array annots)])] ++ more)
    maxId := 3 + more.length }

def link (more : List (Bytes × Object)) : Object := .ofEntries ((utf8 "Subtype", .name "Link") :: more)

/-- A widget without a name. -/
def widget (parent : Object) (more : List (Bytes × Object)) : Dict Object :=
  .ofList ((utf8 "Subtype", .name "Widget") :: (utf8 "Parent", parent) :: more)

/-- The field of widgets. -/
def textField (more : List (Bytes × Object)) : Object := .ofEntries ((utf8 "FT", .name "Tx") :: more)

/-- A link and a widget, which refers to its field. -/
def linkAndWidget : Draft :=
  formPage [link [], .dictionary (widget (.reference ⟨4, 0⟩) [])] [(⟨4, 0⟩, textField [])]

/-- An annotation gets a text. -/
def textEdit (op : String) (index : Option Int) (text : String) : AnnotationEdit :=
  { op, page := 1, index, value := some text }

theorem pages_linkAndWidget : linkAndWidget.doc.pages = [⟨3, 0⟩] :=
  Document.pages_of_leaves rfl rfl (by decide) (by decide)

theorem page_linkAndWidget : (Edit.page 1).run linkAndWidget = .ok ⟨3, 0⟩ linkAndWidget :=
  page_iff.mpr ⟨by decide, by rw [pages_linkAndWidget]; rfl, rfl⟩

theorem run_setContents : (annotate {} (textEdit "set_contents" none "Home")).run linkAndWidget =
    .ok () (formPage [.reference ⟨5, 0⟩, .dictionary (widget (.reference ⟨4, 0⟩) [])]
      [(⟨4, 0⟩, textField []), (⟨5, 0⟩, link [(utf8 "Contents", TextString.object "Home")])]) := by
  refine bind_ok.mpr ⟨_, _, page_linkAndWidget, bind_ok.mpr ⟨⟨5, 0⟩,
    formPage [.reference ⟨5, 0⟩, .dictionary (widget (.reference ⟨4, 0⟩) [])]
      [(⟨4, 0⟩, textField []), (⟨5, 0⟩, link [])], rfl, rfl⟩⟩

theorem run_setTooltip : (annotate {} (textEdit "set_tu" (some 1) "Name")).run linkAndWidget =
    .ok () (formPage [link [], .reference ⟨5, 0⟩]
      [(⟨4, 0⟩, textField [(utf8 "TU", TextString.object "Name")]),
        (⟨5, 0⟩, .dictionary (widget (.reference ⟨4, 0⟩) []))]) := by
  refine bind_ok.mpr ⟨_, _, page_linkAndWidget, bind_ok.mpr ⟨⟨5, 0⟩,
    formPage [link [], .reference ⟨5, 0⟩]
      [(⟨4, 0⟩, textField []), (⟨5, 0⟩, .dictionary (widget (.reference ⟨4, 0⟩) []))], rfl, rfl⟩⟩

/-- The link gets a description, and the widget a tooltip. -/
theorem annotate_reads_linkAndWidget : linkAndWidget.doc.Unused ∧
    (∃ d', (annotate {} (textEdit "set_contents" none "Home")).run linkAndWidget = .ok () d' ∧
      linkAndWidget.doc.Edited d'.doc ⟨3, 0⟩ 0 fun _ f' => f'.contents = some "Home") ∧
    ∃ d', (annotate {} (textEdit "set_tu" (some 1) "Name")).run linkAndWidget = .ok () d' ∧
      linkAndWidget.doc.Edited d'.doc ⟨3, 0⟩ 1 fun _ f' => f'.tooltip = some "Name" := by
  have unused : linkAndWidget.doc.Unused := rfl
  have hfirst : linkAndWidget.doc.pages[0]? = some ⟨3, 0⟩ := by
    rw [pages_linkAndWidget]
    rfl
  refine ⟨unused, ⟨_, run_setContents, ?_⟩, _, run_setTooltip, ?_⟩
  · obtain ⟨page, hpage, hcontents, -⟩ := annotate_reads {} _ unused run_setContents
    obtain rfl := Option.some.inj (hfirst.symm.trans hpage)
    exact hcontents rfl
  · obtain ⟨page, hpage, -, htooltip⟩ := annotate_reads {} _ unused run_setTooltip
    obtain rfl := Option.some.inj (hfirst.symm.trans hpage)
    obtain ⟨a, ha, hedited⟩ := htooltip rfl
    have hwidget : linkAndWidget.doc.annot? ⟨3, 0⟩ 1 = some (widget (.reference ⟨4, 0⟩) []) := rfl
    obtain rfl := Option.some.inj (hwidget.symm.trans ha)
    exact hedited

/-- A widget without a name in which the field stands itself: the tooltip that it is given is not read,
for the field has none. -/
theorem setTooltip_unread :
    let d := formPage [.dictionary (widget (textField []) [])] []
    d.doc.Unused ∧ AnnotationOp.ofName? "set_tu" = some .setTooltip ∧
      ∃ d', (annotate {} (textEdit "set_tu" (some 0) "Name")).run d = .ok () d' ∧
        ∀ parents number, ∃ f, (d'.doc.pageFacts parents number ⟨3, 0⟩).annotationAt? 0 = some f ∧
          f.tooltip ≠ some "Name" := by
  have hrun : (annotate {} (textEdit "set_tu" (some 0) "Name")).run
      (formPage [.dictionary (widget (textField []) [])] []) = .ok () (formPage [.reference ⟨4, 0⟩]
        [(⟨4, 0⟩, .dictionary (widget (textField []) [(utf8 "TU", TextString.object "Name")]))]) := by
    have hpages : (formPage [.dictionary (widget (textField []) [])] []).doc.pages = [⟨3, 0⟩] :=
      Document.pages_of_leaves rfl rfl (by decide) (by decide)
    exact bind_ok.mpr ⟨⟨3, 0⟩, formPage [.dictionary (widget (textField []) [])] [],
      page_iff.mpr ⟨by decide, by rw [hpages]; rfl, rfl⟩, bind_ok.mpr ⟨⟨4, 0⟩,
        formPage [.reference ⟨4, 0⟩] [(⟨4, 0⟩, .dictionary (widget (textField []) []))], rfl, rfl⟩⟩
  refine ⟨rfl, rfl, _, hrun, fun parents number => ⟨_, Document.annotationAt?_eq_some.mpr
    ⟨.reference ⟨4, 0⟩, widget (textField []) [(utf8 "TU", TextString.object "Name")], rfl, rfl, rfl⟩,
    fun hname => ?_⟩⟩
  cases hname

end Edit

end AccessiblePdf
