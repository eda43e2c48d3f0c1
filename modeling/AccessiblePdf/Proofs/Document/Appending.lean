import AccessiblePdf.Filter.Compressor
import AccessiblePdf.Proofs.Structure.Bookkeeping

/-!
Content behind that of a page. A page may state its content as nothing, as a stream or an array behind
a reference, or as an array in place (`LegalContents`). What is appended then stands behind all that
the page had, in brackets that save and restore the graphics state, unless an array stands behind a
reference: the new array takes that one in as an item, and the page cannot be read any more
(`appendContent_pageContent`).
-/
namespace AccessiblePdf

open Edit

namespace Document

variable {doc : Document} {page id t : ObjectId} {x : Dict Object} {o : Object} {a b : Bytes}

/-! ## Streams one after the other -/

theorem joinStreams_stream {entries : Dict Object} {content : Bytes}
    (stream : doc.resolve o = .stream entries content) (rest : List Object) :
    doc.joinStreams (o :: rest) =
      (doc.joinStreams rest).map (Stream.data entries content ++ 0x0A :: ·) := by
  rw [joinStreams, stream]
  cases doc.joinStreams rest <;> rfl

theorem joinStreams_null (null : doc.resolve o = .null) (rest : List Object) :
    doc.joinStreams (o :: rest) = doc.joinStreams rest := by
  rw [joinStreams, null]

theorem joinStreams_cons_ok {rest : List Object} (h : doc.joinStreams (o :: rest) = .ok a) :
    (∃ entries content b, doc.resolve o = .stream entries content ∧ doc.joinStreams rest = .ok b ∧
        a = Stream.data entries content ++ 0x0A :: b) ∨
      doc.resolve o = .null ∧ doc.joinStreams rest = .ok a := by
  cases ho : doc.resolve o with
  | stream entries content =>
    rw [joinStreams_stream ho] at h
    cases hrest : doc.joinStreams rest with
    | ok b =>
      rw [hrest] at h
      exact Or.inl ⟨entries, content, b, rfl, rfl, (Except.ok.inj h).symm⟩
    | error f =>
      rw [hrest] at h
      cases h
  | null =>
    rw [joinStreams_null ho] at h
    exact Or.inr ⟨rfl, h⟩
  | _ =>
    rw [joinStreams, ho] at h
    cases h

theorem joinStreams_append (doc : Document) (items more : List Object) :
    doc.joinStreams (items ++ more) =
      (doc.joinStreams items).bind fun a => (doc.joinStreams more).map (a ++ ·) := by
  induction items with
  | nil => cases hmore : doc.joinStreams more <;> simp [joinStreams, hmore, Except.bind, Except.map]
  | cons o items ih =>
    rw [List.cons_append]
    cases ho : doc.resolve o with
    | stream entries content =>
      rw [joinStreams_stream ho, joinStreams_stream ho, ih]
      cases doc.joinStreams items <;> cases doc.joinStreams more <;> simp [Except.bind, Except.map]
    | null => rw [joinStreams_null ho, joinStreams_null ho, ih]
    | _ => rw [joinStreams, joinStreams, ho]; rfl

/-! ## What a page states as its content -/

/-- A reference leads somewhere. -/
def Present (doc : Document) : Object → Prop
  | .reference id => ∃ o, doc.get? id = some o
  | _ => True

/-- The entry for the content of a page: none, a reference to a stream or to an array of streams, or
an array of streams in place. -/
inductive LegalContents (doc : Document) : Option Object → Prop where
  | absent : LegalContents doc none
  | reference {id : ObjectId} (present : doc.Present (.reference id)) :
      LegalContents doc (some (.reference id))
  | array {items : List Object} (present : ∀ o ∈ items, doc.Present o) :
      LegalContents doc (some (.array items))

/-- The items that an entry for content lists. -/
def contentItems (doc : Document) : Option Object → List Object
  | none => []
  | some contents => (doc.resolve contents).array?.getD [doc.resolve contents]

/-- Whether an entry refers to an array. -/
def refersToArray (doc : Document) : Option Object → Bool
  | some (.reference id) => ((doc.get? id).bind Object.array?).isSome
  | _ => false

theorem pageContent_eq_joinStreams (hx : doc.dict? page = some x) :
    doc.pageContent page = doc.joinStreams (doc.contentItems (x.get? "Contents")) := by
  cases h : x.get? "Contents" with
  | none => exact pageContent_of_none hx h
  | some contents => exact pageContent_of_some hx h

end Document

/-! ## Reading after a change -/

namespace Stream

/-- Content is read from the stream that it is written to. -/
theorem data_contentEntries (z : Compressor) (content : Bytes) :
    data (contentEntries z content) (contentBytes z content) = content := by
  have hfilters : filters? (contentEntries z content) =
      if (z.deflate? content).isSome then some [utf8 "FlateDecode"] else none := by
    have hfilter : (contentEntries z content).get? "Filter" =
        if (z.deflate? content).isSome then some (.name "FlateDecode") else none := by
      rw [contentEntries, OrderedMap.get?_insert_of_ne _ (by decide)]
      cases (z.deflate? content).isSome <;> rfl
    rw [filters?, hfilter]
    cases (z.deflate? content).isSome <;> rfl
  cases hpacked : z.deflate? content with
  | none =>
    rw [hpacked] at hfilters
    rw [data, decoded?, hfilters, contentBytes, hpacked]
    rfl
  | some packed =>
    rw [hpacked] at hfilters
    have hother : ∀ key : Bytes, key ≠ utf8 "Length" → key ≠ utf8 "Filter" →
        (contentEntries z content).get? key = none := by
      intro key hlength hfilter
      rw [contentEntries, OrderedMap.get?_insert_of_ne _ hlength, hpacked]
      exact OrderedMap.get?_insert_of_ne _ hfilter _
    have hundo : undo? none packed (utf8 "FlateDecode") = some content := by
      rw [undo?, if_pos rfl, unpredict?, z.inflate_deflate content packed hpacked]
    have hbytes : contentBytes z content = packed := by rw [contentBytes, hpacked, Option.getD_some]
    rw [data, decoded?, hfilters, hbytes]
    simp [hother (utf8 "Subtype") (by decide) (by decide),
      hother (utf8 "DecodeParms") (by decide) (by decide), hundo]

end Stream

namespace Document

variable {doc : Document} {page id t : ObjectId} {x x' : Dict Object} {o v : Object} {a : Bytes}
  {items : List Object}

theorem Present.add (present : doc.Present o) (unused : doc.Unused) : (doc.add v).Present o := by
  cases o with
  | reference id =>
    obtain ⟨o, ho⟩ := present
    exact ⟨o, get?_add unused v ho⟩
  | _ => trivial

theorem resolve_add (unused : doc.Unused) (present : doc.Present o) :
    (doc.add v).resolve o = doc.resolve o := by
  cases o with
  | reference id =>
    obtain ⟨o, ho⟩ := present
    simp only [resolve, ho, get?_add unused v ho]
  | _ => rfl

theorem resolve_put (hx : doc.objects.get? t = some (.dictionary x))
    (other : doc.resolve o ≠ .dictionary x) :
    (doc.put t (.dictionary x')).resolve o = doc.resolve o := by
  cases o with
  | reference id =>
    simp only [resolve] at other ⊢
    rw [get?_put hx rfl rfl]
    split
    · next htarget =>
      rw [get?_eq_of_target? htarget, hx] at other
      exact absurd rfl other
    · rfl
  | _ => rfl

theorem resolve_add_put (hx : (doc.add v).objects.get? t = some (.dictionary x)) (direct : v.isDirect = true)
    (other : v ≠ .dictionary x) :
    ((doc.add v).put t (.dictionary x')).resolve (.reference doc.nextId) = v := by
  have hleads : (doc.add v).resolve (.reference doc.nextId) = v := resolve_add_nextId direct
  rw [resolve_put hx (by rw [hleads]; exact other), hleads]

theorem resolve_ne_of_joinStreams (h : doc.joinStreams items = .ok a) (ho : o ∈ items) :
    doc.resolve o ≠ .dictionary x := by
  induction items generalizing a with
  | nil => exact absurd ho List.not_mem_nil
  | cons o' items ih =>
    rcases joinStreams_cons_ok h with ⟨entries, content, b, hstream, hitems, _⟩ | ⟨hnull, hitems⟩
    · rcases List.mem_cons.mp ho with rfl | ho
      · simp [hstream]
      · exact ih hitems ho
    · rcases List.mem_cons.mp ho with rfl | ho
      · simp [hnull]
      · exact ih hitems ho

theorem joinStreams_congr {doc' : Document} (h : ∀ o ∈ items, doc'.resolve o = doc.resolve o) :
    doc'.joinStreams items = doc.joinStreams items := by
  induction items with
  | nil => rfl
  | cons o items ih =>
    rw [List.forall_mem_cons] at h
    rw [joinStreams, joinStreams, h.1, ih h.2]

theorem contentItems_reference (id : ObjectId) : doc.contentItems (some (.reference id)) =
    ((doc.get? id).bind Object.array?).getD [doc.resolve (.reference id)] := by
  simp only [contentItems, resolve]
  cases doc.get? id with
  | none => rfl
  | some o => rfl

theorem joinStreams_single (h : doc.joinStreams [doc.resolve o] = .ok a) :
    doc.joinStreams [o] = .ok a := by
  cases o with
  | reference id =>
    have hdirect : doc.resolve (doc.resolve (.reference id)) = doc.resolve (.reference id) := by
      simp only [resolve]
      cases hid : doc.get? id with
      | none => rfl
      | some o =>
        obtain ⟨_, _, _, hdirect⟩ := target?_of_get? hid
        cases o with
        | reference => exact absurd hdirect Bool.false_ne_true
        | _ => rfl
    rw [joinStreams, hdirect] at h
    rw [joinStreams]
    exact h
  | _ => exact h

/-! ## What is appended -/

/-- The items that a new array takes over from an entry for content. -/
def keptItems : Option Object → List Object
  | some (.array items) => items
  | some (.reference id) => [.reference id]
  | _ => []

/-- Content behind that of a page, which stands in brackets if there is any entry for it. -/
def appended (items : List Object) (old content : Bytes) : Bytes :=
  if items.isEmpty then content ++ [0x0A]
  else utf8 "q\n\n" ++ old ++ utf8 "Q\n" ++ content ++ [0x0A]

end Document

/-- The stream that content is written to. -/
def contentStream (z : Compressor) (content : Bytes) : Object :=
  .stream (contentEntries z content) (contentBytes z content)

namespace Document

variable {doc : Document} {page t : ObjectId} {x : Dict Object} {o : Object} {items : List Object}

theorem joinStreams_contentStream {z : Compressor} {content : Bytes}
    (ho : doc.resolve o = contentStream z content) :
    doc.joinStreams [o] = .ok (content ++ [0x0A]) := by
  rw [joinStreams_stream ho, Stream.data_contentEntries]
  rfl

/-- Content of a page that more can be added to: its entry is of a legal form and does not refer to an
array. -/
structure Extendable (doc : Document) (page : ObjectId) (entry : Option Object) (content : Bytes) :
    Prop where
  stated : ∃ x, doc.dict? page = some x ∧ x.get? "Contents" = entry
  legal : doc.LegalContents entry
  inPlace : doc.refersToArray entry = false
  read : doc.pageContent page = .ok content

theorem LegalContents.isEmpty_contentItems {entry : Option Object} (legal : doc.LegalContents entry)
    (inPlace : doc.refersToArray entry = false) :
    (doc.contentItems entry).isEmpty = (keptItems entry).isEmpty := by
  cases legal with
  | absent => rfl
  | array present => rfl
  | @reference id present =>
    have harray : (doc.get? id).bind Object.array? = none := by simpa [refersToArray] using inPlace
    rw [contentItems_reference, harray]
    rfl

theorem LegalContents.present {entry : Option Object} (legal : doc.LegalContents entry) :
    ∀ o ∈ keptItems entry, doc.Present o := by
  cases legal with
  | absent => exact fun o ho => absurd ho List.not_mem_nil
  | reference present => exact fun o ho => List.mem_singleton.mp ho ▸ present
  | array present => exact present

end Document

namespace Edit

open Document

variable {d : Draft} {page : ObjectId} {x : Dict Object} {old : Bytes} {items : List Object}

/-- Adds content behind the items that a page keeps. -/
def appendBehind (page : ObjectId) (content : Bytes) (items : List Object) : Edit Unit := do
  if items.isEmpty then
    let tail ← add (← stream content)
    setEntry page "Contents" (.array [.reference tail])
  else
    let lead ← add (.ofStream ∅ "q\n")
    let tail ← add (← stream (utf8 "Q\n" ++ content))
    setEntry page "Contents" (.array (.reference lead :: items ++ [.reference tail]))

theorem appendContent_eq (page : ObjectId) (content : Bytes) :
    appendContent page content =
      dict page >>= fun x => appendBehind page content (keptItems (x.get? "Contents")) := by
  unfold appendContent
  congr 1

theorem run_stream (d : Draft) (bytes : Bytes) :
    (stream bytes).run d = .ok (contentStream d.packing bytes) d :=
  Represents.stream_ok.mpr ⟨rfl, rfl⟩

theorem run_add (d : Draft) (o : Object) :
    (add o).run d = .ok d.doc.nextId { d with doc := d.doc.add o } :=
  add_ok.mpr ⟨rfl, rfl⟩

theorem setContents_pageContent {doc : Document} {t : ObjectId} (ht : doc.target? page = some t)
    (hx : doc.objects.get? t = some (.dictionary x))
    (other : ∀ o ∈ items, doc.resolve o ≠ .dictionary x) :
    ∃ d', (setEntry page "Contents" (.array items)).run { d with doc := doc } = .ok () d' ∧
      d'.doc.pageContent page = doc.joinStreams items := by
  set doc' := doc.put t (.dictionary (x.insert "Contents" (.array items))) with hdoc'
  have hdict : doc'.dict? page = some (x.insert "Contents" (.array items)) := by
    rw [hdoc', dict?_put hx, if_pos ht]
  refine ⟨{ d with doc := doc' }, setEntry_ok.mpr ⟨t, x, ht, hx, rfl⟩, ?_⟩
  rw [pageContent_of_some hdict (OrderedMap.get?_insert_self _ _ _)]
  exact joinStreams_congr fun o ho => resolve_put hx (other o ho)

theorem appendBehind_nil (unused : d.doc.Unused) (hx : d.doc.dict? page = some x)
    (content : Bytes) :
    ∃ d', (appendBehind page content []).run d = .ok () d' ∧
      d'.doc.pageContent page = .ok (content ++ [0x0A]) := by
  set s := contentStream d.packing content with hs
  obtain ⟨t, htarget, hxadd⟩ := target?_of_dict? (dict?_add unused s hx)
  have htail : (d.doc.add s).resolve (.reference d.doc.nextId) = s := resolve_add_nextId rfl
  have hother : ∀ o ∈ [Object.reference d.doc.nextId], (d.doc.add s).resolve o ≠ .dictionary x := by
    intro o ho
    rw [List.mem_singleton.mp ho, htail]
    simp [hs, contentStream]
  obtain ⟨d', hrun, hcontent⟩ := setContents_pageContent (d := d) htarget hxadd hother
  refine ⟨d', ?_, ?_⟩
  · rw [appendBehind, List.isEmpty_nil, if_pos rfl, run_bind (run_stream d content),
      run_bind (run_add d s)]
    exact hrun
  · rw [hcontent, joinStreams_contentStream (htail.trans hs)]

/-- A page with items is read as they are, between the ends that are added. -/
theorem appendBehind_items (numbered : d.doc.Numbered) (hx : d.doc.dict? page = some x)
    (nonempty : items.isEmpty = false) (present : ∀ o ∈ items, d.doc.Present o)
    (other : ∀ o ∈ items, d.doc.resolve o ≠ .dictionary x) (content : Bytes) :
    ∃ d', (appendBehind page content items).run d = .ok () d' ∧ d'.doc.pageContent page =
      (d.doc.joinStreams items).map fun old =>
        utf8 "q\n\n" ++ old ++ utf8 "Q\n" ++ content ++ [0x0A] := by
  set lead := contentStream .plain (utf8 "q\n") with hlead
  set tail := contentStream d.packing (utf8 "Q\n" ++ content) with htail
  set doc₁ := d.doc.add lead with hdoc₁
  set doc₂ := doc₁.add tail with hdoc₂
  have hunused₁ : doc₁.Unused := (numbered.add lead).unused
  obtain ⟨t, htarget, hx₂⟩ :=
    target?_of_dict? (dict?_add hunused₁ tail (dict?_add numbered.unused lead hx))
  have hitems : ∀ o ∈ items, doc₂.resolve o = d.doc.resolve o := fun o ho =>
    (resolve_add hunused₁ ((present o ho).add numbered.unused)).trans
      (resolve_add numbered.unused (present o ho))
  have hleads : doc₂.resolve (.reference d.doc.nextId) = lead := by
    rw [resolve, get?_add hunused₁ tail (get?_add_nextId rfl)]
    rfl
  have htails : doc₂.resolve (.reference doc₁.nextId) = tail := resolve_add_nextId rfl
  have hother : ∀ o ∈ Object.reference d.doc.nextId :: items ++ [.reference doc₁.nextId],
      doc₂.resolve o ≠ .dictionary x := by
    intro o ho
    simp only [List.cons_append, List.mem_cons, List.mem_append, List.not_mem_nil, or_false] at ho
    rcases ho with rfl | ho | rfl
    · simp [hleads, hlead, contentStream]
    · exact hitems o ho ▸ other o ho
    · simp [htails, htail, contentStream]
  obtain ⟨d', hrun, hcontent⟩ := setContents_pageContent (d := d) htarget hx₂ hother
  refine ⟨d', ?_, ?_⟩
  · rw [appendBehind, if_neg (by simp [nonempty]), run_bind (run_add d _),
      run_bind (run_stream _ _), run_bind (run_add _ _)]
    exact hrun
  · rw [hcontent, joinStreams_append, ← List.singleton_append, joinStreams_append,
      joinStreams_congr hitems, joinStreams_contentStream (hleads.trans hlead),
      joinStreams_contentStream (htails.trans htail)]
    have hbreak : utf8 "q\n\n" = utf8 "q\n" ++ [0x0A] := by decide
    cases d.doc.joinStreams items with
    | error f => rfl
    | ok old => simp [Except.bind, Except.map, hbreak]

/-- Content comes behind all that a page had, unless the page refers to an array: then it cannot be
read any more. -/
theorem appendContent_pageContent (numbered : d.doc.Numbered) (hx : d.doc.dict? page = some x)
    (legal : d.doc.LegalContents (x.get? "Contents")) (read : d.doc.pageContent page = .ok old)
    (content : Bytes) :
    ∃ d', (appendContent page content).run d = .ok () d' ∧ d'.doc.pageContent page =
      if d.doc.refersToArray (x.get? "Contents") then .error .unreadable
      else .ok (appended (d.doc.contentItems (x.get? "Contents")) old content) := by
  rw [pageContent_eq_joinStreams hx] at read
  rw [appendContent_eq, run_bind (dict_ok.mpr ⟨hx, rfl⟩)]
  cases h : x.get? "Contents" with
  | none => exact appendBehind_nil numbered.unused hx content
  | some contents =>
    rw [h] at legal read
    cases legal with
    | @reference id present =>
      have hpresent : ∀ o ∈ [Object.reference id], d.doc.Present o := by simpa using present
      obtain ⟨o, ho⟩ := present
      have hresolve : d.doc.resolve (.reference id) = o := by rw [resolve, ho, Option.getD_some]
      by_cases harray : o.array?.isSome = true
      · -- The new array takes the one that is referred to for a stream.
        have hrefers : d.doc.refersToArray (some (.reference id)) = true := by
          rw [refersToArray, ho, Option.bind_some, harray]
        cases o with
        | array items =>
          obtain ⟨d', hrun, hcontent⟩ := appendBehind_items numbered hx rfl hpresent
            (by simp [hresolve]) content
          refine ⟨d', hrun, ?_⟩
          rw [hcontent, if_pos hrefers, joinStreams, hresolve]
          rfl
        | _ => exact absurd harray Bool.false_ne_true
      · have hrefers : d.doc.refersToArray (some (.reference id)) = false := by
          rw [refersToArray, ho, Option.bind_some, Bool.eq_false_iff]
          exact harray
        have hitems : d.doc.contentItems (some (.reference id)) = [o] := by
          rw [contentItems_reference, ho, Option.bind_some, Option.not_isSome_iff_eq_none.mp harray,
            Option.getD_none, hresolve]
        rw [hitems, ← hresolve] at read
        have hread := joinStreams_single read
        obtain ⟨d', hrun, hcontent⟩ := appendBehind_items numbered hx rfl hpresent
          (fun o ho => resolve_ne_of_joinStreams hread ho) content
        refine ⟨d', hrun, ?_⟩
        rw [hcontent, hread, hrefers, hitems]
        rfl
    | @array items present =>
      have hread : d.doc.joinStreams items = .ok old := read
      by_cases hempty : items = []
      · subst hempty
        exact appendBehind_nil numbered.unused hx content
      · have hnonempty : items.isEmpty = false := by simpa using hempty
        obtain ⟨d', hrun, hcontent⟩ := appendBehind_items numbered hx hnonempty present
          (fun o ho => resolve_ne_of_joinStreams hread ho) content
        have hitems : d.doc.contentItems (some (.array items)) = items := rfl
        refine ⟨d', hrun, ?_⟩
        rw [hcontent, hread, hitems, appended, hnonempty]
        rfl

/-- A page whose content is one stream. -/
theorem appendContent_pageContent_stream :
    let x : Dict Object := .ofList [(utf8 "Contents", .reference ⟨2, 0⟩)]
    let d : Draft := { doc := ⟨"1.7", .empty,
      .ofList [(⟨1, 0⟩, .dictionary x), (⟨2, 0⟩, .stream .empty (utf8 "f"))], 2⟩ }
    d.doc.Numbered ∧ d.doc.dict? ⟨1, 0⟩ = some x ∧ d.doc.LegalContents (x.get? "Contents") ∧
      d.doc.pageContent ⟨1, 0⟩ = .ok (utf8 "f\n") ∧
        ∀ content, ∃ d', (appendContent ⟨1, 0⟩ content).run d = .ok () d' ∧
          d'.doc.pageContent ⟨1, 0⟩ =
            .ok (utf8 "q\n\n" ++ utf8 "f\n" ++ utf8 "Q\n" ++ content ++ [0x0A]) := by
  intro x d
  have numbered : d.doc.Numbered := numbered_of_entries (by decide)
  have hx : d.doc.dict? ⟨1, 0⟩ = some x := rfl
  have legal : d.doc.LegalContents (x.get? "Contents") := .reference ⟨_, rfl⟩
  have read : d.doc.pageContent ⟨1, 0⟩ = .ok (utf8 "f\n") := rfl
  exact ⟨numbered, hx, legal, read, appendContent_pageContent numbered hx legal read⟩

/-- A page whose content is an array behind a reference. -/
theorem appendContent_loses_content :
    let x : Dict Object := .ofList [(utf8 "Contents", .reference ⟨2, 0⟩)]
    let d : Draft := { doc := ⟨"1.7", .empty, .ofList [(⟨1, 0⟩, .dictionary x),
      (⟨2, 0⟩, .array [.reference ⟨3, 0⟩]), (⟨3, 0⟩, .stream .empty (utf8 "f"))], 3⟩ }
    d.doc.pageContent ⟨1, 0⟩ = .ok (utf8 "f\n") ∧
      ∃ d', (appendContent ⟨1, 0⟩ (utf8 "S")).run d = .ok () d' ∧
        d'.doc.pageContent ⟨1, 0⟩ = .error .unreadable :=
  ⟨rfl, _, rfl, rfl⟩

/-! ## Adding once more -/

theorem setContents_stated {d' : Draft} {v : Object}
    (hrun : (setEntry page "Contents" v).run d = .ok () d') :
    (∃ y, d'.doc.dict? page = some y ∧ y.get? "Contents" = some v) ∧
      ∀ o, d.doc.Present o → d'.doc.Present o := by
  obtain ⟨t, y, ht, hy, rfl⟩ := setEntry_ok.mp hrun
  refine ⟨⟨y.insert "Contents" v, ?_, OrderedMap.get?_insert_self ..⟩, fun o ho => ?_⟩
  · rw [dict?_put hy, if_pos ht]
  · cases o with
    | reference id =>
      obtain ⟨o, ho⟩ := ho
      rw [Present, get?_put hy rfl rfl]
      split
      · exact ⟨_, rfl⟩
      · exact ⟨o, ho⟩
    | _ => trivial

/-- A page that content was added to has its content in place. -/
theorem appendBehind_stated {d' : Draft} {content : Bytes} (numbered : d.doc.Numbered)
    (present : ∀ o ∈ items, d.doc.Present o)
    (hrun : (appendBehind page content items).run d = .ok () d') :
    ∃ items', items' ≠ [] ∧
      (∃ y, d'.doc.dict? page = some y ∧ y.get? "Contents" = some (.array items')) ∧
      ∀ o ∈ items', d'.doc.Present o := by
  have hadded {doc : Document} (o : Object) (ho : o.isDirect = true) :
      (doc.add o).Present (.reference doc.nextId) := ⟨o, get?_add_nextId ho⟩
  unfold appendBehind at hrun
  split at hrun
  · rw [run_bind (run_stream d content), run_bind (run_add d _)] at hrun
    obtain ⟨hstated, hpresent⟩ := setContents_stated hrun
    refine ⟨_, List.cons_ne_nil _ _, hstated, fun o ho => hpresent o ?_⟩
    rw [List.mem_singleton.mp ho]
    exact hadded _ rfl
  · rw [run_bind (run_add d _), run_bind (run_stream _ _), run_bind (run_add _ _)] at hrun
    have unused₁ := (numbered.add (.ofStream ∅ (utf8 "q\n"))).unused
    obtain ⟨hstated, hpresent⟩ := setContents_stated hrun
    refine ⟨.reference d.doc.nextId :: items ++
      [.reference (d.doc.add (.ofStream ∅ (utf8 "q\n"))).nextId], by simp, hstated,
      fun o ho => hpresent o ?_⟩
    simp only [List.cons_append, List.mem_cons, List.mem_append, List.not_mem_nil, or_false] at ho
    rcases ho with rfl | ho | rfl
    · exact Present.add (hadded _ rfl) unused₁
    · exact Present.add (Present.add (present o ho) numbered.unused) unused₁
    · exact hadded _ rfl

theorem appendContent_extends {entry : Option Object} (numbered : d.doc.Numbered)
    (h : d.doc.Extendable page entry old) (content : Bytes) :
    ∃ d' items, (appendContent page content).run d = .ok () d' ∧ items ≠ [] ∧
      d'.doc.Extendable page (some (.array items)) (appended (keptItems entry) old content) := by
  obtain ⟨x, hx, rfl⟩ := h.stated
  obtain ⟨d', hrun, hcontent⟩ := appendContent_pageContent numbered hx h.legal h.read content
  rw [h.inPlace, if_neg Bool.false_ne_true, appended, h.legal.isEmpty_contentItems h.inPlace,
    ← appended] at hcontent
  have happended := hrun
  rw [appendContent_eq, run_bind (dict_ok.mpr ⟨hx, rfl⟩)] at happended
  obtain ⟨items, hitems, hstated, hpresent⟩ :=
    appendBehind_stated numbered h.legal.present happended
  exact ⟨d', items, hrun, hitems, hstated, .array hpresent, rfl, hcontent⟩

end Edit

end AccessiblePdf
