import Mathlib
import AccessiblePdf.Proofs.Content.Unwrapping
import AccessiblePdf.Proofs.Content.Writing
import AccessiblePdf.Proofs.Document.Shedding
import AccessiblePdf.Proofs.Structure.Rooting

/-!
What is left after all tags are removed. Page by page a document sheds its keys and its brackets with
MCIDs, and never gets any of them back; so at the end the catalog has no root, no page has a key, no
annotation that a page refers to or lists in place has one, and no content has an MCID
(`stripTags_clears`). An annotation in place in an array that has an id of its own keeps its key
(`stripTags_leaves_key`).
-/
namespace AccessiblePdf

open Edit

/-! ## Pages without tags -/

namespace Document

/-- A page without a key, whose annotations have none: but for a dictionary in place in an array that
the page refers to. -/
def Keyless (doc : Document) (x : Dict Object) : Prop :=
  x.get? "StructParents" = none ∧ ∀ item ∈ (doc.entryArray? x "Annots").getD [], ∀ a,
    (doc.resolve item).dictionary? = some a →
      a.get? "StructParent" = none ∨ item = .dictionary a ∧ ∃ id, x.get? "Annots" = some (.reference id)

/-- A page whose content can be read and opens no MCIDs. -/
def NoMcids (doc : Document) (page : ObjectId) : Prop :=
  ∃ ops, doc.pageOperations page = .ok ops ∧
    ∀ op ∈ ops, PageScan.openedMcid? (.ofDict doc (doc.pageResources page) []) op = none

variable {limit : Nat} {doc doc' : Document} {page page' : ObjectId} {x y : Dict Object}

theorem Sheds.annotation (h : doc.Sheds limit doc') {item item' : Object}
    (trimmed : item.Trimmed item') {b : Dict Object} (hb : (doc'.resolve item').dictionary? = some b) :
    ∃ a, (doc.resolve item).dictionary? = some a ∧
      (a.get? "StructParent" = none → b.get? "StructParent" = none) := by
  cases trimmed with
  | same =>
    cases item with
    | reference id =>
      rw [dictionary?_resolve] at hb ⊢
      obtain ⟨a, ha, entry⟩ := (h.dict?_rel id).exists_left hb
      exact ⟨a, ha, fun hnone => (entry _).none hnone (by decide)⟩
    | dictionary a =>
      obtain rfl := Option.some.inj hb
      exact ⟨a, rfl, fun hnone => hnone⟩
    | _ => exact absurd hb (by simp [resolve, Object.dictionary?])
  | @dictionary a _ entry =>
    obtain rfl := Option.some.inj hb
    refine ⟨a, rfl, fun hnone => ?_⟩
    rcases entry "StructParent" with hsame | ⟨-, hgone⟩
    · rw [hsame, hnone]
    · exact hgone

/-- Where there was no key there is none. -/
theorem Keyless.sheds (keyless : doc.Keyless x) (h : doc.Sheds limit doc')
    (entry : ∀ key, Shed limit key (x.get? key) (y.get? key)) : doc'.Keyless y := by
  refine ⟨(entry _).none keyless.1 (by decide), fun item hitem b hb => ?_⟩
  have hannots := entry "Annots"
  generalize hx : x.get? "Annots" = old at hannots
  generalize hy : y.get? "Annots" = new at hannots
  cases hannots with
  | same =>
    rw [h.entryArray?_eq (hy.trans hx.symm)] at hitem
    obtain ⟨a, ha, hnone⟩ := h.annotation (.same item) hb
    rcases keyless.2 item hitem a ha with hkey | ⟨rfl, id, hid⟩
    · exact Or.inl (hnone hkey)
    · obtain rfl := Option.some.inj hb
      exact Or.inr ⟨rfl, id, hx.symm.trans hid⟩
  | gone _ binding => exact absurd binding (by decide)
  | content _ here => exact absurd here (by decide)
  | @annotations items items' _ trimmed =>
    have hitems : doc.entryArray? x "Annots" = some items := by rw [entryArray?, value?, hx]; rfl
    have hitems' : doc'.entryArray? y "Annots" = some items' := by rw [entryArray?, value?, hy]; rfl
    rw [hitems', Option.getD_some] at hitem
    obtain ⟨item₀, hitem₀, htrim⟩ := Marking.exists_of_mem_forall₂ trimmed hitem
    obtain ⟨a, ha, hnone⟩ := h.annotation htrim hb
    rcases keyless.2 item₀ (by rw [hitems]; exact hitem₀) a ha with hkey | ⟨_, id, hid⟩
    · exact Or.inl (hnone hkey)
    · rw [hx] at hid
      cases hid

theorem Sheds.annotation_reference (h : doc.Sheds limit doc')
    (entry : ∀ key, Shed limit key (x.get? key) (y.get? key)) {id : ObjectId}
    (hid : .reference id ∈ (doc'.entryArray? y "Annots").getD []) :
    .reference id ∈ (doc.entryArray? x "Annots").getD [] := by
  have hannots := entry "Annots"
  generalize hx : x.get? "Annots" = old at hannots
  generalize hy : y.get? "Annots" = new at hannots
  cases hannots with
  | same =>
    rw [h.entryArray?_eq (hy.trans hx.symm)] at hid
    exact hid
  | gone _ binding => exact absurd binding (by decide)
  | content _ here => exact absurd here (by decide)
  | annotations _ trimmed =>
    rw [entryArray?, value?, hy] at hid
    rw [entryArray?, value?, hx]
    obtain ⟨item, hitem, htrim⟩ := Marking.exists_of_mem_forall₂ trimmed hid
    cases htrim
    exact hitem

/-- After a page was shorn it has no key, and its annotations have none if those with ids of their own
have none. -/
theorem keyless_shearPage (keyed : (Object.dictionary x).Keyed)
    (annotations : ∀ id, .reference id ∈ (doc.entryArray? (shearPage x) "Annots").getD [] →
      ∀ a, doc.dict? id = some a → a.get? "StructParent" = none) : doc.Keyless (shearPage x) := by
  have herase : ∀ key : Bytes, key ≠ "StructParents" →
      (x.erase "StructParents").get? key = x.get? key := by
    intro key hkey
    rw [OrderedMap.get?_erase keyed.1, if_neg hkey]
  have hgone : (x.erase "StructParents").get? "StructParents" = none := by
    rw [OrderedMap.get?_erase keyed.1, if_pos rfl]
  refine ⟨?_, fun item hitem a ha => ?_⟩
  · unfold shearPage
    dsimp only
    split
    · rw [OrderedMap.get?_insert_of_ne _ (by decide), hgone]
    · exact hgone
  · cases item with
    | reference id =>
      rw [dictionary?_resolve] at ha
      exact Or.inl (annotations id hitem a ha)
    | dictionary b =>
      obtain rfl := Option.some.inj ha
      unfold shearPage at hitem ⊢
      dsimp only at hitem ⊢
      split at hitem
      · next items hitems =>
        rw [entryArray?, value?, OrderedMap.get?_insert_self] at hitem
        obtain ⟨item, hmem, htrim⟩ := List.mem_map.mp hitem
        cases item with
        | dictionary c =>
          obtain rfl := Object.dictionary.inj htrim
          rw [herase _ (by decide)] at hitems
          left
          rw [OrderedMap.get?_erase (keyed.2 items hitems c hmem)]
          exact if_pos rfl
        | _ => cases htrim
      · next hnot =>
        cases hannots : (x.erase "StructParents").get? "Annots" with
        | none =>
          rw [entryArray?, value?, hannots] at hitem
          exact absurd hitem List.not_mem_nil
        | some o =>
          cases o with
          | reference id => exact Or.inr ⟨rfl, id, rfl⟩
          | array items => exact absurd hannots (hnot items)
          | _ =>
            rw [entryArray?, value?, hannots] at hitem
            exact absurd hitem List.not_mem_nil
    | _ => exact absurd ha (by simp [resolve, Object.dictionary?])

theorem NoMcids.congr (h : doc.NoMcids page) (same : doc.dict? page' = doc.dict? page) :
    doc.NoMcids page' := by
  obtain ⟨ops, hops, hnone⟩ := h
  have hcontent : doc.pageContent page' = doc.pageContent page := by
    rw [pageContent, pageContent, dict, dict, same]
  have hresources : doc.pageResources page' = doc.pageResources page := by
    rw [pageResources, pageResources, pageResources?, pageResources?, inherited?, inherited?, same]
  exact ⟨ops, by rw [pageOperations, hcontent]; exact hops, by rw [hresources]; exact hnone⟩

theorem Sheds.pageContent_eq (closed : doc.Closed) (h : doc.Sheds limit doc')
    (same : ∀ x y, doc.dict? page = some x → doc'.dict? page = some y →
      y.get? "Contents" = x.get? "Contents") : doc'.pageContent page = doc.pageContent page := by
  have hrel := h.dict?_rel page
  cases hx : doc.dict? page with
  | none =>
    rw [hx] at hrel
    cases hy : doc'.dict? page with
    | none => rw [pageContent, pageContent, dict, dict, hx, hy]; rfl
    | some y =>
      rw [hy] at hrel
      cases hrel
  | some x =>
    cases hy : doc'.dict? page with
    | none =>
      rw [hx, hy] at hrel
      cases hrel
    | some y => exact h.like.pageContent_eq closed hx hy (same x y hx hy)

theorem NoMcids.sheds (none : doc.NoMcids page) (closed : doc.Closed) (h : doc.Sheds limit doc')
    (same : doc'.pageContent page = doc.pageContent page) : doc'.NoMcids page := by
  obtain ⟨ops, hops, hnone⟩ := none
  refine ⟨ops, by rw [pageOperations, same]; exact hops, fun op hop => ?_⟩
  rw [Option.eq_none_iff_forall_ne_some]
  intro m hm
  have hold := h.openedMcid?_old closed [] hm
  rw [hnone op hop] at hold
  cases hold

theorem NoMcids.scan (h : doc.NoMcids page) : ∃ ops, doc.pageOperations page = .ok ops ∧
    (doc.scan page ops).mcids = [] ∧ ∀ o ∈ (doc.scan page ops).operators, o.marks.mcid = none := by
  obtain ⟨ops, hops, hnone⟩ := h
  -- Taking the brackets with MCIDs away, of which there are none, leaves content without MCIDs.
  have hkept : Marking.unwrap (.ofDict doc (doc.pageResources page) []) ops = (ops, 0) :=
    Marking.unwrapFrom_eq_self hnone List.not_mem_nil
  obtain ⟨hdrawn, hmcids, -, -⟩ := Marking.unwrap_exact doc (doc.pageResources page) [] ops
  rw [hkept] at hdrawn hmcids
  refine ⟨ops, hops, hmcids, fun o ho => ?_⟩
  obtain ⟨_, _, hunmarked⟩ := Marking.exists_of_mem_forall₂ hdrawn ho
  exact hunmarked.mcid

end Document

/-! ## Runs that shed -/

/-- A later draft has shed something and is the same otherwise. -/
structure Draft.Sheds (limit : Nat) (d d' : Draft) : Prop where
  doc : d.doc.Sheds limit d'.doc
  nodes : d'.nodes = d.nodes

namespace Draft.Sheds

variable {limit : Nat} {d d₁ d' : Draft}

theorem refl (tidy : d.doc.Tidy limit) : d.Sheds limit d := ⟨.refl tidy, rfl⟩

theorem trans (h : d.Sheds limit d₁) (h' : d₁.Sheds limit d') : d.Sheds limit d' :=
  ⟨h.doc.trans h'.doc, h'.nodes.trans h.nodes⟩

theorem put (tidy : d.doc.Tidy limit) {t : ObjectId} {x y : Dict Object}
    (hx : d.doc.objects.get? t = some (.dictionary x)) (shorn : Shorn limit d.doc.maxId x y) :
    d.Sheds limit { d with doc := d.doc.put t (.dictionary y) } := ⟨.put tidy hx shorn, rfl⟩

end Draft.Sheds

namespace Edit

variable {limit : Nat} {d d' : Draft} {page : ObjectId} {u : Unit}

/-- A loop that always goes on does what its body does, and at some point what that does for an
item. -/
theorem forIn_steps {α : Type} {R : Draft → Draft → Prop} (refl : ∀ d, R d d)
    (trans : ∀ d d₁ d', R d d₁ → R d₁ d' → R d d') {f : α → PUnit → Edit (ForInStep PUnit)}
    {items : List α}
    (steps : ∀ a ∈ items, ∀ w d step d', (f a w).run d = .ok step d' → R d d' ∧ step = .yield ⟨⟩)
    {v : PUnit} (hrun : (forIn items PUnit.unit f).run d = .ok v d') :
    R d d' ∧ ∀ a ∈ items, ∃ w step d₁ d₂, R d d₁ ∧ (f a w).run d₁ = .ok step d₂ ∧ R d₂ d' := by
  induction items generalizing d with
  | nil =>
    rw [(pure_ok.mp hrun).2]
    exact ⟨refl d, fun a ha => absurd ha List.not_mem_nil⟩
  | cons a items ih =>
    rw [List.forall_mem_cons] at steps
    rw [List.forIn_cons, bind_ok] at hrun
    obtain ⟨step, d₁, hstep, hrest⟩ := hrun
    obtain ⟨hfirst, rfl⟩ := steps.1 _ d step d₁ hstep
    obtain ⟨hlater, hitems⟩ := ih steps.2 hrest
    refine ⟨trans d d₁ d' hfirst hlater, List.forall_mem_cons.mpr ⟨?_, fun b hb => ?_⟩⟩
    · exact ⟨_, _, d, d₁, refl d, hstep, hlater⟩
    · obtain ⟨w, step, d₂, d₃, hbefore, hb, hafter⟩ := hitems b hb
      exact ⟨w, step, d₂, d₃, trans d d₁ d₂ hfirst hbefore, hb, hafter⟩

/-- An annotation with an id of its own sheds its key. -/
theorem trim_step {id : ObjectId} {step : ForInStep PUnit} (hrun : (do
      match (← doc).modifyDict? id (·.erase annotationKey) with
      | some doc => do
        setDoc doc
        pure (ForInStep.yield PUnit.unit)
      | none => pure (ForInStep.yield PUnit.unit) : Edit (ForInStep PUnit)).run d = .ok step d') :
    (d.doc.Tidy limit → d.Sheds limit d' ∧
      ∀ a, d'.doc.dict? id = some a → a.get? "StructParent" = none) ∧ step = .yield ⟨⟩ := by
  rw [bind_ok] at hrun
  obtain ⟨doc, d₁, hdoc, hrun⟩ := hrun
  obtain ⟨rfl, rfl⟩ := doc_ok.mp hdoc
  cases hmodify : d₁.doc.modifyDict? id (·.erase annotationKey) with
  | none =>
    rw [hmodify] at hrun
    obtain ⟨rfl, rfl⟩ := pure_ok.mp hrun
    refine ⟨fun tidy => ⟨.refl tidy, fun a ha => ?_⟩, rfl⟩
    obtain ⟨t, ht, hx⟩ := Document.target?_of_dict? ha
    rw [Document.modifyDict?_eq_some.mpr ⟨t, a, ht, hx, rfl⟩] at hmodify
    cases hmodify
  | some doc =>
    rw [hmodify] at hrun
    obtain ⟨_, d₂, hset, hyield⟩ := bind_ok.mp hrun
    obtain rfl := setDoc_ok.mp hset
    obtain ⟨rfl, rfl⟩ := pure_ok.mp hyield
    obtain ⟨t, a, ht, hx, rfl⟩ := Document.modifyDict?_eq_some.mp hmodify
    refine ⟨fun tidy => ?_, rfl⟩
    have keyed := tidy.keyed t _ hx
    refine ⟨.put tidy hx (.erase keyed (by decide)), fun b hb => ?_⟩
    dsimp only at hb
    rw [Document.dict?_put hx, if_pos ht] at hb
    obtain rfl := Option.some.inj hb
    rw [OrderedMap.get?_erase keyed.1]
    exact if_pos rfl

/-- The keys of a page and of its annotations are shed. -/
theorem stripAnnotations_keyless (tidy : d.doc.Tidy limit)
    (hrun : (stripAnnotations page).run d = .ok u d') :
    d.Sheds limit d' ∧ ∃ x, d'.doc.dict? page = some x ∧ d'.doc.Keyless x := by
  unfold stripAnnotations at hrun
  rw [bind_ok] at hrun
  obtain ⟨x, d₁, hdict, hrun⟩ := hrun
  obtain ⟨hx, rfl⟩ := dict_ok.mp hdict
  rw [bind_ok] at hrun
  obtain ⟨doc, d₂, hdoc, hrun⟩ := hrun
  obtain ⟨rfl, rfl⟩ := doc_ok.mp hdoc
  rw [bind_ok] at hrun
  obtain ⟨_, d₃, hloop, hrun⟩ := hrun
  obtain ⟨hsheds, hids⟩ := forIn_steps
    (R := fun d d' => d.doc.Tidy limit → d.Sheds limit d') (fun _ tidy => .refl tidy)
    (fun _ _ _ h h' tidy => (h tidy).trans (h' (h tidy).doc.tidy))
    (fun id _ w d step d' hstep => by
      have h : (d.doc.Tidy limit → d.Sheds limit d' ∧ _) ∧ _ := trim_step hstep
      exact ⟨fun tidy => (h.1 tidy).1, h.2⟩) hloop
  replace hsheds := hsheds tidy
  have hnone : ∀ id, .reference id ∈ (d₂.doc.entryArray? x "Annots").getD [] → ∀ a,
      d₃.doc.dict? id = some a → a.get? "StructParent" = none := by
    intro id hid a ha
    obtain ⟨_, _, d₄, d₅, hbefore, hstep, hafter⟩ :=
      hids id (List.mem_filterMap.mpr ⟨_, hid, rfl⟩)
    obtain ⟨hstep, hclear⟩ := (trim_step hstep).1 (hbefore tidy).doc.tidy
    obtain ⟨b, hb, entry⟩ := ((hafter hstep.doc.tidy).doc.dict?_rel id).exists_left ha
    exact (entry _).none (hclear b hb) (by decide)
  replace hrun : (modifyDict page shearPage).run d₃ = .ok u d' := hrun
  obtain ⟨t, y, ht, hy, rfl⟩ := modifyDict_ok.mp hrun
  have keyed := hsheds.doc.tidy.keyed t _ hy
  have hpage : d₃.Sheds limit { d₃ with doc := d₃.doc.put t (.dictionary (shearPage y)) } :=
    .put hsheds.doc.tidy hy (.page keyed)
  have hdict : (d₃.doc.put t (.dictionary (shearPage y))).dict? page = some (shearPage y) := by
    rw [Document.dict?_put hy, if_pos ht]
  refine ⟨hsheds.trans hpage, _, hdict, Document.keyless_shearPage keyed fun id hid a ha => ?_⟩
  obtain ⟨b, hb, entry⟩ := (hpage.doc.dict?_rel id).exists_left ha
  have hlisted : .reference id ∈ (d₂.doc.entryArray? x "Annots").getD [] := by
    have hy : d₃.doc.dict? page = some y :=
      Document.dict?_of_get? (by rw [Document.get?_eq_of_target? ht, hy])
    obtain ⟨z, hz, entry⟩ := (hsheds.doc.dict?_rel page).exists_left hy
    obtain rfl := Option.some.inj (hx.symm.trans hz)
    have hshorn : Shorn limit d₃.doc.maxId y (shearPage y) := .page keyed
    exact hsheds.doc.annotation_reference entry (hpage.doc.annotation_reference hshorn.entry hid)
  exact (entry _).none (hnone id hlisted b hb) (by decide)

end Edit

/-! ## Content -/

namespace Document

/-- Nothing refers to objects that there are not yet, and the content of pages can be read again after it
was written. -/
structure Rereadable (doc : Document) : Prop where
  closed : doc.Closed
  content : ∀ page ∈ doc.pages, ∀ ops, doc.pageOperations page = .ok ops →
    ∀ op ∈ ops, op.Plain ∧ op.WholeMcid

/-- On the way from a document to one without tags: pages have the content that they had, or content
without MCIDs. -/
structure Sweeps (base doc doc' : Document) : Prop where
  sheds : doc.Sheds base.maxId doc'
  content : base.Rereadable → ∀ page,
    doc'.pageContent page = doc.pageContent page ∨ doc'.NoMcids page

namespace Sweeps

variable {base doc doc₁ doc' : Document} {page : ObjectId}

theorem refl (tidy : doc.Tidy base.maxId) : base.Sweeps doc doc :=
  ⟨.refl tidy, fun _ _ => Or.inl rfl⟩

theorem noMcids (h : base.Sweeps doc doc') (closed : doc.Closed) (reread : base.Rereadable)
    (none : doc.NoMcids page) : doc'.NoMcids page :=
  (h.content reread page).elim (none.sheds closed h.sheds) id

theorem trans (closed : base.Closed → doc.Closed) (h : base.Sweeps doc doc₁)
    (h' : base.Sweeps doc₁ doc') : base.Sweeps doc doc' where
  sheds := h.sheds.trans h'.sheds
  content := by
    intro reread page
    rcases h.content reread page with hsame | hnone
    · rcases h'.content reread page with hsame' | hnone'
      · exact Or.inl (hsame'.trans hsame)
      · exact Or.inr hnone'
    · exact Or.inr (h'.noMcids (h.sheds.closed (closed reread.closed)) reread hnone)

theorem of_sheds (h : doc.Sheds base.maxId doc') (closed : base.Closed → doc.Closed)
    (same : ∀ page x y, doc.dict? page = some x → doc'.dict? page = some y →
      y.get? "Contents" = x.get? "Contents") : base.Sweeps doc doc' :=
  ⟨h, fun reread page => Or.inl (h.pageContent_eq (closed reread.closed) (same page))⟩

end Sweeps

end Document

namespace Edit

variable {limit : Nat} {d d' : Draft} {base : Document} {page : ObjectId} {u : Unit}

/-- The content of a page, and of every page that is the same dictionary, is what was written. -/
theorem setOperations_sheds {ops : List Operation} (tidy : d.doc.Tidy limit)
    (hrun : (setOperations page ops).run d = .ok u d') : d.Sheds limit d' ∧
      d'.doc.pageContent page = .ok (Operation.writeAll ops ++ [0x0A]) ∧
      ∀ page', d'.doc.dict? page' = d'.doc.dict? page ∨ ∀ x, d.doc.dict? page' = some x →
        d'.doc.dict? page' = some x := by
  unfold setOperations at hrun
  rw [run_bind (run_stream d _), run_bind (run_add d _)] at hrun
  obtain ⟨t, x, ht, hx, rfl⟩ := setEntry_ok.mp hrun
  set o := contentStream d.packing (Operation.writeAll ops) with ho
  have hadd : d.doc.Sheds limit (d.doc.add o) := .add tidy _ _
  have above : limit < d.doc.nextId.number := Nat.lt_succ_of_le tidy.limit_le
  set doc' := (d.doc.add o).put t (.dictionary (x.insert "Contents" (.reference d.doc.nextId)))
    with hdoc'
  have hput : (d.doc.add o).Sheds limit doc' :=
    .put hadd.tidy hx (.content (hadd.tidy.keyed t _ hx) above (Nat.le_refl _))
  have hpage : doc'.dict? page = some (x.insert "Contents" (.reference d.doc.nextId)) := by
    rw [hdoc', Document.dict?_put hx, if_pos ht]
  refine ⟨⟨hadd.trans hput, rfl⟩, ?_, fun page' => ?_⟩
  · have hne : d.doc.nextId ≠ t := by
      rintro rfl
      rw [Document.objects_add, if_pos rfl, ho] at hx
      cases hx
    have hstream : doc'.get? d.doc.nextId = some o := by
      refine Document.get?_of_direct ?_ rfl
      rw [hdoc', Document.objects_put, if_neg hne, Document.objects_add, if_pos rfl]
    show doc'.pageContent page = _
    rw [Document.pageContent_of_some hpage (OrderedMap.get?_insert_self _ _ _), Document.resolve,
      hstream, Option.getD_some]
    exact Document.joinStreams_contentStream rfl
  · show doc'.dict? page' = doc'.dict? page ∨ _
    by_cases htarget : (d.doc.add o).target? page' = some t
    · exact Or.inl (by rw [hpage, hdoc', Document.dict?_put hx, if_pos htarget])
    · refine Or.inr fun y hy => ?_
      show doc'.dict? page' = some y
      rw [hdoc', Document.dict?_put hx, if_neg htarget]
      exact Document.dict?_of_get?
        (Document.get?_add tidy.numbered.unused o (Document.get?_of_dict? hy))

/-- The content of a page is read, and what is left of it without brackets that have an MCID is written
if there were any. -/
theorem stripContent_ok (hrun : (stripContent page).run d = .ok u d') :
    ∃ ops, d.doc.pageOperations page = .ok ops ∧
      let r := Marking.unwrap (.ofDict d.doc (d.doc.pageResources page) []) ops
      r.2 = 0 ∧ d' = d ∨ 0 < r.2 ∧ (setOperations page r.1).run d = .ok u d' := by
  unfold stripContent at hrun
  rw [bind_ok] at hrun
  obtain ⟨doc, d₁, hdoc, hrun⟩ := hrun
  obtain ⟨rfl, rfl⟩ := doc_ok.mp hdoc
  rw [bind_ok] at hrun
  obtain ⟨ops, d₂, hops, hrun⟩ := hrun
  obtain ⟨hops, rfl⟩ := lift_ok.mp hops
  refine ⟨ops, hops, ?_⟩
  intro r
  replace hrun : (if 0 < r.2 then setOperations page r.1 else pure ()).run d₂ = .ok u d' := hrun
  split at hrun
  · next hpositive => exact Or.inr ⟨hpositive, hrun⟩
  · next hzero => exact Or.inl ⟨Nat.eq_zero_of_not_pos hzero, (pure_ok.mp hrun).2⟩

/-- Afterwards the content of a page has no MCIDs, if it is what it was in the document that is stripped
or had none before. -/
theorem stripContent_noMcids (hpage : page ∈ base.pages) (sheds : base.Sheds base.maxId d.doc)
    (settled : base.Rereadable →
      d.doc.pageContent page = base.pageContent page ∨ d.doc.NoMcids page)
    (hrun : (stripContent page).run d = .ok u d') :
    d'.nodes = d.nodes ∧ base.Sweeps d.doc d'.doc ∧ (base.Rereadable → d'.doc.NoMcids page) := by
  obtain ⟨ops, hops, hcases⟩ := stripContent_ok hrun
  set r := ContentResources.ofDict d.doc (d.doc.pageResources page) [] with hr
  rcases hcases with ⟨hzero, rfl⟩ | ⟨hpositive, hset⟩
  · refine ⟨rfl, .refl sheds.tidy, fun _ => ⟨ops, hops, fun op hop => ?_⟩⟩
    rw [Marking.unwrap, Marking.snd_unwrapFrom, List.countP_eq_zero] at hzero
    simpa using hzero op hop
  · obtain ⟨hsheds, hcontent, hother⟩ := setOperations_sheds sheds.tidy hset
    have hbare : base.Rereadable → d'.doc.NoMcids page := by
      intro reread
      have hsame : d.doc.pageContent page = base.pageContent page := by
        refine (settled reread).resolve_right fun hnone => ?_
        obtain ⟨ops', hops', hnone⟩ := hnone
        obtain rfl := Except.ok.inj (hops'.symm.trans hops)
        rw [Marking.unwrap, Marking.unwrapFrom_eq_self hnone List.not_mem_nil] at hpositive
        exact absurd hpositive (Nat.lt_irrefl 0)
      have hbase : base.pageOperations page = .ok ops := by
        rw [Document.pageOperations, ← hsame]
        exact hops
      have hkept : ∀ op ∈ (Marking.unwrapFrom r [] ops).1, op.Plain ∧ op.WholeMcid := fun op hop =>
        reread.content page hpage ops hbase op ((Marking.unwrapFrom_sublist r [] ops).subset hop)
      have hback := Operation.readAll_writeAll fun op hop => (hkept op hop).1
      refine ⟨_, by rw [Document.pageOperations, hcontent]; exact hback, fun op hop => ?_⟩
      obtain ⟨op, hkeep, rfl⟩ := List.mem_map.mp hop
      rw [Option.eq_none_iff_forall_ne_some]
      intro m hm
      have hold := Operation.openedMcid?_reread (hkept op hkeep).2
        (hsheds.doc.openedMcid?_old (sheds.closed reread.closed) [] hm)
      rw [Marking.openedMcid_of_mem_unwrapFrom hkeep] at hold
      cases hold
    refine ⟨hsheds.nodes, ⟨hsheds.doc, fun reread page' => ?_⟩, hbare⟩
    rcases hother page' with hsame | hkept
    · exact Or.inr ((hbare reread).congr hsame)
    · refine Or.inl (hsheds.doc.pageContent_eq (sheds.closed reread.closed) fun x y hx hy => ?_)
      rw [Option.some.inj ((hkept x hx).symm.trans hy)]

theorem stripAnnotations_sweeps (sheds : base.Sheds base.maxId d.doc)
    (hrun : (stripAnnotations page).run d = .ok u d') : base.Sweeps d.doc d'.doc := by
  obtain ⟨hsheds, -⟩ := stripAnnotations_keyless sheds.tidy hrun
  refine .of_sheds hsheds.doc sheds.closed fun page' x y hx hy => ?_
  have sparing : Sparing (· ∈ [utf8 "StructParent", utf8 "StructParents", utf8 "Annots"])
      (stripAnnotations page) := sparing_stripAnnotations (by decide) page
  have spares := sparing d d' u hrun sheds.tidy.numbered
  obtain ⟨t, ht, hobject⟩ := Document.target?_of_dict? hx
  obtain ⟨_, z, hz, hsame⟩ := spares.exists_dict hx (sheds.tidy.keyed t _ hobject).1
  obtain rfl := Option.some.inj (hz.symm.trans hy)
  exact hsame _ (by decide)

theorem stripPage_step {step : ForInStep PUnit} (hrun : (do
      stripAnnotations page
      stripContent page
      pure (ForInStep.yield PUnit.unit) : Edit (ForInStep PUnit)).run d = .ok step d') :
    (page ∈ base.pages → base.Sweeps base d.doc → d'.nodes = d.nodes ∧ base.Sweeps d.doc d'.doc ∧
      (∃ x, d'.doc.dict? page = some x ∧ d'.doc.Keyless x) ∧
      (base.Rereadable → d'.doc.NoMcids page)) ∧ step = .yield ⟨⟩ := by
  obtain ⟨_, d₁, hannotations, hrun⟩ := bind_ok.mp hrun
  obtain ⟨_, d₂, hcontent, hyield⟩ := bind_ok.mp hrun
  obtain ⟨rfl, rfl⟩ := pure_ok.mp hyield
  refine ⟨fun hpage h => ?_, rfl⟩
  obtain ⟨hsheds, x, hx, keyless⟩ := stripAnnotations_keyless h.sheds.tidy hannotations
  have hkeys := stripAnnotations_sweeps h.sheds hannotations
  have hbefore := h.trans id hkeys
  obtain ⟨hnodes, hafter, hbare⟩ := stripContent_noMcids hpage hbefore.sheds
    (fun reread => hbefore.content reread page) hcontent
  obtain ⟨y, hy, entry⟩ := (hafter.sheds.dict?_rel page).exists_right hx
  exact ⟨hnodes.trans hsheds.nodes, hkeys.trans h.sheds.closed hafter,
    ⟨y, hy, keyless.sheds hafter.sheds entry⟩, hbare⟩

/-- The catalog sheds its root, with as many objects as before. -/
theorem eraseRoot_sweeps (tidy : d.doc.Tidy d.doc.maxId)
    (hrun : (modifyCatalog (·.erase "StructTreeRoot")).run d = .ok u d') :
    d.doc.Sweeps d.doc d'.doc ∧ d'.doc.objects.size = d.doc.objects.size := by
  unfold modifyCatalog at hrun
  obtain ⟨catalog, d₁, hcatalog, hmodify⟩ := bind_ok.mp hrun
  obtain ⟨-, rfl⟩ := catalogId_ok.mp hcatalog
  obtain ⟨t, x, ht, hx, rfl⟩ := modifyDict_ok.mp hmodify
  have keyed := tidy.keyed t _ hx
  have hput : d₁.doc.Sheds d₁.doc.maxId (d₁.doc.put t (.dictionary (x.erase "StructTreeRoot"))) :=
    .put tidy hx (.erase keyed (by decide))
  refine ⟨.of_sheds hput id fun page y z hy hz => ?_, ?_⟩
  · dsimp only at hz
    rw [Document.dict?_put hx] at hz
    split at hz
    · next htarget =>
      obtain rfl := Option.some.inj hz
      obtain ⟨t', ht', hy⟩ := Document.target?_of_dict? hy
      obtain rfl := Option.some.inj (htarget.symm.trans ht')
      obtain rfl := Object.dictionary.inj (Option.some.inj (hx.symm.trans hy))
      rw [OrderedMap.get?_erase keyed.1, if_neg (by decide)]
    · rw [Option.some.inj (hy.symm.trans hz)]
  · have hkeys := congrArg List.length
      (OrderedMap.keys_insert (b := .dictionary (x.erase "StructTreeRoot")) hx)
    rw [OrderedMap.keys, OrderedMap.keys, List.length_map, List.length_map] at hkeys
    exact hkeys

/-- What is left of all tags. -/
theorem stripTags_sweeps (tidy : d.doc.Tidy d.doc.maxId) (hrun : (stripTags).run d = .ok u d') :
    d'.nodes = ∅ ∧ d.doc.Sweeps d.doc d'.doc ∧ ∀ page ∈ d.doc.pages,
      (∃ x, d'.doc.dict? page = some x ∧ d'.doc.Keyless x) ∧
        (d.doc.Rereadable → d'.doc.NoMcids page) := by
  unfold stripTags at hrun
  obtain ⟨_, d₁, hcatalog, hrun⟩ := bind_ok.mp hrun
  obtain ⟨hroot, hsize⟩ := eraseRoot_sweeps tidy hcatalog
  obtain ⟨_, d₂, hclear, hrun⟩ := bind_ok.mp hrun
  obtain rfl := clearNodes_ok.mp hclear
  obtain ⟨doc, d₃, hdoc, hrun⟩ := bind_ok.mp hrun
  obtain ⟨rfl, rfl⟩ := doc_ok.mp hdoc
  obtain ⟨_, d₄, hloop, hrun⟩ := bind_ok.mp hrun
  obtain ⟨-, rfl⟩ := pure_ok.mp hrun
  have hpages : d₁.doc.pages = d.doc.pages := by
    rw [hroot.sheds.pages_eq, hsize, Document.pages_eq_pagesWithin]
  -- Every page is stripped on the way from a document that was swept before to one that is swept on.
  obtain ⟨hswept, hsteps⟩ := forIn_steps
    (R := fun a b => d.doc.Sweeps d.doc a.doc → b.nodes = a.nodes ∧ d.doc.Sweeps a.doc b.doc)
    (fun _ h => ⟨rfl, .refl h.sheds.tidy⟩)
    (fun _ _ _ h h' hbase => by
      obtain ⟨hnodes, hfirst⟩ := h hbase
      obtain ⟨hnodes', hlater⟩ := h' (hbase.trans id hfirst)
      exact ⟨hnodes'.trans hnodes, hfirst.trans hbase.sheds.closed hlater⟩)
    (fun page hpage w a step b hstep => by
      obtain ⟨hclears, hyield⟩ := stripPage_step hstep
      refine ⟨fun hbase => ?_, hyield⟩
      obtain ⟨hnodes, hsweeps, -⟩ := hclears (hpages ▸ hpage) hbase
      exact ⟨hnodes, hsweeps⟩) hloop
  obtain ⟨hnodes, hlast⟩ := hswept hroot
  refine ⟨hnodes, hroot.trans id hlast, fun page hpage => ?_⟩
  obtain ⟨_, _, a, b, hbefore, hstep, hafter⟩ := hsteps page (hpages ▸ hpage)
  have hbase := hroot.trans id (hbefore hroot).2
  obtain ⟨-, hsweeps, ⟨x, hx, keyless⟩, hbare⟩ := (stripPage_step hstep).1 hpage hbase
  have hlater := (hafter (hbase.trans id hsweeps)).2
  obtain ⟨y, hy, entry⟩ := (hlater.sheds.dict?_rel page).exists_right hx
  refine ⟨⟨y, hy, keyless.sheds hlater.sheds entry⟩, fun reread => ?_⟩
  exact hlater.noMcids (hsweeps.sheds.closed (hbase.sheds.closed reread.closed)) reread (hbare reread)

/-- Removing all tags leaves a catalog without a root and pages without keys, whose annotations have no
keys but for those in place in an array that the page refers to; these arrays are as they were. No
declared element is known any more. If the content of pages can be written and read again, then no
content has an MCID. The pages are those of the document as it was, of which more are found only when
the walk over its page tree was cut off. -/
theorem stripTags_clears (numbered : d.doc.Numbered)
    (keyed : ∀ id o, d.doc.objects.get? id = some o → o.Keyed)
    (hrun : (stripTags).run d = .ok u d') :
    d'.nodes = ∅ ∧ (∃ x, d'.doc.catalogDict? = some x ∧ x.get? "StructTreeRoot" = none) ∧
      d'.doc.pages = d.doc.pagesWithin d'.doc.objects.size ∧ ∀ page ∈ d.doc.pages,
        (∃ x x', d.doc.dict? page = some x ∧ d'.doc.dict? page = some x' ∧ d'.doc.Keyless x' ∧
          ∀ id, x.get? "Annots" = some (.reference id) →
            d'.doc.entryArray? x' "Annots" = d.doc.entryArray? x "Annots") ∧
        (d.doc.Rereadable → ∃ ops, d'.doc.pageOperations page = .ok ops ∧
          (d'.doc.scan page ops).mcids = [] ∧
          ∀ o ∈ (d'.doc.scan page ops).operators, o.marks.mcid = none) := by
  have tidy := numbered.tidy keyed
  have hcatalog : ∃ x, d'.doc.catalogDict? = some x ∧ x.get? "StructTreeRoot" = none := by
    have hdistinct : ∀ x, d.doc.catalogDict? = some x → x.Distinct := by
      intro x hx
      obtain ⟨id, -, hx⟩ := Option.bind_eq_some_iff.mp hx
      obtain ⟨t, -, hobject⟩ := Document.target?_of_dict? hx
      exact (keyed t _ hobject).1
    obtain ⟨x, hx, -, hroot⟩ := (stripTags_unrooted numbered hdistinct hrun).2.catalog
    exact ⟨x, hx, hroot⟩
  obtain ⟨hnodes, hsweeps, hclears⟩ := stripTags_sweeps tidy hrun
  refine ⟨hnodes, hcatalog, hsweeps.sheds.pages_eq, fun page hpage => ⟨?_, fun reread => ?_⟩⟩
  · obtain ⟨x', hx', keyless⟩ := (hclears page hpage).1
    obtain ⟨x, hx, entry⟩ := (hsweeps.sheds.dict?_rel page).exists_left hx'
    refine ⟨x, x', hx, hx', keyless, fun id hid => hsweeps.sheds.entryArray?_eq ?_⟩
    have hannots := entry "Annots"
    rw [hid] at hannots ⊢
    generalize x'.get? "Annots" = o at hannots
    cases hannots with
    | same => rfl
    | gone _ binding => exact absurd binding (by decide)
    | content _ here => exact absurd here (by decide)
  · exact ((hclears page hpage).2 reread).scan

/-! ## A tagged page -/

section TaggedPage

/-- A document of one page, with a root that may be bound to the catalog. -/
def pageWith (catalog page : List (Bytes × Object)) (more : List (ObjectId × Object)) : Draft where
  doc.version := "1.7"
  doc.trailer := .ofList [(utf8 "Root", .reference ⟨1, 0⟩)]
  doc.objects := .ofList ([
    (⟨1, 0⟩, .ofEntries ((utf8 "Pages", .reference ⟨2, 0⟩) :: catalog)),
    (⟨2, 0⟩, .ofEntries [(utf8 "Type", .name "Pages"), (utf8 "Kids", .array [.reference ⟨3, 0⟩])]),
    (⟨3, 0⟩, .ofEntries ((utf8 "Type", .name "Page") :: page)),
    (⟨4, 0⟩, .ofEntries [(utf8 "Type", .name "StructTreeRoot")])] ++ more)
  doc.maxId := 4 + more.length
  compress := false

/-- A path in brackets with an MCID. -/
def taggedPath : List Operation :=
  [⟨"BDC", [.name "P", .ofEntries [(utf8 "MCID", .integer 0)]]⟩, ⟨"f", []⟩, ⟨"EMC", []⟩]

/-- Annotations of which the second one has an id of its own. -/
def twoAnnotations (first : List (Bytes × Object)) : Object :=
  .array [.ofEntries first, .reference ⟨6, 0⟩]

/-- The page with tags. -/
def annotated (annots : Object) (more : List (ObjectId × Object)) : Draft :=
  pageWith [(utf8 "StructTreeRoot", .reference ⟨4, 0⟩)]
    [(utf8 "Contents", .reference ⟨5, 0⟩), (utf8 "StructParents", .integer 0), (utf8 "Annots", annots)]
    ([(⟨5, 0⟩, .ofStream ∅ (Operation.writeAll taggedPath)),
      (⟨6, 0⟩, .ofEntries [(utf8 "StructParent", .integer 2)])] ++ more)

/-- The page without tags. -/
def swept (content : ObjectId) (annots : Object) (more : List (ObjectId × Object)) : Draft :=
  pageWith [] [(utf8 "Contents", .reference content), (utf8 "Annots", annots)]
    ([(⟨5, 0⟩, .ofStream ∅ (Operation.writeAll taggedPath)), (⟨6, 0⟩, .ofEntries [])] ++ more ++
      [(content, .ofStream ∅ (Operation.writeAll [⟨"f", []⟩]))])

theorem plain_taggedPath : ∀ op ∈ taggedPath, op.Plain ∧ op.WholeMcid := by
  have hwords : ∀ op ∈ taggedPath, utf8 op.operator ≠ [] ∧
      (∀ b ∈ utf8 op.operator, Operation.isOperatorByte b = true) ∧
      (∀ w ∈ [utf8 "null", utf8 "true", utf8 "false"], ¬w <+: utf8 op.operator) ∧
      ¬utf8 "BI" <+: utf8 op.operator := by
    decide +kernel
  have hoperands : ∀ op ∈ taggedPath, ∀ o ∈ op.operands, o.writable = true ∧ o.reference? = none := by
    decide
  intro op hop
  obtain ⟨hnonempty, hword, hobject, himage⟩ := hwords op hop
  refine ⟨⟨hnonempty, hword, hobject, fun _ => himage, hoperands op hop⟩, fun d hd x hx => ?_⟩
  simp only [taggedPath, List.mem_cons, List.not_mem_nil, or_false] at hop
  rcases hop with rfl | rfl | rfl
  · obtain rfl := Object.dictionary.inj (Option.some.inj hd)
    cases hx
  · cases hd
  · cases hd

theorem rereadable_annotated :
    (annotated (twoAnnotations [(utf8 "StructParent", .integer 1)]) []).doc.Rereadable := by
  set doc := (annotated (twoAnnotations [(utf8 "StructParent", .integer 1)]) []).doc with hdoc
  constructor
  · have hall : ∀ e ∈ doc.objects.entries,
        e.1.number ≤ 6 ∧ ∀ id ∈ e.2.references, id.number ≤ 6 := by
      decide
    have htrailer : ∀ id ∈ (Object.dictionary doc.trailer).references, id.number ≤ 6 := by decide
    exact ⟨fun id o ho => hall _ (OrderedMap.mem_of_get? ho), htrailer⟩
  · have hpages : doc.pages = [⟨3, 0⟩] := by cbv
    have hread : doc.pageOperations ⟨3, 0⟩ = .ok taggedPath := by cbv
    intro page hpage ops hops
    rw [hpages, List.mem_singleton] at hpage
    subst hpage
    obtain rfl := Except.ok.inj (hread.symm.trans hops)
    exact plain_taggedPath

/-- Nothing is left of the tags of the page, whose annotations it lists in place. -/
theorem stripTags_clears_annotated :
    let d := annotated (twoAnnotations [(utf8 "StructParent", .integer 1)]) []
    d.doc.Numbered ∧ (∀ id o, d.doc.objects.get? id = some o → o.Keyed) ∧ d.doc.Rereadable ∧
      ∃ d', (stripTags).run d = .ok () d' ∧
        (∃ x, d'.doc.dict? ⟨3, 0⟩ = some x ∧ d'.doc.Keyless x) ∧
        ∃ ops, d'.doc.pageOperations ⟨3, 0⟩ = .ok ops ∧ (d'.doc.scan ⟨3, 0⟩ ops).mcids = [] := by
  intro d
  have numbered : d.doc.Numbered := Document.numbered_of_entries (by decide)
  have keyed : ∀ id o, d.doc.objects.get? id = some o → o.Keyed := by
    have hall : ∀ e ∈ d.doc.objects.entries, e.2.Keyed := by decide
    exact fun id o ho => hall _ (OrderedMap.mem_of_get? ho)
  have hrun : (stripTags).run d = .ok () (swept ⟨7, 0⟩ (twoAnnotations []) []) := by cbv
  have hpage : ⟨3, 0⟩ ∈ d.doc.pages := by
    have hpages : d.doc.pages = [⟨3, 0⟩] := by cbv
    rw [hpages]
    exact List.mem_singleton_self _
  obtain ⟨-, -, -, hclears⟩ := stripTags_clears numbered keyed hrun
  obtain ⟨⟨-, x, -, hx, keyless, -⟩, hcontent⟩ := hclears _ hpage
  obtain ⟨ops, hops, hmcids, -⟩ := hcontent rereadable_annotated
  exact ⟨numbered, keyed, rereadable_annotated, _, hrun, ⟨x, hx, keyless⟩, ops, hops, hmcids⟩

/-- An annotation in place keeps its key if the page refers to the array. -/
theorem stripTags_leaves_key :
    let annots := twoAnnotations [(utf8 "StructParent", .integer 1)]
    ∃ d', (stripTags).run (annotated (.reference ⟨7, 0⟩) [(⟨7, 0⟩, annots)]) = .ok () d' ∧
      ∃ page ∈ d'.doc.pages, ∃ x, d'.doc.dict? page = some x ∧
        ∃ item ∈ (d'.doc.entryArray? x "Annots").getD [], ∃ a,
          (d'.doc.resolve item).dictionary? = some a ∧ a.get? "StructParent" = some (.integer 1) := by
  intro annots
  have hrun : (stripTags).run (annotated (.reference ⟨7, 0⟩) [(⟨7, 0⟩, annots)]) =
      .ok () (swept ⟨8, 0⟩ (.reference ⟨7, 0⟩) [(⟨7, 0⟩, annots)]) := by
    cbv
  have hpages : (swept ⟨8, 0⟩ (.reference ⟨7, 0⟩) [(⟨7, 0⟩, annots)]).doc.pages = [⟨3, 0⟩] := by cbv
  refine ⟨_, hrun, ⟨3, 0⟩, ?_, _, rfl, _, List.mem_cons_self, _, rfl, rfl⟩
  rw [hpages]
  exact List.mem_singleton_self _

end TaggedPage

end Edit

end AccessiblePdf
