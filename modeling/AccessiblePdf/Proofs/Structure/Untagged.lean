import AccessiblePdf.Proofs.Content.Unwrapping
import AccessiblePdf.Proofs.Document.Pages
import AccessiblePdf.Proofs.Draft
import AccessiblePdf.Proofs.OrderedMap
import AccessiblePdf.Structure.Strip

/-!
Documents without tags. Removing tags where there are none changes nothing (`stripTags_untagged`).
-/
namespace AccessiblePdf

open Edit

/-! ## Documents without tags -/

/-- A document without tags: no structure tree, no keys on pages and annotations, and no MCIDs in the
content of pages, where moreover nothing draws while a path is under construction. -/
structure Document.Untagged (doc : Document) : Prop where
  root : ∀ x, doc.catalogDict? = some x → x.get? "StructTreeRoot" = none
  keys : ∀ page x, doc.IsPage page → doc.dict? page = some x → x.get? "StructParents" = none
  annotations : ∀ page x, doc.IsPage page → doc.dict? page = some x →
    ∀ item ∈ (doc.entryArray? x "Annots").getD [], ∀ a,
      (doc.resolve item).dictionary? = some a → a.get? "StructParent" = none
  content : ∀ page, doc.IsPage page → ∃ ops, doc.pageOperations page = .ok ops ∧
    (∀ op ∈ ops, PageScan.openedMcid? (.ofDict doc (doc.pageResources page) ops) op = none) ∧
    Operation.PathsFree Command.draws ops

/-! ## Removing tags where there are none -/

namespace Document

variable {doc : Document} {id : ObjectId}

theorem put_same {f : Dict Object → Dict Object} {t : ObjectId} {x : Dict Object}
    (same : ∀ x, doc.dict? id = some x → f x = x) (ht : doc.target? id = some t)
    (hx : doc.objects.get? t = some (.dictionary x)) : doc.put t (.dictionary (f x)) = doc := by
  have hdict : doc.dict? id = some x := by
    rw [dict?, get?_eq_of_target? ht, hx]
    rfl
  rw [same x hdict, put, OrderedMap.insert_get? hx]

end Document

section Strip

variable {d d' : Draft} {u : Unit}

theorem modifyDict_same {id : ObjectId} {f : Dict Object → Dict Object}
    (same : ∀ x, d.doc.dict? id = some x → f x = x) (hrun : (modifyDict id f).run d = .ok u d') :
    d' = d := by
  obtain ⟨t, x, ht, hx, rfl⟩ := modifyDict_ok.mp hrun
  rw [Document.put_same same ht hx]

theorem forIn_same {α : Type} {f : α → PUnit → Edit (ForInStep PUnit)} {items : List α} {v : PUnit}
    (same : ∀ a ∈ items, ∀ w step d', (f a w).run d = .ok step d' → d' = d)
    (hrun : (forIn items PUnit.unit f).run d = .ok v d') : d' = d := by
  induction items with
  | nil => exact (pure_ok.mp hrun).2
  | cons a items ih =>
    rw [List.forall_mem_cons] at same
    rw [List.forIn_cons, bind_ok] at hrun
    obtain ⟨step, d₁, hf, hrest⟩ := hrun
    obtain rfl := same.1 _ step d₁ hf
    cases step with
    | done w => exact (pure_ok.mp hrest).2
    | yield w => exact ih same.2 hrest

/-- Removing the keys of a page and of its annotations changes nothing where there are none. -/
theorem stripAnnotations_same {page : ObjectId}
    (keys : ∀ x, d.doc.dict? page = some x → x.get? "StructParents" = none)
    (annotations : ∀ x, d.doc.dict? page = some x → ∀ item ∈ (d.doc.entryArray? x "Annots").getD [],
      ∀ a, (d.doc.resolve item).dictionary? = some a → a.get? "StructParent" = none)
    (hrun : (stripAnnotations page).run d = .ok u d') : d' = d := by
  unfold stripAnnotations at hrun
  rw [bind_ok] at hrun
  obtain ⟨x, d₁, hdict, hrun⟩ := hrun
  obtain ⟨hx, rfl⟩ := dict_ok.mp hdict
  rw [bind_ok] at hrun
  obtain ⟨doc, d₂, hdoc, hrun⟩ := hrun
  obtain ⟨rfl, rfl⟩ := doc_ok.mp hdoc
  rw [bind_ok] at hrun
  obtain ⟨_, d₃, hloop, hrun⟩ := hrun
  have hnone : ∀ item ∈ (d₂.doc.entryArray? x "Annots").getD [], ∀ a : Dict Object,
      (d₂.doc.resolve item).dictionary? = some a → a.erase annotationKey = a := by
    intro item hitem a ha
    exact OrderedMap.erase_of_get?_eq_none (annotations x hx item hitem a ha)
  obtain rfl : d₃ = d₂ := by
    refine forIn_same ?_ hloop
    intro id hid w step d' hstep
    obtain ⟨item, hitem, hreference⟩ := List.mem_filterMap.mp hid
    cases item with
    | reference id' =>
      obtain rfl := Option.some.inj hreference
      rw [bind_ok] at hstep
      obtain ⟨doc, d₄, hdoc, hstep⟩ := hstep
      obtain ⟨rfl, rfl⟩ := doc_ok.mp hdoc
      cases hmodify : d₄.doc.modifyDict? id' (·.erase annotationKey) with
      | none =>
        rw [hmodify] at hstep
        exact (pure_ok.mp hstep).2
      | some doc =>
        rw [hmodify] at hstep
        obtain ⟨_, d₅, hset, hyield⟩ := bind_ok.mp hstep
        obtain rfl := setDoc_ok.mp hset
        obtain ⟨-, rfl⟩ := pure_ok.mp hyield
        obtain ⟨t, a, ht, hx, rfl⟩ := Document.modifyDict?_eq_some.mp hmodify
        have hsame : ∀ a, d₄.doc.dict? id' = some a → a.erase annotationKey = a := by
          intro a ha
          refine hnone _ hitem a ?_
          rw [Document.resolve, Document.get?_of_dict? ha]
          rfl
        rw [Document.put_same hsame ht hx]
    | _ => exact absurd hreference (by simp [Object.reference?])
  refine modifyDict_same (fun y hy => ?_) hrun
  obtain rfl : x = y := Option.some.inj (hx.symm.trans hy)
  have hkeys : x.erase "StructParents" = x :=
    OrderedMap.erase_of_get?_eq_none (keys x hx)
  simp only [hkeys]
  split
  · next items hitems =>
    have hentry : d₃.doc.entryArray? x "Annots" = some items := by
      rw [Document.entryArray?, Document.value?, hitems]
      rfl
    rw [hentry, Option.getD_some] at hnone
    have hsame : ∀ f : Object → Object, (∀ item ∈ items, f item = item) → items.map f = items := by
      intro f hf
      rw [List.map_congr_left (g := id) hf, List.map_id]
    rw [hsame]
    · exact OrderedMap.insert_get? hitems
    · intro item hitem
      cases item with
      | dictionary a =>
        show Object.dictionary (a.erase annotationKey) = .dictionary a
        rw [hnone _ hitem a rfl]
      | _ => rfl
  · rfl

theorem stripContent_untagged (untagged : d.doc.Untagged) {page : ObjectId}
    (hpage : d.doc.IsPage page) (hrun : (stripContent page).run d = .ok u d') : d' = d := by
  unfold stripContent at hrun
  rw [bind_ok] at hrun
  obtain ⟨doc, d₁, hdoc, hrun⟩ := hrun
  obtain ⟨rfl, rfl⟩ := doc_ok.mp hdoc
  rw [bind_ok] at hrun
  obtain ⟨ops, d₂, hops, hrun⟩ := hrun
  obtain ⟨hops, rfl⟩ := lift_ok.mp hops
  obtain ⟨ops', hops', hnone, -⟩ := untagged.content page hpage
  obtain rfl : ops' = ops := Except.ok.inj (hops'.symm.trans hops)
  have hremoved : (Marking.unwrap (.ofDict d₂.doc (d₂.doc.pageResources page) []) ops').2 = 0 := by
    rw [Marking.unwrap, Marking.snd_unwrapFrom, List.countP_eq_zero]
    intro op hop
    rw [ScanState.ofDict_eq d₂.doc _ [] ops', hnone op hop]
    exact Bool.false_ne_true
  simp only [hremoved, Nat.lt_irrefl, if_false] at hrun
  exact (pure_ok.mp hrun).2

/-- Removing tags where there are none forgets the declared elements, and changes nothing. -/
theorem stripTags_untagged (untagged : d.doc.Untagged) (hrun : (stripTags).run d = .ok u d') :
    d' = { d with nodes := ∅ } := by
  unfold stripTags at hrun
  rw [bind_ok] at hrun
  obtain ⟨_, d₁, hcatalog, hrun⟩ := hrun
  obtain rfl : d₁ = d := by
    unfold modifyCatalog at hcatalog
    rw [bind_ok] at hcatalog
    obtain ⟨id, d₂, hid, hmodify⟩ := hcatalog
    obtain ⟨hid, rfl⟩ := catalogId_ok.mp hid
    refine modifyDict_same (fun x hx => ?_) hmodify
    refine OrderedMap.erase_of_get?_eq_none (untagged.root x ?_)
    rw [Document.catalogDict?, hid, Option.bind_some, hx]
  rw [bind_ok] at hrun
  obtain ⟨_, d₂, hclear, hrun⟩ := hrun
  have hd₂ := clearNodes_ok.mp hclear
  subst hd₂
  rw [bind_ok] at hrun
  obtain ⟨doc, d₃, hdoc, hrun⟩ := hrun
  obtain ⟨rfl, rfl⟩ := doc_ok.mp hdoc
  rw [bind_ok] at hrun
  obtain ⟨_, d₄, hloop, hrun⟩ := hrun
  obtain ⟨-, rfl⟩ := pure_ok.mp hrun
  refine forIn_same ?_ hloop
  intro page hmem w step d' hstep
  have hpage := Document.isPage_of_mem_pages hmem
  rw [bind_ok] at hstep
  obtain ⟨_, d₄, hannotations, hstep⟩ := hstep
  obtain rfl := stripAnnotations_same (d := { d₁ with nodes := ∅ })
    (fun x hx => untagged.keys page x hpage hx) (fun x hx => untagged.annotations page x hpage hx)
    hannotations
  rw [bind_ok] at hstep
  obtain ⟨_, d₅, hcontent, hyield⟩ := hstep
  obtain rfl := stripContent_untagged (d := { d₁ with nodes := ∅ }) untagged hpage hcontent
  exact (pure_ok.mp hyield).2

end Strip

end AccessiblePdf
