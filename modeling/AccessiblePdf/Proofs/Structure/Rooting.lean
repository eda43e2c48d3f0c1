import AccessiblePdf.Proofs.Structure.Building
import AccessiblePdf.Proofs.Structure.Raising

/-!
The root of the structure tree, which the catalog refers to and which lists the elements at the top
(`Rooted`). Removing all tags leaves a catalog without a root (`stripTags_unrooted`), and such a catalog
gets a new root without kids (`ensureRoot_rooted`); edits away from the structure tree leave it as it is.
-/
namespace AccessiblePdf

/-- What the catalog has in the entry for the root. -/
def RootEntry (doc : Document) (o : Option Object) : Prop :=
  ∃ id t x, (doc.trailer.get? "Root").bind Object.reference? = some id ∧ doc.target? id = some t ∧
    doc.objects.get? t = some (.dictionary x) ∧ x.Distinct ∧ x.get? "StructTreeRoot" = o

/-- The catalog refers to a root, which lists some kids. -/
structure Rooted (doc : Document) (root : ObjectId) (items : List Object) : Prop where
  entry : RootEntry doc (some (.reference root))
  list : ∃ y, doc.objects.get? root = some (.dictionary y) ∧ y.Distinct ∧
    y.get? "K" = some (.array items)

section Look

variable {touched : ObjectId → Bytes → Prop} {doc doc' : Document} {root : ObjectId}
  {items : List Object} {o : Option Object}

theorem RootEntry.of_dict? {id : ObjectId} {x : Dict Object}
    (hid : (doc.trailer.get? "Root").bind Object.reference? = some id) (hx : doc.dict? id = some x)
    (distinct : x.Distinct) (hentry : x.get? "StructTreeRoot" = o) : RootEntry doc o := by
  obtain ⟨t, ht, hx⟩ := Document.target?_of_dict? hx
  exact ⟨id, t, x, hid, ht, hx, distinct, hentry⟩

theorem RootEntry.catalog (h : RootEntry doc o) : ∃ x, doc.catalogDict? = some x ∧ x.Distinct ∧
    x.get? "StructTreeRoot" = o := by
  obtain ⟨id, t, x, hid, ht, hx, distinct, hentry⟩ := h
  refine ⟨x, ?_, distinct, hentry⟩
  rw [Document.catalogDict?, hid, Option.bind_some]
  exact Document.dict?_of_get? (by rw [Document.get?_eq_of_target? ht, hx])

theorem RootEntry.spared (h : RootEntry doc o) (spares : doc.Spares touched doc')
    (clear : ∀ t, ¬touched t "StructTreeRoot") : RootEntry doc' o := by
  obtain ⟨id, t, x, hid, ht, hx, distinct, hentry⟩ := h
  obtain ⟨x', hx', distinct', hsame⟩ := spares.entries t x hx distinct
  exact ⟨id, t, x', by rw [spares.trailer, hid], spares.target id t ht, hx', distinct',
    (hsame _ (clear t)).trans hentry⟩

theorem Rooted.spared (h : Rooted doc root items)
    (spares : doc.Spares (fun _ key => OffTree key) doc') : Rooted doc' root items := by
  obtain ⟨y, hy, distinct, hlist⟩ := h.list
  obtain ⟨y', hy', distinct', hsame⟩ := spares.entries root y hy distinct
  exact ⟨h.entry.spared spares fun _ => by decide, y', hy', distinct',
    (hsame _ (by decide)).trans hlist⟩

end Look

namespace Edit

variable {root : ObjectId} {d d' : Draft} {u : Unit}

/-! ## Removing all tags -/

theorem sparing_stripAnnotations {keys : Bytes → Prop}
    (hkeys : keys annotationKey ∧ keys "StructParents" ∧ keys "Annots") (page : ObjectId) :
    Sparing keys (stripAnnotations page) := by
  unfold stripAnnotations
  refine (Sparing.dict page).bind fun x => Sparing.doc.bind fun doc => Sparing.bind ?_ fun _ => ?_
  · exact Sparing.forIn (fun id _ => Sparing.tryModifyDict (Mild.erase hkeys.1) id (Sparing.pure _)) _
  · refine Sparing.modifyDict (fun x distinct => ?_) page
    dsimp only
    split
    · exact ((Mild.insert hkeys.2.2 fun _ => _).comp (Mild.erase hkeys.2.1)) x distinct
    · exact Mild.erase hkeys.2.1 x distinct

theorem sparing_stripContent (page : ObjectId) : Sparing OffTree (stripContent page) := by
  unfold stripContent
  refine Sparing.doc.bind fun doc => (Sparing.lift _).bind fun ops => ?_
  split
  split
  · exact Sparing.setOperations (by decide) page _
  · exact Sparing.pure _

/-- Without tags the catalog has no root. -/
theorem stripTags_unrooted (numbered : d.doc.Numbered)
    (distinct : ∀ x, d.doc.catalogDict? = some x → x.Distinct)
    (hrun : (stripTags).run d = .ok u d') : d'.doc.Numbered ∧ RootEntry d'.doc none := by
  unfold stripTags modifyCatalog at hrun
  obtain ⟨_, d₁, hmodify, hrest⟩ := bind_ok.mp hrun
  obtain ⟨id, d₂, hcatalog, herase⟩ := bind_ok.mp hmodify
  obtain ⟨hid, rfl⟩ := catalogId_ok.mp hcatalog
  obtain ⟨t, x, ht, hx, rfl⟩ := modifyDict_ok.mp herase
  have distinct : x.Distinct := by
    refine distinct x ?_
    rw [Document.catalogDict?, hid, Option.bind_some]
    exact Document.dict?_of_get? (by rw [Document.get?_eq_of_target? ht, hx])
  have hentry : RootEntry (d₂.doc.put t (.dictionary (x.erase "StructTreeRoot"))) none := by
    refine ⟨id, t, x.erase "StructTreeRoot", hid, (Document.target?_put hx rfl rfl id).trans ht,
      OrderedMap.get?_insert_self _ _ _, distinct.erase _, ?_⟩
    rw [OrderedMap.get?_erase distinct, if_pos rfl]
  have hpages : Sparing OffTree (do
      clearNodes
      for page in (← doc).pages do
        stripAnnotations page
        stripContent page) := by
    refine Sparing.clearNodes.bind fun _ => Sparing.doc.bind fun doc => Sparing.bind ?_ fun _ =>
      Sparing.pure _
    exact Sparing.forIn (fun page _ => (sparing_stripAnnotations (by decide) page).bind fun _ =>
      (sparing_stripContent page).bind fun _ => Sparing.pure _) _
  have hspares := hpages _ _ _ hrest (numbered.put hx)
  exact ⟨hspares.numbered, hentry.spared hspares fun _ => by decide⟩

/-! ## A new root -/

theorem sparing_parentTree (root : ObjectId) : Sparing OffTree (parentTree root) := by
  have hkeys : OffTree "Kids" ∧ OffTree "Limits" ∧ OffTree "Nums" := by decide
  unfold parentTree
  refine (Sparing.indirectDict (by decide) root).bind fun tree => (Sparing.dict tree).bind fun x =>
    Sparing.doc.bind fun _ => ?_
  dsimp only
  split
  · exact (Sparing.modifyDict ((Mild.insert hkeys.2.2 fun _ => _).comp
      ((Mild.erase hkeys.2.1).comp (Mild.erase hkeys.1))) tree).bind fun _ => Sparing.pure _
  · exact Sparing.pure _

/-- A catalog without a root comes to refer to a new object. -/
theorem indirectDict_unrooted {catalog : ObjectId} (numbered : d.doc.Numbered)
    (unrooted : ∀ x, d.doc.catalogDict? = some x → x.Distinct ∧ x.get? "StructTreeRoot" = none)
    (hid : (d.doc.trailer.get? "Root").bind Object.reference? = some catalog)
    (hrun : (indirectDict catalog "StructTreeRoot").run d = .ok root d') :
    d'.doc.Numbered ∧ RootEntry d'.doc (some (.reference root)) ∧
      d'.doc.objects.get? root = some (.dictionary ∅) := by
  obtain ⟨x, hdict, hfresh⟩ := indirectDict_ok.mp hrun
  obtain ⟨t, ht, hx⟩ := Document.target?_of_dict? hdict
  obtain ⟨distinct, hnone⟩ := unrooted x (by rw [Document.catalogDict?, hid, Option.bind_some, hdict])
  rw [hnone] at hfresh
  obtain ⟨rfl, hset⟩ := hfresh
  obtain ⟨s, z, hs, hz, rfl⟩ := setEntry_ok.mp hset
  have htarget := Document.target?_add numbered.unused (.dictionary (inPlace none)) ht
  obtain rfl : t = s := Option.some.inj (htarget.symm.trans hs)
  have hne : t ≠ d.doc.nextId := by
    rintro rfl
    rw [numbered.unused] at hx
    cases hx
  obtain rfl : x = z := by
    rw [Document.objects_add, if_neg hne] at hz
    exact Object.dictionary.inj (Option.some.inj (hx.symm.trans hz))
  refine ⟨(numbered.add _).put hz, ⟨catalog, t, _, hid, (Document.target?_put hz rfl rfl _).trans
    htarget, OrderedMap.get?_insert_self _ _ _, distinct.insert _ _,
    OrderedMap.get?_insert_self _ _ _⟩, ?_⟩
  rw [Document.put, OrderedMap.get?_insert_of_ne _ hne.symm, Document.objects_add, if_pos rfl]
  rfl

/-- A document whose catalog has no root gets one without kids. -/
theorem ensureRoot_rooted (numbered : d.doc.Numbered)
    (unrooted : ∀ x, d.doc.catalogDict? = some x → x.Distinct ∧ x.get? "StructTreeRoot" = none)
    (hrun : (ensureRoot).run d = .ok root d') : d'.doc.Numbered ∧ Rooted d'.doc root [] := by
  unfold ensureRoot at hrun
  obtain ⟨catalog, d₁, hcatalog, hrest⟩ := bind_ok.mp hrun
  obtain ⟨hid, rfl⟩ := catalogId_ok.mp hcatalog
  obtain ⟨root', d₂, hindirect, hrest⟩ := bind_ok.mp hrest
  obtain ⟨_, d₃, htype, hrest⟩ := bind_ok.mp hrest
  obtain ⟨tree, d₄, hparent, hreturn⟩ := bind_ok.mp hrest
  obtain ⟨rfl, rfl⟩ := pure_ok.mp hreturn
  obtain ⟨numbered₂, hentry, hroot⟩ := indirectDict_unrooted numbered unrooted hid hindirect
  obtain ⟨t, y, ht, hy, rfl⟩ := modifyDict_ok.mp htype
  obtain rfl : root = t := Option.some.inj ((Document.target?_of_direct hroot rfl).symm.trans ht)
  obtain rfl : ∅ = y := Object.dictionary.inj (Option.some.inj (hroot.symm.trans hy))
  have hspares : d₂.doc.Spares (fun _ key => key = utf8 "Type" ∨ key = utf8 "K")
      (d₂.doc.put root (.dictionary newRoot)) := by
    refine Document.spares_putDict numbered₂ hroot fun distinct => ?_
    exact ((Mild.insert (Or.inr rfl) fun _ => .array []).comp
      (Mild.insert (Or.inl rfl) fun _ => .name "StructTreeRoot")) ∅ distinct
  have hrooted : Rooted (d₂.doc.put root (.dictionary newRoot)) root [] := by
    refine ⟨hentry.spared hspares fun _ => by decide, newRoot, OrderedMap.get?_insert_self _ _ _, ?_, rfl⟩
    decide
  have hspares' := sparing_parentTree _ _ _ _ hparent hspares.numbered
  exact ⟨hspares'.numbered, hrooted.spared hspares'⟩

end Edit

end AccessiblePdf
