import AccessiblePdf.Proofs.Document.Keeping
import AccessiblePdf.Proofs.Structure.Building

/-!
Documents without keys into the parent tree. Building the structure tree gives no dictionary such a
key, and neither does removing tags, which finds none to remove (`stripTags_unkeyed`).
-/
open Std.Do

namespace AccessiblePdf

open Edit

set_option mvcgen.warning false

/-- No object has a key into the parent tree, in any dictionary inside of it. -/
structure Document.Unkeyed (doc : Document) : Prop where
  numbered : doc.Numbered
  lacks : ∀ id o, doc.objects.get? id = some o → o.lacks parentKeys = true

/-- While the structure tree is built: no dictionary gets a key into the parent tree. -/
def Watch.building (old : Document) : Watch where
  old := old
  watched := []
  banned := parentKeys
  sub := List.Subset.refl _
  known := fun _ => True

/-- A document without keys into the parent tree, and without a structure tree. -/
structure Draft.Bare (d : Draft) : Prop where
  sound : d.doc.Sound parentKeys
  unrooted : ∀ x, d.doc.catalogDict? = some x → x.get? "StructTreeRoot" = none
  nodes : d.nodes = ∅

/-- While tags are removed: the catalog gets no structure tree either, and no element is declared. -/
def Watch.stripping (old : Document) : Watch where
  old := old
  watched := ["StructTreeRoot"]
  banned := parentKeys
  sub := List.Subset.refl _
  known := (· = ∅)

namespace Watch

variable {old : Document}

theorem free_building {key : Bytes} (h : key ∉ parentKeys) : (Watch.building old).Free key :=
  ⟨List.not_mem_nil, h, fun heq => h (heq ▸ List.mem_cons_self)⟩

@[scoped spec] theorem catalogId_holds (w : Watch) : ⦃holds w⦄ catalogId ⦃held w⦄ := by
  mvcgen [catalogId, doc]

@[scoped spec] theorem setMarked_holds {w : Watch} (info : w.Free "MarkInfo") (mark : w.Free "Marked")
    (marked : Bool) : ⦃holds w⦄ setMarked marked ⦃held w⦄ := by
  mvcgen [setMarked]
  · exact fun _ _ => mark
  · exact fun _ _ _ => rfl

/-! ## Building -/

theorem tame_building (old : Document) (key : Bytes) (o : Dict Object → Object)
    (h : key ∉ parentKeys ∧ key ∉ movingKeys) : Document.Tame (Watch.building old).watched
      (Watch.building old).banned fun x => x.insert key (o x) :=
  .insert (free_building h.1) fun hmoving => absurd hmoving h.2

@[scoped spec] theorem parentTree_building (root : ObjectId) :
    ⦃holds (.building old)⦄ parentTree root ⦃held (.building old)⦄ := by
  mvcgen [parentTree, doc]
  · exact free_building (by decide)
  · exact (tame_building old "Nums" (fun _ => .array _) (by decide)).comp
      ((Document.Tame.erase "Limits").comp (.erase "Kids"))

@[scoped spec] theorem ensureRoot_building_holds :
    ⦃holds (.building old)⦄ ensureRoot ⦃held (.building old)⦄ := by
  mvcgen [ensureRoot]
  · exact free_building (by decide)
  · have hkids := (tame_building old "K" (fun _ => .array []) (by decide)).ite
      (p := fun x => x.contains "K" = true)
    exact hkids.comp (tame_building old "Type" (fun _ => .name "StructTreeRoot") (by decide))

@[scoped spec] theorem appendKid_building (element : ObjectId) (kid : Object) :
    ⦃holds (.building old)⦄ appendKid element kid ⦃held (.building old)⦄ := by
  mvcgen [appendKid]
  exact fun _ _ => tame_building old "K" (fun x => .array (kidsWith kid (x.get? "K"))) (by decide)

@[scoped spec] theorem register_building (node : String) (element : ObjectId) :
    ⦃holds (.building old)⦄ register node element ⦃held (.building old)⦄ := by
  mvcgen [register]
  next h _ => exact ⟨h.keeps, trivial⟩

@[scoped spec] theorem registerElementId_building (root : ObjectId) (elementId : String)
    (element : ObjectId) :
    ⦃holds (.building old)⦄ registerElementId root elementId element ⦃held (.building old)⦄ := by
  mvcgen [registerElementId, doc]
  · exact free_building (by decide)
  · exact fun _ _ => (tame_building old "Names" (fun _ => .array _) (by decide)).comp
      ((Document.Tame.erase "Limits").comp (.erase "Kids"))

/-- The keys of the dictionary of an element. -/
theorem keys_dict (t : Tag) (parent : ObjectId) :
    ∀ key ∈ (t.dict parent).keys, key ∉ parentKeys ∧ key ∉ movingKeys := by
  have hnew : ∀ key ∈ (newElement t.role parent).keys, key ∉ parentKeys ∧ key ∉ movingKeys := by
    have hkeys : (newElement t.role parent).keys = ["Type", "S", "P", "K"] := rfl
    rw [hkeys]
    decide
  unfold Tag.dict
  extract_lets put attributes
  have hput : ∀ (key : Bytes) (o : Option Object) (x : Dict Object),
      (key ∉ parentKeys ∧ key ∉ movingKeys) →
      (∀ key ∈ x.keys, key ∉ parentKeys ∧ key ∉ movingKeys) →
      ∀ key' ∈ (put key o x).keys, key' ∉ parentKeys ∧ key' ∉ movingKeys := by
    intro key o x hkey hx key' hmem
    cases o with
    | none => exact hx key' hmem
    | some o =>
      obtain ⟨e, he, rfl⟩ := List.mem_map.mp hmem
      rcases OrderedMap.mem_insert he with rfl | he
      · exact hkey
      · exact hx _ (List.mem_map_of_mem he)
  exact hput _ _ _ (by decide) (hput _ _ _ (by decide) (hput _ _ _ (by decide)
    (hput _ _ _ (by decide) (hput _ _ _ (by decide) hnew))))

mutual

theorem buildTags_building (root parent : ObjectId) : ∀ t : TagTree,
    ⦃holds (.building old)⦄ buildTags root parent t ⦃held (.building old)⦄
  | .node t children => by
    have hkids := fun element => buildKids_building root element children
    have hadd : ⦃holds (.building old)⦄ add (.dictionary (t.dict parent)) ⦃held (.building old)⦄ :=
      add_holds (.of_keys (List.Subset.refl _) (keys_dict t parent))
        (OrderedMap.get?_of_not_mem_keys fun hmem =>
          absurd (by decide) (keys_dict t parent "StructParent" hmem).1)
    cases hname : t.elementId <;> cases hid : t.id <;> simp only [buildTags, hname, hid] <;>
      mvcgen [-add_holds, hadd, hkids]

theorem buildKids_building (root element : ObjectId) : ∀ children : List TagTree,
    ⦃holds (.building old)⦄ buildKids root element children ⦃held (.building old)⦄
  | [] => by mvcgen [buildKids]
  | child :: rest => by
    have hchild := buildTags_building root element child
    have hrest := buildKids_building root element rest
    mvcgen [buildKids, hchild, hrest]

end

/-! ## Removing tags -/

@[scoped spec] theorem stripAnnotations_holds (page : ObjectId) :
    ⦃holds (.stripping old)⦄ stripAnnotations page ⦃held (.stripping old)⦄ := by
  refine triple_of_run fun d u d' h hrun => ?_
  have hkey : ∀ {id : ObjectId} {x : Dict Object} {key : Bytes}, d.doc.dict? id = some x →
      key ∈ parentKeys → x.get? key = none := h.keeps.sound.get?_eq_none
  have hsame : d' = d := by
    refine stripAnnotations_same (fun x hx => hkey hx (by decide)) ?_ hrun
    intro x hx item hitem a ha
    rcases h.keeps.sound.item_dictionary? hx (by decide) hitem ha with hnone | ⟨r, hr⟩
    · exact hnone _ (by decide)
    · exact hkey hr (by decide)
  rw [hsame]
  exact h

theorem free_stripping {key : Bytes} (h : Document.Free ["StructTreeRoot"] parentKeys key) :
    (Watch.stripping old).Free key := h

@[scoped spec] theorem setOperations_holds {w : Watch} (page : ObjectId) (ops : List Operation)
    (free : w.Free "Contents") : ⦃holds w⦄ setOperations page ops ⦃held w⦄ := by
  mvcgen [setOperations, stream]
  all_goals first | exact fun _ _ => free | exact fun _ _ _ => rfl

@[scoped spec] theorem stripContent_holds (page : ObjectId) :
    ⦃holds (.stripping old)⦄ stripContent page ⦃held (.stripping old)⦄ := by
  mvcgen [stripContent, doc, lift]
  exact free_stripping (by decide)

theorem stripPages_holds : ⦃holds (.stripping old)⦄ (do
      clearNodes
      for page in (← doc).pages do
        stripAnnotations page
        stripContent page : Edit Unit) ⦃held (.stripping old)⦄ := by
  mvcgen [clearNodes, doc] invariants
  · held (.stripping old)
  next h _ => exact ⟨h.keeps, rfl⟩

/-- Removing tags where there is no structure tree and no key brings none. -/
theorem stripTags_bare {d d' : Draft} {u : Unit} (h : d.Bare) (hrun : (stripTags).run d = .ok u d') :
    d'.Bare := by
  unfold stripTags at hrun
  rw [bind_ok] at hrun
  obtain ⟨_, d₁, hcatalog, hrun⟩ := hrun
  unfold modifyCatalog at hcatalog
  rw [bind_ok] at hcatalog
  obtain ⟨id, d₂, hid, hmodify⟩ := hcatalog
  obtain ⟨hid, rfl⟩ := catalogId_ok.mp hid
  have hnone : ∀ x, d₂.doc.dict? id = some x → x.get? "StructTreeRoot" = none := by
    intro x hx
    refine h.unrooted x ?_
    rw [Document.catalogDict?, hid, Option.bind_some, hx]
  obtain rfl := modifyDict_same (fun x hx => OrderedMap.erase_of_get?_eq_none (hnone x hx)) hmodify
  obtain ⟨t, x, ht, hx, -⟩ := modifyDict_ok.mp hmodify
  have hdict : d₁.doc.dict? id = some x := by
    rw [Document.dict?, Document.get?_eq_of_target? ht, hx]
    rfl
  have hheld := Watch.Holds.run ⟨.refl h.sound, h.nodes⟩ stripPages_holds hrun
  have hsome : (d₁.doc.objects.get? t).isSome = true := by
    rw [hx]
    rfl
  obtain ⟨-, hentries⟩ := hheld.keeps.entries t hsome
  refine ⟨hheld.keeps.sound, fun y hy => ?_, hheld.known⟩
  have htrailer : d'.doc.trailer = d₁.doc.trailer := hheld.keeps.trailer
  rw [Document.catalogDict?, htrailer, hid, Option.bind_some] at hy
  obtain ⟨t', ht', hy'⟩ := Document.target?_of_dict? hy
  obtain rfl : t = t' := Option.some.inj ((hheld.keeps.targets id t ht).symm.trans ht')
  have hentry := hentries "StructTreeRoot" List.mem_cons_self
  rw [Document.entryAt?_of_get? hy'] at hentry
  rw [hentry]
  show d₁.doc.entryAt? t "StructTreeRoot" = none
  rw [Document.entryAt?_of_get? hx, hnone x hdict]

end Watch

end AccessiblePdf
