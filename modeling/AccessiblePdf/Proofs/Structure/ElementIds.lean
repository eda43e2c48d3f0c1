import AccessiblePdf.Proofs.Document.Retention
import AccessiblePdf.Proofs.Structure.Rooting

/-!
The tree of element ids when a structure tree is built. Each element with a declared id is listed in it
(`registerElementId_flat`), and nothing else touches it (`Registers.flat`), so that the keys that it ends
with are sorted; whether the old keys are kept depends on how they are read (`applyTags_elementIds`).
-/
namespace AccessiblePdf

/-! ## Trees of element ids -/

namespace Document

/-- The root of a structure tree has a legal tree of element ids with some leaves, whose nodes are in none
of some places. -/
structure HasIds (apart : ObjectId → Prop) (doc : Document) (x : Dict Object)
    (ls : List (Bytes × Object)) : Prop where
  distinct : x.Distinct
  tree : ∃ o node, x.get? "IDTree" = some o ∧ doc.Stored apart o node ∧
    doc.NameNode apart treeDepth node ∧ doc.keyLeaves treeDepth node = ls

/-- An id stands for a root with a legal tree of element ids. -/
def ListsIds (apart : ObjectId → Prop) (doc : Document) (root : ObjectId) (ls : List (Bytes × Object)) :
    Prop := ∃ x, doc.dict? root = some x ∧ doc.HasIds apart x ls

/-- The tree of element ids is one node, with a sorted list in place. -/
structure FlatIds (doc : Document) (root : ObjectId) (ls : List (Bytes × Object)) : Prop where
  flat : ∃ x tree node, doc.dict? root = some x ∧ x.Distinct ∧
    x.get? "IDTree" = some (.reference tree) ∧ doc.dict? tree = some node ∧ node.Distinct ∧
    node.get? "Kids" = none ∧ node.get? "Names" = some (.array (nameItems ls))

/-- The place to which a root refers for its parent tree. -/
def ParentPlace (doc : Document) (x : Dict Object) (t : ObjectId) : Prop :=
  ∃ id, x.get? "ParentTree" = some (.reference id) ∧ doc.target? id = some t

section Ids

variable {touched : ObjectId → Bytes → Prop} {apart : ObjectId → Prop} {doc doc' : Document}
  {root : ObjectId} {x x' : Dict Object} {ls : List (Bytes × Object)}

theorem HasIds.mono {apart' : ObjectId → Prop} (ids : doc.HasIds apart x ls)
    (sub : ∀ t o, doc.objects.get? t = some o → apart' t → apart t) : doc.HasIds apart' x ls := by
  obtain ⟨o, node, ho, hstored, hnode, hleaves⟩ := ids.tree
  exact ⟨ids.distinct, o, node, ho, hstored.mono sub, hnode.mono sub, hleaves⟩

theorem HasIds.steady (h : doc.Steady touched doc')
    (clear : ∀ t, ¬apart t → ¬touched t "Names" ∧ ¬touched t "Kids") (ids : doc.HasIds apart x ls)
    (distinct : x'.Distinct) (same : x'.get? "IDTree" = x.get? "IDTree") : doc'.HasIds apart x' ls := by
  obtain ⟨o, node, ho, hstored, hnode, hleaves⟩ := ids.tree
  obtain ⟨node', hstored', hnames, hkids⟩ := hstored.steady h clear
  obtain ⟨hnode', hleaves'⟩ := hnode.steady h clear hnames hkids
  exact ⟨distinct, o, node', same.trans ho, hstored', hnode', hleaves'.trans hleaves⟩

theorem ListsIds.steady (h : doc.Steady touched doc')
    (clear : ∀ t, ¬apart t → ¬touched t "Names" ∧ ¬touched t "Kids")
    (untouched : ∀ t, ¬touched t "IDTree") (ids : doc.ListsIds apart root ls) :
    doc'.ListsIds apart root ls := by
  obtain ⟨x, hx, hids⟩ := ids
  obtain ⟨t, y, -, hy, distinct, hsame⟩ := h.dict? hx hids.distinct
  exact ⟨y, hy, hids.steady h clear distinct (hsame _ (untouched t))⟩

theorem FlatIds.steady (h : doc.Steady (fun _ key => Edit.OffIds key) doc')
    (ids : doc.FlatIds root ls) : doc'.FlatIds root ls := by
  obtain ⟨x, tree, node, hx, distinct, hentry, hnode, distinctNode, hkids, hnames⟩ := ids.flat
  obtain ⟨-, y, -, hy, distinct', hsame⟩ := h.dict? hx distinct
  obtain ⟨-, node', -, hnode', distinctNode', hsameNode⟩ := h.dict? hnode distinctNode
  exact ⟨y, tree, node', hy, distinct', (hsame _ (by decide)).trans hentry, hnode', distinctNode',
    (hsameNode _ (by decide)).trans hkids, (hsameNode _ (by decide)).trans hnames⟩

theorem FlatIds.lists (ids : doc.FlatIds root ls) : doc.ListsIds (fun _ => False) root ls := by
  obtain ⟨x, tree, node, hx, distinct, hentry, hnode, distinctNode, hkids, hnames⟩ := ids.flat
  obtain ⟨hlegal, hleaves⟩ := nameNode_of_flat (fun _ => False) doc hnames hkids
  refine ⟨x, hx, distinct, .reference tree, node, hentry, ⟨?_, distinctNode, fun _ _ _ _ h => h⟩,
    hlegal, hleaves⟩
  rw [resolve, get?_of_dict? hnode]
  rfl

end Ids

end Document

/-! ## Steady edits -/

namespace Edit

variable {d d' : Draft} {root id : ObjectId} {key : Bytes} {u : Unit} {ls : List (Bytes × Object)}

theorem modifyDict_steady {keys : Bytes → Prop} {f : Dict Object → Dict Object} (hf : Mild keys f)
    (numbered : d.doc.Numbered) (hrun : (modifyDict id f).run d = .ok u d') :
    d.doc.Steady (fun _ key => keys key) d'.doc := by
  obtain ⟨t, x, -, hx, rfl⟩ := modifyDict_ok.mp hrun
  exact .putDict numbered hx (hf x)

theorem indirectDict_steady {keys : Bytes → Prop} (hkey : keys key) (numbered : d.doc.Numbered)
    (hrun : (indirectDict root key).run d = .ok id d') :
    d.doc.Steady (fun _ key => keys key) d'.doc := by
  obtain ⟨x, -, hcases⟩ := indirectDict_ok.mp hrun
  split at hcases
  · obtain ⟨-, rfl⟩ := hcases
    exact .refl numbered
  · have hadd : d.doc.Steady (fun _ key => keys key)
        (d.doc.add (.dictionary (inPlace (x.get? key)))) := .add numbered _
    exact hadd.trans (modifyDict_steady (Mild.insert hkey fun _ => _) hadd.spares.numbered hcases.2)

/-! ## Listing an element -/

theorem indirectDict_ids (numbered : d.doc.Numbered)
    (ids : d.doc.ListsIds (fun _ => False) root ls)
    (hrun : (indirectDict root "IDTree").run d = .ok id d') :
    d'.doc.Numbered ∧ ∃ x node, d'.doc.dict? root = some x ∧ x.Distinct ∧
      x.get? "IDTree" = some (.reference id) ∧ d'.doc.dict? id = some node ∧ node.Distinct ∧
      d'.doc.keyLeaves Document.treeDepth node = ls := by
  have hsteady : d.doc.Steady (fun _ key => key = utf8 "IDTree") d'.doc :=
    indirectDict_steady rfl numbered hrun
  obtain ⟨x, hx, distinct, o, node, ho, hstored, hnode, hleaves⟩ := ids
  obtain ⟨-, hread⟩ := hnode.steady hsteady (fun _ _ => by decide) rfl rfl
  have hvalue : d.doc.value? x "IDTree" = some (.dictionary node) := by
    rw [Document.value?, ho, Option.map_some, hstored.resolve]
  have hdict : (d.doc.value? x "IDTree").bind Object.dictionary? = some node := by rw [hvalue]; rfl
  have hfree : (d.doc.value? x "IDTree").bind Object.dictionary? = none →
      Under ["IDTree"] "IDTree" (x.get? "IDTree").isSome := fun _ => List.mem_cons_self
  obtain ⟨-, hid, y, hy, hentry, -⟩ := indirectDict_own numbered.unused hx hfree hrun
  rw [hdict, Option.getD_some] at hid
  obtain ⟨-, z, -, hz, distinct', -⟩ := hsteady.dict? hx distinct
  obtain rfl : y = z := Option.some.inj (hy.symm.trans hz)
  exact ⟨hsteady.spares.numbered, y, node, hy, distinct', hentry, hid, hstored.distinct,
    hread.trans hleaves⟩

/-- What listing makes of the node of a tree of element ids. -/
def withNames (names : List Object) (node : Dict Object) : Dict Object :=
  ((node.erase "Kids").erase "Limits").insert "Names" (.array names)

/-- The entries of a node that listing changes. -/
def listedKeys : List Bytes := [utf8 "Kids", utf8 "Limits", utf8 "Names"]

theorem mild_withNames (names : List Object) : Mild (· ∈ listedKeys) (withNames names) :=
  (Mild.insert (by decide) fun _ => _).comp ((Mild.erase (by decide)).comp (Mild.erase (by decide)))

theorem get?_withNames {node : Dict Object} (distinct : node.Distinct) (names : List Object) :
    (withNames names node).get? "Names" = some (.array names) ∧
      (withNames names node).get? "Kids" = none := by
  refine ⟨OrderedMap.get?_insert_self _ _ _, ?_⟩
  rw [withNames, OrderedMap.get?_insert_of_ne _ (by decide), OrderedMap.get?_erase (distinct.erase _),
    if_neg (by decide), OrderedMap.get?_erase distinct, if_pos rfl]

theorem registerElementId_ok {elementId : String} {element : ObjectId}
    (hrun : (registerElementId root elementId element).run d = .ok u d') :
    ∃ tree d₁ node, (indirectDict root "IDTree").run d = .ok tree d₁ ∧ d₁.doc.dict? tree = some node ∧
      (modifyDict tree (withNames (nameArray
        ((d₁.doc.nameTree node).insert elementId (.reference element))))).run d₁ = .ok u d' := by
  unfold registerElementId at hrun
  obtain ⟨tree, d₁, hindirect, hrest⟩ := bind_ok.mp hrun
  obtain ⟨doc, d₂, hdoc, hrest⟩ := bind_ok.mp hrest
  obtain ⟨rfl, rfl⟩ := doc_ok.mp hdoc
  obtain ⟨node, d₃, hdict, hset⟩ := bind_ok.mp hrest
  obtain ⟨hnode, rfl⟩ := dict_ok.mp hdict
  exact ⟨tree, d₃, node, hindirect, hnode, hset⟩

/-- An element with a declared id is listed in the tree of element ids, whatever form that has; then it is
one node. -/
theorem registerElementId_flat {elementId : String} {element : ObjectId} (numbered : d.doc.Numbered)
    (ids : d.doc.ListsIds (fun _ => False) root ls)
    (hrun : (registerElementId root elementId element).run d = .ok u d') :
    d'.doc.Numbered ∧
      d'.doc.FlatIds root (NameTree.setKey ls (elementId, .reference element)) := by
  obtain ⟨tree, d₁, node, hindirect, hnode, hset⟩ := registerElementId_ok hrun
  obtain ⟨numbered₁, x, node', hx, distinct, hentry, hnode', distinctNode, hleaves⟩ :=
    indirectDict_ids numbered ids hindirect
  obtain rfl : node' = node := Option.some.inj (hnode'.symm.trans hnode)
  have hmap : nameArray ((d₁.doc.nameTree node').insert elementId (.reference element)) =
      Document.nameItems (NameTree.setKey ls (elementId, .reference element)) := by
    rw [Document.nameArray_eq_nameItems, Document.nameTree_eq_read, hleaves]
    rfl
  rw [hmap] at hset
  set names := Document.nameItems (NameTree.setKey ls (elementId, .reference element))
  have hsteady := modifyDict_steady (mild_withNames names) numbered₁ hset
  obtain ⟨-, y, -, hy, distinct', hsame⟩ := hsteady.dict? hx distinct
  obtain ⟨-, z, -, hz, distinctNode', -⟩ := hsteady.dict? hnode distinctNode
  obtain ⟨-, -, -, hchanged⟩ := dict?_of_modifyDict hnode hset
  obtain rfl : withNames names node' = z := Option.some.inj (hchanged.symm.trans hz)
  obtain ⟨hnames, hkids⟩ := get?_withNames distinctNode names
  exact ⟨hsteady.spares.numbered, y, tree, _, hy, distinct',
    (hsame _ (by decide)).trans hentry, hz, distinctNode', hkids, hnames⟩

/-- Elements that are registered are listed one after the other. -/
theorem Registers.flat {doc doc' : Document} {entries : List (String × ObjectId)}
    (h : Registers root doc entries doc') (ids : doc.FlatIds root ls) :
    doc'.FlatIds root (NameTree.setKeys ls (entries.map fun e => (e.1, .reference e.2))) := by
  induction h generalizing ls with
  | done hsteady => exact ids.steady hsteady
  | step hsteady hrun _ ih =>
    exact ih (registerElementId_flat hsteady.spares.numbered (ids.steady hsteady).lists hrun).2

theorem Registers.flat_of_lists {doc doc' : Document} {entries : List (String × ObjectId)}
    (h : Registers root doc entries doc') (some : entries ≠ [])
    (ids : doc.ListsIds (fun _ => False) root ls) :
    doc'.FlatIds root (NameTree.setKeys ls (entries.map fun e => (e.1, .reference e.2))) := by
  cases h with
  | done => exact absurd rfl some
  | step hsteady hrun later =>
    have hlists := ids.steady hsteady (fun _ _ => by decide) fun _ => by decide
    exact later.flat (registerElementId_flat hsteady.spares.numbered hlists hrun).2

/-! ## The root -/

theorem parentTree_ok {tree : ObjectId} (hrun : (parentTree root).run d = .ok tree d') :
    ∃ d₁, (indirectDict root "ParentTree").run d = .ok tree d₁ ∧
      (d' = d₁ ∨ ∃ nums v, (modifyDict tree (flattened nums)).run d₁ = .ok v d') := by
  unfold parentTree at hrun
  obtain ⟨tree', d₁, hindirect, hread⟩ := bind_ok.mp hrun
  obtain ⟨x, d₂, hdict, hlook⟩ := bind_ok.mp hread
  obtain ⟨-, rfl⟩ := dict_ok.mp hdict
  obtain ⟨doc, d₃, hdoc, hrest⟩ := bind_ok.mp hlook
  obtain ⟨rfl, rfl⟩ := doc_ok.mp hdoc
  dsimp only at hrest
  split at hrest
  · obtain ⟨v, d₄, hset, hreturn⟩ := bind_ok.mp hrest
    obtain ⟨rfl, rfl⟩ := pure_ok.mp hreturn
    exact ⟨d₃, hindirect, Or.inr ⟨_, v, hset⟩⟩
  · obtain ⟨rfl, rfl⟩ := pure_ok.mp hrest
    exact ⟨_, hindirect, Or.inl rfl⟩

/-- The entry of a dictionary leads to an old place only if it led there before. -/
theorem indirectDict_place {old : Document} {x : Dict Object} {t : ObjectId} (numbered : old.Numbered)
    (h : old.Steady (fun _ key => OffIds key) d.doc) (hx : d.doc.dict? root = some x)
    (hkey : OffIds key) (hrun : (indirectDict root key).run d = .ok id d')
    (ht : d'.doc.target? id = some t) :
    (∃ id, x.get? key = some (.reference id) ∧ old.target? id = some t) ∨ old.maxId < t.number := by
  by_cases hnew : old.maxId < t.number
  · exact Or.inr hnew
  have hold := (h.trans (indirectDict_steady hkey h.spares.numbered hrun)).back id t
    (Nat.le_of_not_lt hnew) ht
  obtain ⟨x', hx', hcases⟩ := indirectDict_ok.mp hrun
  obtain rfl : x = x' := Option.some.inj (hx.symm.trans hx')
  cases hown : ownId? d.doc (x.get? key) with
  | some own =>
    rw [hown] at hcases
    obtain ⟨rfl, -⟩ := hcases
    exact Or.inl ⟨id, (ownId?_eq_some hown).1, hold⟩
  | none =>
    rw [hown] at hcases
    obtain ⟨rfl, -⟩ := hcases
    have hnone : old.objects.get? d.doc.nextId = none := by
      refine Option.eq_none_iff_forall_ne_some.mpr fun o ho => ?_
      have hle := Nat.le_trans (numbered _ o ho) h.spares.grown
      exact absurd hle (Nat.not_succ_le_self _)
    rw [Document.target?, Document.chase, hnone] at hold
    cases hold

/-- The entries of a node that flattening changes. -/
def flattenedKeys : List Bytes := [utf8 "Kids", utf8 "Limits", utf8 "Nums"]

theorem mild_flattened (nums : List Object) : Mild (· ∈ flattenedKeys) (flattened nums) :=
  (Mild.insert (by decide) fun _ => _).comp ((Mild.erase (by decide)).comp (Mild.erase (by decide)))

/-- The parent tree is made ready, and the tree of element ids is read alike if it has no node where the
root has its parent tree, or where there was no object before. -/
theorem parentTree_ids {apart : ObjectId → Prop} {old : Document} {tree : ObjectId} {x : Dict Object}
    (numbered : old.Numbered) (h : old.Steady (fun _ key => OffIds key) d.doc)
    (hx : d.doc.dict? root = some x) (ids : d.doc.HasIds apart x ls)
    (parent : ∀ t, old.ParentPlace x t → apart t) (new : ∀ t, old.maxId < t.number → apart t)
    (hrun : (parentTree root).run d = .ok tree d') :
    d'.doc.Numbered ∧ d'.doc.ListsIds apart root ls := by
  obtain ⟨d₁, hindirect, hflat⟩ := parentTree_ok hrun
  have hsteady : d.doc.Steady (fun _ key => OffIds key) d₁.doc :=
    indirectDict_steady (by decide) h.spares.numbered hindirect
  have hids₁ : d₁.doc.ListsIds apart root ls :=
    Document.ListsIds.steady hsteady (fun _ _ => by decide) (fun _ => by decide) ⟨x, hx, ids⟩
  rcases hflat with rfl | ⟨nums, v, hset⟩
  · exact ⟨hsteady.spares.numbered, hids₁⟩
  · obtain ⟨t, y, ht, hy, rfl⟩ := modifyDict_ok.mp hset
    have htree : apart t :=
      (indirectDict_place numbered h hx (by decide) hindirect ht).elim (parent t) (new t)
    have hput : d₁.doc.Steady (fun s key => s = t ∧ key ∈ flattenedKeys)
        (d₁.doc.put t (.dictionary (flattened nums y))) :=
      .putDict hsteady.spares.numbered hy fun distinct =>
        ⟨(mild_flattened nums y distinct).1, fun key hkey =>
          (mild_flattened nums y distinct).2 key fun h => hkey ⟨rfl, h⟩⟩
    refine ⟨hput.spares.numbered, hids₁.steady hput (fun s hs => ?_) fun s hs => ?_⟩
    · have hne : s ≠ t := by
        rintro rfl
        exact hs htree
      exact ⟨fun h => hne h.1, fun h => hne h.1⟩
    · exact absurd hs.2 (by decide)

/-- What a dictionary becomes as the root of a structure tree. -/
def asRoot (x : Dict Object) : Dict Object :=
  let typed := x.insert "Type" (.name "StructTreeRoot")
  if typed.contains "K" then typed else typed.insert "K" (.array [])

theorem mild_asRoot : Mild (· ∈ [utf8 "Type", utf8 "K"]) asRoot := by
  have htype : Mild (· ∈ [utf8 "Type", utf8 "K"]) fun x =>
      x.insert "Type" (.name "StructTreeRoot") := Mild.insert (by decide) fun _ => _
  have hkids : Mild (· ∈ [utf8 "Type", utf8 "K"]) fun x =>
      (x.insert "Type" (.name "StructTreeRoot")).insert "K" (.array []) :=
    (Mild.insert (by decide) fun _ => Object.array []).comp htype
  intro x distinct
  rw [asRoot]
  split
  · exact htype x distinct
  · exact hkids x distinct

/-- A document whose structure tree has a tree of element ids has it too when its root is ready. -/
theorem ensureRoot_ids {c x : Dict Object} (numbered : d.doc.Numbered)
    (catalog : d.doc.catalogDict? = some c) (distinct : c.Distinct)
    (hroot : d.doc.value? c "StructTreeRoot" = some (.dictionary x))
    (ids : d.doc.HasIds (d.doc.ParentPlace x) x ls) (hrun : (ensureRoot).run d = .ok root d') :
    d'.doc.Numbered ∧ RootEntry d'.doc (some (.reference root)) ∧
      d'.doc.ListsIds (fun _ => False) root ls := by
  unfold ensureRoot at hrun
  obtain ⟨id, d₀, hcatalog, hrest⟩ := bind_ok.mp hrun
  obtain ⟨hid, rfl⟩ := catalogId_ok.mp hcatalog
  obtain ⟨root', d₁, hindirect, hready⟩ := bind_ok.mp hrest
  obtain ⟨_, d₂, htype, htree⟩ := bind_ok.mp hready
  obtain ⟨tree, d₃, hparent, hreturn⟩ := bind_ok.mp htree
  obtain ⟨rfl, rfl⟩ := pure_ok.mp hreturn
  have hc : d₀.doc.dict? id = some c := by
    rwa [Document.catalogDict?, hid, Option.bind_some] at catalog
  have hdict : (d₀.doc.value? c "StructTreeRoot").bind Object.dictionary? = some x := by
    rw [hroot]
    rfl
  have hfree : (d₀.doc.value? c "StructTreeRoot").bind Object.dictionary? = none →
      Under ["StructTreeRoot"] "StructTreeRoot" (c.get? "StructTreeRoot").isSome :=
    fun _ => List.mem_cons_self
  obtain ⟨-, hx, y, hy, hentry, -⟩ := indirectDict_own numbered.unused hc hfree hindirect
  rw [hdict, Option.getD_some] at hx
  have hsteady₁ : d₀.doc.Steady (fun _ key => OffIds key) d₁.doc :=
    indirectDict_steady (by decide) numbered hindirect
  obtain ⟨-, z, -, hz, distinct', -⟩ := hsteady₁.dict? hc distinct
  obtain rfl : y = z := Option.some.inj (hy.symm.trans hz)
  have hentry₁ : RootEntry d₁.doc (some (.reference root)) :=
    .of_dict? (by rw [hsteady₁.spares.trailer, hid]) hy distinct' hentry
  obtain ⟨-, -, -, hx₂⟩ := dict?_of_modifyDict hx htype
  have hsteady₂ := modifyDict_steady mild_asRoot hsteady₁.spares.numbered htype
  have hsteady : d₀.doc.Steady (fun _ key => OffIds key) d₂.doc := by
    refine hsteady₁.trans (hsteady₂.mono fun _ key hkey => ?_)
    rcases List.mem_pair.mp hkey with rfl | rfl <;> decide
  have hentry₂ := hentry₁.spared hsteady₂.spares fun _ => by decide
  obtain ⟨distinctRoot, hsame⟩ := mild_asRoot x ids.distinct
  -- The tree of element ids has no node where the parent tree is flattened.
  have hids₂ : d₂.doc.HasIds (fun t => d₀.doc.ParentPlace x t ∨ d₀.doc.maxId < t.number) (asRoot x) ls := by
    refine Document.HasIds.steady hsteady (fun _ _ => by decide) (ids.mono fun t o ho h => ?_)
      distinctRoot (hsame _ (by decide))
    exact h.resolve_right (Nat.not_lt_of_le (numbered t o ho))
  have hparent₂ : ∀ t, d₀.doc.ParentPlace (asRoot x) t →
      d₀.doc.ParentPlace x t ∨ d₀.doc.maxId < t.number := by
    rintro t ⟨id, hid, ht⟩
    exact Or.inl ⟨id, (hsame _ (by decide)).symm.trans hid, ht⟩
  obtain ⟨numbered', hids'⟩ :=
    parentTree_ids numbered hsteady hx₂ hids₂ hparent₂ (fun _ => Or.inr) hparent
  have hspares := sparing_parentTree _ _ _ _ hparent hsteady.spares.numbered
  obtain ⟨z, hz, hidsRoot⟩ := hids'
  exact ⟨numbered', hentry₂.spared hspares fun _ => by decide, z, hz,
    hidsRoot.mono fun _ _ _ h => h.elim⟩

end Edit

/-! ## Declared ids -/

/-- The ids of elements that a tree declares, in the order of its elements. -/
def TagTree.declaredElementIds (t : TagTree) : List String := t.tags.filterMap Tag.elementId

section Declared

variable {doc : Document}

mutual

theorem Stands.map_fst_idEntries {parent : ObjectId} : ∀ {ids : Tree ObjectId} {t : TagTree},
    Stands doc parent ids t → (idEntries ids t).map Prod.fst = t.tags.filterMap Tag.elementId
  | .node id ids, .node tag children => by
    intro h
    rw [idEntries, List.map_append, List.map_map, StandAll.map_fst_idEntries h.2, TagTree.tags,
      List.filterMap_cons]
    cases tag.elementId <;> rfl

theorem StandAll.map_fst_idEntries {parent : ObjectId} :
    ∀ {ids : List (Tree ObjectId)} {ts : List TagTree}, StandAll doc parent ids ts →
      (idEntriesAll ids ts).map Prod.fst = (TagTree.tagsAll ts).filterMap Tag.elementId
  | [], [] => fun _ => rfl
  | id :: ids, t :: ts => by
    intro h
    rw [idEntriesAll, List.map_append, h.1.map_fst_idEntries, StandAll.map_fst_idEntries h.2,
      TagTree.tagsAll, List.filterMap_append]
  | [], _ :: _ => fun h => h.elim
  | _ :: _, [] => fun h => h.elim

end

end Declared

theorem lookup_map_snd {α β γ : Type} [BEq α] (f : β → γ) (l : List (α × β)) (a : α) :
    (l.map fun e => (e.1, f e.2)).lookup a = (l.lookup a).map f := by
  induction l with
  | nil => rfl
  | cons e l ih =>
    rw [List.map_cons, List.lookup_cons, List.lookup_cons, ih]
    cases a == e.1 <;> rfl

namespace Edit

variable {d d' : Draft} {root : ObjectId} {u : Unit} {ls : List (Bytes × Object)}

/-- The leaves of a tree of element ids when elements are listed one after the other. -/
def listElements (ls : List (Bytes × Object)) (entries : List (String × ObjectId)) :
    List (Bytes × Object) :=
  NameTree.setKeys ls (entries.map fun e => (e.1, .reference e.2))

theorem sorted_listElements {entries : List (String × ObjectId)} (ls : List (Bytes × Object))
    (some : entries ≠ []) : ((listElements ls entries).map Prod.fst).Pairwise (· < ·) := by
  have hset : (entries.map fun e => (e.1, Object.reference e.2)) ≠ [] :=
    fun h => some (List.map_eq_nil_iff.mp h)
  obtain ⟨m, hm⟩ := NameTree.exists_setKeys ls hset
  rw [listElements, hm]
  exact NameTree.sorted_leaves m

/-- Listing elements under ids without marks makes each id stand for the last one, and keeps all other
leaves, just when these are written as they were. -/
theorem listElements_keeps_iff {entries : List (String × ObjectId)} (set : entries ≠ [])
    (plain : ∀ id ∈ entries.map Prod.fst, ¬TextString.Marked id) (nodup : (ls.map Prod.fst).Nodup) :
    ((∀ l ∈ ls, l.1 ∉ (entries.map Prod.fst).map utf8 → l ∈ listElements ls entries) ∧
        ∀ id element, entries.reverse.lookup id = some element →
          (utf8 id, .reference element) ∈ listElements ls entries) ↔
      ∀ l ∈ ls, l.1 ∉ (entries.map Prod.fst).map utf8 → utf8 (TextString.decode l.1) = l.1 := by
  have hplain : ∀ e ∈ entries.map fun e => (e.1, Object.reference e.2), ¬TextString.Marked e.1 := by
    intro e he
    obtain ⟨e', he', rfl⟩ := List.mem_map.mp he
    exact plain e'.1 (List.mem_map_of_mem he')
  have hkeys : ((entries.map fun e => (e.1, Object.reference e.2)).map fun e => utf8 e.1) =
      (entries.map Prod.fst).map utf8 := by
    rw [List.map_map, List.map_map]
    rfl
  have hlookup : ∀ id, (entries.map fun e => (e.1, Object.reference e.2)).reverse.lookup id =
      (entries.reverse.lookup id).map Object.reference := by
    intro id
    rw [← List.map_reverse, lookup_map_snd]
  have hset : (entries.map fun e => (e.1, Object.reference e.2)) ≠ [] :=
    fun h => set (List.map_eq_nil_iff.mp h)
  have hiff := NameTree.setKeys_keeps_iff hset hplain nodup
  rw [hkeys] at hiff
  refine Iff.trans (and_congr_right fun _ => ?_) hiff
  constructor
  · intro h key v hv
    rw [hlookup] at hv
    obtain ⟨element, helement, rfl⟩ := Option.map_eq_some_iff.mp hv
    exact h key element helement
  · intro h id element helement
    exact h id _ (by rw [hlookup, helement]; rfl)

theorem exists_kidsWith (kid : Object) (o : Option Object) : ∃ items, kidsWith kid o = items ++ [kid] := by
  rw [kidsWith.eq_def]
  split
  · exact ⟨_, rfl⟩
  · exact ⟨[_], rfl⟩
  · exact ⟨[], rfl⟩

theorem listKid_spares {t : ObjectId} {kid : Object} (numbered : d.doc.Numbered)
    (ht : d.doc.target? root = some t)
    (hrun : (modifyDict root fun x => x.insert "K" (.array (kidsWith kid (x.get? "K")))).run d =
      .ok u d') :
    d.doc.Spares (fun s key => s = t ∧ key = utf8 "K") d'.doc ∧ ∃ y items,
      d'.doc.dict? root = some y ∧ y.get? "K" = some (.array (items ++ [kid])) := by
  obtain ⟨t', y, ht', hy, rfl⟩ := modifyDict_ok.mp hrun
  obtain rfl : t = t' := Option.some.inj (ht.symm.trans ht')
  obtain ⟨items, hitems⟩ := exists_kidsWith kid (y.get? "K")
  refine ⟨Document.spares_putDict numbered hy fun distinct => ⟨distinct.insert _ _,
    fun key hkey => OrderedMap.get?_insert_of_ne _ (fun heq => hkey ⟨rfl, heq⟩) _⟩,
    y.insert "K" (.array (kidsWith kid (y.get? "K"))), items, ?_, ?_⟩
  · rw [Document.dict?_put hy, if_pos ht']
  · rw [← hitems]
    exact OrderedMap.get?_insert_self _ _ _

theorem setMarked_steady {marked : Bool} (numbered : d.doc.Numbered)
    (hrun : (setMarked marked).run d = .ok u d') :
    d.doc.Steady (fun _ key => OffIds key) d'.doc := by
  unfold setMarked at hrun
  obtain ⟨id, d₁, hcatalog, hrest⟩ := bind_ok.mp hrun
  obtain ⟨-, rfl⟩ := catalogId_ok.mp hcatalog
  obtain ⟨info, d₂, hindirect, hset⟩ := bind_ok.mp hrest
  have hsteady : d₁.doc.Steady (fun _ key => OffIds key) d₂.doc :=
    indirectDict_steady (by decide) numbered hindirect
  exact hsteady.trans (modifyDict_steady (Mild.insert (by decide) fun _ => _)
    hsteady.spares.numbered hset)

/-- Building a structure tree with declared element ids where there is a legal tree of element ids at most
32 levels deep, whose keys are distinct and whose nodes are not those of the parent tree. Afterwards the
tree is one list whose keys are in the strict order of their bytes. Each declared id stands for the last
element that declares it, and every other key is there as it was with its value, just when all these keys
are written as they were once they are read as texts. -/
theorem applyTags_elementIds {s : TagSection} {c x : Dict Object} (numbered : d.doc.Numbered)
    (kept : s.stripExisting = false) (catalog : d.doc.catalogDict? = some c) (distinct : c.Distinct)
    (hroot : d.doc.value? c "StructTreeRoot" = some (.dictionary x))
    (ids : d.doc.HasIds (d.doc.ParentPlace x) x ls) (nodup : (ls.map Prod.fst).Nodup)
    (declares : s.root.declaredElementIds ≠ [])
    (hrun : (applyTags s).run d = .ok u d') :
    ∃ (root : ObjectId) (ids : Tree ObjectId) (ls' : List (Bytes × Object)),
      RootEntry d'.doc (some (.reference root)) ∧
      (∃ y items, d'.doc.dict? root = some y ∧
        y.get? "K" = some (.array (items ++ [.reference ids.value]))) ∧
      Stands d'.doc root ids s.root ∧ d'.doc.FlatIds root ls' ∧
      (ls'.map Prod.fst).Pairwise (· < ·) ∧
      ((∀ id ∈ s.root.declaredElementIds, ¬TextString.Marked id) →
        (((∀ l ∈ ls, l.1 ∉ s.root.declaredElementIds.map utf8 → l ∈ ls') ∧
            ∀ id element, (idEntries ids s.root).reverse.lookup id = some element →
              (utf8 id, .reference element) ∈ ls') ↔
          ∀ l ∈ ls, l.1 ∉ s.root.declaredElementIds.map utf8 →
            utf8 (TextString.decode l.1) = l.1)) := by
  obtain ⟨_, d₀, hstripped, hrooted⟩ := applyTags_ok hrun
  obtain rfl : d₀ = d := by
    rcases hstripped with ⟨hstrip, -⟩ | ⟨-, hsame⟩
    · rw [kept] at hstrip
      cases hstrip
    · exact hsame
  obtain ⟨root, d₁, hready, hrest⟩ := bind_ok.mp hrooted
  obtain ⟨element, d₂, hbuild, hlist⟩ := bind_ok.mp hrest
  obtain ⟨_, d₃, happend, hmarked⟩ := bind_ok.mp hlist
  obtain ⟨numbered₁, hentry₁, hids₁⟩ := ensureRoot_ids numbered catalog distinct hroot ids hready
  obtain ⟨hspares₂, elements, rfl, hstands₂, hfresh₂, hregisters⟩ :=
    buildTags_stands numbered₁ s.root hbuild
  have hkeys : (idEntries elements s.root).map Prod.fst = s.root.declaredElementIds :=
    hstands₂.map_fst_idEntries
  have hsome : idEntries elements s.root ≠ [] := by
    intro hnil
    rw [hnil] at hkeys
    exact declares hkeys.symm
  have hflat₂ : d₂.doc.FlatIds root (listElements ls (idEntries elements s.root)) :=
    hregisters.flat_of_lists hsome hids₁
  obtain ⟨x₁, hx₁, -⟩ := hids₁
  obtain ⟨t, ht, hobject⟩ := Document.target?_of_dict? hx₁
  have hold : t.number ≤ d₁.doc.maxId := numbered₁ t _ hobject
  obtain ⟨hspares₃, y₃, items, hroot₃, hkids₃⟩ :=
    listKid_spares hspares₂.numbered (hspares₂.target root t ht) happend
  have hflat₃ : d₃.doc.FlatIds root (listElements ls (idEntries elements s.root)) :=
    hflat₂.steady (modifyDict_steady (Mild.insert (by decide) fun _ => _) hspares₂.numbered happend)
  have hclear : ∀ i ∈ elements.values, ∀ key ∈ treeKeys, ¬(i = t ∧ key = utf8 "K") := by
    rintro i hi key - ⟨rfl, -⟩
    exact absurd (hfresh₂.2 i hi).1 (Nat.not_lt_of_le hold)
  have hsparing : Sparing OffTree (setMarked true) := .setMarked (by decide) (by decide) true
  have hspares' := hsparing _ d' u hmarked hspares₃.numbered
  have distinct₃ : y₃.Distinct := by
    obtain ⟨z, -, -, hz, distinct, -⟩ := hflat₃.flat
    obtain rfl := Option.some.inj (hroot₃.symm.trans hz)
    exact distinct
  obtain ⟨-, z, hz, hsame⟩ := hspares'.exists_dict hroot₃ distinct₃
  have hentry₃ := (hentry₁.spared hspares₂ fun _ => by decide).spared hspares₃ fun s h =>
    absurd h.2 (by decide)
  refine ⟨root, elements, _, hentry₃.spared hspares' fun _ => by decide,
    ⟨z, items, hz, (hsame _ (by decide)).trans hkids₃⟩,
    (hstands₂.spared hspares₃ hclear).spared hspares' fun _ _ key hkey h => h hkey,
    hflat₃.steady (setMarked_steady hspares₃.numbered hmarked), ?_, fun plain => ?_⟩
  · exact sorted_listElements ls hsome
  · rw [← hkeys] at plain ⊢
    exact listElements_keeps_iff hsome plain nodup

/-- A document with a tree of element ids that lists one element. -/
def listed (key : Bytes) : Draft where
  doc := {
    version := "1.7"
    trailer := .ofList [(utf8 "Root", .reference ⟨1, 0⟩)]
    objects := .ofList [(⟨1, 0⟩, .ofEntries [(utf8 "StructTreeRoot", .reference ⟨2, 0⟩)]),
      (⟨2, 0⟩, .ofEntries [(utf8 "IDTree", .reference ⟨3, 0⟩)]),
      (⟨3, 0⟩, .ofEntries [(utf8 "Names",
        .array (Document.nameItems [(key, .reference ⟨4, 0⟩)]))])]
    maxId := 4 }

/-- Two notes with one id. -/
def notes : TagSection where
  stripExisting := false
  root := .node { role := "Document" } [
    .node { role := "Note", elementId := some "b" } [],
    .node { role := "Note", elementId := some "b" } []]

theorem hasIds_listed (key : Bytes) : ∃ c x, (listed key).doc.catalogDict? = some c ∧ c.Distinct ∧
    (listed key).doc.value? c "StructTreeRoot" = some (.dictionary x) ∧
    (listed key).doc.HasIds ((listed key).doc.ParentPlace x) x [(key, .reference ⟨4, 0⟩)] := by
  refine ⟨_, .ofList [(utf8 "IDTree", .reference ⟨3, 0⟩)], rfl, OrderedMap.distinct_ofList _, rfl,
    OrderedMap.distinct_ofList _, .reference ⟨3, 0⟩,
    .ofList [(utf8 "Names", .array (Document.nameItems [(key, .reference ⟨4, 0⟩)]))], rfl,
    ⟨rfl, OrderedMap.distinct_ofList _, ?_⟩, Document.nameNode_of_flat _ _ rfl rfl⟩
  rintro - - - - ⟨_, hparent, -⟩
  cases hparent

/-- A key that is written as it was is kept, and the id stands for the second note. -/
theorem applyTags_elementIds_notes : ∃ c x d' root ids ls',
    (listed (utf8 "a")).doc.Numbered ∧ notes.stripExisting = false ∧
      (listed (utf8 "a")).doc.catalogDict? = some c ∧ c.Distinct ∧
      (listed (utf8 "a")).doc.value? c "StructTreeRoot" = some (.dictionary x) ∧
      (listed (utf8 "a")).doc.HasIds ((listed (utf8 "a")).doc.ParentPlace x) x
        [(utf8 "a", .reference ⟨4, 0⟩)] ∧
      notes.root.declaredElementIds ≠ [] ∧ (applyTags notes).run (listed (utf8 "a")) = .ok () d' ∧
      Stands d'.doc root ids notes.root ∧ d'.doc.FlatIds root ls' ∧
      (ls'.map Prod.fst).Pairwise (· < ·) ∧ (utf8 "a", .reference ⟨4, 0⟩) ∈ ls' ∧
      ∀ id element, (idEntries ids notes.root).reverse.lookup id = some element →
        (utf8 id, .reference element) ∈ ls' := by
  have numbered : (listed (utf8 "a")).doc.Numbered := by
    have hall : ∀ e ∈ (listed (utf8 "a")).doc.objects.entries, e.1.number ≤ 4 := by decide
    exact fun id o ho => hall _ (OrderedMap.mem_of_get? ho)
  obtain ⟨c, x, catalog, distinct, hroot, hids⟩ := hasIds_listed (utf8 "a")
  have declares : notes.root.declaredElementIds ≠ [] := by decide
  have plain : ∀ id ∈ notes.root.declaredElementIds, ¬TextString.Marked id := by decide
  obtain ⟨d', hrun⟩ : ∃ d', (applyTags notes).run (listed (utf8 "a")) = .ok () d' := ⟨_, rfl⟩
  obtain ⟨root, ids, ls', -, -, stands, hflat, hsorted, hkeeps⟩ :=
    applyTags_elementIds numbered rfl catalog distinct hroot hids (List.nodup_singleton _) declares hrun
  obtain ⟨hkept, hlast⟩ := (hkeeps plain).mpr fun l hl _ => by
    rw [List.mem_singleton.mp hl]
    decide +kernel
  exact ⟨c, x, d', root, ids, ls', numbered, rfl, catalog, distinct, hroot, hids, declares, hrun, stands,
    hflat, hsorted, hkept _ (List.mem_singleton_self _) (by decide +kernel), hlast⟩

/-- The key of an old element is written as UTF-8: the id of that element is not listed any more. -/
theorem applyTags_rewrites_key : ∃ c x d' c' y node,
    (listed [0xE9]).doc.catalogDict? = some c ∧
      (listed [0xE9]).doc.value? c "StructTreeRoot" = some (.dictionary x) ∧
      (listed [0xE9]).doc.HasIds ((listed [0xE9]).doc.ParentPlace x) x [([0xE9], .reference ⟨4, 0⟩)] ∧
      notes.stripExisting = false ∧ [0xE9] ∉ notes.root.declaredElementIds.map utf8 ∧
      (applyTags notes).run (listed [0xE9]) = .ok () d' ∧ d'.doc.catalogDict? = some c' ∧
      d'.doc.value? c' "StructTreeRoot" = some (.dictionary y) ∧
      d'.doc.value? y "IDTree" = some (.dictionary node) ∧
      d'.doc.keyLeaves Document.treeDepth node =
        [(utf8 "b", .reference ⟨8, 0⟩), ([0xC3, 0xA9], .reference ⟨4, 0⟩)] := by
  obtain ⟨c, x, catalog, -, hroot, hids⟩ := hasIds_listed [0xE9]
  refine ⟨c, x, _, _, _, _, catalog, hroot, hids, rfl, by decide +kernel, rfl, rfl, rfl, rfl, ?_⟩
  exact (Document.nameNode_of_flat (fun _ => False) _ (by with_unfolding_all rfl) rfl).2

end Edit

end AccessiblePdf
