import AccessiblePdf.Proofs.Annotation.Linking
import AccessiblePdf.Proofs.Structure.Agreement

/-!
Objects that elements list, and what their keys lead to in the parent tree. After a structure tree was
built and annotations were edited, the key of every listed annotation leads to an element that lists it
(`annotations_owned`). It leads to every element that does just when no annotation is listed by two
elements.
-/
open Std.Do

namespace AccessiblePdf

open Edit Watch

/-! ## What a reader finds -/

namespace Document

/-- An element lists the object in a place. -/
def ListsObject (doc : Document) (element home : ObjectId) : Prop :=
  ∃ x annot, .dictionary x ∈ doc.structureKids element ∧ x.get? "Type" = some (.name "OBJR") ∧
    x.get? "Obj" = some (.reference annot) ∧ doc.target? annot = some home

/-- An object has a key, to which the parent tree below a root has an element. -/
def OwnedBy (doc : Document) (root annot owner : ObjectId) : Prop :=
  ∃ x key, doc.dict? annot = some x ∧ x.get? "StructParent" = some (.integer key) ∧
    doc.parents root key = some (.reference owner)

/-- What an element lists as an object has a key that leads to the element. -/
def ObjectsAgree (doc : Document) (root : ObjectId) : Prop :=
  ∀ element x, doc.InTree root element → .dictionary x ∈ doc.structureKids element →
    x.get? "Type" = some (.name "OBJR") →
    ∃ annot, x.get? "Obj" = some (.reference annot) ∧ doc.OwnedBy root annot element

/-- What an element lists as an object has a key that leads to an element that lists it. -/
def ObjectsOwned (doc : Document) (root : ObjectId) : Prop :=
  ∀ element x, doc.InTree root element → .dictionary x ∈ doc.structureKids element →
    x.get? "Type" = some (.name "OBJR") →
    ∃ annot home owner, x.get? "Obj" = some (.reference annot) ∧ doc.target? annot = some home ∧
      doc.OwnedBy root annot owner ∧ doc.InTree root owner ∧ doc.ListsObject owner home

/-- No object is listed by two elements. -/
def ObjectsApart (doc : Document) (root : ObjectId) : Prop :=
  ∀ element element' home, doc.InTree root element → doc.InTree root element' →
    doc.ListsObject element home → doc.ListsObject element' home → element = element'

variable {doc : Document} {root : ObjectId}

theorem OwnedBy.unique {annot annot' home owner owner' : ObjectId}
    (h : doc.OwnedBy root annot owner) (h' : doc.OwnedBy root annot' owner')
    (hhome : doc.target? annot = some home) (hhome' : doc.target? annot' = some home) :
    owner = owner' := by
  obtain ⟨x, key, hx, hkey, howner⟩ := h
  obtain ⟨x', key', hx', hkey', howner'⟩ := h'
  rw [dict?, get?_eq_of_target? hhome] at hx
  rw [dict?, get?_eq_of_target? hhome', hx] at hx'
  obtain rfl := Option.some.inj hx'
  obtain rfl := Object.integer.inj (Option.some.inj (hkey.symm.trans hkey'))
  exact Object.reference.inj (Option.some.inj (howner.symm.trans howner'))

/-- When every listed object has an owner that lists it, all elements that list it are its owners just
when there are no two of them. -/
theorem ObjectsOwned.agree_iff (h : doc.ObjectsOwned root) :
    doc.ObjectsAgree root ↔ doc.ObjectsApart root := by
  constructor
  · intro agree element element' home htree htree' hlists hlists'
    obtain ⟨x, annot, hmem, htype, hobj, hhome⟩ := hlists
    obtain ⟨x', annot', hmem', htype', hobj', hhome'⟩ := hlists'
    obtain ⟨annot₁, hobj₁, howned⟩ := agree element x htree hmem htype
    obtain ⟨annot₂, hobj₂, howned'⟩ := agree element' x' htree' hmem' htype'
    obtain rfl := Object.reference.inj (Option.some.inj (hobj.symm.trans hobj₁))
    obtain rfl := Object.reference.inj (Option.some.inj (hobj'.symm.trans hobj₂))
    exact howned.unique howned' hhome hhome'
  · intro unique element x htree hmem htype
    obtain ⟨annot, home, owner, hobj, hhome, howned, howner, hlists⟩ := h element x htree hmem htype
    obtain rfl := unique element owner home htree howner ⟨x, annot, hmem, htype, hobj, hhome⟩ hlists
    exact ⟨annot, hobj, howned⟩

end Document

/-! ## The account of a new structure tree -/

/-- The account of a structure tree that lists no objects yet. -/
def Books.skeleton (b : Books) (top : ObjectId) : Skeleton where
  top := top
  kids := fun x => ((b.cell x).bind Cell.kids?).map (·.map Kid.element)
  keys := fun _ => none
  entries := []
  next := 0

namespace Books

variable {b : Books} {top x element kid : ObjectId}

theorem kids_skeleton {kids : List Kid} : (b.skeleton top).kids x = some kids ↔
    ∃ below, b.IsElement x below ∧ kids = below.map Kid.element := by
  rw [skeleton, Option.map_eq_some_iff]
  simp only [isElement_iff, eq_comm]

theorem has_skeleton : (b.skeleton top).Has x ↔ ∃ below, b.IsElement x below := by
  simp only [Skeleton.Has, kids_skeleton]
  constructor
  · rintro ⟨_, below, h, -⟩
    exact ⟨below, h⟩
  · rintro ⟨below, h⟩
    exact ⟨_, below, h, rfl⟩

theorem lists_skeleton {k : Kid} : (b.skeleton top).Lists element k ↔
    ∃ below kid, b.IsElement element below ∧ kid ∈ below ∧ k = .element kid := by
  simp only [Skeleton.Lists, kids_skeleton]
  constructor
  · rintro ⟨_, ⟨below, h, rfl⟩, hmem⟩
    obtain ⟨kid, hkid, rfl⟩ := List.mem_map.mp hmem
    exact ⟨below, kid, h, hkid, rfl⟩
  · rintro ⟨below, kid, h, hkid, rfl⟩
    exact ⟨_, ⟨below, h, rfl⟩, List.mem_map_of_mem hkid⟩

theorem not_listsHome_skeleton {home : ObjectId} : ¬(b.skeleton top).ListsHome element home := by
  rintro ⟨target, page, hlists⟩
  obtain ⟨below, kid, -, -, heq⟩ := lists_skeleton.mp hlists
  exact absurd heq (by simp)

theorem reaches_skeleton (h : b.Reaches top x) : (b.skeleton top).Reaches x := by
  induction h with
  | self => exact .top
  | kid _ here mem ih => exact .kid ih (lists_skeleton.mpr ⟨_, _, here, mem, rfl⟩)

end Books

section Start

variable {old : Document} {catalog root tree element : ObjectId} {names : Option ObjectId}
  {b : Books} {d d' : Draft} {u : Unit}

theorem Building.agrees (h : Building old catalog root tree names b d)
    (helement : ∃ below, b.IsElement element below)
    (connected : ∀ x below, b.IsElement x below → b.Reaches element x) :
    (b.skeleton element).Agrees where
  ascending := ⟨.nil, fun e he => absurd he List.not_mem_nil⟩
  range := fun e he => absurd he List.not_mem_nil
  keyed := fun home key hkey => absurd hkey (by simp [Books.skeleton])
  apart := fun home home' key hkey => absurd hkey (by simp [Books.skeleton])
  top := Books.has_skeleton.mpr helement
  closed := by
    intro x kid hlists
    obtain ⟨below, kid', ⟨marks, hc⟩, hmem, heq⟩ := Books.lists_skeleton.mp hlists
    obtain rfl := Kid.element.inj heq
    exact Books.has_skeleton.mpr ((h.elements x below marks hc).2 kid hmem)
  reached := by
    intro x hx
    obtain ⟨below, hbelow⟩ := Books.has_skeleton.mp hx
    exact Books.reaches_skeleton (connected x below hbelow)
  owned := fun x home hhome => absurd hhome Books.not_listsHome_skeleton

/-- A new tree is as its account says, once its first element is below the root. -/
theorem Building.carries {doc' : Document} {catalogId : ObjectId}
    (h : Building old catalog root tree names b d) (numbered : old.Numbered)
    (hcatalog : old.CatalogAt catalogId catalog)
    (htarget : doc'.target? catalogId = some catalog) (sound : doc'.Sound parentKeys)
    (hrep : Represents old (b.put root (.root tree names 0 [element])) doc') :
    Carries ⟨catalog, root, tree⟩ (b.skeleton element) doc' where
  sound := sound.mono (by decide)
  catalog := ⟨catalogId, by rw [hrep.trailer, hcatalog.root], htarget⟩
  homes := fun x target page home hlists => absurd ⟨target, page, hlists⟩ Books.not_listsHome_skeleton
  apart := by
    show ((b.cell root).bind Cell.kids?).map _ = none
    rw [h.rootCell]
    rfl
  entries := by
    have hroot := (hrep.dict?_cell (d := { doc := doc' }) Books.cell_put_self rfl)
    obtain ⟨x, hx, ⟨htree, -, hnext, hkids, -⟩, -⟩ := hroot
    have htreeCell : (b.put root (.root tree names 0 [element])).cell tree = some (.tree []) :=
      Books.cell_put_of_cell h.treeCell (by simp [h.rootCell])
    obtain ⟨y, hy, ⟨hflat, hnums, -⟩, -⟩ := hrep.dict?_cell (d := { doc := doc' }) htreeCell rfl
    intro t key v entry
    cases entry with
    | root =>
      obtain ⟨z, hz⟩ := hcatalog.dictionary
      obtain ⟨z', hz', hentry⟩ := hrep.dictionaries catalog z (numbered catalog _ hz) hz
      rw [Document.entryAt?_of_get? hz', hentry]
      show (b.set catalog "StructTreeRoot").or _ = _
      rw [h.set, if_pos ⟨rfl, rfl⟩, Option.some_or]
    | tree => rw [Document.entryAt?_of_get? hx, htree]
    | tops => exact (Document.entryAt?_of_get? hx _).trans hkids
    | next => exact (Document.entryAt?_of_get? hx _).trans hnext
    | flat => rw [Document.entryAt?_of_get? hy, hflat]
    | owners => exact (Document.entryAt?_of_get? hy _).trans hnums
    | kids here =>
      obtain ⟨below, ⟨marks, hc⟩, rfl⟩ := Books.kids_skeleton.mp here
      obtain ⟨rfl, -⟩ := h.elements t below marks hc
      have hcell : (b.put root (.root tree names 0 [element])).cell t = some (.element below []) :=
        Books.cell_put_of_cell hc (by simp [h.rootCell])
      obtain ⟨z, hz, ⟨hlist, -⟩, -⟩ := hrep.dict?_cell (d := { doc := doc' }) hcell rfl
      rw [Document.entryAt?_of_get? hz, hlist, Cell.elementKids, List.map_nil, List.append_nil,
        List.map_map]
      rfl
    | key =>
      show doc'.entryAt? t "StructParent" = none
      by_contra hne
      obtain ⟨o, ho⟩ := Option.ne_none_iff_exists'.mp hne
      obtain ⟨z, hz, hentry⟩ := Document.get?_of_entryAt? ho
      have hlacks := sound.objects t _ hz _ (OrderedMap.mem_of_get? hentry)
      exact hlacks.1 List.mem_cons_self

/-- Building the structure tree in a document without keys makes a draft linked, with no key given
out. -/
theorem applyTags_linked (bare : d.Bare) {s : TagSection} (hrun : (applyTags s).run d = .ok u d') :
    ∃ p sk, Linked p sk 0 d' := by
  obtain ⟨_, d₀, hstripped, hrooted⟩ := applyTags_ok hrun
  have bare₀ : d₀.Bare := by
    rcases hstripped with ⟨-, hstripped⟩ | ⟨-, rfl⟩
    · exact stripTags_bare bare hstripped
    · exact bare
  rw [bind_ok] at hrooted
  obtain ⟨root, d₁, hroot, hrun⟩ := hrooted
  obtain ⟨catalogId, catalog, tree, b₁, hcatalog, h₁, hnone⟩ :=
    ensureRoot_building bare₀.sound.numbered bare₀.unrooted bare₀.nodes hroot
  rw [bind_ok] at hrun
  obtain ⟨element, d₂, hbuild, hrun⟩ := hrun
  obtain ⟨names, b₂, h₂, hsprouted, helement⟩ := buildTags_sprouted h₁ s.root hbuild
  rw [bind_ok] at hrun
  obtain ⟨_, d₃, happend, hmarked⟩ := hrun
  obtain ⟨doc₃, rfl, hrep⟩ := h₂.represents.appendKid_root h₂.rootCell happend
  have hheld : (Watch.building d₀.doc).Holds d₀ := ⟨.refl bare₀.sound, trivial⟩
  have hheld₃ := ((hheld.run ensureRoot_building_holds hroot).run
    (buildTags_building root root s.root) hbuild).run (appendKid_building root _) happend
  have hcarries := h₂.carries bare₀.sound.numbered hcatalog
    (hheld₃.keeps.targets _ _ hcatalog.target) hheld₃.keeps.sound hrep
  have hagrees := h₂.agrees helement fun x below hx =>
    (hsprouted.new x below hx).resolve_left fun ⟨_, hold⟩ => hnone x _ hold
  have hlinked : Linked ⟨catalog, root, tree⟩ (b₂.skeleton element) 0 { d₂ with doc := doc₃ } :=
    ⟨hcarries, hagrees, fun name x hnode => Books.has_skeleton.mpr (h₂.nodes name x hnode),
      Nat.le_refl 0⟩
  exact ⟨_, _, hlinked.quiet
    (setMarked_holds (free_annotating (by decide)) (free_annotating (by decide)) _) hmarked⟩

end Start

/-! ## What is read off the account -/

namespace Linked

variable {p : Places} {s : Skeleton} {n : Nat} {d : Draft} {element home : ObjectId}

theorem structureKids_eq (h : Linked p s n d) {kids : List Kid} (hkids : s.kids element = some kids) :
    d.doc.structureKids element = kids.map Kid.item := by
  obtain ⟨x, -, -, hx, hentries⟩ := h.carries.object (.kids hkids)
  rw [Document.structureKids, hx, Option.bind_some, hentries _ _ (.kids hkids)]

/-- The elements in the tree are those of the account. -/
theorem inTree_iff (h : Linked p s n d) : d.doc.InTree p.root element ↔ s.Has element := by
  have hroot : d.doc.structureKids p.root = [.reference s.top] := by
    obtain ⟨x, -, -, hx, hentries⟩ := h.carries.object .tops
    rw [Document.structureKids, hx, Option.bind_some, hentries _ _ .tops]
  constructor
  · intro htree
    induction htree with
    | top mem =>
      rw [hroot] at mem
      rw [Object.reference.inj (List.mem_singleton.mp mem)]
      exact h.agrees.top
    | kid _ mem ih =>
      obtain ⟨kids, hkids⟩ := ih
      rw [h.structureKids_eq hkids] at mem
      obtain ⟨k, hk, heq⟩ := List.mem_map.mp mem
      cases k with
      | element kid =>
        obtain rfl := Object.reference.inj heq
        exact h.agrees.closed _ _ ⟨kids, hkids, hk⟩
      | object target page home => exact absurd heq (by simp [Kid.item, Object.ofEntries])
  · intro hhas
    induction h.agrees.reached element hhas with
    | top =>
      refine .top ?_
      rw [hroot]
      exact List.mem_singleton_self _
    | kid _ lists ih =>
      obtain ⟨kids, hkids, hmem⟩ := lists
      refine .kid (ih ⟨kids, hkids⟩) ?_
      rw [h.structureKids_eq hkids]
      exact List.mem_map.mpr ⟨_, hmem, rfl⟩

theorem parents_eq (h : Linked p s n d) : d.doc.parents p.root = bindings s.entries := by
  obtain ⟨x, -, -, hx, hroot⟩ := h.carries.object .tree
  obtain ⟨node, -, -, hnode, htree⟩ := h.carries.object .owners
  have hat : d.doc.TreeAt p.root p.tree node := ⟨hnode, x, hx, hroot _ _ .tree⟩
  have hread : ∀ e ∈ s.entries, d.doc.readKey? (.integer e.1) = some e.1 := by
    intro e he
    show some (readKey e.1) = some e.1
    rw [h.agrees.ascending.exact e he]
  rw [Document.parents, hat.parentTree?_eq, Option.getD_some,
    Document.numberTree_of_flat d.doc (htree _ _ .flat) (htree _ _ .owners), Nums.read_ofEntries hread]

theorem mem_structureKids (h : Linked p s n d) (hhas : s.Has element) {x : Dict Object}
    (hmem : .dictionary x ∈ d.doc.structureKids element) :
    ∃ target page home, s.Lists element (.object target page home) ∧
      x.get? "Obj" = some (.reference target) ∧ d.doc.target? target = some home := by
  obtain ⟨kids, hkids⟩ := hhas
  rw [h.structureKids_eq hkids] at hmem
  obtain ⟨k, hk, heq⟩ := List.mem_map.mp hmem
  cases k with
  | element kid => exact absurd heq (by simp [Kid.item])
  | object target page home =>
    obtain rfl := Object.dictionary.inj heq
    exact ⟨target, page, home, ⟨kids, hkids, hk⟩, rfl,
      h.carries.homes element target page home ⟨kids, hkids, hk⟩⟩

theorem listsObject (h : Linked p s n d) (hlists : s.ListsHome element home) :
    d.doc.ListsObject element home := by
  obtain ⟨target, page, hlists⟩ := hlists
  have hhome := h.carries.homes element target page home hlists
  obtain ⟨kids, hkids, hmem⟩ := hlists
  refine ⟨.ofList [(utf8 "Type", .name "OBJR"), (utf8 "Obj", .reference target),
    (utf8 "Pg", .reference page)], target, ?_, rfl, rfl, hhome⟩
  rw [h.structureKids_eq hkids]
  exact List.mem_map.mpr ⟨_, hmem, rfl⟩

theorem objectsOwned (h : Linked p s n d) : d.doc.ObjectsOwned p.root := by
  intro element x htree hmem _
  obtain ⟨target, page, home, hlists, hobj, hhome⟩ :=
    h.mem_structureKids (h.inTree_iff.mp htree) hmem
  obtain ⟨key, owner, hkey, hbound, howner⟩ := h.agrees.owned element home ⟨target, page, hlists⟩
  have hentry : d.doc.entryAt? home "StructParent" = some (.integer key) := by
    rw [h.carries.entries home _ _ (.key home), hkey]
    rfl
  obtain ⟨y, hy, hinteger⟩ := Document.get?_of_entryAt? hentry
  have hdict : d.doc.dict? target = some y := by
    rw [Document.dict?, Document.get?_eq_of_target? hhome, hy]
    rfl
  obtain ⟨target', page', hlists'⟩ := howner
  refine ⟨target, home, owner, hobj, hhome, ⟨y, key, hdict, hinteger, ?_⟩,
    h.inTree_iff.mpr hlists'.has, h.listsObject ⟨target', page', hlists'⟩⟩
  rw [h.parents_eq, hbound]

end Linked

theorem Document.Unkeyed.bare {doc : Document} (unkeyed : doc.Unkeyed)
    (unrooted : ∀ x, doc.catalogDict? = some x → x.get? "StructTreeRoot" = none) (compress : Bool)
    (z : Compressor) : Draft.Bare { doc, compress, compressor := z } where
  sound := ⟨unkeyed.numbered, fun id o ho =>
    .of_lacks (unkeyed.lacks id o ho) (List.Subset.refl _)⟩
  unrooted := unrooted
  nodes := rfl

/-- When a document without keys into the parent tree gets a structure tree and then its annotations
are edited, the key of every annotation that an element lists leads to an element that lists it. It
leads to all elements that do just when no annotation is listed by two elements. -/
theorem annotations_owned {old : Document} {compress : Bool} {z : Compressor} {s : TagSection} {o : Options}
    {as : List AnnotationEdit} {d₁ d₂ : Draft} (unkeyed : old.Unkeyed)
    (unrooted : ∀ x, old.catalogDict? = some x → x.get? "StructTreeRoot" = none)
    (few : as.length ≤ 0x20000000000000)
    (tags : (applyTags s).run { doc := old, compress, compressor := z } = .ok () d₁)
    (annotations : (applyAnnotations o as).run d₁ = .ok () d₂) :
    ∃ root, d₂.doc.structureRoot? = some root ∧ d₂.doc.ObjectsOwned root ∧
      (d₂.doc.ObjectsAgree root ↔ d₂.doc.ObjectsApart root) := by
  obtain ⟨p, sk, h₁⟩ := applyTags_linked (unkeyed.bare unrooted compress z) tags
  obtain ⟨sk', h₂⟩ := h₁.applyAnnotations (by omega) annotations
  exact ⟨p.root, h₂.carries.structureRoot?_eq, h₂.objectsOwned, h₂.objectsOwned.agree_iff⟩

/-! ## A link -/

/-- Two pages, the first of which has a link, with more objects. -/
def linkPages (catalog link : List (Bytes × Object)) (more : List (ObjectId × Object)) : Document :=
  pagesWith catalog [(utf8 "Annots", .array [.reference ⟨6, 0⟩])] ⟨4, 0⟩
    ((⟨6, 0⟩, .ofEntries ((utf8 "Subtype", .name "Link") :: link)) :: more)

/-- A structure tree of two elements, the second one below the first. -/
def twoLinks : TagSection :=
  ⟨false, .node { id := some "a", role := "Link" } [.node { id := some "b", role := "Link" } []]⟩

/-- The link with the structure tree: the owners of keys, and what the two elements list. -/
def linkTree (link next : List (Bytes × Object)) (owners first second : List Object) : Draft where
  doc := linkPages
    [(utf8 "StructTreeRoot", .reference ⟨7, 0⟩), (utf8 "MarkInfo", .reference ⟨11, 0⟩)] link
    [(⟨7, 0⟩, .ofEntries ([(utf8 "Type", .name "StructTreeRoot"),
        (utf8 "K", .array [.reference ⟨9, 0⟩]), (utf8 "ParentTree", .reference ⟨8, 0⟩)] ++ next)),
      (⟨8, 0⟩, .ofEntries [(utf8 "Nums", .array owners)]),
      (⟨9, 0⟩, .ofEntries [(utf8 "Type", .name "StructElem"), (utf8 "S", .name "Link"),
        (utf8 "P", .reference ⟨7, 0⟩), (utf8 "K", .array (.reference ⟨10, 0⟩ :: first))]),
      (⟨10, 0⟩, .ofEntries [(utf8 "Type", .name "StructElem"), (utf8 "S", .name "Link"),
        (utf8 "P", .reference ⟨9, 0⟩), (utf8 "K", .array second)]),
      (⟨11, 0⟩, .ofEntries [(utf8 "Marked", .boolean true)])]
  nodes := .ofList [("a", ⟨9, 0⟩), ("b", ⟨10, 0⟩)]
  compress := false

/-- The link with its key, which leads to an element. -/
def linked (owner : ObjectId) (first second : List Object) : Draft :=
  linkTree [(utf8 "StructParent", .integer 0)] [(utf8 "ParentTreeNextKey", .integer 1)]
    [.integer 0, .reference owner] first second

/-- What lists the link. -/
def linkKid : Object := (Kid.object ⟨6, 0⟩ ⟨3, 0⟩ ⟨6, 0⟩).item

/-- The link belongs to an element. -/
def ofElement (node : String) : AnnotationEdit :=
  { op := "associate", page := 1, index := some 0, node := some node }

theorem unkeyed_linkPages : (linkPages [] [] []).Unkeyed := by
  have hall : ∀ e ∈ (linkPages [] [] []).objects.entries,
      e.1.number ≤ 6 ∧ e.2.lacks parentKeys = true := by
    decide
  exact ⟨fun _ _ ho => (hall _ (OrderedMap.mem_of_get? ho)).1,
    fun _ _ ho => (hall _ (OrderedMap.mem_of_get? ho)).2⟩

theorem unrooted_linkPages (x : Dict Object) (hx : (linkPages [] [] []).catalogDict? = some x) :
    x.get? "StructTreeRoot" = none := by
  have hcatalog : (linkPages [] [] []).catalogDict? =
      some (.ofList [(utf8 "Pages", .reference ⟨2, 0⟩)]) := rfl
  obtain rfl := Option.some.inj (hcatalog.symm.trans hx)
  rfl

theorem applyTags_twoLinks :
    (applyTags twoLinks).run { doc := linkPages [] [] [], compress := false } =
      .ok () (linkTree [] [] [] [] []) := by
  cbv

theorem applyAnnotations_link :
    (applyAnnotations {} [ofElement "a", ofElement "b"]).run (linkTree [] [] [] [] []) =
      .ok () (linked ⟨10, 0⟩ [linkKid] [linkKid]) := by
  have hpage : ∀ {d d' : Draft} {node : String}, (Edit.page 1).run d = .ok ⟨3, 0⟩ d →
      (annotationId 1 ⟨3, 0⟩ (some 0)).run d = .ok ⟨6, 0⟩ d →
      (associate ⟨6, 0⟩ ⟨3, 0⟩ (some node)).run d = .ok () d' →
      (annotate {} (ofElement node)).run d = .ok () d' := fun hpage hannot hrun =>
    bind_ok.mpr ⟨_, _, hpage, bind_ok.mpr ⟨_, _, hannot, hrun⟩⟩
  have hfirst : (annotate {} (ofElement "a")).run (linkTree [] [] [] [] []) =
      .ok () (linked ⟨9, 0⟩ [linkKid] []) := by
    refine hpage ?_ ?_ ?_ <;> cbv
  have hsecond : (annotate {} (ofElement "b")).run (linked ⟨9, 0⟩ [linkKid] []) =
      .ok () (linked ⟨10, 0⟩ [linkKid] [linkKid]) := by
    refine hpage ?_ ?_ ?_ <;> cbv
  exact bind_ok.mpr ⟨⟨⟩, _, forIn_cons_ok.mpr ⟨_, hfirst, forIn_cons_ok.mpr ⟨_, hsecond, rfl⟩⟩, rfl⟩

/-- The link is owned, whichever of its elements owns it. -/
theorem annotations_owned_link :
    let d : Draft := { doc := linkPages [] [] [], compress := false }
    let as := [ofElement "a", ofElement "b"]
    d.doc.Unkeyed ∧ (∀ x, d.doc.catalogDict? = some x → x.get? "StructTreeRoot" = none) ∧
      as.length ≤ 0x20000000000000 ∧ ∃ d₁ d₂, (applyTags twoLinks).run d = .ok () d₁ ∧
        (applyAnnotations {} as).run d₁ = .ok () d₂ ∧
        ∃ root, d₂.doc.structureRoot? = some root ∧ d₂.doc.ObjectsOwned root ∧
          (d₂.doc.ObjectsAgree root ↔ d₂.doc.ObjectsApart root) := by
  intro d as
  have few : as.length ≤ 0x20000000000000 := by decide
  exact ⟨unkeyed_linkPages, unrooted_linkPages, few, _, _, applyTags_twoLinks, applyAnnotations_link,
    annotations_owned unkeyed_linkPages unrooted_linkPages few applyTags_twoLinks
      applyAnnotations_link⟩

/-- The first element lists the link, whose key leads to the second one. -/
theorem annotations_disagree_link :
    let d : Draft := { doc := linkPages [] [] [], compress := false }
    d.doc.Unkeyed ∧ (∀ x, d.doc.catalogDict? = some x → x.get? "StructTreeRoot" = none) ∧
      ∃ d₁ d₂, (applyTags twoLinks).run d = .ok () d₁ ∧
        (applyAnnotations {} [ofElement "a", ofElement "b"]).run d₁ = .ok () d₂ ∧
        ∃ root, d₂.doc.structureRoot? = some root ∧ ¬d₂.doc.ObjectsAgree root := by
  refine ⟨unkeyed_linkPages, unrooted_linkPages, _, linked ⟨10, 0⟩ [linkKid] [linkKid],
    applyTags_twoLinks, applyAnnotations_link, ⟨7, 0⟩, rfl, fun agree => ?_⟩
  have htree : (linked ⟨10, 0⟩ [linkKid] [linkKid]).doc.InTree ⟨7, 0⟩ ⟨9, 0⟩ :=
    .top (List.mem_singleton_self _)
  obtain ⟨annot, hobj, x, key, hx, hkey, howner⟩ := agree ⟨9, 0⟩ _ htree
    (List.mem_cons_of_mem _ (List.mem_singleton_self _)) rfl
  obtain rfl := Object.reference.inj (Option.some.inj hobj)
  obtain rfl := Option.some.inj hx
  obtain rfl := Object.integer.inj (Option.some.inj hkey)
  have hsecond : (linked ⟨10, 0⟩ [linkKid] [linkKid]).doc.parents ⟨7, 0⟩ 0 =
      some (.reference ⟨10, 0⟩) := by
    cbv
  exact absurd (hsecond.symm.trans howner) (by simp)

end AccessiblePdf
