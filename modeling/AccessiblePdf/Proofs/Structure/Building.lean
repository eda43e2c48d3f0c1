import AccessiblePdf.Proofs.Structure.Regions
import AccessiblePdf.Structure.Build

/-!
Building the structure tree in a document without tags. While the tree is built, the new objects are
its root, the parent tree, the tree of element ids and elements without content (`Building`); every new
element hangs below the element that is being built (`Sprouted`). Afterwards the draft is in order, and
every element is in the tree (`applyTags_inOrder`).
-/
namespace AccessiblePdf

open Edit

/-! ## Elements below elements -/

namespace Books

/-- No element is lost, and none loses a kid. -/
def Grown (b b' : Books) : Prop :=
  ∀ element kids, b.IsElement element kids → ∃ more, b'.IsElement element (kids ++ more)

/-- The elements at and below an element. -/
inductive Reaches (b : Books) (top : ObjectId) : ObjectId → Prop where
  | self : Reaches b top top
  | kid {element kid : ObjectId} {kids : List ObjectId} (above : Reaches b top element)
      (here : b.IsElement element kids) (mem : kid ∈ kids) : Reaches b top kid

/-- Elements come only below one element. -/
structure Sprouted (b b' : Books) (top : ObjectId) : Prop where
  grown : b.Grown b'
  new : ∀ element kids, b'.IsElement element kids →
    (∃ below, b.IsElement element below) ∨ b'.Reaches top element

variable {b b' b₁ b₂ : Books} {top element x : ObjectId}

theorem Grown.refl (b : Books) : b.Grown b := fun _ _ h => ⟨[], by rwa [List.append_nil]⟩

theorem Grown.trans (h : b.Grown b₁) (h' : b₁.Grown b₂) : b.Grown b₂ := by
  intro element kids hkids
  obtain ⟨more, hmore⟩ := h element kids hkids
  obtain ⟨more', hmore'⟩ := h' element _ hmore
  exact ⟨more ++ more', by rwa [← List.append_assoc]⟩

theorem Grown.of_same (h : Ledger.SameElements b b') : b.Grown b' :=
  fun element kids hkids => ⟨[], by rw [List.append_nil]; exact (h element kids).mpr hkids⟩

theorem Grown.exists (h : b.Grown b') (helement : ∃ below, b.IsElement x below) :
    ∃ below, b'.IsElement x below := by
  obtain ⟨below, hbelow⟩ := helement
  obtain ⟨more, hmore⟩ := h x below hbelow
  exact ⟨_, hmore⟩

theorem Reaches.mono (h : b.Reaches top x) (grown : b.Grown b') : b'.Reaches top x := by
  induction h with
  | self => exact .self
  | kid _ here mem ih =>
    obtain ⟨more, hmore⟩ := grown _ _ here
    exact .kid ih hmore (List.mem_append_left _ mem)

theorem Reaches.trans (h : b.Reaches top element) (h' : b.Reaches element x) : b.Reaches top x := by
  induction h' with
  | self => exact h
  | kid _ here mem ih => exact .kid ih here mem

end Books

/-- Every element is in the tree. -/
def Ledger.Connected (l : Ledger) (b : Books) : Prop :=
  ∀ element kids, b.IsElement element kids → ∃ top ∈ l.tops, b.Reaches top element

theorem Ledger.Connected.sameTree {l l' : Ledger} {b b' : Books} (h : l.Connected b)
    (same : l.SameTree l' b b') : l'.Connected b' := by
  intro element kids hkids
  obtain ⟨top, htop, hreaches⟩ := h element kids ((same.elements element kids).mp hkids)
  rw [same.tops]
  exact ⟨top, htop, hreaches.mono (.of_same same.elements)⟩

/-! ## The dictionary of an element -/

theorem Tag.get?_dict (t : Tag) (parent : ObjectId) {key : Bytes}
    (hkey : key ∉ (["Lang", "Alt", "ActualText", "ID", "A"] : List Bytes)) :
    (t.dict parent).get? key = (newElement t.role parent).get? key := by
  simp only [List.mem_cons, List.not_mem_nil, or_false, not_or] at hkey
  obtain ⟨hlang, halt, hactual, hid, hattributes⟩ := hkey
  unfold Tag.dict
  extract_lets put attributes
  have hput : ∀ (k : Bytes) (o : Option Object) (d : Dict Object), key ≠ k →
      (put k o d).get? key = d.get? key := by
    intro k o d hk
    cases o with
    | none => rfl
    | some o => exact OrderedMap.get?_insert_of_ne _ hk _
  rw [hput _ _ _ hattributes, hput _ _ _ hid, hput _ _ _ hactual, hput _ _ _ halt,
    hput _ _ _ hlang]

theorem holds_tagDict (t : Tag) (parent : ObjectId) :
    (Cell.element [] []).Holds (.dictionary (t.dict parent)) := by
  refine ⟨?_, ?_, ?_⟩
  · rw [t.get?_dict parent (by decide)]
    rfl
  · rw [t.get?_dict parent (by decide)]
    rfl
  · rw [t.get?_dict parent (by decide)]
    rfl

/-! ## While the tree is built -/

/-- The new objects are the root, the two trees and elements without content; of the old dictionaries
only that of the catalog is set, to the root. -/
structure Building (old : Document) (catalog root tree : ObjectId) (names : Option ObjectId)
    (b : Books) (d : Draft) : Prop where
  represents : Represents old b d.doc
  rootCell : b.cell root = some (.root tree names 0 [])
  treeCell : b.cell tree = some (.tree [])
  names : ∀ id, names = some id → b.cell id = some .names
  elements : ∀ (element : ObjectId) (kids : List ObjectId) (marks : List TaggedSequence),
    b.cell element = some (.element kids marks) → marks = [] ∧
      ∀ kid ∈ kids, ∃ below, b.IsElement kid below
  nodes : ∀ name element, d.nodes.get? name = some element → ∃ below, b.IsElement element below
  set : ∀ (id : ObjectId) (key : Bytes), b.set id key =
    if id = catalog ∧ key = utf8 "StructTreeRoot" then some (.reference root) else none

namespace Building

variable {old : Document} {catalog root tree element kid : ObjectId} {names : Option ObjectId}
  {b : Books} {d d' : Draft} {u : Unit}

/-- An element comes, or gets more kids. -/
theorem putElement (h : Building old catalog root tree names b d) {kids : List ObjectId}
    {doc' : Document} (before : ∀ c, b.cell element = some c →
      ∃ less more, c = .element less [] ∧ kids = less ++ more)
    (hkids : ∀ kid ∈ kids, ∃ below, b.IsElement kid below)
    (hrep : Represents old (b.put element (.element kids [])) doc') :
    Building old catalog root tree names (b.put element (.element kids [])) { d with doc := doc' } ∧
      b.Grown (b.put element (.element kids [])) := by
  have kept : ∀ (id : ObjectId) (c : Cell), b.cell id = some c → (∀ less, c ≠ .element less []) →
      (b.put element (.element kids [])).cell id = some c := by
    intro id c hc hne
    refine Books.cell_put_of_cell hc fun heq => ?_
    obtain ⟨less, _, rfl, _⟩ := before c heq
    exact hne less rfl
  have hgrown : b.Grown (b.put element (.element kids [])) := by
    intro x kids' hx
    obtain ⟨marks, hc⟩ := hx
    by_cases hsame : x = element
    · subst hsame
      obtain ⟨less, more, heq, rfl⟩ := before _ hc
      obtain ⟨rfl, rfl⟩ := Cell.element.inj heq
      exact ⟨more, [], Books.cell_put_self⟩
    · exact ⟨[], marks, by rw [List.append_nil]; exact (Books.cell_put_of_ne hsame).trans hc⟩
  refine ⟨⟨hrep, kept _ _ h.rootCell (by simp), kept _ _ h.treeCell (by simp),
    fun id hid => kept _ _ (h.names id hid) (by simp), ?_, ?_, h.set⟩, hgrown⟩
  · intro x kids' marks hc
    rcases Books.cell_put_eq_some.mp hc with ⟨-, heq⟩ | ⟨-, hc⟩
    · obtain ⟨rfl, rfl⟩ := Cell.element.inj heq
      exact ⟨rfl, fun kid hkid => hgrown.exists (hkids kid hkid)⟩
    · obtain ⟨hmarks, hbelow⟩ := h.elements x kids' marks hc
      exact ⟨hmarks, fun kid hkid => hgrown.exists (hbelow kid hkid)⟩
  · intro name x hnode
    exact hgrown.exists (h.nodes name x hnode)

theorem add (h : Building old catalog root tree names b d) {t : Tag} {parent : ObjectId}
    (hrun : (Edit.add (.dictionary (t.dict parent))).run d = .ok element d') :
    ∃ b', Building old catalog root tree names b' d' ∧ b.Grown b' ∧ b'.IsElement element [] ∧
      ∀ x kids, b'.IsElement x kids → (∃ below, b.IsElement x below) ∨ x = element := by
  obtain ⟨-, hfree, doc', rfl, hrep⟩ := h.represents.add_cell (holds_tagDict t parent) hrun
  obtain ⟨h', hgrown⟩ := h.putElement (fun c hc => absurd (hfree.symm.trans hc) (by simp))
    (fun kid hkid => absurd hkid List.not_mem_nil) hrep
  refine ⟨_, h', hgrown, ⟨[], Books.cell_put_self⟩, ?_⟩
  intro x kids hkids
  obtain ⟨marks, hc⟩ := hkids
  rcases Books.cell_put_eq_some.mp hc with ⟨hx, -⟩ | ⟨-, hc⟩
  · exact Or.inr hx
  · exact Or.inl ⟨kids, marks, hc⟩

theorem register (h : Building old catalog root tree names b d) (helement : ∃ below, b.IsElement element below)
    {name : String} (hrun : (Edit.register name element).run d = .ok u d') :
    Building old catalog root tree names b d' := by
  obtain rfl := register_ok.mp hrun
  refine ⟨h.represents, h.rootCell, h.treeCell, h.names, h.elements, ?_, h.set⟩
  intro name' x hnode
  rw [OrderedMap.get?_insert] at hnode
  split at hnode
  · obtain rfl := Option.some.inj hnode
    exact helement
  · exact h.nodes name' x hnode

/-- One more kid of an element. -/
theorem appendKid (h : Building old catalog root tree names b d) {kids : List ObjectId}
    (helement : b.IsElement element kids) (hkid : ∃ below, b.IsElement kid below)
    (hrun : (Edit.appendKid element (.reference kid)).run d = .ok u d') :
    ∃ b', Building old catalog root tree names b' d' ∧ b.Grown b' ∧
      b'.IsElement element (kids ++ [kid]) ∧
      ∀ x kids, b'.IsElement x kids → ∃ below, b.IsElement x below := by
  obtain ⟨marks, hc⟩ := helement
  obtain ⟨rfl, hkids⟩ := h.elements _ _ _ hc
  obtain ⟨doc', rfl, hrep⟩ := h.represents.appendKid_element hc hrun
  obtain ⟨h', hgrown⟩ := h.putElement
    (fun c hc' => ⟨kids, [kid], Option.some.inj (hc'.symm.trans hc), rfl⟩)
    (by
      intro y hy
      rcases List.mem_append.mp hy with hy | hy
      · exact hkids y hy
      · rw [List.mem_singleton.mp hy]
        exact hkid) hrep
  refine ⟨_, h', hgrown, ⟨[], Books.cell_put_self⟩, ?_⟩
  intro x kids' hkids'
  obtain ⟨marks, hcell⟩ := hkids'
  rcases Books.cell_put_eq_some.mp hcell with ⟨rfl, -⟩ | ⟨-, hcell⟩
  · exact ⟨kids, [], hc⟩
  · exact ⟨kids', marks, hcell⟩

/-- The tree of element ids is there already, or comes under a new id. -/
theorem idTree (h : Building old catalog root tree names b d) {id : ObjectId}
    (hrun : (indirectDict root "IDTree").run d = .ok id d') :
    ∃ b', Building old catalog root tree (some id) b' d' ∧ Ledger.SameElements b b' := by
  cases names with
  | some id' =>
    obtain ⟨rfl, rfl⟩ := h.represents.indirectDict_cell h.rootCell (fun x hx => hx.2.1)
      (h.names id' rfl) rfl hrun
    exact ⟨b, h, .refl b⟩
  | none =>
    obtain ⟨hfree, doc', rfl, hrep⟩ := h.represents.indirectDict_fresh h.rootCell
      (fun x hx => hx.2.1) (fun target => .root tree (some target) 0 [])
      (by
        rintro target x ⟨htree, -, hnext, hkids, hmcid⟩
        refine ⟨?_, OrderedMap.get?_insert_self .., ?_, ?_, ?_⟩
        · rw [OrderedMap.get?_insert_of_ne _ (by decide), htree]
        · rw [OrderedMap.get?_insert_of_ne _ (by decide), hnext]
        · rw [OrderedMap.get?_insert_of_ne _ (by decide), hkids]
        · rw [OrderedMap.get?_insert_of_ne _ (by decide), hmcid])
      (fun _ => rfl) hrun
    have hroot : (b.put id (.exact ∅)).cell root = some (.root tree none 0 []) :=
      Books.cell_put_of_cell h.rootCell (by simp [hfree])
    have hcell : ((b.put id (.exact ∅)).put root (.root tree (some id) 0 [])).cell id =
        some (.exact ∅) :=
      Books.cell_put_of_cell Books.cell_put_self (by simp [hroot])
    have hrep' := hrep.relabel hcell (e := .names)
      (by
        intro o ho
        cases o with
        | dictionary x =>
          obtain rfl : x = ∅ := ho
          exact ⟨List.nodup_nil, rfl⟩
        | _ => exact ho.elim) rfl
    have helements : Ledger.SameElements b
        (((b.put id (.exact ∅)).put root (.root tree (some id) 0 [])).put id .names) := by
      refine (Ledger.SameElements.put ?_).trans (.trans (.put ?_) (.put ?_))
      · rw [hfree]
        rfl
      · rw [hroot]
        rfl
      · rw [hcell]
        rfl
    have helement : ∀ (x : ObjectId) (kids : List ObjectId) (marks : List TaggedSequence),
        (((b.put id (.exact ∅)).put root (.root tree (some id) 0 [])).put id .names).cell x =
          some (.element kids marks) → b.cell x = some (.element kids marks) := by
      intro x kids marks hc
      have hold : x ≠ id ∧ x ≠ root ∧ x ≠ id ∧ b.cell x = some (.element kids marks) := by
        simpa [Books.cell_put_eq_some] using hc
      exact hold.2.2.2
    refine ⟨_, ⟨hrep', ?_, ?_, ?_, ?_, ?_, h.set⟩, helements⟩
    · exact Books.cell_put_of_cell Books.cell_put_self (by simp [hcell])
    · exact Books.cell_put_of_cell (Books.cell_put_of_cell
        (Books.cell_put_of_cell h.treeCell (by simp [hfree])) (by simp [hroot])) (by simp [hcell])
    · intro id' hid'
      obtain rfl := Option.some.inj hid'
      exact Books.cell_put_self
    · intro x kids marks hc
      obtain ⟨hmarks, hkids⟩ := h.elements x kids marks (helement x kids marks hc)
      exact ⟨hmarks, fun kid hkid => helements.exists (hkids kid hkid)⟩
    · intro name x hnode
      exact helements.exists (h.nodes name x hnode)

/-- An element is listed in the tree of element ids. -/
theorem registerElementId (h : Building old catalog root tree names b d) {elementId : String}
    (hrun : (Edit.registerElementId root elementId element).run d = .ok u d') :
    ∃ names' b', Building old catalog root tree names' b' d' ∧ Ledger.SameElements b b' := by
  unfold Edit.registerElementId at hrun
  rw [bind_ok] at hrun
  obtain ⟨id, d₁, hindirect, hrun⟩ := hrun
  obtain ⟨b₁, h₁, hsame⟩ := h.idTree hindirect
  have hnames := h₁.names id rfl
  rw [bind_ok] at hrun
  obtain ⟨doc, d₂, hdoc, hrun⟩ := hrun
  obtain ⟨rfl, rfl⟩ := doc_ok.mp hdoc
  rw [bind_ok] at hrun
  obtain ⟨x, d₃, hdict, hmodify⟩ := hrun
  obtain ⟨rfl, -, -⟩ := h₁.represents.dict_cell hnames hdict
  obtain ⟨doc', rfl, hrep⟩ := h₁.represents.modifyDict_cell hnames hmodify (e := .names)
    (by
      rintro y ⟨hdistinct, hmcid⟩
      have hkids := hdistinct.erase (utf8 "Kids")
      refine ⟨(hkids.erase (utf8 "Limits")).insert _ _, ?_⟩
      rw [OrderedMap.get?_insert_of_ne _ (by decide), OrderedMap.get?_erase hkids,
        if_neg (by decide), OrderedMap.get?_erase hdistinct, if_neg (by decide), hmcid]) rfl
  rw [Books.put_eq_self hnames] at hrep
  exact ⟨some id, b₁, ⟨hrep, h₁.rootCell, h₁.treeCell, h₁.names, h₁.elements, h₁.nodes, h₁.set⟩,
    hsame⟩

end Building

section Trees

variable {old : Document} {catalog root tree : ObjectId}

mutual

/-- Building a tree makes an element, with all other new elements below it. -/
theorem buildTags_sprouted {parent element : ObjectId} {names : Option ObjectId} {b : Books}
    {d d' : Draft} (h : Building old catalog root tree names b d) :
    ∀ t : TagTree, (buildTags root parent t).run d = .ok element d' →
      ∃ names' b', Building old catalog root tree names' b' d' ∧ b.Sprouted b' element ∧
        ∃ below, b'.IsElement element below
  | .node t children => by
    intro hrun
    rw [buildTags, bind_ok] at hrun
    obtain ⟨element', d₁, hadd, hrun⟩ := hrun
    obtain ⟨b₁, h₁, hgrown₁, helement₁, hnew₁⟩ := h.add hadd
    have hid : ∃ names₂ b₂ d₂, Building old catalog root tree names₂ b₂ d₂ ∧
        Ledger.SameElements b₁ b₂ ∧ (do
          if let some id := t.id then Edit.register id element'
          buildKids root element' children
          return element').run d₂ = .ok element d' := by
      cases helementId : t.elementId with
      | none =>
        rw [helementId] at hrun
        exact ⟨names, b₁, d₁, h₁, .refl b₁, hrun⟩
      | some id =>
        rw [helementId] at hrun
        replace hrun := bind_ok.mp hrun
        obtain ⟨_, d₂, hregister, hrun⟩ := hrun
        obtain ⟨names₂, b₂, h₂, hsame₂⟩ := h₁.registerElementId hregister
        exact ⟨names₂, b₂, d₂, h₂, hsame₂, hrun⟩
    obtain ⟨names₂, b₂, d₂, h₂, hsame₂, hrun⟩ := hid
    have helement₂ : b₂.IsElement element' [] := (hsame₂ _ _).mpr helement₁
    have hnode : ∃ d₃, Building old catalog root tree names₂ b₂ d₃ ∧ (do
        buildKids root element' children
        return element').run d₃ = .ok element d' := by
      cases hname : t.id with
      | none =>
        rw [hname] at hrun
        exact ⟨d₂, h₂, hrun⟩
      | some name =>
        rw [hname] at hrun
        replace hrun := bind_ok.mp hrun
        obtain ⟨_, d₃, hregister, hrun⟩ := hrun
        exact ⟨d₃, h₂.register ⟨[], helement₂⟩ hregister, hrun⟩
    obtain ⟨d₃, h₃, hrun⟩ := hnode
    rw [bind_ok] at hrun
    obtain ⟨_, d₄, hkids, hrun⟩ := hrun
    obtain ⟨rfl, rfl⟩ := pure_ok.mp hrun
    obtain ⟨names', b', h', hsprouted⟩ := buildKids_sprouted h₃ helement₂ children hkids
    refine ⟨names', b', h', ⟨?_, ?_⟩, hsprouted.grown.exists ⟨[], helement₂⟩⟩
    · exact (hgrown₁.trans (.of_same hsame₂)).trans hsprouted.grown
    · intro x kids hx
      rcases hsprouted.new x kids hx with ⟨below, hbelow⟩ | hreaches
      · rcases hnew₁ x below ((hsame₂ _ _).mp hbelow) with hold | rfl
        · exact Or.inl hold
        · exact Or.inr .self
      · exact Or.inr hreaches

/-- Building trees below an element puts all new elements below it. -/
theorem buildKids_sprouted {element : ObjectId} {names : Option ObjectId} {b : Books}
    {d d' : Draft} {u : Unit} {kids : List ObjectId} (h : Building old catalog root tree names b d)
    (helement : b.IsElement element kids) :
    ∀ children : List TagTree, (buildKids root element children).run d = .ok u d' →
      ∃ names' b', Building old catalog root tree names' b' d' ∧ b.Sprouted b' element
  | [] => by
    intro hrun
    rw [buildKids] at hrun
    obtain ⟨-, rfl⟩ := pure_ok.mp hrun
    exact ⟨names, b, h, .refl b, fun x kids hx => Or.inl ⟨kids, hx⟩⟩
  | child :: rest => by
    intro hrun
    rw [buildKids, bind_ok] at hrun
    obtain ⟨kid, d₁, hchild, hrun⟩ := hrun
    obtain ⟨names₁, b₁, h₁, hsprouted₁, hkid⟩ := buildTags_sprouted h child hchild
    obtain ⟨more, hmore⟩ := hsprouted₁.grown _ _ helement
    rw [bind_ok] at hrun
    obtain ⟨_, d₂, happend, hrest⟩ := hrun
    obtain ⟨b₂, h₂, hgrown₂, helement₂, hnew₂⟩ := h₁.appendKid hmore hkid happend
    obtain ⟨names', b', h', hsprouted'⟩ := buildKids_sprouted h₂ helement₂ rest hrest
    refine ⟨names', b', h', (hsprouted₁.grown.trans hgrown₂).trans hsprouted'.grown, ?_⟩
    intro x below hx
    rcases hsprouted'.new x below hx with ⟨below₂, hbelow₂⟩ | hreaches
    · obtain ⟨below₁, hbelow₁⟩ := hnew₂ x below₂ hbelow₂
      rcases hsprouted₁.new x below₁ hbelow₁ with hold | hreaches
      · exact Or.inl hold
      · -- What is new below the kid is below the element, which lists the kid.
        have hedge : b₂.Reaches element kid := .kid .self helement₂ (by simp)
        exact Or.inr ((hedge.trans (hreaches.mono hgrown₂)).mono hsprouted'.grown)
    · exact Or.inr hreaches

end

end Trees

/-! ## The root -/

section Root

variable {old : Document} {catalogId catalog root : ObjectId} {d d' : Draft} {u : Unit}

theorem catalogAt_of_dict {doc : Document} {x : Dict Object}
    (hroot : (doc.trailer.get? "Root").bind Object.reference? = some catalogId)
    (hx : doc.dict? catalogId = some x) : ∃ home, doc.CatalogAt catalogId home ∧
      doc.objects.get? home = some (.dictionary x) := by
  obtain ⟨home, hhome, hobject⟩ := Document.target?_of_dict? hx
  exact ⟨home, ⟨hroot, hhome, x, hobject⟩, hobject⟩

theorem numberTree_empty (doc : Document) : doc.numberTree ∅ = [] := by
  have hnums : doc.entryArray? (∅ : Dict Object) "Nums" = none := rfl
  have hkids : doc.entryArray? (∅ : Dict Object) "Kids" = none := rfl
  rw [Document.numberTree]
  unfold Document.numberLeaves
  rw [Document.numberPairs, Document.kidDicts, hnums, hkids]
  rfl

/-- The dictionary of a new root, before it has a parent tree. -/
def newRoot : Dict Object :=
  ((∅ : Dict Object).insert "Type" (.name "StructTreeRoot")).insert "K" (.array [])

/-- A new parent tree is empty. -/
theorem Represents.newParentTree {b : Books} (h : Represents old b d.doc)
    (hroot : b.cell root = some (.exact newRoot)) {tree : ObjectId}
    (hrun : (parentTree root).run d = .ok tree d') :
    ∃ b' doc', d' = { d with doc := doc' } ∧ Represents old b' doc' ∧
      b'.cell root = some (.root tree none 0 []) ∧ b'.cell tree = some (.tree []) ∧
      (∀ id, id ≠ root → id ≠ tree → b'.cell id = b.cell id) ∧ b'.set = b.set := by
  unfold parentTree at hrun
  rw [bind_ok] at hrun
  obtain ⟨t, d₁, hindirect, hrun⟩ := hrun
  obtain ⟨hfree, doc₁, rfl, h₁⟩ := h.indirectDict_fresh hroot
    (by rintro x rfl; rfl)
    (fun target => .exact (newRoot.insert "ParentTree" (.reference target)))
    (by rintro target x rfl; rfl) (fun _ => rfl) hindirect
  have hne : root ≠ t := by
    intro heq
    rw [heq, hfree] at hroot
    exact absurd hroot (by simp)
  have htree : ((b.put t (.exact ∅)).put root
      (.exact (newRoot.insert "ParentTree" (.reference t)))).cell t = some (.exact ∅) :=
    (Books.cell_put_of_ne hne.symm).trans Books.cell_put_self
  rw [bind_ok] at hrun
  obtain ⟨x, d₂, hdict, hrun⟩ := hrun
  obtain ⟨rfl, -, hempty⟩ := h₁.dict_cell (d := { d with doc := doc₁ }) htree hdict
  obtain rfl : x = ∅ := hempty
  rw [bind_ok] at hrun
  obtain ⟨doc, d₃, hdoc, hrun⟩ := hrun
  obtain ⟨-, rfl⟩ := doc_ok.mp hdoc
  have hunset : ((∅ : Dict Object).contains "Kids" || !(∅ : Dict Object).contains "Nums") = true := rfl
  simp only [hunset, if_true, numberTree_empty, List.foldl_nil] at hrun
  replace hrun := bind_ok.mp hrun
  obtain ⟨_, d₄, hmodify, hrun⟩ := hrun
  obtain ⟨rfl, rfl⟩ := pure_ok.mp hrun
  obtain ⟨doc₂, rfl, h₂⟩ := h₁.modifyDict_cell (d := { d with doc := doc₁ }) htree hmodify
    (e := .tree []) (by rintro y rfl; exact ⟨rfl, rfl, rfl⟩) rfl
  have hcell : (((b.put tree (.exact ∅)).put root
      (.exact (newRoot.insert "ParentTree" (.reference tree)))).put tree (.tree [])).cell root =
        some (.exact (newRoot.insert "ParentTree" (.reference tree))) :=
    (Books.cell_put_of_ne hne).trans Books.cell_put_self
  have h₃ := h₂.relabel hcell (e := .root tree none 0 [])
    (by
      intro o ho
      cases o with
      | dictionary y =>
        obtain rfl : y = newRoot.insert "ParentTree" (.reference tree) := ho
        exact ⟨rfl, rfl, rfl, rfl, rfl⟩
      | _ => exact ho.elim) rfl
  refine ⟨_, doc₂, rfl, h₃, Books.cell_put_self, ?_, ?_, rfl⟩
  · exact (Books.cell_put_of_ne hne.symm).trans Books.cell_put_self
  · intro id hroot' htree'
    exact (Books.cell_put_of_ne hroot').trans ((Books.cell_put_of_ne htree').trans
      ((Books.cell_put_of_ne hroot').trans (Books.cell_put_of_ne htree')))

/-- The catalog of a document without a structure tree refers to an empty dictionary, which is new. -/
theorem Represents.newRoot (numbered : d.doc.Numbered)
    (unrooted : ∀ x, d.doc.catalogDict? = some x → x.get? "StructTreeRoot" = none)
    (hid : (d.doc.trailer.get? "Root").bind Object.reference? = some catalogId)
    (hrun : (indirectDict catalogId "StructTreeRoot").run d = .ok root d') :
    ∃ catalog doc', d.doc.CatalogAt catalogId catalog ∧ d' = { d with doc := doc' } ∧
      Represents d.doc ((Books.empty.put root (.exact ∅)).setEntry catalog "StructTreeRoot"
        (.reference root)) doc' := by
  obtain ⟨x, hx, hfresh⟩ := indirectDict_ok.mp hrun
  obtain ⟨catalog, hcatalog, hobject⟩ := catalogAt_of_dict hid hx
  have hnone : x.get? "StructTreeRoot" = none := by
    refine unrooted x ?_
    rw [Document.catalogDict?, hid, Option.bind_some]
    exact hx
  rw [hnone] at hfresh
  obtain ⟨rfl, hset⟩ := hfresh
  obtain ⟨t, y, ht, hy, rfl⟩ := setEntry_ok.mp hset
  obtain rfl : catalog = t := Option.some.inj
    ((Document.target?_add numbered.unused _ hcatalog.target).symm.trans ht)
  have hadd : Represents d.doc (Books.empty.put d.doc.nextId (.exact ∅))
      (d.doc.add (.dictionary ∅)) := (Represents.refl numbered).add rfl
  have hsettable : (Books.empty.put d.doc.nextId (.exact ∅)).Settable
      (x.get? "StructTreeRoot") (.reference d.doc.nextId) :=
    ⟨_, Books.cell_put_self, fun v hv =>
      absurd hv (by simp [Cell.mcid?, EmptyCollection.emptyCollection])⟩
  exact ⟨catalog, _, hcatalog, rfl,
    hadd.setEntry (numbered catalog _ hobject) hobject hy (by decide) hsettable⟩

/-- A document without a structure tree gets a root. -/
theorem ensureRoot_building (numbered : d.doc.Numbered)
    (unrooted : ∀ x, d.doc.catalogDict? = some x → x.get? "StructTreeRoot" = none)
    (hnodes : d.nodes = ∅) (hrun : (ensureRoot).run d = .ok root d') :
    ∃ catalogId catalog tree b, d.doc.CatalogAt catalogId catalog ∧
      Building d.doc catalog root tree none b d' ∧ ∀ x below, ¬b.IsElement x below := by
  unfold Edit.ensureRoot at hrun
  rw [bind_ok] at hrun
  obtain ⟨catalogId, d₁, hlookup, hrun⟩ := hrun
  obtain ⟨hid, rfl⟩ := catalogId_ok.mp hlookup
  rw [bind_ok] at hrun
  obtain ⟨root', d₂, hindirect, hrun⟩ := hrun
  obtain ⟨catalog, doc₁, hcatalog, rfl, h₁⟩ := Represents.newRoot numbered unrooted hid hindirect
  rw [bind_ok] at hrun
  obtain ⟨_, d₃, hmodify, hrun⟩ := hrun
  obtain ⟨doc₂, rfl, h₂⟩ := h₁.modifyDict_cell (d := { d₁ with doc := doc₁ })
    Books.cell_put_self hmodify (e := .exact newRoot) (by rintro y rfl; rfl) rfl
  rw [bind_ok] at hrun
  obtain ⟨tree, d₄, hparent, hrun⟩ := hrun
  obtain ⟨rfl, rfl⟩ := pure_ok.mp hrun
  obtain ⟨b', doc₃, rfl, h₃, hroot, htree, hother, hset⟩ :=
    h₂.newParentTree (d := { d₁ with doc := doc₂ }) Books.cell_put_self hparent
  have hnothing : ∀ id : ObjectId, id ≠ root → id ≠ tree → b'.cell id = none := by
    intro id hroot' htree'
    rw [hother id hroot' htree']
    exact (Books.cell_put_of_ne hroot').trans (Books.cell_put_of_ne hroot')
  have hnoElement : ∀ (id : ObjectId) (kids : List ObjectId) (marks : List TaggedSequence),
      b'.cell id ≠ some (.element kids marks) := by
    intro id kids marks hc
    have hid : id ≠ root := Books.ne_of_cell hc hroot (by simp)
    have hid' : id ≠ tree := Books.ne_of_cell hc htree (by simp)
    exact absurd ((hnothing id hid hid').symm.trans hc) (by simp)
  refine ⟨catalogId, catalog, tree, b', hcatalog, ⟨h₃, hroot, htree, ?_, ?_, ?_, ?_⟩, ?_⟩
  · intro id hid
    exact absurd hid (by simp)
  · intro element kids marks hc
    exact absurd hc (hnoElement element kids marks)
  · intro name element hnode
    rw [hnodes] at hnode
    exact absurd hnode (by simp [EmptyCollection.emptyCollection])
  · intro id key
    rw [hset]
    exact Books.set_setEntry
  · intro element below helement
    obtain ⟨marks, hc⟩ := helement
    exact hnoElement element below marks hc

end Root

/-! ## The whole tree -/

section Whole

variable {old : Document} {catalog root tree element : ObjectId} {names : Option ObjectId}
  {b : Books} {d d' : Draft} {u : Unit}

/-- The ledger of a tree below one element, in which nothing is tagged yet. -/
def Ledger.untagged (root tree : ObjectId) (names : Option ObjectId) (top : ObjectId) : Ledger :=
  ⟨root, tree, names, [top], [], [], []⟩

/-- With its top below the root the tree is built. -/
theorem Building.inOrder (h : Building old catalog root tree names b d)
    (helement : ∃ below, b.IsElement element below)
    (hrun : (Edit.appendKid root (.reference element)).run d = .ok u d') :
    ∃ b' doc', d' = { d with doc := doc' } ∧ Ledger.SameElements b b' ∧
      InOrder old catalog (.untagged root tree names element) b' d'
        ((Ledger.untagged root tree names element).count old) := by
  obtain ⟨doc', rfl, hrep⟩ := h.represents.appendKid_root h.rootCell hrun
  have hsame : Ledger.SameElements b (b.put root (.root tree names 0 ([] ++ [element]))) :=
    .put (by rw [h.rootCell]; rfl)
  have hset : ∀ (id : ObjectId) (key : Bytes), key ≠ utf8 "StructTreeRoot" → b.set id key = none := by
    intro id key hkey
    rw [h.set, if_neg fun hh => hkey hh.2]
  have hagrees : (Ledger.untagged root tree names element).Agrees old
      (b.put root (.root tree names 0 ([] ++ [element]))) := by
    refine ⟨Books.cell_put_self, ?_, ⟨.nil, fun e he => absurd he List.not_mem_nil⟩, ?_, ?_,
      List.nodup_nil, ?_, ?_, ?_, ?_, ?_, ?_, ?_, fun _ => rfl⟩
    · exact Books.cell_put_of_cell h.treeCell (by simp [h.rootCell])
    · intro i home hi
      exact absurd hi (by simp [Ledger.untagged])
    · intro home _
      exact hset _ _ (by decide)
    · intro home hhome
      exact absurd hhome List.not_mem_nil
    · intro k o ho
      exact absurd ho (by simp [Ledger.untagged, bindings])
    · intro i home hi
      exact absurd hi (by simp [Ledger.untagged])
    · intro k k' o ho
      exact absurd ho (by simp [Ledger.untagged, bindings])
    · intro x kids marks hc
      rcases Books.cell_put_eq_some.mp hc with ⟨-, hroot⟩ | ⟨-, hc⟩
      · exact absurd hroot (by simp)
      · obtain ⟨hmarks, hkids⟩ := h.elements x kids marks hc
        exact ⟨hmarks, fun kid hkid => hsame.exists (hkids kid hkid)⟩
    · intro top htop
      rw [List.mem_singleton.mp htop]
      exact hsame.exists helement
    · intro s hs
      exact absurd hs List.not_mem_nil
  refine ⟨_, doc', rfl, hsame, ⟨hrep, hagrees, ?_, ?_, ?_, ?_⟩⟩
  · intro page home _ _
    exact Or.inl ⟨hset _ _ (by decide), rfl⟩
  · intro name x hnode
    exact hsame.exists (h.nodes name x hnode)
  · show b.set catalog "StructTreeRoot" = some (.reference root)
    rw [h.set, if_pos ⟨rfl, rfl⟩]
  · intro o ho
    exact absurd ((hset _ _ (by decide)).symm.trans ho) (by simp)

theorem applyTags_ok {s : TagSection} (hrun : (applyTags s).run d = .ok u d') :
    ∃ v d₀, (s.stripExisting = true ∧ (stripTags).run d = .ok v d₀ ∨
      s.stripExisting = false ∧ d₀ = d) ∧ (do
        let root ← ensureRoot
        let element ← buildTags root root s.root
        appendKid root (.reference element)
        setMarked true : Edit Unit).run d₀ = .ok u d' := by
  unfold applyTags at hrun
  cases hstrip : s.stripExisting with
  | false =>
    rw [hstrip] at hrun
    exact ⟨u, d, Or.inr ⟨rfl, rfl⟩, hrun⟩
  | true =>
    rw [hstrip] at hrun
    obtain ⟨v, d₀, hstripped, hrest⟩ := bind_ok.mp hrun
    exact ⟨v, d₀, Or.inl ⟨rfl, hstripped⟩, hrest⟩

/-- Building the structure tree puts a draft in order, with every element in the tree. -/
theorem applyTags_inOrder (closed : d.doc.Closed) (untagged : d.doc.Untagged) (hnodes : d.nodes = ∅)
    {s : TagSection} (hrun : (applyTags s).run d = .ok u d') :
    ∃ catalogId catalog l b, d.doc.CatalogAt catalogId catalog ∧
      InOrder d.doc catalog l b d' (l.count d.doc) ∧ l.Connected b := by
  obtain ⟨_, d₀, hstripped, hrooted⟩ := applyTags_ok hrun
  obtain rfl : d₀ = d := by
    rcases hstripped with ⟨-, hstripped⟩ | ⟨-, hsame⟩
    · rw [stripTags_untagged untagged hstripped, ← hnodes]
    · exact hsame
  rw [bind_ok] at hrooted
  obtain ⟨root, d₁, hroot, hrun⟩ := hrooted
  obtain ⟨catalogId, catalog, tree, b₁, hcatalog, h₁, hnone⟩ :=
    ensureRoot_building closed.numbered untagged.root hnodes hroot
  rw [bind_ok] at hrun
  obtain ⟨element, d₂, hbuild, hrun⟩ := hrun
  obtain ⟨names, b₂, h₂, hsprouted, helement⟩ := buildTags_sprouted h₁ s.root hbuild
  rw [bind_ok] at hrun
  obtain ⟨_, d₃, happend, hmarked⟩ := hrun
  obtain ⟨b₃, doc₃, rfl, hsame, h₃⟩ := h₂.inOrder helement happend
  obtain ⟨b₄, doc₄, rfl, h₄, htree⟩ := h₃.setMarked closed hcatalog hmarked
  refine ⟨catalogId, catalog, _, b₄, hcatalog, h₄, ?_⟩
  have hconnected : (Ledger.untagged root tree names element).Connected b₃ := by
    intro x kids hkids
    refine ⟨element, List.mem_singleton_self element, ?_⟩
    rcases hsprouted.new x kids ((hsame x kids).mp hkids) with ⟨below, hbelow⟩ | hreaches
    · exact absurd hbelow (hnone x below)
    · exact hreaches.mono (.of_same hsame)
  exact hconnected.sameTree htree

end Whole

end AccessiblePdf
