import Mathlib
import AccessiblePdf.Outline.Heading
import AccessiblePdf.Proofs.Structure.Building
import AccessiblePdf.Proofs.Structure.ParentTree

/-!
The structure tree and the parent tree of a document that was tagged agree (`tagging_agrees`): what an
element lists is in the slot of its page, which refers back to the element; what is in a slot is listed
once; and the MCIDs in the content of a page are the numbers of its slots.
-/
namespace AccessiblePdf

open Edit Marking

/-! ## What a reader finds -/

namespace Document

/-- The elements in the tree below a root. -/
inductive InTree (doc : Document) (root : ObjectId) : ObjectId → Prop where
  | top {element : ObjectId} (mem : .reference element ∈ doc.structureKids root) :
      InTree doc root element
  | kid {element kid : ObjectId} (above : InTree doc root element)
      (mem : .reference kid ∈ doc.structureKids element) : InTree doc root kid

/-- The page that an element names. -/
def elementPage? (doc : Document) (element : ObjectId) : Option ObjectId :=
  ((doc.dict? element).bind (·.get? "Pg")).bind Object.reference?

/-- The page and the MCID that a kid stands for. A number stands on the page of its element, and a
dictionary names its own page. -/
def mark? (own : Option ObjectId) : Object → Option (ObjectId × Int)
  | .integer m => own.map (·, m)
  | .dictionary x => ((x.get? "Pg").bind Object.reference?).bind fun page =>
    ((x.get? "MCID").bind Object.integer?).map (page, ·)
  | _ => none

/-- The pages and MCIDs that the kids of an element stand for. -/
def marks (doc : Document) (element : ObjectId) : List (ObjectId × Int) :=
  (doc.structureKids element).filterMap (mark? (doc.elementPage? element))

/-- The key of a page into the parent tree. -/
def pageKey? (doc : Document) (page : ObjectId) : Option Int :=
  ((doc.dict? page).bind (·.get? "StructParents")).bind Object.integer?

/-- The slots of a page: the array that the parent tree has for the key of the page. -/
def slots (doc : Document) (root page : ObjectId) : List Object :=
  (((doc.pageKey? page).bind (doc.parents root)).bind fun o => (doc.resolve o).array?).getD []

/-- What is in the slot of a page with a number. -/
def slot? (doc : Document) (root page : ObjectId) (m : Int) : Option Object :=
  if 0 ≤ m then (doc.slots root page)[m.toNat]? else none

/-- The structure tree below a root agrees with the parent tree and with the content of the pages. -/
structure Agreement (doc : Document) (root : ObjectId) : Prop where
  /-- A number that an element lists is that of a slot of its page, which refers to the element. -/
  numbers : ∀ element m, doc.InTree root element → .integer m ∈ doc.structureKids element →
    ∃ page, doc.elementPage? element = some page ∧
      doc.slot? root page m = some (.reference element)
  /-- A dictionary that an element lists does so for the page that it names. -/
  dictionaries : ∀ element x, doc.InTree root element → .dictionary x ∈ doc.structureKids element →
    ∃ page m, x.get? "Type" = some (.name "MCR") ∧ x.get? "Pg" = some (.reference page) ∧
      x.get? "MCID" = some (.integer m) ∧ doc.slot? root page m = some (.reference element)
  /-- A slot refers to an element that lists it once. -/
  slots : ∀ page ∈ doc.pages, ∀ m o, doc.slot? root page m = some o → o ≠ .null →
    ∃ element, o = .reference element ∧ doc.InTree root element ∧
      (doc.marks element).countP (fun mark => doc.target? mark.1 = doc.target? page ∧ mark.2 = m) = 1
  /-- The content of a page has the MCIDs that its slots have. -/
  content : ∀ page ∈ doc.pages, ∃ ops, doc.pageOperations page = .ok ops ∧
    ∀ m, m ∈ (doc.scan page ops).mcids ↔ ∃ o, doc.slot? root page m = some o ∧ o ≠ .null

theorem Closed.below_of_target? {doc : Document} (closed : doc.Closed) {id t : ObjectId}
    (h : doc.target? id = some t) : id.number ≤ doc.maxId := by
  cases ho : doc.objects.get? id with
  | none =>
    rw [target?, referenceLimit, chase, ho] at h
    exact absurd h (by simp)
  | some o => exact (closed.objects id o ho).1

end Document

/-! ## Sequences of a ledger -/

namespace Ledger

variable {l : Ledger} {old : Document} {b : Books} {home : ObjectId} {s : TaggedSequence}

theorem Agrees.mcid_eq (h : l.Agrees old b) {j : Nat} (hj : (l.on old home)[j]? = some s) :
    s.mcid = j := by
  have hmcids := congrArg (·[j]?) (h.mcids home)
  have hlt := (List.getElem?_eq_some_iff.mp hj).1
  simp only [List.getElem?_map, hj, Option.map_some, List.getElem?_range hlt,
    Option.some_inj] at hmcids
  exact hmcids

theorem Agrees.getElem?_on (h : l.Agrees old b) (hs : s ∈ l.on old home) :
    0 ≤ s.mcid ∧ (l.on old home)[s.mcid.toNat]? = some s := by
  obtain ⟨j, hj⟩ := List.mem_iff_getElem?.mp hs
  have hmcid := h.mcid_eq hj
  rw [hmcid]
  exact ⟨by omega, hj⟩

theorem Agrees.countP_on (h : l.Agrees old b) (hs : s ∈ l.on old home) :
    (l.on old home).countP (fun t => t.mcid = s.mcid ∧ t.element = s.element) = 1 := by
  have hnodup : ((l.on old home).map (·.mcid)).Nodup := by
    rw [h.mcids home]
    exact List.nodup_range.map fun _ _ => Int.ofNat.inj
  have hcount : (l.on old home).countP (fun t => t.mcid = s.mcid) = 1 := by
    have hone := List.count_eq_one_of_mem hnodup (List.mem_map_of_mem hs)
    rw [List.count, List.countP_map] at hone
    rw [← hone]
    refine List.countP_congr fun t _ => ?_
    simp
  refine Nat.le_antisymm ?_ (List.countP_pos_iff.mpr ⟨s, hs, by simp⟩)
  rw [← hcount]
  refine List.countP_mono_left fun t _ ht => ?_
  simp only [decide_eq_true_eq] at ht ⊢
  exact ht.1

theorem countP_of (l : Ledger) (old : Document) (home element : ObjectId) (m : Int) :
    (l.of element).countP (fun t => old.target? t.page = some home ∧ t.mcid = m) =
      (l.on old home).countP (fun t => t.mcid = m ∧ t.element = element) := by
  rw [of, on, List.countP_filter, List.countP_filter]
  refine List.countP_congr fun t _ => ?_
  simp only [Bool.and_eq_true, decide_eq_true_eq]
  tauto

end Ledger

/-! ## What the books say -/

namespace Represents

variable {old doc : Document} {b : Books} {element : ObjectId} {kids : List ObjectId}
  {marks : List TaggedSequence}

theorem structureKids_eq {c : Cell} {items : List Object} (h : Represents old b doc)
    (hc : b.cell element = some c) (hdict : c.isDictionary = true)
    (hitems : ∀ x, c.Holds (.dictionary x) → x.get? "K" = some (.array items)) :
    doc.structureKids element = items := by
  obtain ⟨x, -, holds, hx⟩ := h.dict?_cell (d := { doc }) hc hdict
  rw [Document.structureKids, hx, Option.bind_some, hitems x holds]

theorem structureKids_element (h : Represents old b doc)
    (hc : b.cell element = some (.element kids marks)) :
    doc.structureKids element = Cell.elementKids kids marks :=
  h.structureKids_eq hc rfl fun _ holds => holds.1

theorem elementPage?_eq (h : Represents old b doc)
    (hc : b.cell element = some (.element kids marks)) :
    doc.elementPage? element = TaggedSequence.own? marks := by
  obtain ⟨x, -, holds, hx⟩ := h.dict?_cell (d := { doc }) hc rfl
  rw [Document.elementPage?, hx, Option.bind_some, holds.2.1]
  cases TaggedSequence.own? marks <;> rfl

theorem mark?_kid (own : Option ObjectId) (s : TaggedSequence) :
    Document.mark? own (s.kid own) = some (s.page, s.mcid) := by
  rw [TaggedSequence.kid]
  split
  · next hown =>
    rw [hown]
    rfl
  · rfl

theorem marks_eq (h : Represents old b doc) (hc : b.cell element = some (.element kids marks)) :
    doc.marks element = marks.map fun s => (s.page, s.mcid) := by
  rw [Document.marks, h.structureKids_element hc, h.elementPage?_eq hc, Cell.elementKids,
    List.filterMap_append]
  have hkids : (kids.map Object.reference).filterMap
      (Document.mark? (TaggedSequence.own? marks)) = [] := by
    rw [List.filterMap_eq_nil_iff]
    intro o ho
    obtain ⟨kid, -, rfl⟩ := List.mem_map.mp ho
    rfl
  rw [hkids, List.nil_append, List.filterMap_map]
  have hmarks : ∀ s ∈ marks, (Document.mark? (TaggedSequence.own? marks) ∘
      TaggedSequence.kid (TaggedSequence.own? marks)) s = some (s.page, s.mcid) :=
    fun s _ => mark?_kid _ s
  rw [List.filterMap_congr hmarks, ← List.filterMap_eq_map]
  rfl

theorem parents_eq {root tree : ObjectId} {names : Option ObjectId} {next : Nat}
    {tops : List ObjectId} {es : List (Int × Object)} (h : Represents old b doc)
    (hroot : b.cell root = some (.root tree names next tops)) (htree : b.cell tree = some (.tree es))
    (ascending : Nums.Ascending es) : doc.parents root = bindings es := by
  obtain ⟨x, -, hlink, hx⟩ := h.dict?_cell (d := { doc }) hroot rfl
  obtain ⟨node, -, ⟨hkids, hnums, -⟩, hnode⟩ := h.dict?_cell (d := { doc }) htree rfl
  have hat : doc.TreeAt root tree node := ⟨hnode, x, hx, hlink.1⟩
  have hread : ∀ e ∈ es, doc.readKey? (.integer e.1) = some e.1 := by
    intro e he
    show some (readKey e.1) = some e.1
    rw [ascending.exact e he]
  rw [Document.parents, hat.parentTree?_eq, Option.getD_some,
    Document.numberTree_of_flat doc hkids hnums, Nums.read_ofEntries hread]

end Represents

/-! ## Drafts in order -/

section InOrder

variable {old : Document} {catalogId catalog : ObjectId} {l : Ledger} {b : Books} {d : Draft}
  {n : ObjectId → Nat} {element page home : ObjectId}

/-- The elements in the tree are those of the books. -/
theorem InOrder.inTree_iff (h : InOrder old catalog l b d n) (connected : l.Connected b) :
    d.doc.InTree l.root element ↔ ∃ kids, b.IsElement element kids := by
  have hroot : d.doc.structureKids l.root = l.tops.map Object.reference :=
    h.represents.structureKids_eq h.agrees.root rfl fun _ holds => holds.2.2.2.1
  have hkid : ∀ {element kid : ObjectId} {kids : List ObjectId}, b.IsElement element kids →
      (.reference kid ∈ d.doc.structureKids element ↔ kid ∈ kids) := by
    rintro element kid kids ⟨marks, hc⟩
    rw [h.represents.structureKids_element hc, Cell.elementKids, List.mem_append, List.mem_map]
    constructor
    · rintro (⟨_, hmem, heq⟩ | hmem)
      · rwa [← Object.reference.inj heq]
      · obtain ⟨s, -, hs⟩ := List.mem_map.mp hmem
        rw [TaggedSequence.kid] at hs
        split at hs <;> exact absurd hs (by simp [Object.ofEntries])
    · exact fun hmem => Or.inl ⟨kid, hmem, rfl⟩
  constructor
  · intro htree
    induction htree with
    | top mem =>
      rw [hroot] at mem
      obtain ⟨top, htop, heq⟩ := List.mem_map.mp mem
      obtain ⟨kids, hkids⟩ := h.agrees.tops top htop
      rw [Object.reference.inj heq] at hkids
      exact ⟨kids, hkids⟩
    | kid _ mem ih =>
      obtain ⟨kids, marks, hc⟩ := ih
      exact (h.agrees.elements _ kids marks hc).2 _ ((hkid ⟨marks, hc⟩).mp mem)
  · rintro ⟨kids, hkids⟩
    obtain ⟨top, htop, hreaches⟩ := connected element kids hkids
    clear hkids
    induction hreaches with
    | self =>
      refine .top ?_
      rw [hroot]
      exact List.mem_map_of_mem htop
    | kid _ here mem ih => exact .kid ih ((hkid here).mpr mem)

/-- The slots of a page refer to the elements of its sequences. -/
theorem InOrder.slots_eq (h : InOrder old catalog l b d n) (closed : old.Closed)
    (hhome : old.target? page = some home) {x : Dict Object}
    (hx : old.objects.get? home = some (.dictionary x)) (hnone : x.get? "StructParents" = none) :
    d.doc.slots l.root page = (l.on old home).map fun s => .reference s.element := by
  obtain ⟨y, -, -, hy, hentry⟩ :=
    h.represents.dict?_old closed (closed.below_of_target? hhome) hhome hx
  have hkey : d.doc.pageKey? page = (b.set home "StructParents").bind Object.integer? := by
    rw [Document.pageKey?, hy, Option.bind_some, hentry, hnone, Option.or_none]
  rw [Document.slots, hkey,
    h.represents.parents_eq h.agrees.root h.agrees.tree h.agrees.ascending]
  by_cases hmem : home ∈ l.keys
  · obtain ⟨i, hi⟩ := List.mem_iff_getElem?.mp hmem
    rw [h.agrees.keyed i home hi]
    show (((bindings l.entries i).bind fun o => (d.doc.resolve o).array?).getD []) = _
    cases hbound : bindings l.entries i with
    | none =>
      rw [h.agrees.unbound i home hi hbound]
      rfl
    | some o =>
      obtain ⟨j, home', array, hj, hhome', rfl, hcell⟩ := h.agrees.bound i o hbound
      obtain rfl : i = j := by omega
      obtain rfl : home = home' := Option.some.inj (hi.symm.trans hhome')
      obtain ⟨o, -, holds, -, hget⟩ := h.represents.get?_cell hcell
      cases o with
      | array items =>
        have hitems : items = ((l.on old home).map (·.element)).map Object.reference := holds
        rw [Option.bind_some, Document.resolve, hget, Option.getD_some, Object.array?,
          Option.getD_some, hitems, List.map_map]
        rfl
      | _ => exact holds.elim
  · rw [h.agrees.unkeyed home hmem, h.agrees.on_of_not_mem hmem]
    rfl

theorem InOrder.slot?_of_mem (h : InOrder old catalog l b d n) (closed : old.Closed)
    (untagged : old.Untagged) {s : TaggedSequence} (hs : s ∈ l.sequences) :
    d.doc.slot? l.root s.page s.mcid = some (.reference s.element) := by
  obtain ⟨-, home, hmem, hhome⟩ := h.agrees.owners s hs
  obtain ⟨_, _, limit, page, hpage, htarget⟩ := h.agrees.numbered home hmem
  have hisPage : old.IsPage page := ⟨limit, List.mem_of_getElem? hpage⟩
  obtain ⟨x, hx⟩ := hisPage.exists_dict
  obtain ⟨t, ht, hobject⟩ := Document.target?_of_dict? hx
  obtain rfl : home = t := Option.some.inj (htarget.symm.trans ht)
  have hon : s ∈ l.on old home := List.mem_filter.mpr ⟨hs, by simpa using hhome⟩
  obtain ⟨hpositive, hat⟩ := h.agrees.getElem?_on hon
  rw [Document.slot?, if_pos hpositive,
    h.slots_eq closed hhome hobject (untagged.keys page x hisPage hx), List.getElem?_map, hat]
  rfl

theorem InOrder.slot?_eq_some (h : InOrder old catalog l b d n) (closed : old.Closed)
    (untagged : old.Untagged) (hpage : old.IsPage page) (hhome : old.target? page = some home)
    {m : Int} {o : Object} : d.doc.slot? l.root page m = some o ↔
      ∃ s ∈ l.on old home, s.mcid = m ∧ o = .reference s.element := by
  obtain ⟨x, hx⟩ := hpage.exists_dict
  obtain ⟨t, ht, hobject⟩ := Document.target?_of_dict? hx
  obtain rfl : home = t := Option.some.inj (hhome.symm.trans ht)
  rw [Document.slot?, h.slots_eq closed hhome hobject (untagged.keys page x hpage hx)]
  constructor
  · intro hslot
    split at hslot
    · next hm =>
      rw [List.getElem?_map] at hslot
      obtain ⟨s, hs, rfl⟩ := Option.map_eq_some_iff.mp hslot
      have hmcid := h.agrees.mcid_eq hs
      exact ⟨s, List.mem_of_getElem? hs, by omega, rfl⟩
    · exact absurd hslot (by simp)
  · rintro ⟨s, hs, rfl, rfl⟩
    obtain ⟨hpositive, hat⟩ := h.agrees.getElem?_on hs
    rw [if_pos hpositive, List.getElem?_map, hat]
    rfl

theorem InOrder.marks_of (h : InOrder old catalog l b d n) (connected : l.Connected b)
    (htree : d.doc.InTree l.root element) : ∃ kids,
      d.doc.structureKids element = Cell.elementKids kids (l.of element) ∧
      d.doc.elementPage? element = TaggedSequence.own? (l.of element) ∧
      d.doc.marks element = (l.of element).map fun s => (s.page, s.mcid) := by
  obtain ⟨kids, marks, hc⟩ := (h.inTree_iff connected).mp htree
  obtain ⟨rfl, -⟩ := h.agrees.elements element kids marks hc
  exact ⟨kids, h.represents.structureKids_element hc, h.represents.elementPage?_eq hc,
    h.represents.marks_eq hc⟩

theorem InOrder.exists_home (h : InOrder old catalog l b d n) (closed : old.Closed)
    (hpage : page ∈ d.doc.pages) : ∃ home, old.IsPage page ∧ old.target? page = some home := by
  rw [(h.represents.toExtends closed).pages_eq closed] at hpage
  have hisPage : old.IsPage page := ⟨_, hpage⟩
  obtain ⟨x, hx⟩ := hisPage.exists_dict
  obtain ⟨home, hhome, -⟩ := Document.target?_of_dict? hx
  exact ⟨home, hisPage, hhome⟩

theorem InOrder.exists_sequence (h : InOrder old catalog l b d n) (connected : l.Connected b)
    (htree : d.doc.InTree l.root element) {o : Object} (ho : o ∈ d.doc.structureKids element)
    (hne : ∀ id, o ≠ .reference id) : ∃ s ∈ l.sequences, s.element = element ∧
      s.kid (d.doc.elementPage? element) = o := by
  obtain ⟨kids, hkids, hown, -⟩ := h.marks_of connected htree
  rw [hkids, Cell.elementKids, List.mem_append] at ho
  rcases ho with ho | ho
  · obtain ⟨id, -, rfl⟩ := List.mem_map.mp ho
    exact absurd rfl (hne id)
  · obtain ⟨s, hs, hkid⟩ := List.mem_map.mp ho
    obtain ⟨hs, helement⟩ := List.mem_filter.mp hs
    refine ⟨s, hs, by simpa using helement, ?_⟩
    rw [hown]
    exact hkid

theorem InOrder.slot?_number (h : InOrder old catalog l b d n) (closed : old.Closed)
    (untagged : old.Untagged) (connected : l.Connected b) (htree : d.doc.InTree l.root element)
    {m : Int} (hmem : .integer m ∈ d.doc.structureKids element) :
    ∃ page, d.doc.elementPage? element = some page ∧
      d.doc.slot? l.root page m = some (.reference element) := by
  obtain ⟨s, hs, rfl, hkid⟩ := h.exists_sequence connected htree hmem (by simp)
  rw [TaggedSequence.kid] at hkid
  split at hkid
  · next hpage =>
    obtain rfl := Object.integer.inj hkid
    exact ⟨s.page, hpage, h.slot?_of_mem closed untagged hs⟩
  · exact absurd hkid (by simp [Object.ofEntries])

theorem InOrder.slot?_dictionary (h : InOrder old catalog l b d n) (closed : old.Closed)
    (untagged : old.Untagged) (connected : l.Connected b) (htree : d.doc.InTree l.root element)
    {x : Dict Object} (hmem : .dictionary x ∈ d.doc.structureKids element) :
    ∃ page m, x.get? "Type" = some (.name "MCR") ∧ x.get? "Pg" = some (.reference page) ∧
      x.get? "MCID" = some (.integer m) ∧
      d.doc.slot? l.root page m = some (.reference element) := by
  obtain ⟨s, hs, rfl, hkid⟩ := h.exists_sequence connected htree hmem (by simp)
  rw [TaggedSequence.kid] at hkid
  split at hkid
  · exact absurd hkid (by simp)
  · obtain rfl := Object.dictionary.inj hkid
    exact ⟨s.page, s.mcid, rfl, rfl, rfl, h.slot?_of_mem closed untagged hs⟩

/-- A slot refers to an element that lists it once. -/
theorem InOrder.exists_element (h : InOrder old catalog l b d n) (closed : old.Closed)
    (untagged : old.Untagged) (connected : l.Connected b) (hpage : page ∈ d.doc.pages) {m : Int}
    {o : Object} (hslot : d.doc.slot? l.root page m = some o) :
    ∃ element, o = .reference element ∧ d.doc.InTree l.root element ∧
      (d.doc.marks element).countP
        (fun mark => d.doc.target? mark.1 = d.doc.target? page ∧ mark.2 = m) = 1 := by
  have ext := h.represents.toExtends closed
  obtain ⟨home, hisPage, hhome⟩ := h.exists_home closed hpage
  obtain ⟨s, hs, rfl, rfl⟩ := (h.slot?_eq_some closed untagged hisPage hhome).mp hslot
  have htree : d.doc.InTree l.root s.element :=
    (h.inTree_iff connected).mpr (h.agrees.owners s (List.mem_filter.mp hs).1).1
  obtain ⟨-, -, -, hmarks⟩ := h.marks_of connected htree
  have hcongr : ∀ t ∈ l.of s.element, (d.doc.target? t.page = d.doc.target? page ∧ t.mcid = s.mcid) ↔
      (old.target? t.page = some home ∧ t.mcid = s.mcid) := by
    intro t ht
    obtain ⟨-, home', -, hhome'⟩ := h.agrees.owners t (List.mem_filter.mp ht).1
    rw [ext.like.target?_eq closed (closed.below_of_target? hhome'),
      ext.like.target?_eq closed (hisPage.below closed), hhome]
  refine ⟨s.element, rfl, htree, ?_⟩
  calc (d.doc.marks s.element).countP
        (fun mark => d.doc.target? mark.1 = d.doc.target? page ∧ mark.2 = s.mcid)
      = (l.of s.element).countP
          (fun t => d.doc.target? t.page = d.doc.target? page ∧ t.mcid = s.mcid) := by
        rw [hmarks, List.countP_map]
        rfl
    _ = (l.of s.element).countP (fun t => old.target? t.page = some home ∧ t.mcid = s.mcid) :=
        List.countP_congr fun t ht => by simpa only [decide_eq_true_eq] using hcongr t ht
    _ = (l.on old home).countP (fun t => t.mcid = s.mcid ∧ t.element = s.element) :=
        l.countP_of old home s.element s.mcid
    _ = 1 := h.agrees.countP_on hs

/-- The content of a page has the MCIDs that its slots have. -/
theorem InOrder.mem_mcids_iff (h : InOrder old catalog l b d (l.count old)) (closed : old.Closed)
    (untagged : old.Untagged) (hpage : page ∈ d.doc.pages) :
    ∃ ops, d.doc.pageOperations page = .ok ops ∧
      ∀ m, m ∈ (d.doc.scan page ops).mcids ↔ ∃ o, d.doc.slot? l.root page m = some o ∧ o ≠ .null := by
  obtain ⟨home, hisPage, hhome⟩ := h.exists_home closed hpage
  obtain ⟨ops, hops, -, hnumbered⟩ :=
    (h.text page home hisPage hhome).read h.represents closed untagged hisPage hhome
  refine ⟨ops, hops, fun m => ?_⟩
  have hmcids : m ∈ (d.doc.scan page ops).mcids ↔ 0 ≤ m ∧ m < (l.on old home).length :=
    hnumbered.mem_mcids (h.represents.fewer closed hisPage ops)
  rw [hmcids]
  constructor
  · intro hm
    have hlength : m.toNat < (l.on old home).length := by omega
    refine ⟨.reference ((l.on old home)[m.toNat]).element, ?_, by simp⟩
    refine (h.slot?_eq_some closed untagged hisPage hhome).mpr ⟨_, List.getElem_mem hlength, ?_, rfl⟩
    have := h.agrees.mcid_eq (List.getElem?_eq_getElem hlength)
    omega
  · intro hslot
    obtain ⟨o, hslot, -⟩ := hslot
    obtain ⟨s, hs, rfl, -⟩ := (h.slot?_eq_some closed untagged hisPage hhome).mp hslot
    obtain ⟨hpositive, hat⟩ := h.agrees.getElem?_on hs
    have := (List.getElem?_eq_some_iff.mp hat).1
    omega

theorem InOrder.agreement (h : InOrder old catalog l b d (l.count old)) (closed : old.Closed)
    (untagged : old.Untagged) (connected : l.Connected b) : d.doc.Agreement l.root where
  numbers := fun _ _ htree hmem => h.slot?_number closed untagged connected htree hmem
  dictionaries := fun _ _ htree hmem => h.slot?_dictionary closed untagged connected htree hmem
  slots := fun _ hpage _ _ hslot _ => h.exists_element closed untagged connected hpage hslot
  content := fun _ hpage => h.mem_mcids_iff closed untagged hpage

theorem InOrder.structureRoot?_eq (h : InOrder old catalog l b d n) (closed : old.Closed)
    (hcatalog : old.CatalogAt catalogId catalog) : d.doc.structureRoot? = some l.root := by
  obtain ⟨x, hx⟩ := hcatalog.dictionary
  obtain ⟨y, -, -, hy, hentry⟩ :=
    h.represents.dict?_old closed (hcatalog.below closed) hcatalog.target hx
  rw [Document.structureRoot?, Document.catalogDict?, h.represents.trailer, hcatalog.root,
    Option.bind_some, hy, Option.bind_some, hentry, h.root, Option.some_or]
  rfl

end InOrder

/-- When a document without tags gets a structure tree and then regions are bound to its elements, the
tree, the parent tree and the content of the pages agree. -/
theorem tagging_agrees {old : Document} {compress : Bool} {z : Compressor} {s : TagSection} {o : Options}
    {regions : List TagRegion} {d₁ d₂ : Draft} (closed : old.Closed) (untagged : old.Untagged)
    (tags : (applyTags s).run { doc := old, compress, compressor := z } = .ok () d₁)
    (back : ∀ root d, (ensureRoot).run d₁ = .ok root d → ReadBack o root regions d)
    (tagged : (applyRegions o regions).run d₁ = .ok () d₂) :
    ∃ root, d₂.doc.structureRoot? = some root ∧ d₂.doc.Agreement root := by
  obtain ⟨catalogId, catalog, l, b, hcatalog, h, connected⟩ :=
    applyTags_inOrder (d := { doc := old, compress, compressor := z }) closed untagged rfl tags
  obtain ⟨l', b', -, -, h', same⟩ := applyRegions_inOrder h closed untagged hcatalog back tagged
  exact ⟨l'.root, h'.structureRoot?_eq closed hcatalog,
    h'.agreement closed untagged (connected.sameTree same)⟩

/-! ## Two pages -/

/-- A document of two pages, with more objects. The content of the second page is what `second` refers
to. -/
def pagesWith (catalog first : List (Bytes × Object)) (second : ObjectId)
    (more : List (ObjectId × Object)) : Document where
  version := "1.7"
  trailer := .ofList [(utf8 "Root", .reference ⟨1, 0⟩)]
  objects := .ofList ([(⟨1, 0⟩, .ofEntries ((utf8 "Pages", .reference ⟨2, 0⟩) :: catalog)),
    (⟨2, 0⟩, .ofEntries [(utf8 "Type", .name "Pages"),
      (utf8 "Kids", .array [.reference ⟨3, 0⟩, .reference ⟨5, 0⟩])]),
    (⟨3, 0⟩, .ofEntries ((utf8 "Type", .name "Page") :: first)),
    (⟨4, 0⟩, .ofStream ∅ "f"),
    (⟨5, 0⟩, .ofEntries [(utf8 "Type", .name "Page"), (utf8 "Contents", .reference second)])] ++ more)
  maxId := 5 + more.length

/-- Two pages without tags, the first of which paints a path. -/
def twoPages (second : ObjectId) : Document :=
  pagesWith [] [(utf8 "Contents", .reference ⟨4, 0⟩)] second []

/-- A structure tree of one paragraph. -/
def paragraph : TagSection := ⟨false, .node { id := some "p", role := "P" } []⟩

/-- All of the first page belongs to the paragraph. -/
def firstPage : TagRegion := { node := "p", page := 1 }

/-- The two pages with the paragraph. -/
def withParagraph (second : ObjectId) : Draft where
  doc := pagesWith
    [(utf8 "StructTreeRoot", .reference ⟨6, 0⟩), (utf8 "MarkInfo", .reference ⟨9, 0⟩)]
    [(utf8 "Contents", .reference ⟨4, 0⟩)] second
    [(⟨6, 0⟩, .ofEntries [(utf8 "Type", .name "StructTreeRoot"),
        (utf8 "K", .array [.reference ⟨8, 0⟩]), (utf8 "ParentTree", .reference ⟨7, 0⟩)]),
      (⟨7, 0⟩, .ofEntries [(utf8 "Nums", .array [])]),
      (⟨8, 0⟩, .ofEntries [(utf8 "Type", .name "StructElem"), (utf8 "S", .name "P"),
        (utf8 "P", .reference ⟨6, 0⟩), (utf8 "K", .array [])]),
      (⟨9, 0⟩, .ofEntries [(utf8 "Marked", .boolean true)])]
  nodes := .ofList [("p", ⟨8, 0⟩)]
  compress := false

/-- The content of the first page in brackets. -/
def bracketed : List Operation := [mcidOpener "P" 0 0, ⟨"f", []⟩, close]

/-- The two pages with the paragraph, to which the first one belongs. -/
def withContent (second : ObjectId) : Draft where
  doc := pagesWith
    [(utf8 "StructTreeRoot", .reference ⟨6, 0⟩), (utf8 "MarkInfo", .reference ⟨9, 0⟩)]
    [(utf8 "Contents", .reference ⟨10, 0⟩), (utf8 "StructParents", .integer 0)] second
    [(⟨6, 0⟩, .ofEntries [(utf8 "Type", .name "StructTreeRoot"),
        (utf8 "K", .array [.reference ⟨8, 0⟩]), (utf8 "ParentTree", .reference ⟨7, 0⟩),
        (utf8 "ParentTreeNextKey", .integer 1)]),
      (⟨7, 0⟩, .ofEntries [(utf8 "Nums", .array [.integer 0, .reference ⟨11, 0⟩])]),
      (⟨8, 0⟩, .ofEntries [(utf8 "Type", .name "StructElem"), (utf8 "S", .name "P"),
        (utf8 "P", .reference ⟨6, 0⟩), (utf8 "K", .array [.integer 0]),
        (utf8 "Pg", .reference ⟨3, 0⟩)]),
      (⟨9, 0⟩, .ofEntries [(utf8 "Marked", .boolean true)]),
      (⟨10, 0⟩, .ofStream ∅ (Operation.writeAll bracketed)),
      (⟨11, 0⟩, .array [.reference ⟨8, 0⟩])]
  nodes := .ofList [("p", ⟨8, 0⟩)]
  compress := false

section TwoPages

variable (second : ObjectId)

theorem applyTags_paragraph : (applyTags paragraph).run { doc := twoPages second, compress := false } =
    .ok () (withParagraph second) := by
  cbv

theorem ensureRoot_withParagraph :
    (ensureRoot).run (withParagraph second) = .ok ⟨6, 0⟩ (withParagraph second) := rfl

/-- What is selected on the first page. -/
def selected : Selection where
  page := ⟨3, 0⟩
  operations := [⟨"f", []⟩]
  scan := (withParagraph second).doc.scan ⟨3, 0⟩ [⟨"f", []⟩]
  target := none
  pageBox := (withParagraph second).doc.pageBox ⟨3, 0⟩
  positions := [0]

theorem selectRegion_firstPage : (selectRegion {} firstPage.page firstPage.box).run
    (withParagraph second) = .ok (selected second) (withParagraph second) := by
  have hpage : (Edit.page 1).run (withParagraph second) = .ok ⟨3, 0⟩ (withParagraph second) := by
    cbv
  have hops : (lift ((withParagraph second).doc.pageOperations ⟨3, 0⟩)).run (withParagraph second) =
      .ok [⟨"f", []⟩] (withParagraph second) := by
    refine lift_ok.mpr ⟨?_, rfl⟩
    cbv
  exact bind_ok.mpr ⟨_, _, hpage, bind_ok.mpr ⟨_, _, rfl, bind_ok.mpr ⟨_, _, hops, rfl⟩⟩⟩

theorem elementRole_paragraph :
    (elementRole ⟨8, 0⟩).run (withParagraph second) = .ok "P" (withParagraph second) := by
  cbv

theorem isEmpty_selected : ¬(selected second).positions.isEmpty = true := Bool.false_ne_true

theorem nextMcid?_selected : (selected second).scan.nextMcid? = some 0 := rfl

theorem wrap_selected : wrap (selected second).operations
    (spans (selected second).scan (selected second).positions) (mcidOpener "P" 0) = bracketed := by
  have hspans : spans (selected second).scan (selected second).positions = [⟨0, 0⟩] := rfl
  rw [hspans]
  cbv

theorem written?_firstPage :
    written? {} firstPage (withParagraph second) = some bracketed := by
  have hfound : (do
      let role ← elementRole (← node firstPage.node)
      return (role, ← selectRegion {} firstPage.page firstPage.box) :
        Edit (String × Selection)).run (withParagraph second) =
      .ok ("P", selected second) (withParagraph second) :=
    bind_ok.mpr ⟨_, _, rfl, bind_ok.mpr ⟨_, _, elementRole_paragraph second, bind_ok.mpr
      ⟨_, _, selectRegion_firstPage second, rfl⟩⟩⟩
  rw [written?]
  simp only [hfound]
  rw [if_neg (isEmpty_selected second), nextMcid?_selected]
  exact congrArg some (wrap_selected second)

theorem givesBack_bracketed : GivesBack .plain bracketed := by
  unfold GivesBack
  cbv

theorem tagRegion_firstPage :
    (tagRegion {} ⟨6, 0⟩ firstPage).run (withParagraph second) = .ok () (withContent second) := by
  refine bind_ok.mpr ⟨_, _, rfl, bind_ok.mpr ⟨_, _, elementRole_paragraph second, bind_ok.mpr
    ⟨_, _, selectRegion_firstPage second, ?_⟩⟩⟩
  rw [if_neg (isEmpty_selected second), nextMcid?_selected]
  refine bind_ok.mpr ⟨0, _, rfl, bind_ok.mpr ⟨0, _, rfl, bind_ok.mpr ⟨0, _, rfl, ?_⟩⟩⟩
  have hwrite : ∃ d, (setOperations ⟨3, 0⟩ bracketed).run (withParagraph second) = .ok () d ∧
      (do
        let key ← pageKey ⟨6, 0⟩ ⟨3, 0⟩
        recordMcids ⟨6, 0⟩ ⟨3, 0⟩ ⟨8, 0⟩ key 1 0 : Edit Unit).run d = .ok () (withContent second) :=
    ⟨_, rfl, by cbv⟩
  obtain ⟨d, hwrite, hrecord⟩ := hwrite
  rw [← wrap_selected second] at hwrite
  exact bind_ok.mpr ⟨(), d, hwrite, hrecord⟩

theorem applyRegions_firstPage :
    (applyRegions {} [firstPage]).run (withParagraph second) = .ok () (withContent second) := by
  refine bind_ok.mpr ⟨_, _, ensureRoot_withParagraph second, bind_ok.mpr
    ⟨⟨⟩, withContent second, ?_, rfl⟩⟩
  exact forIn_cons_ok.mpr ⟨_, tagRegion_firstPage second, rfl⟩

theorem readBack_firstPage (root : ObjectId) (d : Draft)
    (hroot : (ensureRoot).run (withParagraph second) = .ok root d) :
    ReadBack {} root [firstPage] d := by
  obtain ⟨-, rfl⟩ := EStateM.Result.ok.inj ((ensureRoot_withParagraph second).symm.trans hroot)
  refine ⟨fun ops hops => ?_, fun _ _ => trivial⟩
  obtain rfl := Option.some.inj ((written?_firstPage second).symm.trans hops)
  exact givesBack_bracketed

theorem isPage_twoPages {page : ObjectId} (h : (twoPages second).IsPage page) :
    page = ⟨3, 0⟩ ∨ page = ⟨5, 0⟩ := by
  obtain ⟨limit, h⟩ := h
  have h₃ : (twoPages second).typeOf? ⟨3, 0⟩ = some (utf8 "Page") := rfl
  have h₅ : (twoPages second).typeOf? ⟨5, 0⟩ = some (utf8 "Page") := rfl
  have hkids : (twoPages second).pageKids ⟨2, 0⟩ = [.reference ⟨3, 0⟩, .reference ⟨5, 0⟩] := rfl
  replace h : page ∈ (twoPages second).pagesFrom limit ((twoPages second).pageKids ⟨2, 0⟩) [] := h
  rw [hkids] at h
  match limit with
  | 0 => simp [Document.pagesFrom] at h
  | 1 => simp [Document.pagesFrom, h₃] at h; exact Or.inl h
  | limit + 2 => simpa [Document.pagesFrom, h₃, h₅] using h

/-- Without tags, whatever the second page paints. -/
theorem untagged_twoPages {ops : List Operation}
    (hops : (twoPages second).pageOperations ⟨5, 0⟩ = .ok ops) (paints : ops ⊆ [⟨"f", []⟩])
    (free : Operation.PathsFree Command.draws ops) : (twoPages second).Untagged := by
  have hfirst : (twoPages second).dict? ⟨3, 0⟩ = some (.ofList [(utf8 "Type", .name "Page"),
      (utf8 "Contents", .reference ⟨4, 0⟩)]) := rfl
  have hsecond : (twoPages second).dict? ⟨5, 0⟩ = some (.ofList [(utf8 "Type", .name "Page"),
      (utf8 "Contents", .reference second)]) := rfl
  have hdict : ∀ page x, (twoPages second).IsPage page → (twoPages second).dict? page = some x →
      x.get? "StructParents" = none ∧ x.get? "Annots" = none := by
    intro page x hpage hx
    rcases isPage_twoPages second hpage with rfl | rfl
    · obtain rfl := Option.some.inj (hfirst.symm.trans hx)
      exact ⟨rfl, rfl⟩
    · obtain rfl := Option.some.inj (hsecond.symm.trans hx)
      exact ⟨rfl, rfl⟩
  refine ⟨?_, fun page x hpage hx => (hdict page x hpage hx).1, ?_, ?_⟩
  · intro x hx
    have hcatalog : (twoPages second).catalogDict? =
        some (.ofList [(utf8 "Pages", .reference ⟨2, 0⟩)]) := rfl
    obtain rfl := Option.some.inj (hcatalog.symm.trans hx)
    rfl
  · intro page x hpage hx item hitem
    have hnone : (twoPages second).entryArray? x "Annots" = none := by
      rw [Document.entryArray?, Document.value?, (hdict page x hpage hx).2]
      rfl
    rw [hnone] at hitem
    exact absurd hitem List.not_mem_nil
  · intro page hpage
    rcases isPage_twoPages second hpage with rfl | rfl
    · refine ⟨[⟨"f", []⟩], ?_, fun op hop => ?_, by decide⟩
      · cbv
      · rw [List.mem_singleton.mp hop]
        rfl
    · refine ⟨ops, hops, fun op hop => ?_, free⟩
      rw [List.mem_singleton.mp (paints hop)]
      rfl

end TwoPages

/-- Both pages have the same content, and the first one is tagged. -/
theorem tagging_agrees_twoPages :
    let d : Draft := { doc := twoPages ⟨4, 0⟩, compress := false }
    d.doc.Closed ∧ d.doc.Untagged ∧ ∃ d₁ d₂, (applyTags paragraph).run d = .ok () d₁ ∧
      (∀ root d', (ensureRoot).run d₁ = .ok root d' → ReadBack {} root [firstPage] d') ∧
      (applyRegions {} [firstPage]).run d₁ = .ok () d₂ ∧
      ∃ root, d₂.doc.structureRoot? = some root ∧ d₂.doc.Agreement root := by
  intro d
  have closed : d.doc.Closed := by
    have hall : ∀ e ∈ d.doc.objects.entries,
        e.1.number ≤ 5 ∧ ∀ id ∈ e.2.references, id.number ≤ 5 := by
      decide
    have htrailer : ∀ id ∈ (Object.dictionary d.doc.trailer).references, id.number ≤ 5 := by decide
    exact ⟨fun id o ho => hall _ (OrderedMap.mem_of_get? ho), htrailer⟩
  have untagged : d.doc.Untagged := by
    have hops : d.doc.pageOperations ⟨5, 0⟩ = .ok [⟨"f", []⟩] := by cbv
    exact untagged_twoPages _ hops (List.Subset.refl _) (by decide)
  have tags := applyTags_paragraph ⟨4, 0⟩
  have back := readBack_firstPage ⟨4, 0⟩
  have tagged := applyRegions_firstPage ⟨4, 0⟩
  exact ⟨closed, untagged, _, _, tags, back, tagged,
    tagging_agrees closed untagged tags back tagged⟩

/-- The second page refers to an object that there is not yet. The content that the first one gets
comes under its id, so that the second page has the MCID without a slot for it. -/
theorem tagging_disagrees_dangling :
    let d : Draft := { doc := twoPages ⟨10, 0⟩, compress := false }
    (∀ id o, d.doc.objects.get? id = some o → id.number ≤ d.doc.maxId) ∧ d.doc.Untagged ∧
      ∃ d₁ d₂, (applyTags paragraph).run d = .ok () d₁ ∧
        (∀ root d', (ensureRoot).run d₁ = .ok root d' → ReadBack {} root [firstPage] d') ∧
        (applyRegions {} [firstPage]).run d₁ = .ok () d₂ ∧ ∀ root, ¬d₂.doc.Agreement root := by
  intro d
  have unused : ∀ id o, d.doc.objects.get? id = some o → id.number ≤ d.doc.maxId := by
    intro id o ho
    have hall : ∀ e ∈ d.doc.objects.entries, e.1.number ≤ 5 := by decide
    exact hall _ (OrderedMap.mem_of_get? ho)
  have untagged : d.doc.Untagged := by
    have hops : d.doc.pageOperations ⟨5, 0⟩ = .ok [] := by cbv
    exact untagged_twoPages _ hops (List.nil_subset _) (by decide)
  refine ⟨unused, untagged, _, withContent ⟨10, 0⟩, applyTags_paragraph _, readBack_firstPage _,
    applyRegions_firstPage _, fun root agreement => ?_⟩
  have hpages : (withContent ⟨10, 0⟩).doc.pages = [⟨3, 0⟩, ⟨5, 0⟩] := by cbv
  have hread : (withContent ⟨10, 0⟩).doc.pageOperations ⟨5, 0⟩ = .ok bracketed := by cbv
  have hmem : (⟨5, 0⟩ : ObjectId) ∈ (withContent ⟨10, 0⟩).doc.pages := by
    rw [hpages]
    decide
  obtain ⟨ops, hops, hslots⟩ := agreement.content ⟨5, 0⟩ hmem
  obtain rfl : bracketed = ops := Except.ok.inj (hread.symm.trans hops)
  have hopened : (0 : Int) ∈ ((withContent ⟨10, 0⟩).doc.scan ⟨5, 0⟩ bracketed).mcids :=
    ScanState.mem_mcids.mpr List.mem_cons_self
  obtain ⟨o, hslot, -⟩ := (hslots 0).mp hopened
  have hnone : (withContent ⟨10, 0⟩).doc.slots root ⟨5, 0⟩ = [] := rfl
  rw [Document.slot?, hnone] at hslot
  exact absurd hslot (by simp)

end AccessiblePdf
