import AccessiblePdf.Proofs.Structure.Recording

/-!
Tagging regions of pages. A draft is in order (`InOrder`) when its document agrees with books and a
ledger, and the MCIDs in the content of each page are numbered up to the number of sequences that the
ledger has there. Writing content, giving out a key and recording sequences each move one of the two
numbers, so that tagging a region keeps a draft in order (`tagRegion_inOrder`), and tagging any number
of regions does (`applyRegions_inOrder`), when what is written is read again as it was written.
-/
namespace AccessiblePdf

open Edit Marking

/-! ## Drafts in order -/

namespace Ledger

/-- How many sequences there are on the page whose dictionary stands at `home`. -/
def count (l : Ledger) (old : Document) (home : ObjectId) : Nat := (l.on old home).length

/-- Two ledgers for the same tree of elements. -/
structure SameTree (l l' : Ledger) (b b' : Books) : Prop where
  root : l'.root = l.root
  tops : l'.tops = l.tops
  elements : SameElements b b'

theorem SameTree.refl (l : Ledger) (b : Books) : SameTree l l b b := ⟨rfl, rfl, .refl b⟩

theorem SameTree.trans {l₀ l₁ l₂ : Ledger} {b₀ b₁ b₂ : Books} (h : SameTree l₀ l₁ b₀ b₁)
    (h' : SameTree l₁ l₂ b₁ b₂) : SameTree l₀ l₂ b₀ b₂ :=
  ⟨h'.root.trans h.root, h'.tops.trans h.tops, h.elements.trans h'.elements⟩

end Ledger

/-- A draft in order: the content of the page whose dictionary stands at `home` is numbered up to
`n home`. The dictionary of the catalog stands at `catalog`. -/
structure InOrder (old : Document) (catalog : ObjectId) (l : Ledger) (b : Books) (d : Draft)
    (n : ObjectId → Nat) : Prop where
  represents : Represents old b d.doc
  agrees : l.Agrees old b
  text : ∀ page home, old.IsPage page → old.target? page = some home →
    PageText old b d.packing page home (n home)
  nodes : ∀ name element, d.nodes.get? name = some element → ∃ below, b.IsElement element below
  root : b.set catalog "StructTreeRoot" = some (.reference l.root)
  mark : ∀ o, b.set catalog "MarkInfo" = some o →
    ∃ info mcid, o = .reference info ∧ b.cell info = some (.info mcid)

/-- A draft stays in order through changes that keep its tree and what is fixed in its books, when the
content of its pages is numbered as before or anew. -/
theorem InOrder.carry {old : Document} {catalog : ObjectId} {l l' : Ledger} {b b' : Books}
    {d d' : Draft} {n n' : ObjectId → Nat} (h : InOrder old catalog l b d n)
    (represents : Represents old b' d'.doc) (agrees : l'.Agrees old b') (tree : l.SameTree l' b b')
    (fixed : b.Fixed b') (set : ∀ key : Bytes, key ≠ utf8 "Contents" → key ≠ utf8 "StructParents" →
      b'.set catalog key = b.set catalog key) (hnodes : d'.nodes = d.nodes)
    (text : ∀ page home, old.IsPage page → old.target? page = some home →
      PageText old b' d'.packing page home (n' home)) : InOrder old catalog l' b' d' n' := by
  refine ⟨represents, agrees, text, ?_, ?_, ?_⟩
  · intro name element hnode
    rw [hnodes] at hnode
    exact tree.elements.exists (h.nodes name element hnode)
  · rw [set _ (by decide) (by decide), tree.root]
    exact h.root
  · intro o ho
    rw [set _ (by decide) (by decide)] at ho
    obtain ⟨info, mcid, rfl, hinfo⟩ := h.mark o ho
    exact ⟨info, mcid, rfl, fixed _ _ hinfo rfl⟩

/-! ## Selecting -/

section Selecting

variable {o : Options} {d d' : Draft}

theorem selectRegion_ok {number : Int} {declared : Option (Box Float)} {s : Selection}
    (hrun : (selectRegion o number declared).run d = .ok s d') : d' = d ∧
      (∃ i < 0x100000000, d.doc.pages[i]? = some s.page) ∧
      d.doc.pageOperations s.page = .ok s.operations ∧
      s.scan = d.doc.scan s.page s.operations ∧
      s.positions = select o.matching s.scan s.target := by
  unfold selectRegion at hrun
  rw [bind_ok] at hrun
  obtain ⟨page, d₁, hpage, hrun⟩ := hrun
  obtain ⟨hpage, rfl⟩ := page_ok hpage
  rw [bind_ok] at hrun
  obtain ⟨doc, d₂, hdoc, hrun⟩ := hrun
  obtain ⟨rfl, rfl⟩ := doc_ok.mp hdoc
  rw [bind_ok] at hrun
  obtain ⟨ops, d₃, hops, hrun⟩ := hrun
  obtain ⟨hops, rfl⟩ := lift_ok.mp hops
  obtain ⟨rfl, rfl⟩ := pure_ok.mp hrun
  exact ⟨rfl, ⟨_, hpage⟩, hops, rfl, rfl⟩

/-- The content that tagging a region writes, when it writes any. -/
def written? (o : Options) (r : TagRegion) (d : Draft) : Option (List Operation) :=
  let found : Edit (String × Selection) := do
    let role ← elementRole (← node r.node)
    return (role, ← selectRegion o r.page r.box)
  match found.run d with
  | .ok (role, s) _ =>
    if s.positions.isEmpty then none
    else s.scan.nextMcid?.map fun first =>
      wrap s.operations (spans s.scan s.positions) (mcidOpener role first)
  | .error _ _ => none

/-- What tagging regions writes, one after the other, is read again as it was written. -/
def ReadBack (o : Options) (root : ObjectId) : List TagRegion → Draft → Prop
  | [], _ => True
  | r :: rest, d => (∀ ops, written? o r d = some ops → GivesBack d.packing ops) ∧
      ∀ d', (tagRegion o root r).run d = .ok () d' → ReadBack o root rest d'

/-- A region that is tagged is passed over, or the selection is bracketed and recorded. -/
theorem tagRegion_ok {root : ObjectId} {r : TagRegion} {u : Unit}
    (hrun : (tagRegion o root r).run d = .ok u d') : ∃ element role s,
      d.nodes.get? r.node = some element ∧ (selectRegion o r.page r.box).run d = .ok s d ∧
      (d' = d ∨ ∃ first, s.scan.nextMcid? = some first ∧
        written? o r d =
          some (wrap s.operations (spans s.scan s.positions) (mcidOpener role first)) ∧
        ∃ d₁ d₂ key, (setOperations s.page (wrap s.operations (spans s.scan s.positions)
            (mcidOpener role first))).run d = .ok () d₁ ∧
          (pageKey root s.page).run d₁ = .ok key d₂ ∧
          (recordMcids root s.page element key (spans s.scan s.positions).length first).run d₂ =
            .ok u d') := by
  unfold tagRegion at hrun
  rw [bind_ok] at hrun
  obtain ⟨element, d₁, hnode, hrun⟩ := hrun
  obtain ⟨hfound, rfl⟩ := node_ok hnode
  rw [bind_ok] at hrun
  obtain ⟨role, d₂, hrole, hrun⟩ := hrun
  obtain rfl := Represents.elementRole_ok hrole
  rw [bind_ok] at hrun
  obtain ⟨s, d₃, hselect, hrun⟩ := hrun
  obtain ⟨rfl, -⟩ := selectRegion_ok hselect
  refine ⟨element, role, s, hfound, hselect, ?_⟩
  split at hrun
  · unfold unresolved at hrun
    split at hrun
    · exact Or.inl (pure_ok.mp hrun).2
    · exact (throw_ok.mp hrun).elim
  · next hsome =>
    refine Or.inr ?_
    cases hnext : s.scan.nextMcid? with
    | none =>
      rw [hnext] at hrun
      obtain ⟨_, _, hthrow, _⟩ := bind_ok.mp hrun
      exact (throw_ok.mp hthrow).elim
    | some first =>
      rw [hnext] at hrun
      replace hrun := bind_ok.mp hrun
      obtain ⟨first', d₁, hfirst, hrun⟩ := hrun
      obtain ⟨rfl, rfl⟩ := pure_ok.mp hfirst
      rw [bind_ok] at hrun
      obtain ⟨lowest, d₂, hlowest, hrun⟩ := hrun
      obtain ⟨_, rfl, rfl⟩ := Represents.checkMcid_ok hlowest
      rw [bind_ok] at hrun
      obtain ⟨highest, d₃, hhighest, hrun⟩ := hrun
      obtain ⟨_, _, rfl⟩ := Represents.checkMcid_ok hhighest
      rw [bind_ok] at hrun
      obtain ⟨_, d₄, hwrite, hrun⟩ := hrun
      rw [bind_ok] at hrun
      obtain ⟨key, d₅, hkey, hrun⟩ := hrun
      refine ⟨_, rfl, ?_, d₄, d₅, key, hwrite, hkey, hrun⟩
      have hboth : (do
          let role ← elementRole (← node r.node)
          return (role, ← selectRegion o r.page r.box) : Edit (String × Selection)).run d₃ =
            .ok (role, s) d₃ :=
        bind_ok.mpr ⟨_, _, hnode, bind_ok.mpr ⟨_, _, hrole, bind_ok.mpr ⟨_, _, hselect, rfl⟩⟩⟩
      rw [written?]
      simp only [hboth]
      rw [if_neg hsome, hnext]
      rfl

end Selecting

/-! ## One region -/

section Region

variable {old : Document} {catalog : ObjectId} {l : Ledger} {b : Books} {d d' : Draft}
  {n : ObjectId → Nat} {u : Unit} {page home element : ObjectId}

theorem pageResources_eq {p q : ObjectId} (h : old.target? p = old.target? q) :
    old.pageResources p = old.pageResources q := by
  have hdict : old.dict? p = old.dict? q := by
    rw [Document.dict?, Document.dict?, Document.get?, Document.get?, h]
  rw [Document.pageResources, Document.pageResources, Document.pageResources?,
    Document.pageResources?, Document.inherited?, Document.inherited?, hdict]

/-- Content is written: what the page has now is numbered further. -/
theorem InOrder.setOperations (h : InOrder old catalog l b d n) (closed : old.Closed)
    (hpage : old.IsPage page) (hhome : old.target? page = some home) {ops : List Operation} {m : Nat}
    (back : GivesBack d.packing ops) (free : Operation.PathsFree Command.draws ops)
    (numbered : NumberedTo (.ofDict old (old.pageResources page) []) ops m)
    (hrun : (setOperations page ops).run d = .ok u d') :
    ∃ b' doc', d' = { d with doc := doc' } ∧
      InOrder old catalog l b' d' (Function.update n home m) ∧ Ledger.SameElements b b' := by
  obtain ⟨x, hx⟩ := hpage.exists_dict
  obtain ⟨t, ht, hobject⟩ := Document.target?_of_dict? hx
  obtain rfl : home = t := Option.some.inj (hhome.symm.trans ht)
  obtain ⟨content, doc', hfree, rfl, hrep⟩ :=
    h.represents.setOperations_old closed (hpage.below closed) hhome hobject hrun
  set c : Cell := .content (contentEntries d.packing (Operation.writeAll ops))
    (contentBytes d.packing (Operation.writeAll ops)) with hc
  have kept : ∀ (id : ObjectId) (e : Cell), b.cell id = some e →
      ((b.put content c).setEntry home "Contents" (.reference content)).cell id = some e :=
    fun id e he => Books.cell_put_of_cell he (by simp [hfree])
  have hset : ∀ (id : ObjectId) (key : Bytes), key ≠ utf8 "Contents" →
      ((b.put content c).setEntry home "Contents" (.reference content)).set id key = b.set id key := by
    intro id key hkey
    rw [Books.set_setEntry, if_neg fun hh => hkey hh.2]
    rfl
  obtain ⟨hagrees, hsame⟩ := h.agrees.mono kept
    (by
      intro id kids marks he
      rcases Books.cell_put_eq_some.mp he with ⟨_, heq⟩ | ⟨_, he⟩
      · exact absurd heq (by simp [hc])
      · exact he)
    fun id => hset id _ (by decide)
  refine ⟨_, doc', rfl, h.carry hrep hagrees ⟨rfl, rfl, hsame⟩ (fun id e he _ => kept id e he)
    (fun key hkey _ => hset _ key hkey) rfl ?_, hsame⟩
  intro q home' hq hhome'
  by_cases hsamePage : home' = home
  · subst hsamePage
    rw [Function.update_self]
    refine Or.inr ⟨content, ops, ?_, Books.cell_put_self, back, free, ?_⟩
    · exact Books.set_setEntry.trans (if_pos ⟨rfl, rfl⟩)
    · rw [pageResources_eq (hhome'.trans hhome.symm)]
      exact numbered
  · rw [Function.update_of_ne hsamePage]
    refine (h.text q home' hq hhome').mono (fun id _ _ => kept id _) ?_
    rw [Books.set_setEntry, if_neg fun hh => hsamePage hh.1]
    rfl

/-- A page gets its key, if it has none. -/
theorem InOrder.pageKey (h : InOrder old catalog l b d n) (closed : old.Closed)
    (untagged : old.Untagged) (hpage : old.IsPage page) (hhome : old.target? page = some home)
    (hnumbered : Ledger.Numbered old home) {key : Int}
    (hrun : (pageKey l.root page).run d = .ok key d') :
    ∃ (l' : Ledger) (b' : Books) (doc' : Document) (i : Nat), d' = { d with doc := doc' } ∧
      InOrder old catalog l' b' d' n ∧ l.SameTree l' b b' ∧ l'.sequences = l.sequences ∧ key = i ∧
        l'.keys[i]? = some home := by
  obtain ⟨x, hx⟩ := hpage.exists_dict
  obtain ⟨t, ht, hobject⟩ := Document.target?_of_dict? hx
  obtain rfl : home = t := Option.some.inj (hhome.symm.trans ht)
  have hfew := h.agrees.length_keys_le
  have hinteger : ∀ o, b.set home "StructParents" = some o → ∃ n, o = .integer n := by
    intro o ho
    by_cases hmem : home ∈ l.keys
    · obtain ⟨i, hi⟩ := List.mem_iff_getElem?.mp hmem
      rw [h.agrees.keyed i home hi] at ho
      exact ⟨i, (Option.some.inj ho).symm⟩
    · rw [h.agrees.unkeyed home hmem] at ho
      exact absurd ho (by simp)
  rcases h.represents.pageKey_cell closed h.agrees.root h.agrees.tree (by omega)
    h.agrees.entries_bound (h.agrees.assigned_bound h.represents closed untagged)
    (hpage.below closed) hhome hobject (untagged.keys page x hpage hx) hinteger hrun with
    ⟨hset, rfl⟩ | ⟨hset, rfl, doc', rfl, hrep⟩
  · -- The page has a key.
    by_cases hmem : home ∈ l.keys
    · obtain ⟨i, hi⟩ := List.mem_iff_getElem?.mp hmem
      rw [h.agrees.keyed i home hi] at hset
      obtain rfl : (i : Int) = key := by simpa using hset
      exact ⟨l, b, d'.doc, i, rfl, h, .refl l b, rfl, rfl, hi⟩
    · rw [h.agrees.unkeyed home hmem] at hset
      exact absurd hset (by simp)
  · -- The page gets the next key.
    have hnew : home ∉ l.keys := by
      intro hmem
      obtain ⟨i, hi⟩ := List.mem_iff_getElem?.mp hmem
      exact absurd (hset.symm.trans (h.agrees.keyed i home hi)) (by simp)
    have fixed : b.Fixed (l.withKey b home) := by
      intro id c hc hfix
      refine Ledger.cell_withKey h.agrees hc fun heq => ?_
      rw [heq] at hfix
      exact absurd hfix Bool.false_ne_true
    have hother : ∀ (id : ObjectId) (key : Bytes), key ≠ utf8 "StructParents" →
        (l.withKey b home).set id key = b.set id key := by
      intro id key hkey
      rw [Ledger.set_withKey, if_neg fun hh => hkey hh.2]
    have htree : l.SameTree (l.addKey home) b (l.withKey b home) :=
      ⟨rfl, rfl, Ledger.sameElements_withKey h.agrees⟩
    refine ⟨l.addKey home, l.withKey b home, doc', l.keys.length, rfl,
      h.carry hrep (h.agrees.key hnew hnumbered) htree fixed (fun key _ hkey => hother _ key hkey) rfl
        ?_, htree, rfl, rfl, List.getElem?_concat_length⟩
    intro q home' hq hhome'
    exact (h.text q home' hq hhome').mono (fun id _ _ hc => fixed id _ hc rfl)
      (hother _ _ (by decide))

theorem InOrder.recordMcids (h : InOrder old catalog l b d n) {i k : Nat}
    (hhome : old.target? page = some home) (hkey : l.keys[i]? = some home)
    {below : List ObjectId} (helement : b.IsElement element below)
    (hrun : (recordMcids l.root page element i k (l.count old home)).run d = .ok u d') :
    ∃ l' b' doc', d' = { d with doc := doc' } ∧ InOrder old catalog l' b' d' n ∧
      l.SameTree l' b b' ∧
      ∀ home', l'.count old home' = l.count old home' + if home' = home then k else 0 := by
  have hfew := h.agrees.length_keys_le
  have hi := (List.getElem?_eq_some_iff.mp hkey).1
  obtain ⟨l', b', doc', rfl, hrep, hagrees, hsame, hfixed, hset, hroot, -, htops, hcount⟩ :=
    recordMcids_agrees hhome (by omega) k h.represents h.agrees hkey helement hrun
  have htree : l.SameTree l' b b' := ⟨hroot, htops, hsame⟩
  refine ⟨l', b', doc', rfl, h.carry hrep hagrees htree hfixed (fun key _ _ => by rw [hset]) rfl ?_,
    htree, hcount⟩
  intro q home' hq hhome'
  exact (h.text q home' hq hhome').mono (fun id _ _ hc => hfixed id _ hc rfl) (by rw [hset])

theorem not_draws_of_constructs (c : Command) (h : c.constructs = true) : c.draws = false := by
  cases c <;> first | rfl | exact absurd h Bool.false_ne_true

theorem not_draws_of_isBracket (c : Command) (h : c.isBracket = true) : c.draws = false := by
  cases c <;> first | rfl | exact absurd h Bool.false_ne_true

/-- Tagging a region keeps a draft in order. -/
theorem tagRegion_inOrder (closed : old.Closed) (untagged : old.Untagged)
    (h : InOrder old catalog l b d (l.count old)) {o : Options} {r : TagRegion}
    (back : ∀ ops, written? o r d = some ops → GivesBack d.packing ops)
    (hrun : (tagRegion o l.root r).run d = .ok u d') :
    ∃ l' b' doc', d' = { d with doc := doc' } ∧ InOrder old catalog l' b' d' (l'.count old) ∧
      l.SameTree l' b b' := by
  obtain ⟨element, role, s, hnode, hselect, hrest⟩ := tagRegion_ok hrun
  rcases hrest with rfl | ⟨first, hnext, hwritten, d₁, d₂, key, hwrite, hkey, hrecord⟩
  · exact ⟨l, b, d'.doc, rfl, h, .refl l b⟩
  obtain ⟨-, ⟨i, hi, hpageAt⟩, hops, hscan, hpositions⟩ := selectRegion_ok hselect
  rw [(h.represents.toExtends closed).pages_eq closed] at hpageAt
  have hpage : old.IsPage s.page := ⟨_, List.mem_of_getElem? hpageAt⟩
  obtain ⟨x, hx⟩ := hpage.exists_dict
  obtain ⟨home, hhome, -⟩ := Document.target?_of_dict? hx
  obtain ⟨ops, hops', hfree, hnumbered⟩ :=
    (h.text s.page home hpage hhome).read h.represents closed untagged hpage hhome
  obtain rfl : ops = s.operations := Except.ok.inj (hops'.symm.trans hops)
  have hfirst : first = l.count old home := by
    refine hnumbered.next (h.represents.fewer closed hpage s.operations) ?_
    rw [hscan] at hnext
    exact hnext
  subst hfirst
  have hspans : spans s.scan s.positions = spans (PageScan.ofOperations
      (.ofDict d.doc (d.doc.pageResources s.page) s.operations) s.operations)
      (select o.matching (PageScan.ofOperations
        (.ofDict d.doc (d.doc.pageResources s.page) s.operations) s.operations) s.target) := by
    rw [hpositions, hscan]
    rfl
  have hsorted : Sorted (spans s.scan s.positions) := by
    rw [hspans]
    exact (apart_spans not_draws_of_constructs (fun _ hc => hc) hfree o.matching s.target).sorted
  have hwithin : Within s.operations.length (spans s.scan s.positions) := by
    rw [hspans]
    exact within_spans (valid_select o.matching _ s.target)
  obtain ⟨b₁, doc₁, rfl, h₁, hsame₁⟩ := h.setOperations closed hpage hhome (back _ hwritten)
    (pathsFree_wrap not_draws_of_isBracket hfree _ role _) (hnumbered.wrap hsorted hwithin role) hwrite
  obtain ⟨l₂, b₂, doc₂, i', rfl, h₂, hsame₂, hsequences, rfl, hi'⟩ :=
    h₁.pageKey closed untagged hpage hhome ⟨i, hi, _, s.page, hpageAt, hhome⟩ hkey
  have hcount : l.count old = l₂.count old := by
    funext home'
    rw [Ledger.count, Ledger.count, Ledger.on, Ledger.on, hsequences]
  rw [hcount, ← hsame₂.root] at hrecord
  obtain ⟨below, helement⟩ := h.nodes _ _ hnode
  have helement₂ : b₂.IsElement element below :=
    (hsame₂.elements _ _).mpr ((hsame₁ _ _).mpr helement)
  obtain ⟨l', b', doc', rfl, h', hsame', hcount'⟩ := h₂.recordMcids hhome hi' helement₂ hrecord
  have hn : Function.update (l.count old) home
      (l.count old home + (spans s.scan s.positions).length) = l'.count old := by
    funext home'
    rw [hcount' home', hcount]
    by_cases hhere : home' = home
    · rw [hhere, Function.update_self, if_pos rfl]
    · rw [Function.update_of_ne hhere, if_neg hhere, Nat.add_zero]
  rw [hn] at h'
  have htree : l.SameTree l b b₁ := ⟨rfl, rfl, hsame₁⟩
  exact ⟨l', b', doc', rfl, h', (htree.trans hsame₂).trans hsame'⟩

end Region

/-! ## All regions -/

/-- The catalog: the trailer refers to `id`, and its dictionary stands at `home`. -/
structure Document.CatalogAt (doc : Document) (id home : ObjectId) : Prop where
  root : (doc.trailer.get? "Root").bind Object.reference? = some id
  target : doc.target? id = some home
  dictionary : ∃ x, doc.objects.get? home = some (.dictionary x)

theorem Document.CatalogAt.below {doc : Document} (closed : doc.Closed) {id home : ObjectId}
    (h : doc.CatalogAt id home) : id.number ≤ doc.maxId := by
  obtain ⟨entry, hentry, hid⟩ := Option.bind_eq_some_iff.mp h.root
  cases entry with
  | reference id' =>
    obtain rfl := Option.some.inj hid
    exact Object.below_reference.mp (closed.trailer.entry hentry)
  | _ => exact absurd hid (by simp [Object.reference?])

section Regions

variable {old : Document} {catalogId catalog : ObjectId} {l : Ledger} {b : Books} {d d' : Draft}
  {n : ObjectId → Nat} {u : Unit}

/-- The loop over the regions keeps a draft in order. -/
theorem tagRegions_inOrder (closed : old.Closed) (untagged : old.Untagged) {o : Options}
    {regions : List TagRegion} {u : PUnit} :
    ∀ {l : Ledger} {b : Books} {d : Draft}, InOrder old catalog l b d (l.count old) →
      ReadBack o l.root regions d →
      (forIn regions PUnit.unit fun r _ => do
        tagRegion o l.root r
        pure (ForInStep.yield PUnit.unit) : Edit PUnit).run d = .ok u d' →
      ∃ l' b' doc', d' = { d with doc := doc' } ∧ InOrder old catalog l' b' d' (l'.count old) ∧
        l.SameTree l' b b' := by
  induction regions with
  | nil =>
    intro l b d h _ hrun
    obtain ⟨-, rfl⟩ := pure_ok.mp hrun
    exact ⟨l, b, d'.doc, rfl, h, .refl l b⟩
  | cons r rest ih =>
    intro l b d h back hrun
    rw [forIn_cons_ok] at hrun
    obtain ⟨d₁, hregion, hrest⟩ := hrun
    have hback := back.2 d₁ hregion
    obtain ⟨l₁, b₁, doc₁, rfl, h₁, hsame₁⟩ :=
      tagRegion_inOrder closed untagged h back.1 hregion
    rw [← hsame₁.root] at hrest hback
    obtain ⟨l', b', doc', rfl, h', hsame'⟩ := ih h₁ hback hrest
    exact ⟨l', b', doc', rfl, h', hsame₁.trans hsame'⟩

/-- The root that there is stays, with its parent tree. -/
theorem InOrder.ensureRoot (h : InOrder old catalog l b d n) (closed : old.Closed)
    (hcatalog : old.CatalogAt catalogId catalog) {root : ObjectId}
    (hrun : (ensureRoot).run d = .ok root d') :
    root = l.root ∧ ∃ doc', d' = { d with doc := doc' } ∧ InOrder old catalog l b d' n := by
  obtain ⟨x, hx⟩ := hcatalog.dictionary
  unfold Edit.ensureRoot at hrun
  rw [bind_ok] at hrun
  obtain ⟨id, d₁, hid, hrun⟩ := hrun
  obtain ⟨hid, rfl⟩ := catalogId_ok.mp hid
  rw [h.represents.trailer, hcatalog.root, Option.some_inj] at hid
  subst hid
  rw [bind_ok] at hrun
  obtain ⟨root', d₂, hindirect, hrun⟩ := hrun
  obtain ⟨y, -, -, hy⟩ := h.represents.dict?_cell h.agrees.root rfl
  have hown : ownId? d₁.doc ((b.set catalog "StructTreeRoot").or (x.get? "StructTreeRoot")) =
      some l.root := by
    rw [h.root, Option.some_or, ownId?_reference, hy, Option.isSome_some, if_pos rfl]
  obtain ⟨rfl, rfl⟩ : root' = l.root ∧ d₂ = d₁ := by
    rcases h.represents.indirectDict_old closed (hcatalog.below closed) hcatalog.target hx (by decide)
      hindirect with ⟨hsame, hd⟩ | ⟨hnone, -⟩
    · exact ⟨Option.some.inj (hsame.symm.trans hown), hd⟩
    · exact absurd (hnone.symm.trans hown) (by simp)
  rw [bind_ok] at hrun
  obtain ⟨_, d₃, hmodify, hrun⟩ := hrun
  obtain ⟨doc₁, rfl, h₁⟩ := h.represents.modifyDict_cell h.agrees.root hmodify
    (e := .root l.tree l.names l.keys.length l.tops)
    (by
      rintro z ⟨htree, hnames, hnext, hkids, hmcid⟩
      have hother : ∀ key : Bytes, key ≠ utf8 "Type" →
          (z.insert "Type" (.name "StructTreeRoot")).get? key = z.get? key :=
        fun key hkey => OrderedMap.get?_insert_of_ne _ hkey _
      have hcontains : (z.insert "Type" (.name "StructTreeRoot")).contains "K" = true := by
        rw [OrderedMap.contains, hother _ (by decide), hkids]
        rfl
      simp only [hcontains, if_true]
      refine ⟨?_, ?_, ?_, ?_, ?_⟩
      · rw [hother _ (by decide), htree]
      · rw [hother _ (by decide), hnames]
      · rw [hother _ (by decide), hnext]
      · rw [hother _ (by decide), hkids]
      · rw [hother _ (by decide), hmcid]) rfl
  rw [Books.put_eq_self h.agrees.root] at h₁
  rw [bind_ok] at hrun
  obtain ⟨tree, d₄, hparent, hrun⟩ := hrun
  obtain ⟨-, rfl⟩ := Represents.parentTree_cell (d := { d₂ with doc := doc₁ }) h₁ h.agrees.root
    h.agrees.tree hparent
  obtain ⟨rfl, rfl⟩ := pure_ok.mp hrun
  exact ⟨rfl, doc₁, rfl, h₁, h.agrees, h.text, h.nodes, h.root, h.mark⟩

theorem InOrder.setMarked (h : InOrder old catalog l b d n) (closed : old.Closed)
    (hcatalog : old.CatalogAt catalogId catalog) (hrun : (setMarked true).run d = .ok u d') :
    ∃ b' doc', d' = { d with doc := doc' } ∧ InOrder old catalog l b' d' n ∧ l.SameTree l b b' := by
  obtain ⟨x, hx⟩ := hcatalog.dictionary
  obtain ⟨b', doc', rfl, hrep, beside, hmark⟩ := h.represents.setMarked_books closed hcatalog.root
    (hcatalog.below closed) hcatalog.target hx h.mark hrun
  obtain ⟨hagrees, hsame⟩ := h.agrees.mono beside.cell
    (by
      intro id kids marks hc
      rcases beside.cell_or id _ hc with hc | ⟨_, hinfo⟩
      · exact hc
      · exact absurd hinfo (by simp))
    fun home => beside.set home _ (by decide) (by decide)
  refine ⟨b', doc', rfl, ⟨hrep, hagrees, ?_, ?_, ?_, hmark⟩, rfl, rfl, hsame⟩
  · intro q home hq hhome
    exact (h.text q home hq hhome).mono (fun id _ _ hc => beside.cell id _ hc)
      (beside.set home _ (by decide) (by decide))
  · intro name element hnode
    exact hsame.exists (h.nodes name element hnode)
  · rw [beside.set _ _ (by decide) (by decide)]
    exact h.root

/-- Tagging regions keeps a draft in order. -/
theorem applyRegions_inOrder (h : InOrder old catalog l b d (l.count old)) (closed : old.Closed)
    (untagged : old.Untagged) (hcatalog : old.CatalogAt catalogId catalog) {o : Options}
    {regions : List TagRegion}
    (back : ∀ root d₁, (ensureRoot).run d = .ok root d₁ → ReadBack o root regions d₁)
    (hrun : (applyRegions o regions).run d = .ok u d') :
    ∃ l' b' doc', d' = { d with doc := doc' } ∧ InOrder old catalog l' b' d' (l'.count old) ∧
      l.SameTree l' b b' := by
  unfold applyRegions at hrun
  rw [bind_ok] at hrun
  obtain ⟨root, d₁, hroot, hrun⟩ := hrun
  have hback := back root d₁ hroot
  obtain ⟨rfl, doc₁, rfl, h₁⟩ := h.ensureRoot closed hcatalog hroot
  rw [bind_ok] at hrun
  obtain ⟨_, d₂, hregions, hmarked⟩ := hrun
  obtain ⟨l', b₂, doc₂, rfl, h₂, hsame₂⟩ := tagRegions_inOrder closed untagged h₁ hback hregions
  obtain ⟨b', doc', rfl, h', hsame'⟩ := h₂.setMarked closed hcatalog hmarked
  exact ⟨l', b', doc', rfl, h', hsame₂.trans hsame'⟩

end Regions

end AccessiblePdf
