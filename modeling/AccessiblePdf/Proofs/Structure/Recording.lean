import AccessiblePdf.Proofs.Content.Numbering
import AccessiblePdf.Proofs.Structure.Ledger
import AccessiblePdf.Proofs.Structure.Untagged

/-!
Recording the sequences of a page. The content of a page is numbered by the books (`PageText`), keys are
given out below the number of pages (`Agrees.length_keys_le`), and when as many sequences are recorded
as there are spans, the books go on agreeing with a ledger that lists them (`recordMcids_agrees`).
-/
namespace AccessiblePdf

open Edit Marking

/-! ## The content of pages -/

/-- The content of a page, by the books: the old content while it is not set anew, later the content
that was written last. It is numbered up to `n`. -/
def PageText (old : Document) (b : Books) (z : Compressor) (page home : ObjectId) (n : Nat) : Prop :=
  (b.set home "Contents" = none ∧ n = 0) ∨
    ∃ content ops, b.set home "Contents" = some (.reference content) ∧
      b.cell content = some (.content (contentEntries z (Operation.writeAll ops))
        (contentBytes z (Operation.writeAll ops))) ∧ GivesBack z ops ∧
      Operation.PathsFree Command.draws ops ∧
      NumberedTo (.ofDict old (old.pageResources page) []) ops n

section Content

variable {old doc : Document} {b b' : Books} {z : Compressor} {page home : ObjectId} {n : Nat}

theorem PageText.mono (h : PageText old b z page home n)
    (kept : ∀ (id : ObjectId) (entries : Dict Object) (bytes : Bytes),
      b.cell id = some (.content entries bytes) → b'.cell id = some (.content entries bytes))
    (same : b'.set home "Contents" = b.set home "Contents") :
    PageText old b' z page home n := by
  rcases h with ⟨hset, hn⟩ | ⟨content, ops, hset, hcell, hrest⟩
  · exact Or.inl ⟨same.trans hset, hn⟩
  · exact Or.inr ⟨content, ops, same.trans hset, kept _ _ _ hcell, hrest⟩

theorem Represents.fewer (h : Represents old b doc) (closed : old.Closed)
    (hpage : old.IsPage page) (ops : List Operation) (op : Operation) (m : Int)
    (hm : PageScan.openedMcid? (.ofDict doc (doc.pageResources page) ops) op = some m) :
    PageScan.openedMcid? (.ofDict old (old.pageResources page) []) op = some m :=
  (h.toExtends closed).openedMcid?_old closed (hpage.below closed) hm

/-- The content of a page is what the books say. -/
theorem PageText.read (h : PageText old b z page home n) (represents : Represents old b doc)
    (closed : old.Closed) (untagged : old.Untagged) (hpage : old.IsPage page)
    (hhome : old.target? page = some home) : ∃ ops, doc.pageOperations page = .ok ops ∧
      Operation.PathsFree Command.draws ops ∧
      NumberedTo (.ofDict old (old.pageResources page) []) ops n := by
  obtain ⟨x, hx⟩ := hpage.exists_dict
  obtain ⟨t, ht, hobject⟩ := Document.target?_of_dict? hx
  obtain rfl : home = t := Option.some.inj (hhome.symm.trans ht)
  obtain ⟨y, _, _, hy, hentry⟩ := represents.dict?_old closed (hpage.below closed) hhome hobject
  rcases h with ⟨hset, rfl⟩ | ⟨content, ops, hset, hcell, hback, hfree, hnumbered⟩
  · -- The old content is there.
    obtain ⟨ops, hops, hnone, hfree⟩ := untagged.content page hpage
    refine ⟨ops, ?_, hfree, .zero fun op hop => ?_⟩
    · have hsame : y.get? "Contents" = x.get? "Contents" := by
        rw [hentry, hset, Option.none_or]
      rw [Document.pageOperations,
        (represents.toExtends closed).like.pageContent_eq closed hx hy hsame]
      exact hops
    · rw [ScanState.ofDict_eq old _ [] ops]
      exact hnone op hop
  · refine ⟨ops, ?_, hfree, hnumbered⟩
    obtain ⟨o, _, holds, _, hget⟩ := represents.get?_cell hcell
    cases o with
    | stream entries bytes =>
      obtain ⟨rfl, rfl, _⟩ := holds
      have hcontents : y.get? "Contents" = some (.reference content) := by
        rw [hentry, hset, Option.some_or]
      have hcontent : doc.pageContent page = .ok
          (Stream.data (contentEntries z (Operation.writeAll ops))
            (contentBytes z (Operation.writeAll ops)) ++ [0x0A]) := by
        rw [Document.pageContent_of_some hy hcontents, Document.resolve, hget]
        rfl
      rw [Document.pageOperations, hcontent]
      exact hback
    | _ => exact holds.elim

end Content

/-! ## Keys in use -/

namespace Ledger

variable {l : Ledger} {old doc : Document} {b b' : Books}

/-- There are no more keys than page numbers. -/
theorem Agrees.length_keys_le (h : l.Agrees old b) : l.keys.length ≤ 0x100000000 := by
  classical
  let number (home : ObjectId) : Nat := if hn : Numbered old home then hn.choose else 0
  have hnumber : ∀ home ∈ l.keys, ∃ limit page, number home < 0x100000000 ∧
      (old.pagesWithin limit)[number home]? = some page ∧ old.target? page = some home := by
    intro home hmem
    have hn := h.numbered home hmem
    obtain ⟨hlt, limit, page, hpage, htarget⟩ := hn.choose_spec
    have heq : number home = hn.choose := dif_pos hn
    rw [heq]
    exact ⟨limit, page, hlt, hpage, htarget⟩
  have hinj : ∀ a ∈ l.keys, ∀ c ∈ l.keys, number a = number c → a = c := by
    intro a ha c hc heq
    obtain ⟨_, p, _, hp, htp⟩ := hnumber a ha
    obtain ⟨_, q, _, hq, htq⟩ := hnumber c hc
    rw [heq] at hp
    obtain rfl := Document.getElem?_pagesWithin_unique hp hq
    exact Option.some.inj (htp.symm.trans htq)
  have hnodup : (l.keys.map number).Nodup := (List.nodup_map_iff_inj_on h.nodup).mpr hinj
  have hsubset : l.keys.map number ⊆ List.range 0x100000000 := by
    intro n hn
    obtain ⟨home, hmem, rfl⟩ := List.mem_map.mp hn
    obtain ⟨_, _, hlt, _⟩ := hnumber home hmem
    exact List.mem_range.mpr hlt
  have hlength := (List.subperm_of_subset hnodup hsubset).length_le
  rwa [List.length_map, List.length_range] at hlength

theorem Agrees.entries_bound (h : l.Agrees old b) :
    ∀ e ∈ l.entries, 0 ≤ e.1 ∧ e.1 < l.keys.length := by
  intro e he
  have hbound : bindings l.entries e.1 ≠ none := fun hnone => bindings_eq_none.mp hnone e he rfl
  obtain ⟨o, ho⟩ := Option.ne_none_iff_exists'.mp hbound
  obtain ⟨i, home, array, hk, hi, _⟩ := h.bound e.1 o ho
  have := (List.getElem?_eq_some_iff.mp hi).1
  omega

/-- Every key that a page or an annotation carries is one of those given out. -/
theorem Agrees.assigned_bound (h : l.Agrees old b) (represents : Represents old b doc)
    (closed : old.Closed) (untagged : old.Untagged) :
    ∀ k ∈ assignedKeys doc, 0 ≤ k ∧ k < l.keys.length := by
  have ext := represents.toExtends closed
  intro k hk
  obtain ⟨page, hpage, hk⟩ := List.mem_flatMap.mp hk
  rw [ext.pages_eq closed] at hpage
  have hisPage : old.IsPage page := ⟨_, hpage⟩
  obtain ⟨x, hx⟩ := hisPage.exists_dict
  obtain ⟨home, hhome, hobject⟩ := Document.target?_of_dict? hx
  obtain ⟨y, _, _, hy, hentry⟩ :=
    represents.dict?_old closed (hisPage.below closed) hhome hobject
  rw [hy] at hk
  rcases List.mem_append.mp hk with hk | hk
  · rw [Option.mem_toList, hentry, untagged.keys page x hisPage hx, Option.or_none] at hk
    by_cases hmem : home ∈ l.keys
    · obtain ⟨i, hi⟩ := List.mem_iff_getElem?.mp hmem
      rw [h.keyed i home hi] at hk
      obtain rfl : (i : Int) = k := Option.some.inj hk
      have := (List.getElem?_eq_some_iff.mp hi).1
      omega
    · rw [h.unkeyed home hmem] at hk
      exact absurd hk (by simp)
  · -- Annotations are what they were, without keys.
    exfalso
    obtain ⟨item, hitem, hk⟩ := List.mem_filterMap.mp hk
    obtain ⟨x', hx', hkin⟩ := (ext.dict?_rel closed (hisPage.below closed)).exists_left hy
    obtain rfl : x = x' := Option.some.inj (hx.symm.trans hx')
    rw [ext.entryArray?_eq closed hkin (by decide)] at hitem
    have hbelow : item.Below old.maxId := by
      cases hitems : old.entryArray? x "Annots" with
      | none =>
        rw [hitems] at hitem
        exact absurd hitem (by simp)
      | some items =>
        rw [hitems] at hitem
        exact closed.entryArray?_below (closed.dict?_below hx) hitems _ hitem
    obtain ⟨parent, hparent, _⟩ := Option.bind_eq_some_iff.mp hk
    obtain ⟨a', ha', hget⟩ := Option.bind_eq_some_iff.mp hparent
    obtain ⟨a, ha, kin⟩ := (ext.resolve_alike closed hbelow).dictionary?.exists_left ha'
    rw [kin.get?_eq (by decide), untagged.annotations page x hisPage hx item hitem a ha] at hget
    exact absurd hget (by simp)

end Ledger

/-! ## Recording sequences -/

/-- Streams of content and the dictionary of the mark, which recording leaves alone. -/
def Cell.isFixed : Cell → Bool
  | .content _ _ | .info _ => true
  | _ => false

/-- What is fixed in some books is in others too. -/
def Books.Fixed (b b' : Books) : Prop :=
  ∀ (id : ObjectId) (c : Cell), b.cell id = some c → c.isFixed = true → b'.cell id = some c

section Recording

variable {old : Document} {home element page : ObjectId} {i : Nat} {below : List ObjectId}

/-- One sequence is recorded: its element gets its slot and lists it. -/
theorem record_agrees {l : Ledger} {b : Books} {d d' : Draft} {u : Unit}
    (represents : Represents old b d.doc) (agrees : l.Agrees old b) (hkey : l.keys[i]? = some home)
    (helement : b.IsElement element below)
    (hrun : (do
      setMcidParent l.root i (l.on old home).length element
      addContentKid element page (l.on old home).length : Edit Unit).run d = .ok u d') :
    ∃ array marks doc', d' = { d with doc := doc' } ∧
      b.cell element = some (.element below marks) ∧
      Represents.SlotsAt b l.entries i ((l.on old home).map (·.element)) array ∧
      Represents old (l.withSequence b i array ((l.on old home).map (·.element)) below marks
        ⟨page, (l.on old home).length, element⟩) doc' := by
  obtain ⟨marks, hcell⟩ := helement
  have hslots : (bindings l.entries i = none ∧ (l.on old home).map (·.element) = []) ∨
      ∃ array, bindings l.entries i = some (.reference array) ∧
        b.cell array = some (.slots ((l.on old home).map (·.element))) := by
    cases hbound : bindings l.entries i with
    | none => exact Or.inl ⟨rfl, by rw [agrees.unbound i home hkey hbound]; rfl⟩
    | some o =>
      obtain ⟨j, home', array, hj, hhome', rfl, harray⟩ := agrees.bound i o hbound
      obtain rfl : i = j := by omega
      obtain rfl : home = home' := Option.some.inj (hkey.symm.trans hhome')
      exact Or.inr ⟨array, rfl, harray⟩
  rw [bind_ok] at hrun
  obtain ⟨_, d₁, hparent, hkid⟩ := hrun
  have hlength : ((l.on old home).length : Int) = ((l.on old home).map (·.element)).length := by
    rw [List.length_map]
  rw [hlength] at hparent
  obtain ⟨array, doc₁, rfl, hat, h₁⟩ := represents.setMcidParent_cell agrees.root agrees.tree
    agrees.ascending hslots hparent
  have hcell' : ((b.put array (.slots ((l.on old home).map (·.element) ++ [element]))).put l.tree
      (.tree (Nums.setEntry i (.reference array) l.entries))).cell element =
        some (.element below marks) := by
    rw [Books.cell_put_of_ne (Books.ne_of_cell hcell agrees.tree (by simp)),
      Books.cell_put_of_ne (hat.ne hcell (by simp)), hcell]
  obtain ⟨doc', hd', h'⟩ :=
    Represents.addContentKid_cell (d := { d with doc := doc₁ }) h₁ hcell' hkid
  exact ⟨array, marks, doc', hd', hcell, hat, h'⟩

/-- As many sequences are recorded as there are spans. -/
theorem recordMcids_agrees {d' : Draft} {u : Unit} (hhome : old.target? page = some home)
    (hlarge : i < 0x20000000000000) (n : Nat) : ∀ {l : Ledger} {b : Books} {d : Draft},
      Represents old b d.doc → l.Agrees old b → l.keys[i]? = some home → b.IsElement element below →
      (recordMcids l.root page element i n (l.on old home).length).run d = .ok u d' →
      ∃ (l' : Ledger) (b' : Books) (doc' : Document), d' = { d with doc := doc' } ∧
        Represents old b' doc' ∧ l'.Agrees old b' ∧ Ledger.SameElements b b' ∧ b.Fixed b' ∧
        b'.set = b.set ∧ l'.root = l.root ∧ l'.keys = l.keys ∧ l'.tops = l.tops ∧
        ∀ home', (l'.on old home').length =
          (l.on old home').length + if home' = home then n else 0 := by
  induction n with
  | zero =>
    intro l b d represents agrees hkey helement hrun
    obtain ⟨_, rfl⟩ := pure_ok.mp hrun
    exact ⟨l, b, d'.doc, rfl, represents, agrees, .refl b, fun _ _ h _ => h, rfl, rfl, rfl, rfl,
      fun home' => by simp⟩
  | succ n ih =>
    intro l b d represents agrees hkey helement hrun
    rw [recordMcids, bind_ok] at hrun
    obtain ⟨_, d₁, hparent, hrun⟩ := hrun
    rw [bind_ok] at hrun
    obtain ⟨_, d₂, hkid, hrun⟩ := hrun
    obtain ⟨array, marks, doc₂, rfl, hcell, hat, h₂⟩ := record_agrees represents agrees hkey
      helement (bind_ok.mpr ⟨_, d₁, hparent, hkid⟩)
    set s : TaggedSequence := ⟨page, (l.on old home).length, element⟩ with hs
    have hagrees := agrees.record (s := s) hkey hlarge hhome rfl hcell hat
    have hsame := Ledger.sameElements_withSequence (s := s) agrees hcell hat
    obtain ⟨hself, htree, harray, hother⟩ := Ledger.cell_withSequence (s := s) agrees hcell hat
    have hon : ∀ home', (l.addSequence i array s).on old home' =
        if home' = home then l.on old home' ++ [s] else l.on old home' :=
      fun home' => Ledger.on_addSequence hhome
    have hnext : ((l.on old home).length : Int) + 1 =
        ((l.addSequence i array s).on old home).length := by
      rw [hon, if_pos rfl, List.length_append]
      rfl
    rw [hnext] at hrun
    obtain ⟨l', b', doc', hd', hrep, hagrees', hsame', hfixed, hset, hroot, hkeys, htops, hlengths⟩ :=
      ih (d := { d with doc := doc₂ }) h₂ hagrees hkey ((hsame _ _).mpr helement) hrun
    refine ⟨l', b', doc', hd', hrep, hagrees', hsame.trans hsame', ?_, hset, hroot, hkeys, htops, ?_⟩
    · intro id c hc hfix
      have hne : ∀ {c' : Cell}, c'.isFixed = false → c ≠ c' := by
        intro c' hc' heq
        rw [heq, hc'] at hfix
        exact absurd hfix Bool.false_ne_true
      exact hfixed id c ((hother id (Books.ne_of_cell hc hcell (hne rfl))
        (Books.ne_of_cell hc agrees.tree (hne rfl)) (hat.ne hc (hne rfl))).trans hc) hfix
    · intro home'
      rw [hlengths home', hon]
      by_cases h : home' = home
      · simp only [h, if_true, List.length_append, List.length_singleton]
        omega
      · simp only [h, if_false]

end Recording

end AccessiblePdf
