import AccessiblePdf.Proofs.Structure.Bookkeeping

/-!
The ledger of the tagged sequences: which pages have keys, and which element owns which sequence, in
the order in which they were tagged. Books agree with it (`Ledger.Agrees`) when the slots of each page
and the kids of each element are those that the ledger lists. Giving a page its key and recording a
sequence keep books and ledger in agreement (`Agrees.key`, `Agrees.record`).
-/
namespace AccessiblePdf

structure Ledger where
  root : ObjectId
  tree : ObjectId
  names : Option ObjectId
  /-- The elements below the root. -/
  tops : List ObjectId
  /-- The parent tree. -/
  entries : List (Int × Object)
  /-- Where the dictionaries of the pages with keys stand, by key. -/
  keys : List ObjectId
  /-- The tagged sequences. -/
  sequences : List TaggedSequence

/-- The elements below an element. -/
def Cell.kids? : Cell → Option (List ObjectId)
  | .element kids _ => some kids
  | _ => none

/-- An element, with the elements below it. -/
def Books.IsElement (b : Books) (element : ObjectId) (kids : List ObjectId) : Prop :=
  ∃ marks, b.cell element = some (.element kids marks)

theorem Books.isElement_iff {b : Books} {element : ObjectId} {kids : List ObjectId} :
    b.IsElement element kids ↔ (b.cell element).bind Cell.kids? = some kids := by
  constructor
  · intro h
    obtain ⟨marks, hc⟩ := h
    rw [hc]
    rfl
  · intro h
    obtain ⟨c, hc, hkids⟩ := Option.bind_eq_some_iff.mp h
    cases c with
    | element kids' marks =>
      obtain rfl := Option.some.inj hkids
      exact ⟨marks, hc⟩
    | _ => exact absurd hkids (by simp [Cell.kids?])

namespace Ledger

/-- The sequences on the page whose dictionary stands at `home`. -/
def on (l : Ledger) (old : Document) (home : ObjectId) : List TaggedSequence :=
  l.sequences.filter fun s => old.target? s.page = some home

/-- The sequences of an element. -/
def of (l : Ledger) (element : ObjectId) : List TaggedSequence :=
  l.sequences.filter fun s => s.element = element

/-- A page by its number. -/
def Numbered (old : Document) (home : ObjectId) : Prop :=
  ∃ number < 0x100000000, ∃ limit page, (old.pagesWithin limit)[number]? = some page ∧
    old.target? page = some home

/-- The books agree with the ledger. -/
structure Agrees (l : Ledger) (old : Document) (b : Books) : Prop where
  root : b.cell l.root = some (.root l.tree l.names l.keys.length l.tops)
  tree : b.cell l.tree = some (.tree l.entries)
  ascending : Nums.Ascending l.entries
  keyed : ∀ (i : Nat) (home : ObjectId), l.keys[i]? = some home →
    b.set home "StructParents" = some (.integer i)
  unkeyed : ∀ home, home ∉ l.keys → b.set home "StructParents" = none
  nodup : l.keys.Nodup
  numbered : ∀ home ∈ l.keys, Numbered old home
  /-- A key stands for the array with the owners of the sequences on its page. -/
  bound : ∀ (k : Int) (o : Object), bindings l.entries k = some o → ∃ (i : Nat) (home array : ObjectId),
    k = i ∧ l.keys[i]? = some home ∧ o = .reference array ∧
      b.cell array = some (.slots ((l.on old home).map (·.element)))
  /-- A key that stands for nothing has no sequences on its page. -/
  unbound : ∀ (i : Nat) (home : ObjectId), l.keys[i]? = some home →
    bindings l.entries i = none → l.on old home = []
  separate : ∀ (k k' : Int) (o : Object), bindings l.entries k = some o →
    bindings l.entries k' = some o → k = k'
  elements : ∀ (element : ObjectId) (kids : List ObjectId) (marks : List TaggedSequence),
    b.cell element = some (.element kids marks) → marks = l.of element ∧
      ∀ kid ∈ kids, ∃ below, b.IsElement kid below
  tops : ∀ top ∈ l.tops, ∃ below, b.IsElement top below
  owners : ∀ s ∈ l.sequences, (∃ below, b.IsElement s.element below) ∧
    ∃ home ∈ l.keys, old.target? s.page = some home
  /-- The MCIDs on a page are given out one after the other. -/
  mcids : ∀ home, (l.on old home).map (·.mcid) = (List.range (l.on old home).length).map Int.ofNat

/-- Elements are the same in both books, with the same elements below them. -/
def SameElements (b b' : Books) : Prop :=
  ∀ element kids, b'.IsElement element kids ↔ b.IsElement element kids

theorem SameElements.refl (b : Books) : SameElements b b := fun _ _ => Iff.rfl

theorem SameElements.trans {a b c : Books} (h : SameElements a b) (h' : SameElements b c) :
    SameElements a c :=
  fun element kids => (h' element kids).trans (h element kids)

variable {l : Ledger} {old : Document} {b b' : Books}

theorem SameElements.exists (h : SameElements b b') {x : ObjectId}
    (helement : ∃ below, b.IsElement x below) : ∃ below, b'.IsElement x below := by
  obtain ⟨below, hbelow⟩ := helement
  exact ⟨below, (h x below).mpr hbelow⟩

/-- Elements are the same when what is put in the place of a cell has the same elements below it, or
none as before. -/
theorem SameElements.put {id : ObjectId} {c : Cell} (h : (b.cell id).bind Cell.kids? = c.kids?) :
    SameElements b (b.put id c) := by
  intro x kids
  rw [Books.isElement_iff, Books.isElement_iff]
  by_cases hx : x = id
  · rw [hx, Books.cell_put_self, h]
    rfl
  · rw [Books.cell_put_of_ne hx]

/-- Without new elements or keys the books go on agreeing. -/
theorem Agrees.mono (h : l.Agrees old b)
    (kept : ∀ (id : ObjectId) (c : Cell), b.cell id = some c → b'.cell id = some c)
    (elements : ∀ (id : ObjectId) (kids : List ObjectId) (marks : List TaggedSequence),
      b'.cell id = some (.element kids marks) → b.cell id = some (.element kids marks))
    (keys : ∀ home, b'.set home "StructParents" = b.set home "StructParents") :
    l.Agrees old b' ∧ SameElements b b' := by
  have hsame : SameElements b b' := by
    intro element kids
    constructor
    · intro helement
      obtain ⟨marks, hc⟩ := helement
      exact ⟨marks, elements _ _ _ hc⟩
    · intro helement
      obtain ⟨marks, hc⟩ := helement
      exact ⟨marks, kept _ _ hc⟩
  refine ⟨⟨kept _ _ h.root, kept _ _ h.tree, h.ascending, ?_, ?_, h.nodup, h.numbered, ?_,
    h.unbound, h.separate, ?_, ?_, ?_, h.mcids⟩, hsame⟩
  · intro i home hi
    rw [keys, h.keyed i home hi]
  · intro home hhome
    rw [keys, h.unkeyed home hhome]
  · intro k o ho
    obtain ⟨i, home, array, hk, hi, hcell, harray⟩ := h.bound k o ho
    exact ⟨i, home, array, hk, hi, hcell, kept _ _ harray⟩
  · intro element kids marks hc
    obtain ⟨hmarks, hkids⟩ := h.elements element kids marks (elements _ _ _ hc)
    exact ⟨hmarks, fun kid hkid => hsame.exists (hkids kid hkid)⟩
  · intro top htop
    exact hsame.exists (h.tops top htop)
  · intro s hs
    obtain ⟨helement, hpage⟩ := h.owners s hs
    exact ⟨hsame.exists helement, hpage⟩

theorem Agrees.on_of_not_mem (h : l.Agrees old b) {home : ObjectId} (hnew : home ∉ l.keys) :
    l.on old home = [] := by
  rw [on, List.filter_eq_nil_iff]
  intro s hs hhome
  obtain ⟨_, home', hmem, htarget⟩ := h.owners s hs
  have hsame : old.target? s.page = some home := by simpa using hhome
  obtain rfl : home' = home := Option.some.inj (htarget.symm.trans hsame)
  exact hnew hmem

/-! ## The next key -/

/-- One more page with a key. -/
def addKey (l : Ledger) (home : ObjectId) : Ledger := { l with keys := l.keys ++ [home] }

/-- The books in which a page has the next key. -/
def withKey (l : Ledger) (b : Books) (home : ObjectId) : Books :=
  (b.put l.root (.root l.tree l.names (l.keys.length + 1) l.tops)).setEntry home "StructParents"
    (.integer l.keys.length)

section Key

variable {home home' : ObjectId}

theorem getElem?_addKey {i : Nat} (h : (l.addKey home).keys[i]? = some home') :
    l.keys[i]? = some home' ∨ i = l.keys.length ∧ home' = home := by
  change (l.keys ++ [home])[i]? = some home' at h
  rw [List.getElem?_append] at h
  split at h
  · exact Or.inl h
  · rw [List.getElem?_singleton] at h
    split at h
    · exact Or.inr ⟨by omega, (Option.some.inj h).symm⟩
    · exact absurd h (by simp)

theorem set_withKey (l : Ledger) (b : Books) (home home' : ObjectId) (key : Bytes) :
    (l.withKey b home).set home' key =
      if home' = home ∧ key = utf8 "StructParents" then some (.integer l.keys.length)
      else b.set home' key := Books.set_setEntry

theorem cell_withKey (h : l.Agrees old b) {id : ObjectId} {c : Cell} (hc : b.cell id = some c)
    (hne : c ≠ .root l.tree l.names l.keys.length l.tops) : (l.withKey b home).cell id = some c := by
  refine Books.cell_put_of_cell hc ?_
  rw [h.root]
  exact fun heq => hne (Option.some.inj heq).symm

theorem sameElements_withKey (h : l.Agrees old b) : SameElements b (l.withKey b home) :=
  SameElements.put (c := .root l.tree l.names (l.keys.length + 1) l.tops) (by rw [h.root]; rfl)

/-- A page is given the next key. -/
theorem Agrees.key (h : l.Agrees old b) (hnew : home ∉ l.keys) (hnumbered : Numbered old home) :
    (l.addKey home).Agrees old (l.withKey b home) := by
  have hsame : SameElements b (l.withKey b home) := sameElements_withKey h
  refine ⟨?_, cell_withKey h h.tree (by simp), h.ascending, ?_, ?_, ?_, ?_, ?_, ?_, h.separate,
    ?_, ?_, ?_, h.mcids⟩
  · show (l.withKey b home).cell l.root = some (.root l.tree l.names (l.keys ++ [home]).length l.tops)
    rw [List.length_append]
    exact Books.cell_put_self
  · intro i home' hi
    rw [set_withKey]
    rcases getElem?_addKey hi with hi | ⟨rfl, rfl⟩
    · have hdiff : home' ≠ home := by
        intro heq
        rw [heq] at hi
        exact hnew (List.mem_of_getElem? hi)
      rw [if_neg fun hh => hdiff hh.1]
      exact h.keyed i home' hi
    · exact if_pos ⟨rfl, rfl⟩
  · intro home' hhome
    obtain ⟨hold, hdiff⟩ := not_or.mp (mt List.mem_append.mpr hhome)
    rw [set_withKey, if_neg fun hh => hdiff (List.mem_singleton.mpr hh.1)]
    exact h.unkeyed home' hold
  · show (l.keys ++ [home]).Nodup
    rw [← List.concat_eq_append]
    exact h.nodup.concat hnew
  · intro home' hhome
    rcases List.mem_append.mp hhome with hhome | hhome
    · exact h.numbered home' hhome
    · rw [List.mem_singleton.mp hhome]
      exact hnumbered
  · intro k o ho
    obtain ⟨i, home', array, hk, hi, hcell, harray⟩ := h.bound k o ho
    refine ⟨i, home', array, hk, ?_, hcell, cell_withKey h harray (by simp)⟩
    exact (List.getElem?_append_left (List.getElem?_eq_some_iff.mp hi).1).trans hi
  · intro i home' hi hnone
    rcases getElem?_addKey hi with hi | ⟨_, rfl⟩
    · exact h.unbound i home' hi hnone
    · exact h.on_of_not_mem hnew
  · intro element kids marks hc
    rcases Books.cell_put_eq_some.mp hc with ⟨_, hroot⟩ | ⟨_, hc⟩
    · exact absurd hroot (by simp)
    · obtain ⟨hmarks, hkids⟩ := h.elements element kids marks hc
      exact ⟨hmarks, fun kid hkid => hsame.exists (hkids kid hkid)⟩
  · intro top htop
    exact hsame.exists (h.tops top htop)
  · intro s hs
    obtain ⟨helement, home', hmem, htarget⟩ := h.owners s hs
    exact ⟨hsame.exists helement, home', List.mem_append_left _ hmem, htarget⟩

end Key

/-! ## One more sequence -/

/-- One more sequence, with the array in which its element has a slot. -/
def addSequence (l : Ledger) (i : Nat) (array : ObjectId) (s : TaggedSequence) : Ledger :=
  { l with
    entries := Nums.setEntry i (.reference array) l.entries
    sequences := l.sequences ++ [s] }

/-- The books in which an element owns one more sequence. -/
def withSequence (l : Ledger) (b : Books) (i : Nat) (array : ObjectId) (owners kids : List ObjectId)
    (marks : List TaggedSequence) (s : TaggedSequence) : Books :=
  ((b.put array (.slots (owners ++ [s.element]))).put l.tree
    (.tree (Nums.setEntry i (.reference array) l.entries))).put s.element
      (.element kids (marks ++ [s]))

section Recording

variable {home home' element array page : ObjectId} {kids owners : List ObjectId}
  {marks : List TaggedSequence} {i : Nat} {s : TaggedSequence}

theorem on_addSequence (hhome : old.target? s.page = some home) : (l.addSequence i array s).on old home' =
    if home' = home then l.on old home' ++ [s] else l.on old home' := by
  show (l.sequences ++ [s]).filter _ = _
  rw [List.filter_append]
  by_cases h : home' = home
  · rw [if_pos h, h, List.filter_cons_of_pos (by simpa using hhome)]
    rfl
  · have hne : ¬ old.target? s.page = some home' := by
      rw [hhome, Option.some_inj]
      exact Ne.symm h
    rw [if_neg h, List.filter_cons_of_neg (by simpa using hne), List.filter_nil, List.append_nil]
    rfl

theorem of_addSequence : (l.addSequence i array s).of element =
    if element = s.element then l.of element ++ [s] else l.of element := by
  show (l.sequences ++ [s]).filter _ = _
  rw [List.filter_append]
  by_cases h : element = s.element
  · rw [if_pos h, List.filter_cons_of_pos (by simpa using h.symm)]
    rfl
  · rw [if_neg h, List.filter_cons_of_neg (by simpa using Ne.symm h), List.filter_nil,
      List.append_nil]
    rfl

theorem Agrees.bindings_addSequence (h : l.Agrees old b) (hlarge : i < 0x20000000000000) (k : Int) :
    bindings (l.addSequence i array s).entries k =
      if k = i then some (.reference array) else bindings l.entries k := by
  have hexact : readKey i = i := readKey_eq_self (by omega)
  show bindings (Nums.setEntry i (.reference array) l.entries) k = _
  rw [Nums.bindings_setEntry h.ascending hexact, Function.update_apply]

theorem Agrees.key_unique (h : l.Agrees old b) {j : Nat} (hi : l.keys[i]? = some home)
    (hj : l.keys[j]? = some home) : j = i :=
  (List.getElem?_inj (List.getElem?_eq_some_iff.mp hj).1 h.nodup).mp (hj.trans hi.symm)

theorem Agrees.ne_array (h : l.Agrees old b)
    (hslots : Represents.SlotsAt b l.entries i owners array) {k : Int} {o : Object} (hk : k ≠ i)
    (ho : bindings l.entries k = some o) : o ≠ .reference array := by
  intro heq
  rw [heq] at ho
  obtain ⟨_, _, array', _, _, hsame, hcell⟩ := h.bound k _ ho
  obtain rfl : array = array' := Object.reference.inj hsame
  rcases hslots with ⟨_, _, hnone⟩ | ⟨hsome, _⟩
  · exact absurd (hnone.symm.trans hcell) (by simp)
  · exact hk (h.separate k i _ ho hsome)

theorem cell_withSequence (h : l.Agrees old b)
    (helement : b.cell s.element = some (.element kids marks))
    (hslots : Represents.SlotsAt b l.entries i owners array) :
    (l.withSequence b i array owners kids marks s).cell s.element =
        some (.element kids (marks ++ [s])) ∧
      (l.withSequence b i array owners kids marks s).cell l.tree =
        some (.tree (Nums.setEntry i (.reference array) l.entries)) ∧
      (l.withSequence b i array owners kids marks s).cell array =
        some (.slots (owners ++ [s.element])) ∧
      ∀ id, id ≠ s.element → id ≠ l.tree → id ≠ array →
        (l.withSequence b i array owners kids marks s).cell id = b.cell id := by
  have h₁ : l.tree ≠ s.element := Books.ne_of_cell h.tree helement (by simp)
  have h₂ : array ≠ s.element := (hslots.ne helement (by simp)).symm
  have h₃ : array ≠ l.tree := (hslots.ne h.tree (by simp)).symm
  refine ⟨Books.cell_put_self, ?_, ?_, ?_⟩
  · exact (Books.cell_put_of_ne h₁).trans Books.cell_put_self
  · rw [withSequence, Books.cell_put_of_ne h₂, Books.cell_put_of_ne h₃]
    exact Books.cell_put_self
  · intro id hne htree harray
    rw [withSequence, Books.cell_put_of_ne hne, Books.cell_put_of_ne htree,
      Books.cell_put_of_ne harray]

/-- Recording a sequence makes no elements. -/
theorem sameElements_withSequence (h : l.Agrees old b)
    (helement : b.cell s.element = some (.element kids marks))
    (hslots : Represents.SlotsAt b l.entries i owners array) :
    SameElements b (l.withSequence b i array owners kids marks s) := by
  have harray : (b.cell array).bind Cell.kids? = none := by
    rcases hslots with ⟨_, _, hnone⟩ | ⟨_, hsome⟩
    · rw [hnone]
      rfl
    · rw [hsome]
      rfl
  have htree : (b.put array (.slots (owners ++ [s.element]))).cell l.tree = some (.tree l.entries) :=
    (Books.cell_put_of_ne (hslots.ne h.tree (by simp))).trans h.tree
  have hself : ((b.put array (.slots (owners ++ [s.element]))).put l.tree
      (.tree (Nums.setEntry i (.reference array) l.entries))).cell s.element =
        some (.element kids marks) :=
    Books.cell_put_of_cell
      ((Books.cell_put_of_ne (hslots.ne helement (by simp))).trans helement) (by simp [htree])
  refine (SameElements.put (harray.trans ?_)).trans (.trans (.put ?_) (.put ?_))
  · rfl
  · rw [htree]
    rfl
  · rw [hself]
    rfl

/-- Afterwards each key stands for the owners of the sequences on its page. -/
theorem Agrees.bound_record (h : l.Agrees old b) (hkey : l.keys[i]? = some home)
    (hlarge : i < 0x20000000000000) (hhome : old.target? s.page = some home)
    (helement : b.cell s.element = some (.element kids marks))
    (hslots : Represents.SlotsAt b l.entries i ((l.on old home).map (·.element)) array) {k : Int}
    {o : Object} (ho : bindings (l.addSequence i array s).entries k = some o) :
    ∃ (j : Nat) (home' array' : ObjectId), k = j ∧ l.keys[j]? = some home' ∧ o = .reference array' ∧
      (l.withSequence b i array ((l.on old home).map (·.element)) kids marks s).cell array' =
        some (.slots (((l.addSequence i array s).on old home').map (·.element))) := by
  obtain ⟨_, _, harray, hother⟩ := cell_withSequence h helement hslots
  rw [h.bindings_addSequence hlarge] at ho
  by_cases hk : k = i
  · rw [if_pos hk, Option.some_inj] at ho
    refine ⟨i, home, array, hk, hkey, ho.symm, ?_⟩
    rw [on_addSequence hhome, if_pos rfl, List.map_append]
    exact harray
  · rw [if_neg hk] at ho
    obtain ⟨j, home', array', rfl, hj, rfl, hcell⟩ := h.bound k o ho
    have hdiff : home' ≠ home := by
      intro heq
      rw [heq] at hj
      exact hk (by rw [h.key_unique hkey hj])
    refine ⟨j, home', array', rfl, hj, rfl, ?_⟩
    rw [on_addSequence hhome, if_neg hdiff]
    refine (hother array' (Books.ne_of_cell hcell helement (by simp))
      (Books.ne_of_cell hcell h.tree (by simp)) ?_).trans hcell
    intro heq
    exact h.ne_array hslots hk ho (by rw [heq])

theorem Agrees.separate_record (h : l.Agrees old b) (hlarge : i < 0x20000000000000)
    (hslots : Represents.SlotsAt b l.entries i owners array) {k k' : Int} {o : Object}
    (ho : bindings (l.addSequence i array s).entries k = some o)
    (ho' : bindings (l.addSequence i array s).entries k' = some o) : k = k' := by
  rw [h.bindings_addSequence hlarge] at ho ho'
  by_cases hk : k = i
  · by_cases hk' : k' = i
    · rw [hk, hk']
    · rw [if_pos hk, Option.some_inj] at ho
      rw [if_neg hk'] at ho'
      exact absurd ho.symm (h.ne_array hslots hk' ho')
  · rw [if_neg hk] at ho
    by_cases hk' : k' = i
    · rw [if_pos hk', Option.some_inj] at ho'
      exact absurd ho'.symm (h.ne_array hslots hk ho)
    · rw [if_neg hk'] at ho'
      exact h.separate k k' o ho ho'

/-- Afterwards each element has the sequences that it owns. -/
theorem Agrees.elements_record (h : l.Agrees old b)
    (helement : b.cell s.element = some (.element kids marks))
    (hslots : Represents.SlotsAt b l.entries i owners array) {id : ObjectId} {kids' : List ObjectId}
    {marks' : List TaggedSequence}
    (hc : (l.withSequence b i array owners kids marks s).cell id = some (.element kids' marks')) :
    marks' = (l.addSequence i array s).of id ∧ ∀ kid ∈ kids', ∃ below,
      (l.withSequence b i array owners kids marks s).IsElement kid below := by
  have hsame := sameElements_withSequence h helement hslots
  obtain ⟨hself, htree, harray, hother⟩ := cell_withSequence h helement hslots
  rw [of_addSequence]
  by_cases hid : id = s.element
  · rw [hid, hself] at hc
    obtain ⟨rfl, rfl⟩ := Cell.element.inj (Option.some.inj hc)
    obtain ⟨hmarks, hkids⟩ := h.elements _ _ _ helement
    rw [if_pos hid, hid, ← hmarks]
    exact ⟨rfl, fun kid hkid => hsame.exists (hkids kid hkid)⟩
  · have hold : b.cell id = some (.element kids' marks') :=
      (hother id hid (Books.ne_of_cell hc htree (by simp))
        (Books.ne_of_cell hc harray (by simp))).symm.trans hc
    obtain ⟨hmarks, hkids⟩ := h.elements _ _ _ hold
    rw [if_neg hid]
    exact ⟨hmarks, fun kid hkid => hsame.exists (hkids kid hkid)⟩

/-- A sequence is recorded for an element. -/
theorem Agrees.record (h : l.Agrees old b) (hkey : l.keys[i]? = some home)
    (hlarge : i < 0x20000000000000) (hhome : old.target? s.page = some home)
    (hmcid : s.mcid = (l.on old home).length)
    (helement : b.cell s.element = some (.element kids marks))
    (hslots : Represents.SlotsAt b l.entries i ((l.on old home).map (·.element)) array) :
    (l.addSequence i array s).Agrees old
      (l.withSequence b i array ((l.on old home).map (·.element)) kids marks s) := by
  have hsame := sameElements_withSequence h helement hslots
  obtain ⟨_, htree, _, hother⟩ := cell_withSequence h helement hslots
  have hexact : readKey i = i := readKey_eq_self (by omega)
  refine ⟨?_, htree, h.ascending.setEntry hexact _, h.keyed, h.unkeyed, h.nodup, h.numbered,
    fun k o => h.bound_record hkey hlarge hhome helement hslots, ?_,
    fun k k' o => h.separate_record hlarge hslots,
    fun id kids' marks' => h.elements_record helement hslots, ?_, ?_, ?_⟩
  · exact (hother l.root (Books.ne_of_cell h.root helement (by simp))
      (Books.ne_of_cell h.root h.tree (by simp)) (hslots.ne h.root (by simp))).trans h.root
  · intro j home' hj hnone
    rw [h.bindings_addSequence hlarge] at hnone
    split at hnone
    · exact absurd hnone (by simp)
    · next hk =>
      have hdiff : home' ≠ home := by
        intro heq
        rw [heq] at hj
        exact hk (by rw [h.key_unique hkey hj])
      rw [on_addSequence hhome, if_neg hdiff]
      exact h.unbound j home' hj hnone
  · intro top htop
    exact hsame.exists (h.tops top htop)
  · intro t ht
    rcases List.mem_append.mp ht with ht | ht
    · obtain ⟨howner, hpage⟩ := h.owners t ht
      exact ⟨hsame.exists howner, hpage⟩
    · rw [List.mem_singleton.mp ht]
      exact ⟨hsame.exists ⟨kids, marks, helement⟩, home, List.mem_of_getElem? hkey, hhome⟩
  · intro home'
    rw [on_addSequence hhome]
    split
    · next hhere =>
      rw [hhere, List.map_append, h.mcids home, List.length_append, List.length_singleton,
        List.range_succ, List.map_append]
      simp [hmcid]
    · exact h.mcids home'

end Recording

end Ledger

end AccessiblePdf
