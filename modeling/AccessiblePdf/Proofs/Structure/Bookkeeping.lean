import AccessiblePdf.Proofs.Structure.Books

/-!
What the edits of tagging enter into the books. Each lemma takes a run that succeeds on a document that
agrees with the books, and says which books the document agrees with afterwards; the rest of the draft
stays as it is.
-/
namespace AccessiblePdf

open Edit

/-! ## Slots and keys -/

namespace Nums

theorem get?_ofEntries {es : List (Int × Object)} (ascending : Ascending es) (key : Int) :
    get? key (ofEntries es) = bindings es key := by
  have hpairs := ascending.pairwise
  clear ascending
  induction es with
  | nil => rfl
  | cons e es ih =>
    rw [List.pairwise_cons] at hpairs
    rw [ofEntries_cons, get?, ← List.singleton_append, bindings_append]
    by_cases hkey : e.1 = key
    · have hnone : bindings es key = none := bindings_eq_none.mpr fun x hx => by
        have := hpairs.1 x hx
        omega
      rw [if_pos hkey, hnone, Option.none_or]
      show some e.2 = bindings [(e.1, e.2)] key
      rw [bindings_single, if_pos hkey.symm]
    · rw [if_neg hkey, ih hpairs.2]
      show bindings es key = (bindings es key).or (bindings [(e.1, e.2)] key)
      rw [bindings_single, if_neg (Ne.symm hkey), Option.or_none]

theorem keys_ofEntries (es : List (Int × Object)) : keys (ofEntries es) = es.map (·.1) := by
  induction es with
  | nil => rfl
  | cons e es ih => rw [ofEntries_cons, keys, ih, List.map_cons]

end Nums

theorem nextKey_small {k : Int} (small : k.natAbs < 0x20000000000000) : nextKey k = k + 1 := by
  unfold nextKey
  exact Int.bmod_eq_of_le (by omega) (by omega)

theorem nextKey_eq {k : Int} (hk : 0 ≤ k ∧ k < 0x20000000000000) : nextKey k = k + 1 :=
  nextKey_small (by omega)

theorem exists_maxKey? {keys : List Int} {k : Int} (h : k ∈ keys) :
    ∃ m ∈ keys, maxKey? keys = some m ∧ k ≤ m := by
  have hfold : ∀ (ks : List Int) (first : Int), ks.foldl max first ∈ first :: ks ∧
      ∀ k ∈ first :: ks, k ≤ ks.foldl max first := by
    intro ks
    induction ks with
    | nil => simp
    | cons k' ks ih =>
      intro first
      obtain ⟨hmem, hle⟩ := ih (max first k')
      rw [List.forall_mem_cons] at hle
      rw [List.foldl_cons, List.forall_mem_cons, List.forall_mem_cons]
      refine ⟨?_, by omega, by omega, hle.2⟩
      rcases List.mem_cons.mp hmem with h | h
      · have hmax : max first k' = first ∨ max first k' = k' := by omega
        rw [h]
        rcases hmax with hmax | hmax <;> simp [hmax]
      · exact List.mem_cons_of_mem _ (List.mem_cons_of_mem _ h)
  cases keys with
  | nil => exact absurd h List.not_mem_nil
  | cons first ks => exact ⟨_, (hfold ks first).1, rfl, (hfold ks first).2 k h⟩

theorem maxKey?_le {keys : List Int} {n : Int} (hn : 0 ≤ n) (hkeys : ∀ k ∈ keys, k ≤ n) :
    (maxKey? keys).getD 0 ≤ n := by
  cases keys with
  | nil => exact hn
  | cons k ks =>
    obtain ⟨m, hmem, hm, -⟩ := exists_maxKey? (List.mem_cons_self (a := k) (l := ks))
    rw [hm]
    exact hkeys m hmem

theorem maxKey?_map_le {keys : List Int} {n : Int} (hn : 0 ≤ n)
    (hkeys : ∀ k ∈ keys, nextKey k ≤ n) : ((maxKey? keys).map nextKey).getD 0 ≤ n := by
  cases keys with
  | nil => exact hn
  | cons k ks =>
    obtain ⟨m, hmem, hm, -⟩ := exists_maxKey? (List.mem_cons_self (a := k) (l := ks))
    rw [hm]
    exact hkeys m hmem

theorem setItem_length (o : Object) (items : List Object) :
    setItem items.length o items = items ++ [o] := by
  rw [setItem, Nat.add_sub_cancel_left]
  simp

namespace Cell

/-- Whether a cell is held by a dictionary. -/
def isDictionary : Cell → Bool
  | .slots _ | .content _ _ => false
  | _ => true

theorem Holds.exists_dictionary {c : Cell} {o : Object} (h : c.Holds o) (hc : c.isDictionary = true) :
    ∃ x, o = .dictionary x := by
  cases c <;> cases o <;> first
    | exact h.elim
    | exact absurd hc Bool.false_ne_true
    | exact ⟨_, rfl⟩

theorem elementKids_concat (kids : List ObjectId) (marks : List TaggedSequence) (s : TaggedSequence) :
    elementKids kids (marks ++ [s]) = elementKids kids marks ++
      [s.kid (TaggedSequence.own? (marks ++ [s]))] := by
  cases marks with
  | nil => simp [elementKids]
  | cons m marks => simp [elementKids, TaggedSequence.own?]

end Cell

/-! ## A parent tree that is flat -/

section Flat

variable {d d' : Draft} {root tree : ObjectId} {x y : Dict Object} {es : List (Int × Object)}
  {key : Int} {next : Nat}

/-- A parent tree that is flat is found, and left as it is. -/
theorem parentTree_flat (hx : d.doc.dict? root = some x)
    (hparents : x.get? "ParentTree" = some (.reference tree)) (hy : d.doc.dict? tree = some y)
    (hkids : y.get? "Kids" = none) (hnums : y.get? "Nums" = some (.array (Nums.ofEntries es)))
    {t : ObjectId} (hrun : (parentTree root).run d = .ok t d') : t = tree ∧ d' = d := by
  unfold parentTree at hrun
  rw [bind_ok] at hrun
  obtain ⟨t', d₁, hindirect, hrun⟩ := hrun
  obtain ⟨x', hx', hrest⟩ := indirectDict_ok.mp hindirect
  obtain rfl : x = x' := Option.some.inj (hx.symm.trans hx')
  rw [hparents, ownId?_reference, hy, Option.isSome_some, if_pos rfl] at hrest
  obtain ⟨rfl, rfl⟩ := hrest
  rw [bind_ok] at hrun
  obtain ⟨y', d₂, hdict, hrun⟩ := hrun
  obtain ⟨hy', rfl⟩ := dict_ok.mp hdict
  obtain rfl : y = y' := Option.some.inj (hy.symm.trans hy')
  rw [bind_ok] at hrun
  obtain ⟨doc, d₃, hdoc, hrun⟩ := hrun
  obtain ⟨rfl, rfl⟩ := doc_ok.mp hdoc
  have hflat : (y.contains "Kids" || !y.contains "Nums") = false := by
    rw [OrderedMap.contains, OrderedMap.contains, hkids, hnums]
    rfl
  rw [hflat] at hrun
  exact pure_ok.mp hrun

/-- When all keys in use are below the next one, that one is given out. -/
theorem allocateKey_flat (hx : d.doc.dict? root = some x)
    (hparents : x.get? "ParentTree" = some (.reference tree))
    (hdeclared : x.get? "ParentTreeNextKey" = Cell.nextEntry next) (hy : d.doc.dict? tree = some y)
    (hkids : y.get? "Kids" = none) (hnums : y.get? "Nums" = some (.array (Nums.ofEntries es)))
    (hnext : next < 0x20000000000000) (hkeys : ∀ e ∈ es, 0 ≤ e.1 ∧ e.1 < next)
    (hassigned : ∀ k ∈ assignedKeys d.doc, 0 ≤ k ∧ k < next)
    (hrun : (allocateKey root).run d = .ok key d') : key = next ∧
      (setEntry root "ParentTreeNextKey" (.integer (next + 1))).run d = .ok () d' := by
  unfold allocateKey at hrun
  rw [bind_ok] at hrun
  obtain ⟨t, d₁, hparent, hrun⟩ := hrun
  obtain ⟨rfl, rfl⟩ := parentTree_flat hx hparents hy hkids hnums hparent
  rw [bind_ok] at hrun
  obtain ⟨doc, d₂, hdoc, hrun⟩ := hrun
  obtain ⟨rfl, rfl⟩ := doc_ok.mp hdoc
  rw [bind_ok] at hrun
  obtain ⟨x', d₃, hdict, hrun⟩ := hrun
  obtain ⟨hx', rfl⟩ := dict_ok.mp hdict
  obtain rfl : x = x' := Option.some.inj (hx.symm.trans hx')
  rw [bind_ok] at hrun
  obtain ⟨y', d₄, hdict', hrun⟩ := hrun
  obtain ⟨hy', rfl⟩ := dict_ok.mp hdict'
  obtain rfl : y = y' := Option.some.inj (hy.symm.trans hy')
  have hread : ((x.get? "ParentTreeNextKey").bind Object.truncated?).getD 0 = (next : Int) := by
    rw [hdeclared, Cell.nextEntry]
    split
    · next hzero => rw [hzero]; rfl
    · show readKey next = next
      exact readKey_eq_self (by omega)
  have hused : (maxKey? ((Nums.keys (((y.get? "Nums").bind Object.array?).getD [])).map
      nextKey)).getD 0 ≤ (next : Int) := by
    rw [hnums, Option.bind_some, Object.array?, Option.getD_some, Nums.keys_ofEntries]
    refine maxKey?_le (by omega) fun k hk => ?_
    obtain ⟨n, hn, rfl⟩ := List.mem_map.mp hk
    obtain ⟨e, he, rfl⟩ := List.mem_map.mp hn
    have := hkeys e he
    rw [nextKey_eq (by omega)]
    omega
  have hrest : ((maxKey? (assignedKeys d₄.doc)).map nextKey).getD 0 ≤ (next : Int) := by
    refine maxKey?_map_le (by omega) fun k hk => ?_
    have := hassigned k hk
    rw [nextKey_eq (by omega)]
    omega
  have hkey : max (max (((x.get? "ParentTreeNextKey").bind Object.truncated?).getD 0)
      ((maxKey? ((Nums.keys (((y.get? "Nums").bind Object.array?).getD [])).map nextKey)).getD 0))
      (((maxKey? (assignedKeys d₄.doc)).map nextKey).getD 0) = (next : Int) := by
    rw [hread, max_eq_left hused, max_eq_left hrest]
  simp only [hkey] at hrun
  rw [bind_ok] at hrun
  obtain ⟨_, d₅, hset, hrun⟩ := hrun
  obtain ⟨rfl, rfl⟩ := pure_ok.mp hrun
  rw [nextKey_eq (by omega)] at hset
  exact ⟨rfl, hset⟩

end Flat

/-! ## Streams of content -/

/-- The bytes of a stream for content. -/
def contentBytes (z : Compressor) (content : Bytes) : Bytes := (z.deflate? content).getD content

/-- The entries of a stream for content. -/
def contentEntries (z : Compressor) (content : Bytes) : Dict Object :=
  let filter : Dict Object :=
    if (z.deflate? content).isSome then .ofList [(utf8 "Filter", .name "FlateDecode")] else ∅
  filter.insert "Length" (.integer (contentBytes z content).length)

theorem mcid_contentEntries (z : Compressor) (content : Bytes) :
    (contentEntries z content).get? "MCID" = none := by
  rw [contentEntries, OrderedMap.get?_insert_of_ne _ (by decide)]
  cases (z.deflate? content).isSome <;> decide

/-- Operations that are read again from the stream that they are written to. -/
def GivesBack (z : Compressor) (ops : List Operation) : Prop :=
  Operation.readAll (Stream.data (contentEntries z (Operation.writeAll ops))
    (contentBytes z (Operation.writeAll ops)) ++ [0x0A]) = .ok ops

namespace Represents

variable {old : Document} {b : Books} {d d' : Draft} {id : ObjectId} {c c' : Cell} {u : Unit}

/-! ## New objects -/

theorem dict_cell (h : Represents old b d.doc) (hc : b.cell id = some c) {x : Dict Object}
    (hrun : (dict id).run d = .ok x d') : d' = d ∧ d.doc.objects.get? id = some (.dictionary x) ∧
      c.Holds (.dictionary x) := by
  obtain ⟨hx, rfl⟩ := dict_ok.mp hrun
  obtain ⟨o, ho, holds, _, hget⟩ := h.get?_cell hc
  obtain rfl : o = .dictionary x := by
    simpa using hget.symm.trans (Document.get?_of_dict? hx)
  exact ⟨rfl, ho, holds⟩

theorem dict?_cell (h : Represents old b d.doc) (hc : b.cell id = some c)
    (hdict : c.isDictionary = true) :
    ∃ x, d.doc.objects.get? id = some (.dictionary x) ∧ c.Holds (.dictionary x) ∧
      d.doc.dict? id = some x := by
  obtain ⟨o, ho, holds, _, hget⟩ := h.get?_cell hc
  obtain ⟨x, rfl⟩ := holds.exists_dictionary hdict
  exact ⟨x, ho, holds, Document.dict?_of_get? hget⟩

theorem add_cell (h : Represents old b d.doc) {o : Object} (holds : c.Holds o)
    (hrun : (Edit.add o).run d = .ok id d') : id = d.doc.nextId ∧ b.cell id = none ∧
      ∃ doc', d' = { d with doc := doc' } ∧ Represents old (b.put id c) doc' := by
  obtain ⟨rfl, rfl⟩ := add_ok.mp hrun
  exact ⟨rfl, h.cell_nextId, _, rfl, h.add holds⟩

theorem modifyDict_cell (h : Represents old b d.doc) (hc : b.cell id = some c) {e : Cell}
    {f : Dict Object → Dict Object} (hrun : (modifyDict id f).run d = .ok u d')
    (holds : ∀ x, c.Holds (.dictionary x) → e.Holds (.dictionary (f x)))
    (mcid : e.mcid? = c.mcid?) :
    ∃ doc', d' = { d with doc := doc' } ∧ Represents old (b.put id e) doc' := by
  obtain ⟨t, x, ht, hx, rfl⟩ := modifyDict_ok.mp hrun
  obtain ⟨o, ho, hholds, htarget, _⟩ := h.get?_cell hc
  obtain rfl : id = t := by simpa using htarget.symm.trans ht
  obtain rfl : o = .dictionary x := by simpa using ho.symm.trans hx
  exact ⟨_, rfl, h.putCell hc (holds x hholds) mcid⟩

theorem indirectDict_cell (h : Represents old b d.doc) (hc : b.cell id = some c) {key : Bytes}
    {target id' : ObjectId} (entry : ∀ x, c.Holds (.dictionary x) →
      x.get? key = some (.reference target))
    (hc' : b.cell target = some c') (hdict : c'.isDictionary = true)
    (hrun : (indirectDict id key).run d = .ok id' d') : id' = target ∧ d' = d := by
  obtain ⟨x, hx, hrest⟩ := indirectDict_ok.mp hrun
  obtain ⟨_, _, holds⟩ := h.dict_cell hc (dict_ok.mpr ⟨hx, rfl⟩)
  obtain ⟨y, _, _, hy⟩ := h.dict?_cell hc' hdict
  rw [entry x holds, ownId?_reference, hy, Option.isSome_some, if_pos rfl] at hrest
  exact hrest

theorem indirectDict_fresh (h : Represents old b d.doc) (hc : b.cell id = some c) {key : Bytes}
    {id' : ObjectId} (entry : ∀ x, c.Holds (.dictionary x) → x.get? key = none) (next : ObjectId → Cell)
    (holds : ∀ target x, c.Holds (.dictionary x) →
      (next target).Holds (.dictionary (x.insert key (.reference target))))
    (mcid : ∀ target, (next target).mcid? = c.mcid?)
    (hrun : (indirectDict id key).run d = .ok id' d') : b.cell id' = none ∧
      ∃ doc', d' = { d with doc := doc' } ∧
        Represents old ((b.put id' (.exact ∅)).put id (next id')) doc' := by
  obtain ⟨x, hx, hrest⟩ := indirectDict_ok.mp hrun
  obtain ⟨_, _, hholds⟩ := h.dict_cell hc (dict_ok.mpr ⟨hx, rfl⟩)
  rw [entry x hholds] at hrest
  obtain ⟨rfl, hset⟩ := hrest
  have hadd : Represents old (b.put d.doc.nextId (.exact ∅)) (d.doc.add (.dictionary ∅)) :=
    h.add rfl
  have hc' : (b.put d.doc.nextId (.exact ∅)).cell id = some c :=
    Books.cell_put_of_cell hc (by simp [h.cell_nextId])
  obtain ⟨doc', rfl, hrep⟩ := modifyDict_cell (d := { d with doc := d.doc.add (.dictionary ∅) }) hadd
    hc' hset (holds _) (mcid _)
  exact ⟨h.cell_nextId, doc', rfl, hrep⟩

/-! ## The parent tree -/

section ParentTree

variable {root tree element : ObjectId} {names : Option ObjectId} {next : Nat}
  {kids : List ObjectId} {es : List (Int × Object)} {key : Int}

theorem parentTree_cell (h : Represents old b d.doc)
    (hroot : b.cell root = some (.root tree names next kids)) (htree : b.cell tree = some (.tree es))
    {t : ObjectId} (hrun : (parentTree root).run d = .ok t d') : t = tree ∧ d' = d := by
  obtain ⟨x, -, holds, hx⟩ := h.dict?_cell hroot rfl
  obtain ⟨y, -, ⟨hkids, hnums, -⟩, hy⟩ := h.dict?_cell htree rfl
  exact parentTree_flat hx holds.1 hy hkids hnums hrun

theorem setParent_cell (h : Represents old b d.doc)
    (hroot : b.cell root = some (.root tree names next kids)) (htree : b.cell tree = some (.tree es))
    {value : Object} (hrun : (setParent root key value).run d = .ok u d') :
    ∃ doc', d' = { d with doc := doc' } ∧
      Represents old (b.put tree (.tree (Nums.setEntry key value es))) doc' := by
  unfold setParent at hrun
  rw [bind_ok] at hrun
  obtain ⟨t, d₁, hparent, hrun⟩ := hrun
  obtain ⟨rfl, rfl⟩ := h.parentTree_cell hroot htree hparent
  refine h.modifyDict_cell htree hrun ?_ rfl
  rintro x ⟨hkids, hnums, hmcid⟩
  refine ⟨?_, ?_, ?_⟩
  · rw [OrderedMap.get?_insert_of_ne _ (by decide), hkids]
  · rw [OrderedMap.get?_insert_self, hnums, Option.bind_some, Object.array?, Option.getD_some,
      Nums.insert_ofEntries]
  · rw [OrderedMap.get?_insert_of_ne _ (by decide), hmcid]

theorem modifyArray_cell (h : Represents old b d.doc) {elements : List ObjectId}
    (hc : b.cell id = some (.slots elements)) (element : ObjectId) :
    ∃ doc', d.doc.modifyArray? id (setItem elements.length (.reference element)) = some doc' ∧
      Represents old (b.put id (.slots (elements ++ [element]))) doc' := by
  obtain ⟨o, ho, holds, htarget, _⟩ := h.get?_cell hc
  cases o with
  | array items =>
    obtain rfl : items = elements.map Object.reference := holds
    refine ⟨_, ?_, h.putCell hc (o := .array ((elements ++ [element]).map Object.reference)) rfl rfl⟩
    rw [Document.modifyArray?, htarget]
    simp only [Option.bind_eq_bind, Option.bind_some, ho, Object.array?]
    have hset := setItem_length (.reference element) (elements.map Object.reference)
    rw [List.length_map] at hset
    rw [hset, List.map_append]
    rfl
  | _ => exact holds.elim

theorem checkMcid_ok {m n : Int} (hrun : (checkMcid m).run d = .ok n d') :
    (0 ≤ m ∧ m ≤ maxMcid) ∧ n = m ∧ d' = d := by
  unfold checkMcid at hrun
  split at hrun
  · next hm => exact ⟨hm, pure_ok.mp hrun⟩
  · exact (throw_ok.mp hrun).elim

/-- An element is put into an array, and the array under its key. -/
theorem setSlot_cell (h : Represents old b d.doc)
    (hroot : b.cell root = some (.root tree names next kids)) (htree : b.cell tree = some (.tree es))
    {array : ObjectId} {elements : List ObjectId} (harray : b.cell array = some (.slots elements))
    (hrun : (do
      match (← Edit.doc).modifyArray? array (setItem elements.length (.reference element)) with
      | some doc => setDoc doc
      | none => pure ()
      setParent root key (.reference array) : Edit Unit).run d = .ok u d') :
    ∃ doc', d' = { d with doc := doc' } ∧
      Represents old ((b.put array (.slots (elements ++ [element]))).put tree
        (.tree (Nums.setEntry key (.reference array) es))) doc' := by
  rw [bind_ok] at hrun
  obtain ⟨doc, d₁, hdoc, hrun⟩ := hrun
  obtain ⟨rfl, rfl⟩ := doc_ok.mp hdoc
  obtain ⟨doc₂, hmodify, h₂⟩ := h.modifyArray_cell harray element
  rw [hmodify] at hrun
  replace hrun := bind_ok.mp hrun
  obtain ⟨_, d₂, hset, hrun⟩ := hrun
  obtain rfl := setDoc_ok.mp hset
  obtain ⟨doc', hd', h'⟩ := setParent_cell (d := { d₁ with doc := doc₂ }) h₂
    (Books.cell_put_of_cell hroot (by simp [harray]))
    (Books.cell_put_of_cell htree (by simp [harray])) hrun
  exact ⟨doc', hd', h'⟩

/-- The array for the slots of a key: the one that there is, or a new one. -/
def SlotsAt (b : Books) (es : List (Int × Object)) (key : Int) (elements : List ObjectId)
    (array : ObjectId) : Prop :=
  (bindings es key = none ∧ elements = [] ∧ b.cell array = none) ∨
    (bindings es key = some (.reference array) ∧ b.cell array = some (.slots elements))

theorem SlotsAt.ne {elements : List ObjectId} {array : ObjectId} (h : SlotsAt b es key elements array)
    (hc : b.cell id = some c) (hne : c ≠ .slots elements) : id ≠ array := by
  rcases h with ⟨_, _, hnone⟩ | ⟨_, hsome⟩
  · intro heq
    rw [heq, hnone] at hc
    exact absurd hc (by simp)
  · exact Books.ne_of_cell hc hsome hne

/-- An MCID behind those that a page has is given to an element. -/
theorem setMcidParent_cell (h : Represents old b d.doc)
    (hroot : b.cell root = some (.root tree names next kids)) (htree : b.cell tree = some (.tree es))
    (ascending : Nums.Ascending es) {elements : List ObjectId}
    (hslots : (bindings es key = none ∧ elements = []) ∨
      ∃ array, bindings es key = some (.reference array) ∧ b.cell array = some (.slots elements))
    (hrun : (setMcidParent root key elements.length element).run d = .ok u d') :
    ∃ array doc', d' = { d with doc := doc' } ∧ SlotsAt b es key elements array ∧
      Represents old ((b.put array (.slots (elements ++ [element]))).put tree
        (.tree (Nums.setEntry key (.reference array) es))) doc' := by
  unfold setMcidParent at hrun
  rw [bind_ok] at hrun
  obtain ⟨mcid, d₁, hcheck, hrun⟩ := hrun
  obtain ⟨_, rfl, rfl⟩ := checkMcid_ok hcheck
  rw [bind_ok] at hrun
  obtain ⟨t, d₂, hparent, hrun⟩ := hrun
  obtain ⟨rfl, rfl⟩ := h.parentTree_cell hroot htree hparent
  rw [bind_ok] at hrun
  obtain ⟨x, d₃, hdict, hrun⟩ := hrun
  obtain ⟨rfl, _, _, hnums, _⟩ := h.dict_cell htree hdict
  rw [bind_ok] at hrun
  obtain ⟨doc, d₄, hdoc, hrun⟩ := hrun
  obtain ⟨rfl, rfl⟩ := doc_ok.mp hdoc
  rw [hnums, Option.bind_some, Object.array?, Option.getD_some,
    Nums.get?_ofEntries ascending] at hrun
  rcases hslots with ⟨hnone, rfl⟩ | ⟨array, hsome, harray⟩
  · -- The key has no array yet.
    rw [hnone] at hrun
    obtain ⟨array, d₁, hadd, hrun⟩ := bind_ok.mp hrun
    have hempty : (Cell.slots []).Holds (.array []) := rfl
    obtain ⟨_, hfree, doc₁, rfl, h₁⟩ := h.add_cell hempty hadd
    obtain ⟨doc', hd', h'⟩ := setSlot_cell (d := { d₄ with doc := doc₁ }) h₁
      (Books.cell_put_of_cell hroot (by simp [hfree])) (Books.cell_put_of_cell htree (by simp [hfree]))
      Books.cell_put_self hrun
    rw [Books.put_put] at h'
    exact ⟨array, doc', hd', Or.inl ⟨hnone, rfl, hfree⟩, h'⟩
  · rw [hsome] at hrun
    obtain ⟨o, _, holds, _, hget⟩ := h.get?_cell harray
    have hisSome : ((d₄.doc.get? array).bind Object.array?).isSome = true := by
      rw [hget]
      cases o with
      | array items => rfl
      | _ => exact holds.elim
    simp only [hisSome, if_true] at hrun
    obtain ⟨doc', hd', h'⟩ := h.setSlot_cell hroot htree harray hrun
    exact ⟨array, doc', hd', Or.inr ⟨hsome, harray⟩, h'⟩

end ParentTree

/-! ## Keys of pages -/

section Keys

variable {root tree : ObjectId} {names : Option ObjectId} {next : Nat} {kids : List ObjectId}
  {es : List (Int × Object)} {key : Int}

theorem allocateKey_cell (h : Represents old b d.doc)
    (hroot : b.cell root = some (.root tree names next kids)) (htree : b.cell tree = some (.tree es))
    (hnext : next < 0x20000000000000) (hkeys : ∀ e ∈ es, 0 ≤ e.1 ∧ e.1 < next)
    (hassigned : ∀ k ∈ assignedKeys d.doc, 0 ≤ k ∧ k < next)
    (hrun : (allocateKey root).run d = .ok key d') : key = next ∧
      ∃ doc', d' = { d with doc := doc' } ∧
        Represents old (b.put root (.root tree names (next + 1) kids)) doc' := by
  obtain ⟨x, -, holds, hx⟩ := h.dict?_cell hroot rfl
  obtain ⟨y, -, ⟨hflat, hnums, -⟩, hy⟩ := h.dict?_cell htree rfl
  obtain ⟨rfl, hset⟩ := allocateKey_flat hx holds.1 holds.2.2.1 hy hflat hnums hnext hkeys hassigned hrun
  refine ⟨rfl, h.modifyDict_cell hroot hset ?_ rfl⟩
  rintro z ⟨hparents, hnames, _, hk, hmcid⟩
  refine ⟨?_, ?_, ?_, ?_, ?_⟩
  · rw [OrderedMap.get?_insert_of_ne _ (by decide), hparents]
  · rw [OrderedMap.get?_insert_of_ne _ (by decide), hnames]
  · rw [OrderedMap.get?_insert_self, Cell.nextEntry, if_neg (Nat.succ_ne_zero next)]
    rfl
  · rw [OrderedMap.get?_insert_of_ne _ (by decide), hk]
  · rw [OrderedMap.get?_insert_of_ne _ (by decide), hmcid]

end Keys

/-! ## Elements -/

section Elements

variable {element : ObjectId} {kids : List ObjectId} {marks : List TaggedSequence}

theorem elementRole_ok {role : String} (hrun : (elementRole element).run d = .ok role d') :
    d' = d := by
  unfold elementRole at hrun
  rw [bind_ok] at hrun
  obtain ⟨x, d₁, hdict, hrun⟩ := hrun
  obtain ⟨_, rfl⟩ := dict_ok.mp hdict
  split at hrun
  · exact (pure_ok.mp hrun).2
  · exact (throw_ok.mp hrun).elim

theorem appendKid_element (h : Represents old b d.doc) (hc : b.cell element = some (.element kids []))
    {kid : ObjectId} (hrun : (appendKid element (.reference kid)).run d = .ok u d') :
    ∃ doc', d' = { d with doc := doc' } ∧
      Represents old (b.put element (.element (kids ++ [kid]) [])) doc' := by
  refine h.modifyDict_cell hc hrun ?_ rfl
  rintro x ⟨hk, hpg, hmcid⟩
  refine ⟨?_, ?_, ?_⟩
  · rw [OrderedMap.get?_insert_self, hk]
    simp [kidsWith, Cell.elementKids]
  · rw [OrderedMap.get?_insert_of_ne _ (by decide), hpg]
  · rw [OrderedMap.get?_insert_of_ne _ (by decide), hmcid]

theorem appendKid_root {root tree : ObjectId} {names : Option ObjectId} {next : Nat}
    (h : Represents old b d.doc) (hc : b.cell root = some (.root tree names next kids))
    {kid : ObjectId} (hrun : (appendKid root (.reference kid)).run d = .ok u d') :
    ∃ doc', d' = { d with doc := doc' } ∧
      Represents old (b.put root (.root tree names next (kids ++ [kid]))) doc' := by
  refine h.modifyDict_cell hc hrun ?_ rfl
  rintro x ⟨htree, hnames, hnext, hk, hmcid⟩
  refine ⟨?_, ?_, ?_, ?_, ?_⟩
  · rw [OrderedMap.get?_insert_of_ne _ (by decide), htree]
  · rw [OrderedMap.get?_insert_of_ne _ (by decide), hnames]
  · rw [OrderedMap.get?_insert_of_ne _ (by decide), hnext]
  · rw [OrderedMap.get?_insert_self, hk]
    simp [kidsWith]
  · rw [OrderedMap.get?_insert_of_ne _ (by decide), hmcid]

/-- One more sequence of an element. The first one gives the element its page. -/
theorem addContentKid_cell (h : Represents old b d.doc)
    (hc : b.cell element = some (.element kids marks)) {page : ObjectId} {mcid : Int}
    (hrun : (addContentKid element page mcid).run d = .ok u d') :
    ∃ doc', d' = { d with doc := doc' } ∧
      Represents old (b.put element (.element kids (marks ++ [⟨page, mcid, element⟩]))) doc' := by
  unfold addContentKid at hrun
  rw [bind_ok] at hrun
  obtain ⟨x, d₁, hdict, hrun⟩ := hrun
  obtain ⟨rfl, hx, hk, hpg, hmcid⟩ := h.dict_cell hc hdict
  have hbase : (x.insert "Pg" (.reference page)).get? "K" = x.get? "K" :=
    OrderedMap.get?_insert_of_ne _ (by decide) _
  cases marks with
  | nil =>
    -- The element has no page yet, so its dictionary is changed twice.
    have h₀ : Represents old (b.put element (.exact x)) d₁.doc :=
      h.update rfl rfl hc (fun _ _ => rfl) ⟨_, hx, rfl⟩ hmcid
    rw [hpg] at hrun
    obtain ⟨_, d₂, hset, hrun⟩ := bind_ok.mp hrun
    obtain ⟨doc₁, rfl, h₁⟩ := h₀.modifyDict_cell
      (e := .exact (x.insert "Pg" (.reference page))) Books.cell_put_self hset
      (by rintro _ rfl; rfl) (OrderedMap.get?_insert_of_ne _ (by decide) _)
    have hkids : ∀ y, y = x.insert "Pg" (.reference page) →
        (Cell.element kids [⟨page, mcid, element⟩]).Holds (.dictionary (y.insert "K"
          (.array (kidsWith (.integer mcid) (y.get? "K"))))) := by
      rintro _ rfl
      refine ⟨?_, ?_, ?_⟩
      · rw [OrderedMap.get?_insert_self, hbase, hk]
        simp [kidsWith, Cell.elementKids, TaggedSequence.kid, TaggedSequence.own?]
      · rw [OrderedMap.get?_insert_of_ne _ (by decide), OrderedMap.get?_insert_self]
        rfl
      · rw [OrderedMap.get?_insert_of_ne _ (by decide),
          OrderedMap.get?_insert_of_ne _ (by decide), hmcid]
    obtain ⟨doc', hd', h'⟩ := modifyDict_cell (d := { d₁ with doc := doc₁ }) h₁
      Books.cell_put_self hrun hkids
      ((OrderedMap.get?_insert_of_ne _ (by decide) _).trans hmcid).symm
    rw [Books.put_put, Books.put_put] at h'
    exact ⟨doc', hd', h'⟩
  | cons m marks =>
    rw [hpg] at hrun
    obtain ⟨own, d₂, hown, hrun⟩ := bind_ok.mp hrun
    obtain ⟨rfl, rfl⟩ := pure_ok.mp hown
    refine h.modifyDict_cell hc hrun ?_ rfl
    rintro y ⟨hk, hpg, hmcid⟩
    refine ⟨?_, ?_, ?_⟩
    · rw [OrderedMap.get?_insert_self, hk, Cell.elementKids_concat]
      simp [kidsWith, TaggedSequence.kid, TaggedSequence.own?]
    · rw [OrderedMap.get?_insert_of_ne _ (by decide), hpg]
      rfl
    · rw [OrderedMap.get?_insert_of_ne _ (by decide), hmcid]

end Elements

/-! ## Old dictionaries -/

section OldDictionaries

variable {t : ObjectId} {x : Dict Object} {key : Bytes}

theorem setEntry_old (h : Represents old b d.doc) (closed : old.Closed)
    (hid : id.number ≤ old.maxId) (ht : old.target? id = some t)
    (hx : old.objects.get? t = some (.dictionary x)) {o : Object}
    (hkey : key ∈ Document.taggingKeys) (settable : b.Settable (x.get? key) o)
    (hrun : (Edit.setEntry id key o).run d = .ok u d') :
    ∃ doc', d' = { d with doc := doc' } ∧ Represents old (b.setEntry t key o) doc' := by
  obtain ⟨t', y', ht', hy', rfl⟩ := setEntry_ok.mp hrun
  obtain ⟨y, htarget, hy, _, _⟩ := h.dict?_old closed hid ht hx
  obtain rfl : t = t' := Option.some.inj (htarget.symm.trans ht')
  obtain rfl : y = y' := by simpa using hy.symm.trans hy'
  exact ⟨_, rfl, h.setEntry (closed.objects t _ hx).1 hx hy hkey settable⟩

theorem dict_old (h : Represents old b d.doc) (closed : old.Closed)
    (hid : id.number ≤ old.maxId) (ht : old.target? id = some t)
    (hx : old.objects.get? t = some (.dictionary x)) {y : Dict Object}
    (hrun : (dict id).run d = .ok y d') :
    d' = d ∧ ∀ key, y.get? key = (b.set t key).or (x.get? key) := by
  obtain ⟨hy, rfl⟩ := dict_ok.mp hrun
  obtain ⟨y', _, _, hy', hentry⟩ := h.dict?_old closed hid ht hx
  obtain rfl : y' = y := Option.some.inj (hy'.symm.trans hy)
  exact ⟨rfl, hentry⟩

/-- An entry of an old dictionary refers to a dictionary already, or comes to refer to a new one,
into which a dictionary in place moves. -/
theorem indirectDict_old (h : Represents old b d.doc) (closed : old.Closed)
    (hid : id.number ≤ old.maxId) (ht : old.target? id = some t)
    (hx : old.objects.get? t = some (.dictionary x)) (hkey : key ∈ Document.taggingKeys)
    {id' : ObjectId} (hrun : (indirectDict id key).run d = .ok id' d') :
    (ownId? d.doc ((b.set t key).or (x.get? key)) = some id' ∧ d' = d) ∨
      ownId? d.doc ((b.set t key).or (x.get? key)) = none ∧ b.cell id' = none ∧
        ∃ doc', d' = { d with doc := doc' } ∧ Represents old
          ((b.put id' (.exact (inPlace ((b.set t key).or (x.get? key))))).setEntry t key
            (.reference id')) doc' := by
  obtain ⟨y, hy, hrest⟩ := indirectDict_ok.mp hrun
  obtain ⟨_, hentry⟩ := h.dict_old closed hid ht hx (dict_ok.mpr ⟨hy, rfl⟩)
  rw [hentry key] at hrest
  split at hrest
  · next own hown => exact Or.inl ⟨by rw [hown, hrest.1], hrest.2⟩
  · next hown =>
    obtain ⟨rfl, hset⟩ := hrest
    have hadd : Represents old (b.put d.doc.nextId (.exact (inPlace ((b.set t key).or (x.get? key)))))
        (d.doc.add (.dictionary (inPlace ((b.set t key).or (x.get? key))))) := h.add rfl
    refine Or.inr ⟨hown, h.cell_nextId, setEntry_old (d := { d with doc := d.doc.add _ }) hadd closed
      hid ht hx hkey ?_ hset⟩
    refine ⟨_, Books.cell_put_self, fun v hv => ?_⟩
    have hmoved : (inPlace ((b.set t key).or (x.get? key))).get? "MCID" = some v := hv
    cases hset : b.set t key with
    | some o =>
      obtain ⟨_, x', hx', hsettable⟩ := h.settable t key o hset
      rw [hset, Option.some_or] at hmoved
      cases o with
      | dictionary z => exact hsettable.elim
      | _ => exact absurd hmoved (by simp [inPlace, Object.dictionary?, EmptyCollection.emptyCollection])
    | none =>
      rw [hset, Option.none_or] at hmoved
      cases hplace : x.get? key with
      | none =>
        rw [hplace] at hmoved
        exact absurd hmoved (by simp [inPlace, EmptyCollection.emptyCollection])
      | some o =>
        rw [hplace] at hmoved
        cases o with
        | dictionary z => exact ⟨z, rfl, hmoved⟩
        | _ =>
          exact absurd hmoved
            (by simp [inPlace, Object.dictionary?, EmptyCollection.emptyCollection])

/-- The key of a page: the one that it has, or the next one. -/
theorem pageKey_cell (h : Represents old b d.doc) (closed : old.Closed) {root tree : ObjectId}
    {names : Option ObjectId} {next : Nat} {kids : List ObjectId} {es : List (Int × Object)}
    (hroot : b.cell root = some (.root tree names next kids)) (htree : b.cell tree = some (.tree es))
    (hnext : next < 0x20000000000000) (hkeys : ∀ e ∈ es, 0 ≤ e.1 ∧ e.1 < next)
    (hassigned : ∀ k ∈ assignedKeys d.doc, 0 ≤ k ∧ k < next)
    (hid : id.number ≤ old.maxId) (ht : old.target? id = some t)
    (hx : old.objects.get? t = some (.dictionary x)) (hnone : x.get? "StructParents" = none)
    (hset : ∀ o, b.set t "StructParents" = some o → ∃ n, o = .integer n) {key : Int}
    (hrun : (pageKey root id).run d = .ok key d') :
    (b.set t "StructParents" = some (.integer key) ∧ d' = d) ∨
      b.set t "StructParents" = none ∧ key = next ∧ ∃ doc', d' = { d with doc := doc' } ∧
        Represents old ((b.put root (.root tree names (next + 1) kids)).setEntry t "StructParents"
          (.integer next)) doc' := by
  unfold pageKey at hrun
  rw [bind_ok] at hrun
  obtain ⟨y, d₁, hdict, hrun⟩ := hrun
  obtain ⟨rfl, hentry⟩ := h.dict_old closed hid ht hx hdict
  rw [hentry, hnone, Option.or_none] at hrun
  cases hparents : b.set t "StructParents" with
  | some o =>
    obtain ⟨n, rfl⟩ := hset o hparents
    rw [hparents] at hrun
    obtain ⟨rfl, rfl⟩ := pure_ok.mp hrun
    exact Or.inl ⟨rfl, rfl⟩
  | none =>
    rw [hparents] at hrun
    obtain ⟨key', d₂, halloc, hrun⟩ := bind_ok.mp hrun
    obtain ⟨rfl, doc₁, rfl, h₁⟩ :=
      h.allocateKey_cell hroot htree hnext hkeys hassigned halloc
    rw [bind_ok] at hrun
    obtain ⟨_, d₃, hsetEntry, hrun⟩ := hrun
    obtain ⟨rfl, rfl⟩ := pure_ok.mp hrun
    have hsettable : (b.put root (.root tree names (next + 1) kids)).Settable
        (x.get? "StructParents") (.integer next) := trivial
    have hfinal := setEntry_old (d := { d₁ with doc := doc₁ }) h₁ closed hid ht hx (by decide)
      hsettable hsetEntry
    exact Or.inr ⟨rfl, rfl, hfinal⟩

end OldDictionaries

/-! ## Content -/

section Content

variable {t : ObjectId} {x : Dict Object}

theorem stream_ok {content : Bytes} {o : Object} :
    (stream content).run d = .ok o d' ↔
      o = .stream (contentEntries d.packing content) (contentBytes d.packing content) ∧ d' = d := by
  have hrun : (stream content).run d =
      .ok (.stream (contentEntries d.packing content) (contentBytes d.packing content)) d := by
    have hget : (get : Edit Draft).run d = .ok d d := rfl
    rw [contentEntries, contentBytes, stream, run_bind hget]
    cases d.packing.deflate? content <;> rfl
  rw [hrun]
  exact pure_ok

/-- Content is set to a new stream. -/
theorem setOperations_old (h : Represents old b d.doc) (closed : old.Closed)
    (hid : id.number ≤ old.maxId) (ht : old.target? id = some t)
    (hx : old.objects.get? t = some (.dictionary x)) {ops : List Operation}
    (hrun : (setOperations id ops).run d = .ok u d') :
    ∃ content doc', b.cell content = none ∧ d' = { d with doc := doc' } ∧ Represents old
      ((b.put content (.content (contentEntries d.packing (Operation.writeAll ops))
        (contentBytes d.packing (Operation.writeAll ops)))).setEntry t "Contents"
          (.reference content)) doc' := by
  unfold setOperations at hrun
  rw [bind_ok] at hrun
  obtain ⟨o, d₁, hstream, hrun⟩ := hrun
  obtain ⟨rfl, rfl⟩ := stream_ok.mp hstream
  rw [bind_ok] at hrun
  obtain ⟨content, d₂, hadd, hrun⟩ := hrun
  set c : Cell := .content (contentEntries d₁.packing (Operation.writeAll ops))
    (contentBytes d₁.packing (Operation.writeAll ops)) with hc
  have hholds : c.Holds (.stream (contentEntries d₁.packing (Operation.writeAll ops))
      (contentBytes d₁.packing (Operation.writeAll ops))) := ⟨rfl, rfl, mcid_contentEntries _ _⟩
  obtain ⟨_, hfree, doc₁, rfl, h₁⟩ := h.add_cell hholds hadd
  have hsettable : (b.put content c).Settable (x.get? "Contents") (.reference content) :=
    ⟨c, Books.cell_put_self, fun v hv => absurd hv (by simp [hc, Cell.mcid?])⟩
  obtain ⟨doc', hd', h'⟩ := setEntry_old (d := { d₁ with doc := doc₁ }) h₁ closed hid ht hx
    (by decide) hsettable hrun
  exact ⟨content, doc', hfree, hd', h'⟩

end Content

/-! ## The mark of a tagged document -/

section Mark

variable {catalog t : ObjectId} {x : Dict Object}

theorem exists_old_of_ownId? (h : Represents old b d.doc) (closed : old.Closed) {key : Bytes}
    (hx : old.objects.get? t = some (.dictionary x)) (hown : ownId? d.doc (x.get? key) = some id) :
    id.number ≤ old.maxId ∧ ∃ home y, old.target? id = some home ∧
      old.objects.get? home = some (.dictionary y) := by
  obtain ⟨hentry, y, hy⟩ := ownId?_eq_some hown
  have hbelow : id.number ≤ old.maxId :=
    Object.below_reference.mp ((closed.objects t _ hx).2.entry hentry)
  obtain ⟨z, hz, -⟩ := ((h.toExtends closed).dict?_rel closed hbelow).exists_left hy
  obtain ⟨home, hhome, hobject⟩ := Document.target?_of_dict? hz
  exact ⟨hbelow, home, z, hhome, hobject⟩

theorem setMarked_books (h : Represents old b d.doc) (closed : old.Closed)
    (hroot : (old.trailer.get? "Root").bind Object.reference? = some catalog)
    (hid : catalog.number ≤ old.maxId) (ht : old.target? catalog = some t)
    (hx : old.objects.get? t = some (.dictionary x))
    (hinfo : ∀ o, b.set t "MarkInfo" = some o →
      ∃ info mcid, o = .reference info ∧ b.cell info = some (.info mcid))
    (hrun : (setMarked true).run d = .ok u d') :
    ∃ b' doc', d' = { d with doc := doc' } ∧ Represents old b' doc' ∧ b.Beside b' ∧
      ∀ o, b'.set t "MarkInfo" = some o →
        ∃ info mcid, o = .reference info ∧ b'.cell info = some (.info mcid) := by
  unfold setMarked at hrun
  rw [bind_ok] at hrun
  obtain ⟨catalog', d₁, hcatalog, hrun⟩ := hrun
  obtain ⟨hcatalog, rfl⟩ := catalogId_ok.mp hcatalog
  rw [h.trailer, hroot, Option.some_inj] at hcatalog
  subst hcatalog
  rw [bind_ok] at hrun
  obtain ⟨info, d₂, hindirect, hrun⟩ := hrun
  rcases h.indirectDict_old closed hid ht hx (by decide) hindirect with
    ⟨hown, rfl⟩ | ⟨_, hfree, doc₁, rfl, h₁⟩
  · cases hset : b.set t "MarkInfo" with
    | some o =>
      obtain ⟨info', mcid, rfl, hc⟩ := hinfo o hset
      rw [hset, Option.some_or] at hown
      obtain ⟨hsame, _⟩ := ownId?_eq_some hown
      obtain rfl : info' = info := by simpa using hsame
      obtain ⟨doc', hd', h'⟩ := h.modifyDict_cell hc hrun (e := .info mcid)
        (fun y hy => (OrderedMap.get?_insert_of_ne _ (by decide) _).trans hy) rfl
      rw [Books.put_eq_self hc] at h'
      exact ⟨b, doc', hd', h', Books.Beside.refl b, hinfo⟩
    | none =>
      rw [hset, Option.none_or] at hown
      obtain ⟨hbelow, home, y, hhome, hy⟩ := h.exists_old_of_ownId? closed hx hown
      have hsettable : b.Settable (y.get? "Marked") (.boolean true) := trivial
      obtain ⟨doc', hd', h'⟩ := h.setEntry_old closed hbelow hhome hy (by decide) hsettable hrun
      refine ⟨_, doc', hd', h', .setMarked home _, ?_⟩
      intro o ho
      rw [Books.set_setEntry, if_neg fun h => absurd h.2 (by decide), hset] at ho
      exact absurd ho (by simp)
  · -- The dictionary is a new one.
    set i := inPlace ((b.set t "MarkInfo").or (x.get? "MarkInfo"))
    obtain ⟨doc', hd', h'⟩ := modifyDict_cell (d := { d₁ with doc := doc₁ }) h₁
      (e := .info (i.get? "MCID")) Books.cell_put_self hrun
      (fun y hy => by
        obtain rfl : y = i := hy
        exact OrderedMap.get?_insert_of_ne _ (by decide) _) rfl
    rw [Books.setEntry_put, Books.put_put] at h'
    refine ⟨_, doc', hd', h', .putInfo hfree t _ _, ?_⟩
    intro o ho
    refine ⟨info, i.get? "MCID", ?_, Books.cell_put_self⟩
    have hentry := Books.set_setEntry.symm.trans ho
    rw [if_pos ⟨rfl, rfl⟩, Option.some_inj] at hentry
    exact hentry.symm

end Mark

end Represents

end AccessiblePdf
