import Mathlib
import AccessiblePdf.Proofs.Document.Pages
import AccessiblePdf.Proofs.Structure.Bookkeeping
import AccessiblePdf.Proofs.Structure.Keyed

/-!
Keys of the parent tree that are given out. After any calls that set or ask for keys, the next key that
is given out is above all keys of the tree, nested or flat, above those that pages and their annotations
carry, and above those that were given out before (`allocateKey_fresh`). A flat list in which a key lacks
its value breaks this (`allocateKey_repeats`).
-/
namespace AccessiblePdf

namespace Document

variable {doc doc' : Document} {root t : ObjectId} {a b : Dict Object}

/-! ## Keys of trees -/

/-- The keys of the parent tree of a root, as they are read. -/
def numberedKeys (doc : Document) (root : ObjectId) : List Int :=
  (doc.numberTree ((doc.parentTree? root).getD ∅)).map (·.1)

/-- What a later document has too is read in it too. -/
theorem ReadsAlike.mem_numberLeaves (h : ReadsAlike doc doc') {e : Int × Object} (depth : Nat) :
    ∀ {a b : Dict Object}, SameNode a b → e ∈ doc.numberLeaves depth a →
      e ∈ doc'.numberLeaves depth b := by
  have hitems : ∀ {a b : Dict Object} {key : Bytes} {items : List Object},
      b.get? key = a.get? key → doc.entryArray? a key = some items →
        doc'.entryArray? b key = some items := by
    intro a b key items same hitems
    obtain ⟨value, hvalue, harray⟩ := Option.bind_eq_some_iff.mp hitems
    obtain ⟨o, ho, rfl⟩ := Option.map_eq_some_iff.mp hvalue
    cases hresolve : doc.resolve o with
    | array items' =>
      rw [hresolve] at harray
      obtain rfl := Option.some.inj harray
      exact entryArray?_eq (same.trans ho) (h.resolve hresolve rfl (by simp))
    | _ =>
      rw [hresolve] at harray
      exact absurd harray (by simp [Object.array?])
  have hpairs : ∀ {a b : Dict Object}, SameNode a b → e ∈ doc.numberPairs a →
      e ∈ doc'.numberPairs b := by
    intro a b same he
    cases hnums : doc.entryArray? a "Nums" with
    | none =>
      rw [numberPairs, hnums] at he
      exact absurd he List.not_mem_nil
    | some items =>
      rw [numberPairs, hnums] at he
      rw [numberPairs, hitems same.nums hnums]
      obtain ⟨⟨key, value⟩, hmem, hkey⟩ := List.mem_filterMap.mp he
      refine List.mem_filterMap.mpr ⟨(key, value), hmem, ?_⟩
      obtain ⟨n, hn, rfl⟩ := Option.map_eq_some_iff.mp hkey
      have hsame : doc'.resolve key = doc.resolve key := by
        cases hresolve : doc.resolve key with
        | integer _ => exact h.resolve hresolve rfl (by simp)
        | real _ => exact h.resolve hresolve rfl (by simp)
        | _ =>
          rw [hresolve] at hn
          exact absurd hn (by simp [Object.truncated?, Object.number?])
      show ((doc'.resolve key).truncated?).map _ = _
      rw [hsame, hn]
      rfl
  induction depth with
  | zero =>
    intro a b same he
    rw [numberLeaves, List.append_nil] at he ⊢
    exact hpairs same he
  | succ depth ih =>
    intro a b same he
    rw [numberLeaves, List.mem_append] at he ⊢
    refine he.imp (hpairs same) fun he => ?_
    obtain ⟨child, hchild, he⟩ := List.mem_flatMap.mp he
    cases hkids : doc.entryArray? a "Kids" with
    | none =>
      rw [kidDicts, hkids] at hchild
      exact absurd hchild List.not_mem_nil
    | some kids =>
      rw [kidDicts, hkids] at hchild
      obtain ⟨kid, hkid, hdict⟩ := List.mem_filterMap.mp hchild
      cases hresolve : doc.resolve kid with
      | dictionary d =>
        rw [hresolve] at hdict
        obtain rfl := Option.some.inj hdict
        obtain ⟨child', hchild', hsame⟩ := h.resolve_dictionary hresolve
        refine List.mem_flatMap.mpr ⟨child', ?_, ih hsame he⟩
        rw [kidDicts, hitems same.kids hkids]
        exact List.mem_filterMap.mpr ⟨kid, hkid, by rw [hchild']; rfl⟩
      | _ =>
        rw [hresolve] at hdict
        exact absurd hdict (by simp [Object.dictionary?])

theorem keys_of_flat {node : Dict Object} {es : List (Int × Object)}
    (kids : node.get? "Kids" = none) (nums : node.get? "Nums" = some (.array (Nums.ofEntries es))) :
    (doc.numberTree node).map (·.1) = es.map fun e => readKey e.1 := by
  rw [numberTree_of_flat doc kids nums]
  clear nums
  induction es with
  | nil => rfl
  | cons e es ih =>
    have hkey : doc.readKey? (.integer e.1) = some (readKey e.1) := rfl
    rw [Nums.ofEntries_cons, Nums.read_pair, hkey, List.map_append, ih]
    rfl

/-! ## Keys of pages and annotations -/

/-- A page, or an annotation that a page lists, carries a key. -/
def Carries (doc : Document) (k : Int) : Prop :=
  ∃ page ∈ doc.pages, ∃ x, doc.dict? page = some x ∧
    (x.get? "StructParents" = some (.integer k) ∨
      ∃ annots, doc.entryArray? x "Annots" = some annots ∧ ∃ o ∈ annots, ∃ y,
        doc.resolve o = .dictionary y ∧ y.get? "StructParent" = some (.integer k))

theorem integer?_eq_some {o : Option Object} {k : Int} :
    o.bind Object.integer? = some k ↔ o = some (.integer k) := by
  cases o with
  | none => simp
  | some o => cases o <;> simp [Object.integer?]

theorem assignedKeys_eq (doc : Document) : Edit.assignedKeys doc = doc.pages.flatMap fun page =>
    (((doc.dict? page).bind (·.get? "StructParents")).bind Object.integer?).toList ++
      (((doc.dict? page).bind (doc.entryArray? · "Annots")).getD []).filterMap fun annot =>
        ((doc.resolve annot).dictionary?.bind (·.get? "StructParent")).bind Object.integer? := by
  refine congrArg doc.pages.flatMap (funext fun page => ?_)
  cases doc.dict? page <;> rfl

theorem mem_assignedKeys {k : Int} : k ∈ Edit.assignedKeys doc ↔ doc.Carries k := by
  rw [Edit.assignedKeys, List.mem_flatMap]
  refine exists_congr fun page => and_congr_right fun _ => ?_
  cases hx : doc.dict? page with
  | none => simp
  | some x =>
    have hannot : ∀ o, ((doc.resolve o).dictionary?.bind (·.get? "StructParent")).bind
        Object.integer? = some k ↔
          ∃ y, doc.resolve o = .dictionary y ∧ y.get? "StructParent" = some (.integer k) := by
      intro o
      rw [integer?_eq_some]
      cases doc.resolve o <;> simp [Object.dictionary?]
    simp only [Option.some_inj, exists_eq_left', List.mem_append, Option.mem_toList,
      integer?_eq_some, List.mem_filterMap, hannot]
    refine or_congr Iff.rfl ?_
    cases doc.entryArray? x "Annots" with
    | none => simp
    | some annots => simp

section Put

variable (ha : doc.objects.get? t = some (.dictionary a))

include ha

theorem resolve_put_array? (o : Object) :
    ((doc.put t (.dictionary b)).resolve o).array? = (doc.resolve o).array? := by
  cases o with
  | reference id =>
    rw [resolve, resolve, get?_put ha rfl rfl]
    split
    · next ht =>
      rw [get?_eq_of_target? ht, ha]
      rfl
    · rfl
  | _ => rfl

theorem entryArray_put {key : Bytes} (same : b.get? key = a.get? key) (id : ObjectId) :
    ((doc.put t (.dictionary b)).dict? id).bind
        ((doc.put t (.dictionary b)).entryArray? · key) =
      (doc.dict? id).bind (doc.entryArray? · key) := by
  have hread : ∀ (doc' : Document) (x : Option (Dict Object)),
      x.bind (doc'.entryArray? · key) =
        (x.bind (·.get? key)).bind fun o => (doc'.resolve o).array? := by
    intro doc' x
    cases x with
    | none => rfl
    | some x =>
      rw [Option.bind_some, Option.bind_some, entryArray?, value?, Option.bind_map]
      rfl
  rw [hread, hread, entry_put ha same]
  simp only [resolve_put_array? ha]

theorem pages_put (type : b.get? "Type" = a.get? "Type") (kids : b.get? "Kids" = a.get? "Kids")
    (tree : b.get? "Pages" = a.get? "Pages") : (doc.put t (.dictionary b)).pages = doc.pages := by
  have hsize : (doc.put t (.dictionary b)).objects.size = doc.objects.size := by
    have hkeys := congrArg List.length (OrderedMap.keys_insert ha (.dictionary b))
    rwa [OrderedMap.keys, OrderedMap.keys, List.length_map, List.length_map] at hkeys
  have hlink : (doc.put t (.dictionary b)).catalogDict?.bind (·.get? "Pages") =
      doc.catalogDict?.bind (·.get? "Pages") := by
    rw [catalogDict?, catalogDict?]
    show (((doc.trailer.get? "Root").bind Object.reference?).bind _).bind _ = _
    cases (doc.trailer.get? "Root").bind Object.reference? with
    | none => rfl
    | some id => exact entry_put ha tree id
  rw [pages_eq_pagesWithin doc, ← hsize]
  refine pages_eq_of_kids (P := fun _ => True) (fun id _ => ?_) (fun id _ => ?_)
    (fun _ _ _ _ => trivial) hlink fun _ _ => trivial
  · rw [typeOf?, typeOf?, entry_put ha type]
  · rw [pageKids, pageKids, entryArray_put ha kids]

theorem assignedKeys_put
    (same : ∀ key ∈ [utf8 "Type", utf8 "Kids", utf8 "Pages", utf8 "StructParents", utf8 "Annots",
      utf8 "StructParent"], b.get? key = a.get? key) :
    Edit.assignedKeys (doc.put t (.dictionary b)) = Edit.assignedKeys doc := by
  have hannot : ∀ o, ((doc.put t (.dictionary b)).resolve o).dictionary?.bind (·.get? "StructParent") =
      (doc.resolve o).dictionary?.bind (·.get? "StructParent") := by
    intro o
    cases o with
    | reference id =>
      rw [dictionary?_resolve, dictionary?_resolve, entry_put ha (same _ (by decide))]
    | _ => rfl
  rw [assignedKeys_eq, assignedKeys_eq, pages_put ha (same _ (by decide)) (same _ (by decide))
    (same _ (by decide))]
  simp only [hannot, entry_put ha (same (utf8 "StructParents") (by decide)),
    entryArray_put ha (same (utf8 "Annots") (by decide))]

end Put

end Document

namespace Edit

open Document

variable {root tree : ObjectId} {d d' : Draft} {key : Int}

/-! ## The next key -/

/-- After flattening the parent tree is one list of integers, and every key that it had is one of
them. -/
theorem parentTree_keys (keyed : d.doc.Keyed root) (hrun : (parentTree root).run d = .ok tree d') :
    ∃ node es, d'.doc.TreeAt root tree node ∧ node.get? "Kids" = none ∧
      node.get? "Nums" = some (.array (Nums.ofEntries es)) ∧
      ∀ k ∈ d.doc.numberedKeys root, ∃ e ∈ es, readKey e.1 = readKey k := by
  unfold parentTree at hrun
  obtain ⟨tree', d₁, hindirect, hread⟩ := bind_ok.mp hrun
  obtain ⟨x, hx, -⟩ := indirectDict_ok.mp hindirect
  obtain ⟨tree₁, d₂, hrun', hat, halike, -⟩ := exists_indirectTree keyed.numbered.unused hx
  obtain ⟨rfl, rfl⟩ := EStateM.Result.ok.inj (hindirect.symm.trans hrun')
  obtain ⟨node, d₂, hdict, hlook⟩ := bind_ok.mp hread
  obtain ⟨hnode, rfl⟩ := dict_ok.mp hdict
  obtain ⟨doc, d₃, hdoc, hflatten⟩ := bind_ok.mp hlook
  obtain ⟨rfl, rfl⟩ := doc_ok.mp hdoc
  have hsame : (d.doc.parentTree? root).getD ∅ = node := Option.some.inj (hat.dict.symm.trans hnode)
  have hkeyed : KeyedNode node := hsame ▸ keyed.node
  rw [hsame] at hat
  have hcondition : (node.contains "Kids" || !node.contains "Nums") = !isFlat node := by
    rw [isFlat, Bool.not_and, Bool.not_not]
  dsimp only at hflatten
  rw [hcondition] at hflatten
  cases hflat : isFlat node with
  | true =>
    rw [hflat] at hflatten
    obtain ⟨rfl, rfl⟩ := pure_ok.mp hflatten
    obtain ⟨es, hes⟩ := hkeyed.nums hflat
    have hkids : node.get? "Kids" = none := by
      rw [isFlat, Bool.and_eq_true, Bool.not_eq_true'] at hflat
      exact Option.not_isSome_iff_eq_none.mp (by rw [← OrderedMap.contains, hflat.1]; simp)
    refine ⟨node, es, hat, hkids, hes, fun k hk => ?_⟩
    rw [numberedKeys, hsame, keys_of_flat hkids hes] at hk
    obtain ⟨e, he, rfl⟩ := List.mem_map.mp hk
    exact ⟨e, he, (readKey_readKey e.1).symm⟩
  | false =>
    obtain ⟨es, hes, hkeys⟩ := Nums.exists_ofEntries (d₃.doc.numberTree node)
    rw [hflat, hes] at hflatten
    obtain ⟨u, d₄, hmodify, hreturn⟩ := bind_ok.mp hflatten
    obtain ⟨rfl, rfl⟩ := pure_ok.mp hreturn
    have htree : (flattened (Nums.ofEntries es) node).get? "ParentTree" = node.get? "ParentTree" := by
      rw [get?_flattened hkeyed.distinct]
      rfl
    obtain ⟨d₅, hmodify', hat', -⟩ := exists_modifyTree hat (flattened (Nums.ofEntries es)) htree
    obtain ⟨-, rfl⟩ := EStateM.Result.ok.inj (hmodify.symm.trans hmodify')
    refine ⟨_, es, hat', ?_, ?_, fun k hk => ?_⟩
    · rw [get?_flattened hkeyed.distinct]
      rfl
    · rw [get?_flattened hkeyed.distinct, if_pos rfl]
    · rw [numberedKeys, hsame] at hk
      obtain ⟨e, he, rfl⟩ := List.mem_map.mp hk
      have hmem := halike.mem_numberLeaves treeDepth (.refl node) he
      obtain ⟨e', he', hsame'⟩ := List.mem_map.mp ((hkeys e.1).mpr (List.mem_map_of_mem hmem))
      exact ⟨e', he', by rw [hsame']⟩

theorem exists_treeAt_put {doc : Document} {t : ObjectId} {node a b : Dict Object}
    (h : doc.TreeAt root tree node) (ha : doc.objects.get? t = some (.dictionary a))
    (same : SameNode a b) (link : b.get? "ParentTree" = a.get? "ParentTree") :
    ∃ node', (doc.put t (.dictionary b)).TreeAt root tree node' ∧ SameNode node node' := by
  obtain ⟨node', hnode', hsame⟩ := (ReadsAlike.put ha same).dict tree node h.dict
  obtain ⟨x, hx, hlink⟩ := h.link
  have hentry := entry_put ha link root
  rw [hx, Option.bind_some, hlink] at hentry
  exact ⟨node', ⟨hnode', Option.bind_eq_some_iff.mp hentry⟩, hsame⟩

/-- A proposed key is the greatest of three: the one that the root declared, the one behind those of the
parent tree, and the one behind those of pages and annotations. -/
theorem proposeKey_ok (keyed : d.doc.Keyed root) (hrun : (proposeKey root).run d = .ok key d') :
    (∀ n, d.doc.DeclaresNext root n → readKey n ≤ key) ∧
    (∃ tree node es, d'.doc.TreeAt root tree node ∧ node.get? "Kids" = none ∧
      node.get? "Nums" = some (.array (Nums.ofEntries es)) ∧
      (∀ k ∈ d.doc.numberedKeys root, ∃ e ∈ es, readKey e.1 = readKey k) ∧
      ∀ e ∈ es, nextKey e.1 ≤ key) ∧
    ((maxKey? (assignedKeys d'.doc)).map nextKey).getD 0 ≤ key := by
  unfold proposeKey at hrun
  obtain ⟨tree, d₁, hparent, hlook⟩ := bind_ok.mp hrun
  obtain ⟨doc, d₂, hdoc, hlook⟩ := bind_ok.mp hlook
  obtain ⟨rfl, rfl⟩ := doc_ok.mp hdoc
  obtain ⟨x, d₃, hroot, hlook⟩ := bind_ok.mp hlook
  obtain ⟨hx, rfl⟩ := dict_ok.mp hroot
  obtain ⟨y, d₄, htree, hmax⟩ := bind_ok.mp hlook
  obtain ⟨hy, rfl⟩ := dict_ok.mp htree
  obtain ⟨hkey, rfl⟩ := pure_ok.mp hmax
  obtain ⟨node, es, hat, hkids, hnums, hkeys⟩ := parentTree_keys keyed hparent
  obtain rfl : node = y := Option.some.inj (hat.dict.symm.trans hy)
  have hlist : Nums.keys (numsOf node) = es.map (·.1) := by
    rw [numsOf, hnums]
    exact Nums.keys_ofEntries es
  rw [hlist] at hkey
  refine ⟨fun n hn => ?_, ⟨tree, node, es, hat, hkids, hnums, hkeys, fun e he => ?_⟩, by omega⟩
  · have hfrom : d'.doc.KeyedFrom root (some n) := by
      refine (Maintains.parentTree root (some n)).ok hparent ⟨keyed, fun m hm => ?_⟩
      rw [← Option.some.inj hm]
      exact hn
    have hdeclared := hfrom.2 n rfl
    rw [DeclaresNext, hx, Option.bind_some] at hdeclared
    have hread : ((x.get? "ParentTreeNextKey").bind Object.truncated?).getD 0 = readKey n := by
      rw [hdeclared]
      rfl
    omega
  · obtain ⟨m, -, hm, hle⟩ := exists_maxKey? (List.mem_map_of_mem (f := nextKey)
      (List.mem_map_of_mem (f := (·.1)) he))
    rw [hm, Option.getD_some] at hkey
    omega

/-- A key that is given out is not below the one that was declared, and above the keys of the parent
tree and those that pages and annotations carry. -/
theorem allocateKey_above (keyed : d.doc.Keyed root) (hrun : (allocateKey root).run d = .ok key d') :
    (∀ n, d.doc.DeclaresNext root n → readKey n ≤ key) ∧
    (∀ k, k ∈ d.doc.numberedKeys root ∨ k ∈ d'.doc.numberedKeys root →
      k.natAbs < 0x20000000000000 → k < key) ∧
    ((∀ k, d'.doc.Carries k → k.natAbs < 0x20000000000000) → ∀ k, d'.doc.Carries k → k < key) := by
  obtain ⟨d₁, t, x, hpropose, -, hx, rfl⟩ := allocateKey_ok hrun
  obtain ⟨hdeclared, ⟨tree, node, es, hat, hkids, hnums, hkeys, hbehind⟩, hassigned⟩ :=
    proposeKey_ok keyed hpropose
  have hother : ∀ k : Bytes, k ≠ "ParentTreeNextKey" →
      (x.insert "ParentTreeNextKey" (.integer (nextKey key))).get? k = x.get? k :=
    fun k hk => OrderedMap.get?_insert_of_ne x hk _
  refine ⟨hdeclared, fun k hk small => ?_, fun small k hk => ?_⟩
  · obtain ⟨e, he, hread⟩ : ∃ e ∈ es, readKey e.1 = readKey k := by
      rcases hk with hk | hk
      · exact hkeys k hk
      · obtain ⟨node', hat', hsame⟩ := exists_treeAt_put hat hx
          ⟨hother _ (by decide), hother _ (by decide)⟩ (hother _ (by decide))
        have hk' : k ∈ (Document.numberTree _ ((Document.parentTree? _ root).getD ∅)).map (·.1) := hk
        rw [hat'.parentTree?_eq, Option.getD_some, keys_of_flat (hsame.kids.trans hkids)
          (hsame.nums.trans hnums)] at hk'
        obtain ⟨e, he, rfl⟩ := List.mem_map.mp hk'
        exact ⟨e, he, (readKey_readKey e.1).symm⟩
    obtain rfl := eq_of_readKey_eq hread small
    have hle := hbehind e he
    rw [nextKey_small small] at hle
    omega
  · have hsame : assignedKeys d₁.doc =
        assignedKeys (d₁.doc.put t (.dictionary (x.insert "ParentTreeNextKey"
          (.integer (nextKey key))))) := by
      refine (assignedKeys_put hx fun k hk => hother k ?_).symm
      revert k
      decide
    obtain ⟨m, hmem, hm, hle⟩ := exists_maxKey? (mem_assignedKeys.mpr hk)
    rw [hsame, hm, Option.map_some, Option.getD_some,
      nextKey_small (small m (mem_assignedKeys.mp hmem))] at hassigned
    omega

/-- A key that has been given out for a page is noted in it. -/
def noteKey (page : ObjectId) (key : Int) : Edit Int := do
  setEntry page "StructParents" (.integer key)
  return key

theorem Maintains.noteKey (root : ObjectId) (next : Option Int) (page : ObjectId) (key : Int) :
    Maintains (·.KeyedFrom root next) (noteKey page key) := by
  refine (modifyDict (fun doc t a h ha => ?_) page).bind fun _ => pure key
  refine h.putDict (.insert (by decide) (.integer key)) (fun a _ => ?_) ha
  exact OrderedMap.get?_insert_of_ne a (by decide) _

theorem pageKey_keyless {page : ObjectId} {x : Dict Object} (hx : d.doc.dict? page = some x)
    (keyless : (x.get? "StructParents").bind Object.integer? = none) :
    (pageKey root page).run d = (allocateKey root >>= noteKey page).run d := by
  unfold pageKey
  rw [run_bind (dict_ok.mpr ⟨hx, rfl⟩)]
  cases ho : x.get? "StructParents" with
  | none => rfl
  | some o =>
    cases o with
    | integer key =>
      rw [ho] at keyless
      exact absurd keyless (by simp [Object.integer?])
    | _ => rfl

end Edit

/-! ## Calls -/

/-- A call that asks for a key of the parent tree of a root, or sets what one stands for. -/
inductive KeyCall where
  | allocate
  | pageKey (page : ObjectId)
  | setMcidParent (key mcid : Int) (element : ObjectId)
  | setParent (key : Int) (value : Object)

namespace KeyCall

/-- The draft after a call, whether it has succeeded or failed. -/
def after (root : ObjectId) : KeyCall → Draft → Draft
  | allocate, d => ((Edit.allocateKey root).perform d).2
  | pageKey page, d => ((Edit.pageKey root page).perform d).2
  | setMcidParent key mcid element, d => ((Edit.setMcidParent root key mcid element).perform d).2
  | setParent key value, d => ((Edit.setParent root key value).perform d).2

/-- The key that is given out in a call. A page that has a key asks for none. -/
def given? (root : ObjectId) : KeyCall → Draft → Option Int
  | allocate, d => ((Edit.allocateKey root).perform d).1.toOption
  | pageKey page, d =>
    match (d.doc.dict? page).map fun x => (x.get? "StructParents").bind Object.integer? with
    | some none => ((Edit.allocateKey root).perform d).1.toOption
    | _ => none
  | _, _ => none

/-- The keys that are given out in calls one after the other, and the draft after them. -/
def runAll (root : ObjectId) : List KeyCall → Draft → List Int × Draft
  | [], d => ([], d)
  | c :: cs, d =>
    let (keys, d') := runAll root cs (c.after root d)
    ((c.given? root d).toList ++ keys, d')

section Runs

open Document Edit

variable {root : ObjectId} {d : Draft} {next : Option Int}

/-- What a call leaves is as its start was, or a key has been given out and is noted at the root. -/
def Leaves (root : ObjectId) (d d' : Draft) (next given : Option Int) : Prop :=
  match given with
  | none => d'.doc.KeyedFrom root next
  | some key => (∃ d₁, (allocateKey root).run d = .ok key d₁) ∧
      d'.doc.KeyedFrom root (some (nextKey key))

theorem leaves_allocate (h : d.doc.KeyedFrom root next) :
    Leaves root d ((allocateKey root).perform d).2 next ((allocateKey root).perform d).1.toOption := by
  rw [perform]
  cases hrun : (allocateKey root).run d with
  | ok key d₁ => exact ⟨⟨d₁, hrun⟩, allocateKey_next h.1 hrun⟩
  | error f d₁ => exact allocateKey_error h hrun

theorem leaves_pageKey (h : d.doc.KeyedFrom root next) (page : ObjectId) :
    Leaves root d ((KeyCall.pageKey page).after root d) next
      ((KeyCall.pageKey page).given? root d) := by
  rw [after, given?]
  cases hx : d.doc.dict? page with
  | none =>
    have hrun : (Edit.pageKey root page).run d = .error .unreadable d := by
      unfold Edit.pageKey
      rw [EStateM.run_bind, dict_error hx]
    rw [perform, hrun]
    exact h
  | some x =>
    rw [Option.map_some]
    cases hkey : (x.get? "StructParents").bind Object.integer? with
    | some key =>
      have hrun : (Edit.pageKey root page).run d = .ok key d := by
        unfold Edit.pageKey
        rw [run_bind (dict_ok.mpr ⟨hx, rfl⟩), integer?_eq_some.mp hkey]
        rfl
      rw [perform, hrun]
      exact h
    | none =>
      have hstart := leaves_allocate h
      rw [perform] at hstart ⊢
      rw [perform, pageKey_keyless hx hkey]
      cases hrun : (allocateKey root).run d with
      | ok key d₁ =>
        rw [hrun] at hstart
        rw [run_bind hrun]
        exact ⟨hstart.1, Maintains.noteKey root _ page key d₁ hstart.2⟩
      | error f d₁ =>
        rw [hrun] at hstart
        rw [EStateM.run_bind, hrun]
        exact hstart

theorem leaves (h : d.doc.KeyedFrom root next) (c : KeyCall) :
    Leaves root d (c.after root d) next (c.given? root d) := by
  cases c with
  | allocate => exact leaves_allocate h
  | pageKey page => exact leaves_pageKey h page
  | setMcidParent key mcid element => exact Maintains.setMcidParent root next key mcid element d h
  | setParent key value => exact Maintains.setParent root next key value d h

/-- Calls leave a root that declares a key above all that were given out, and not below the one that it
declared before. -/
theorem runAll_keyedFrom (cs : List KeyCall) (h : d.doc.KeyedFrom root next)
    (asRead : ∀ n ∈ next, readKey n = n)
    (small : ∀ k ∈ (runAll root cs d).1, k.natAbs < 0x20000000000000) :
    ∃ next', (runAll root cs d).2.doc.KeyedFrom root next' ∧ (∀ n ∈ next', readKey n = n) ∧
      (∀ n ∈ next, ∃ n' ∈ next', n ≤ n') ∧ ∀ k ∈ (runAll root cs d).1, ∃ n ∈ next', k < n := by
  induction cs generalizing d next with
  | nil =>
    exact ⟨next, h, asRead, fun n hn => ⟨n, hn, Int.le_refl n⟩,
      fun k hk => absurd hk List.not_mem_nil⟩
  | cons c cs ih =>
    have hstep := leaves h c
    rw [runAll] at small ⊢
    simp only [List.mem_append] at small ⊢
    cases hgiven : c.given? root d with
    | none =>
      rw [hgiven] at hstep
      obtain ⟨next', h', asRead', hnext, hkeys⟩ := ih hstep asRead fun k hk => small k (Or.inr hk)
      exact ⟨next', h', asRead', hnext, fun k hk => hk.elim (fun hk => absurd hk (by simp)) (hkeys k)⟩
    | some key =>
      rw [hgiven] at hstep small
      obtain ⟨⟨d₁, hrun⟩, hnoted⟩ := hstep
      have hsmall := small key (Or.inl (by simp))
      rw [nextKey_small hsmall] at hnoted
      obtain ⟨next', h', asRead', hnext, hkeys⟩ := ih hnoted
        (fun n hn => by rw [← Option.some.inj hn]; exact readKey_add_one hsmall)
        fun k hk => small k (Or.inr hk)
      obtain ⟨n', hn', hle⟩ := hnext (key + 1) rfl
      refine ⟨next', h', asRead', fun n hn => ⟨n', hn', ?_⟩, fun k hk => ?_⟩
      · have hdeclared := (allocateKey_above h.1 hrun).1 n (h.2 n hn)
        rw [asRead n hn] at hdeclared
        omega
      · rcases hk with hk | hk
        · obtain rfl : k = key := by simpa using hk
          exact ⟨n', hn', by omega⟩
        · exact hkeys k hk

/-- After any calls the next key that is given out is above all keys that are in the parent tree before
or after it has been flattened, that pages and their annotations carry, or that were given out before;
and the root then declares a key above it. -/
theorem allocateKey_fresh {d' : Draft} {key : Int} (keyed : d.doc.Keyed root) (cs : List KeyCall)
    (small : ∀ k, k = key ∨ k ∈ (runAll root cs d).2.doc.numberedKeys root ∨
      k ∈ d'.doc.numberedKeys root ∨ d'.doc.Carries k ∨ k ∈ (runAll root cs d).1 →
        k.natAbs < 0x20000000000000)
    (hrun : (allocateKey root).run (runAll root cs d).2 = .ok key d') :
    (∀ k, k ∈ (runAll root cs d).2.doc.numberedKeys root ∨ k ∈ d'.doc.numberedKeys root ∨
      d'.doc.Carries k ∨ k ∈ (runAll root cs d).1 → k < key) ∧
    ∃ n, d'.doc.DeclaresNext root n ∧ key < n := by
  have hstart : d.doc.KeyedFrom root none := ⟨keyed, fun n hn => absurd hn (by simp)⟩
  obtain ⟨next, h, asRead, -, hgiven⟩ := runAll_keyedFrom cs hstart (fun n hn => absurd hn (by simp))
    fun k hk => small k (Or.inr (Or.inr (Or.inr (Or.inr hk))))
  obtain ⟨hdeclared, htree, hcarried⟩ := allocateKey_above h.1 hrun
  refine ⟨fun k hk => ?_, key + 1, ?_, by omega⟩
  · have hsmall := small k (Or.inr hk)
    rcases hk with hk | hk | hk | hk
    · exact htree k (Or.inl hk) hsmall
    · exact htree k (Or.inr hk) hsmall
    · exact hcarried (fun k hk => small k (Or.inr (Or.inr (Or.inr (Or.inl hk))))) k hk
    · obtain ⟨n, hn, hlt⟩ := hgiven k hk
      have hle := hdeclared n (h.2 n hn)
      rw [asRead n hn] at hle
      omega
  · rw [← nextKey_small (small key (Or.inl rfl))]
    exact (allocateKey_next h.1 hrun).2 _ rfl

/-- Two pages, one with a key and with an annotation that has one, and a tree with two keys in a leaf. -/
def nestedKeys : Draft where
  doc := {
    version := "1.7"
    trailer := .ofList [(utf8 "Root", .reference ⟨1, 0⟩)]
    objects := .ofList [
      (⟨1, 0⟩, .ofEntries [(utf8 "Pages", .reference ⟨2, 0⟩)]),
      (⟨2, 0⟩, .ofEntries [(utf8 "Type", .name "Pages"),
        (utf8 "Kids", .array [.reference ⟨3, 0⟩, .reference ⟨4, 0⟩])]),
      (⟨3, 0⟩, .ofEntries [(utf8 "Type", .name "Page"), (utf8 "StructParents", .integer 1),
        (utf8 "Annots", .array [.reference ⟨5, 0⟩])]),
      (⟨4, 0⟩, .ofEntries [(utf8 "Type", .name "Page")]),
      (⟨5, 0⟩, .ofEntries [(utf8 "StructParent", .integer 4)]),
      (⟨6, 0⟩, .ofEntries [(utf8 "ParentTree", .reference ⟨7, 0⟩)]),
      (⟨7, 0⟩, .ofEntries [(utf8 "Kids", .array [.reference ⟨8, 0⟩])]),
      (⟨8, 0⟩, .ofEntries [(utf8 "Nums", .array [.integer 0, .null, .integer 2, .null])])]
    maxId := 8 }

/-- After a page has been given a key and another key has been set. -/
def nestedRun : List Int × Draft := runAll ⟨6, 0⟩ [.pageKey ⟨4, 0⟩, .setParent 9 .null] nestedKeys

/-- After the next key has been given out. -/
def nestedNext : Draft := ((allocateKey ⟨6, 0⟩).perform nestedRun.2).2

/-- The next key is above those of the leaf, the one that was set, those of the pages and the annotation,
and the one that was given out. -/
theorem allocateKey_fresh_nested : nestedKeys.doc.Keyed ⟨6, 0⟩ ∧
    (allocateKey ⟨6, 0⟩).run nestedRun.2 = .ok 10 nestedNext ∧
    nestedRun.2.doc.numberedKeys ⟨6, 0⟩ = [0, 2, 9] ∧ assignedKeys nestedNext.doc = [1, 4, 5] ∧
    nestedRun.1 = [5] ∧
    (∀ k, k ∈ nestedRun.2.doc.numberedKeys ⟨6, 0⟩ ∨ k ∈ nestedNext.doc.numberedKeys ⟨6, 0⟩ ∨
      nestedNext.doc.Carries k ∨ k ∈ nestedRun.1 → k < 10) ∧
    ∃ n, nestedNext.doc.DeclaresNext ⟨6, 0⟩ n ∧ 10 < n := by
  have keyed : nestedKeys.doc.Keyed ⟨6, 0⟩ := by
    refine ⟨numbered_of_entries (by decide), fun id x hx => ?_, fun node hnode => ?_⟩
    · have hall : ∀ e ∈ nestedKeys.doc.objects.entries,
          e.2.dictionary?.all (fun x => decide x.Distinct) = true := by decide
      obtain ⟨t, -, ht⟩ := target?_of_dict? hx
      exact of_decide_eq_true (hall _ (OrderedMap.mem_of_get? ht))
    · have htree : nestedKeys.doc.parentTree? ⟨6, 0⟩ =
          some (.ofList [(utf8 "Kids", .array [.reference ⟨8, 0⟩])]) := rfl
      obtain rfl := Option.some.inj (htree.symm.trans hnode)
      exact ⟨OrderedMap.distinct_ofList _, fun h => absurd h (by decide)⟩
  have hrun : (allocateKey ⟨6, 0⟩).run nestedRun.2 = .ok 10 nestedNext := by cbv
  have hbefore : nestedRun.2.doc.numberedKeys ⟨6, 0⟩ = [0, 2, 9] := by cbv
  have hafter : nestedNext.doc.numberedKeys ⟨6, 0⟩ = [0, 2, 9] := by cbv
  have hassigned : assignedKeys nestedNext.doc = [1, 4, 5] := by cbv
  have hgiven : nestedRun.1 = [5] := by cbv
  refine ⟨keyed, hrun, hbefore, hassigned, hgiven, allocateKey_fresh keyed _ (fun k hk => ?_) hrun⟩
  have hlisted : k = 10 ∨ k ∈ nestedRun.2.doc.numberedKeys ⟨6, 0⟩ ∨
      k ∈ nestedNext.doc.numberedKeys ⟨6, 0⟩ ∨ nestedNext.doc.Carries k ∨ k ∈ nestedRun.1 := hk
  rw [hbefore, hafter, ← mem_assignedKeys, hassigned, hgiven] at hlisted
  simp only [List.mem_cons, List.not_mem_nil, or_false] at hlisted
  omega

/-- A list in which the last key lacks its value. -/
def unpaired : Draft where
  doc := {
    version := "1.7"
    trailer := .empty
    objects := .ofList [
      (⟨1, 0⟩, .ofEntries [(utf8 "ParentTree", .reference ⟨2, 0⟩)]),
      (⟨2, 0⟩, .ofEntries [(utf8 "Nums", .array [.integer 5])]),
      (⟨3, 0⟩, .integer 6)]
    maxId := 3 }

/-- A key and its value that are set behind it change places: the value is read as a key, but the next
key is not above it. -/
theorem allocateKey_repeats : (unpaired.doc.parentTree? ⟨1, 0⟩).bind (·.get? "Nums") =
      some (.array [.integer 5]) ∧
    ∃ d d', (runAll ⟨1, 0⟩ [.setParent 7 (.reference ⟨3, 0⟩), .setParent 8 .null] unpaired).2 = d ∧
      (allocateKey ⟨1, 0⟩).run d = .ok 6 d' ∧ d.doc.numberedKeys ⟨1, 0⟩ = [5, 6] ∧
      d'.doc.numberedKeys ⟨1, 0⟩ = [5, 6] :=
  ⟨rfl, _, _, rfl, rfl, rfl, rfl⟩

end Runs

end KeyCall

end AccessiblePdf
