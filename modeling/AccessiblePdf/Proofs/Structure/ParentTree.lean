import AccessiblePdf.Proofs.Draft
import AccessiblePdf.Proofs.OrderedMap
import AccessiblePdf.Proofs.Structure.NumberTree
import AccessiblePdf.Structure.ParentTree

/-!
Setting a key in the parent tree of a document. Whatever legal form the tree is stored in, it is read
as before where it is not changed (`numberLeaves_eq`); `setParent_binds_iff` says for which trees
and keys the key is bound and no other is lost.
-/
namespace AccessiblePdf

namespace Document

/-- The parent tree of a root, in place or behind a reference. -/
def parentTree? (doc : Document) (root : ObjectId) : Option (Dict Object) :=
  ((doc.dict? root).bind (·.get? "ParentTree")).bind fun o => (doc.resolve o).dictionary?

/-- What the keys of the parent tree of a root stand for. -/
def parents (doc : Document) (root : ObjectId) : Int → Option Object :=
  bindings (doc.numberTree ((doc.parentTree? root).getD ∅))

/-- The whole number that a key is read as. -/
def readKey? (doc : Document) (o : Object) : Option Int := (doc.resolve o).truncated?

/-- A list of values, each behind its key, which is an integer or refers to one. -/
def LegalNums (doc : Document) : List Object → Prop
  | [] => True
  | [_] => False
  | k :: _ :: rest => (∃ n, doc.resolve k = .integer n) ∧ LegalNums doc rest

/-- A node of a number tree whose lists, in place or behind references, hold integer keys with their
values, and whose kids are such nodes, down to `depth` levels. -/
def LegalNode (doc : Document) : Nat → Dict Object → Prop
  | depth, node =>
    (∀ o, node.get? "Nums" = some o → ∃ items, doc.resolve o = .array items ∧
      doc.LegalNums items) ∧
    match depth with
    | 0 => True
    | depth + 1 => ∀ o, node.get? "Kids" = some o → ∃ kids, doc.resolve o = .array kids ∧
        ∀ kid ∈ kids, ∃ child, doc.resolve kid = .dictionary child ∧ LegalNode doc depth child

/-! ## Trees that are read alike -/

/-- Dictionaries that are read alike as nodes of a number tree. -/
structure SameNode (a b : Dict Object) : Prop where
  nums : b.get? "Nums" = a.get? "Nums"
  kids : b.get? "Kids" = a.get? "Kids"

theorem SameNode.refl (a : Dict Object) : SameNode a a := ⟨rfl, rfl⟩

/-- What a document holds is in another one too, apart from entries that number trees have no use
for. -/
structure ReadsAlike (doc doc' : Document) : Prop where
  direct : ∀ id o, doc.get? id = some o → o.dictionary? = none → doc'.get? id = some o
  dict : ∀ id a, doc.dict? id = some a → ∃ b, doc'.dict? id = some b ∧ SameNode a b

theorem ReadsAlike.refl (doc : Document) : ReadsAlike doc doc :=
  ⟨fun _ _ h _ => h, fun _ a h => ⟨a, h, .refl a⟩⟩

section Reading

variable {doc doc' : Document}

theorem ReadsAlike.resolve (h : ReadsAlike doc doc') {o x : Object} (hx : doc.resolve o = x)
    (hdict : x.dictionary? = none) (hnull : x ≠ .null) : doc'.resolve o = x := by
  cases o with
  | reference id =>
    rw [Document.resolve] at hx ⊢
    cases hid : doc.get? id with
    | none =>
      rw [hid] at hx
      exact absurd hx.symm hnull
    | some y =>
      rw [hid, Option.getD_some] at hx
      rw [h.direct id y hid (by rw [hx]; exact hdict), hx]
      rfl
  | _ => exact hx

theorem ReadsAlike.resolve_dictionary (h : ReadsAlike doc doc') {o : Object} {a : Dict Object}
    (ha : doc.resolve o = .dictionary a) :
    ∃ b, doc'.resolve o = .dictionary b ∧ SameNode a b := by
  cases o with
  | reference id =>
    rw [Document.resolve] at ha
    cases hid : doc.get? id with
    | none =>
      rw [hid] at ha
      exact absurd ha (by simp)
    | some y =>
      rw [hid, Option.getD_some] at ha
      rw [ha] at hid
      obtain ⟨b, hb, hsame⟩ := h.dict id a (dict?_of_get? hid)
      refine ⟨b, ?_, hsame⟩
      rw [Document.resolve, get?_of_dict? hb]
      rfl
  | dictionary d =>
    obtain rfl : d = a := by simpa [Document.resolve] using ha
    exact ⟨d, rfl, .refl d⟩
  | _ => exact absurd ha (by simp [Document.resolve])

/-- Integers of a document are integers of another one too. -/
def KeepsIntegers (doc doc' : Document) : Prop :=
  ∀ o n, doc.resolve o = .integer n → doc'.resolve o = .integer n

theorem ReadsAlike.keepsIntegers (h : ReadsAlike doc doc') : KeepsIntegers doc doc' :=
  fun _ _ hn => h.resolve hn rfl (by simp)

theorem LegalNums.read_eq (h : KeepsIntegers doc doc') {items : List Object}
    (legal : doc.LegalNums items) :
    Nums.read doc'.readKey? items = Nums.read doc.readKey? items := by
  fun_induction LegalNums doc items with
  | case1 => rfl
  | case2 => exact legal.elim
  | case3 k v rest ih =>
    obtain ⟨⟨n, hn⟩, hrest⟩ := legal
    have hk : doc'.readKey? k = doc.readKey? k := by
      rw [readKey?, readKey?, hn, h k n hn]
    rw [Nums.read_pair, Nums.read_pair, ih hrest, hk]

theorem LegalNums.paired {items : List Object} (legal : doc.LegalNums items) :
    Nums.Paired items := by
  fun_induction LegalNums doc items with
  | case1 => trivial
  | case2 => exact legal.elim
  | case3 k v rest ih => exact ih legal.2

theorem LegalNums.insert {items : List Object} (legal : doc.LegalNums items) (key : Int)
    (value : Object) : doc.LegalNums (Nums.insert key value items) := by
  fun_induction Nums.insert key value items with
  | case1 => exact legal
  | case2 => exact ⟨⟨key, rfl⟩, legal⟩
  | case3 _ _ _ _ _ ih => exact ⟨legal.1, ih legal.2⟩
  | case4 _ _ _ _ ih => exact ⟨legal.1, ih legal.2⟩
  | case5 => exact legal.elim
  | case6 => exact legal.elim
  | case7 => exact legal.elim
  | case8 => exact ⟨⟨key, rfl⟩, trivial⟩

theorem LegalNums.keeps (h : KeepsIntegers doc doc') {items : List Object}
    (legal : doc.LegalNums items) : doc'.LegalNums items := by
  fun_induction LegalNums doc items with
  | case1 => trivial
  | case2 => exact legal.elim
  | case3 k v rest ih =>
    obtain ⟨⟨n, hn⟩, hrest⟩ := legal
    exact ⟨⟨n, h k n hn⟩, ih hrest⟩

theorem legalNums_ofEntries (doc : Document) (es : List (Int × Object)) :
    doc.LegalNums (Nums.ofEntries es) := by
  induction es with
  | nil => trivial
  | cons e es ih => exact ⟨⟨e.1, rfl⟩, ih⟩

theorem LegalNums.exact {items : List Object} (legal : doc.LegalNums items) :
    ∀ e ∈ Nums.read doc.readKey? items, readKey e.1 = e.1 := by
  fun_induction LegalNums doc items with
  | case1 => exact fun e he => absurd he List.not_mem_nil
  | case2 => exact legal.elim
  | case3 k v rest ih =>
    obtain ⟨⟨n, hn⟩, hrest⟩ := legal
    have hk : doc.readKey? k = some (readKey n) := by rw [Document.readKey?, hn]; rfl
    intro e he
    rw [Nums.read_pair, hk, List.mem_append] at he
    rcases he with he | he
    · rw [List.mem_singleton.mp he]
      exact readKey_readKey n
    · exact ih hrest e he

theorem numberPairs_eq_read (doc : Document) (node : Dict Object) :
    doc.numberPairs node = Nums.read doc.readKey? ((doc.entryArray? node "Nums").getD []) := rfl

theorem entryArray?_eq {node : Dict Object} {key : Bytes} {o : Object} {items : List Object}
    (ho : node.get? key = some o) (hitems : doc.resolve o = .array items) :
    doc.entryArray? node key = some items := by
  rw [entryArray?, value?, ho, Option.map_some, hitems]
  rfl

theorem numberPairs_eq (h : ReadsAlike doc doc') {depth : Nat} {a b : Dict Object}
    (same : SameNode a b) (legal : doc.LegalNode depth a) :
    doc'.numberPairs b = doc.numberPairs a := by
  rw [LegalNode.eq_def] at legal
  rw [numberPairs_eq_read, numberPairs_eq_read]
  cases ho : a.get? "Nums" with
  | none =>
    have ha : doc.entryArray? a "Nums" = none := by rw [entryArray?, value?, ho]; rfl
    have hb : doc'.entryArray? b "Nums" = none := by rw [entryArray?, value?, same.nums, ho]; rfl
    rw [ha, hb]
    rfl
  | some o =>
    obtain ⟨items, hitems, hlegal⟩ := legal.1 o ho
    rw [entryArray?_eq ho hitems,
      entryArray?_eq (same.nums.trans ho) (h.resolve hitems rfl (by simp))]
    exact hlegal.read_eq h.keepsIntegers

theorem flatMap_filterMap_congr {α β γ : Type} {f f' : α → Option β} {g g' : β → List γ}
    (l : List α) (h : ∀ a ∈ l, ∃ b b', f a = some b ∧ f' a = some b' ∧ g' b' = g b) :
    (l.filterMap f').flatMap g' = (l.filterMap f).flatMap g := by
  induction l with
  | nil => rfl
  | cons a l ih =>
    obtain ⟨b, b', hb, hb', hg⟩ := h a List.mem_cons_self
    rw [List.filterMap_cons_some hb, List.filterMap_cons_some hb', List.flatMap_cons,
      List.flatMap_cons, hg, ih fun x hx => h x (List.mem_cons_of_mem a hx)]

/-- A legal tree is read alike. -/
theorem numberLeaves_eq (h : ReadsAlike doc doc') (depth : Nat) :
    ∀ {a b : Dict Object}, SameNode a b → doc.LegalNode depth a →
      doc'.numberLeaves depth b = doc.numberLeaves depth a := by
  induction depth with
  | zero =>
    intro a b same legal
    rw [numberLeaves, numberLeaves, numberPairs_eq h same legal]
  | succ depth ih =>
    intro a b same legal
    rw [numberLeaves, numberLeaves, numberPairs_eq h same legal]
    congr 1
    rw [LegalNode] at legal
    cases ho : a.get? "Kids" with
    | none =>
      have ha : doc.kidDicts a = [] := by rw [kidDicts, entryArray?, value?, ho]; rfl
      have hb : doc'.kidDicts b = [] := by rw [kidDicts, entryArray?, value?, same.kids, ho]; rfl
      rw [ha, hb]
      rfl
    | some o =>
      obtain ⟨kids, hkids, hlegal⟩ := legal.2 o ho
      have ha : doc.kidDicts a = kids.filterMap fun kid => (doc.resolve kid).dictionary? := by
        rw [kidDicts, entryArray?_eq ho hkids]
        rfl
      have hb : doc'.kidDicts b = kids.filterMap fun kid => (doc'.resolve kid).dictionary? := by
        rw [kidDicts, entryArray?_eq (same.kids.trans ho) (h.resolve hkids rfl (by simp))]
        rfl
      rw [ha, hb]
      refine flatMap_filterMap_congr kids fun kid hkid => ?_
      obtain ⟨child, hchild, hnode⟩ := hlegal kid hkid
      obtain ⟨child', hchild', hsame⟩ := h.resolve_dictionary hchild
      exact ⟨child, child', by rw [hchild]; rfl, by rw [hchild']; rfl, ih hsame hnode⟩

/-- Keys of a legal tree are read as themselves. -/
theorem LegalNode.exact (depth : Nat) :
    ∀ {node : Dict Object}, doc.LegalNode depth node →
      ∀ e ∈ doc.numberLeaves depth node, readKey e.1 = e.1 := by
  have hpairs : ∀ {depth : Nat} {node : Dict Object}, doc.LegalNode depth node →
      ∀ e ∈ doc.numberPairs node, readKey e.1 = e.1 := by
    intro depth node legal e he
    rw [LegalNode.eq_def] at legal
    rw [numberPairs_eq_read] at he
    cases ho : node.get? "Nums" with
    | none =>
      rw [entryArray?, value?, ho] at he
      exact absurd he List.not_mem_nil
    | some o =>
      obtain ⟨items, hitems, hlegal⟩ := legal.1 o ho
      rw [entryArray?_eq ho hitems] at he
      exact hlegal.exact e he
  induction depth with
  | zero =>
    intro node legal e he
    rw [numberLeaves, List.append_nil] at he
    exact hpairs legal e he
  | succ depth ih =>
    intro node legal e he
    rw [numberLeaves, List.mem_append] at he
    rcases he with he | he
    · exact hpairs legal e he
    · obtain ⟨child, hchild, he⟩ := List.mem_flatMap.mp he
      rw [LegalNode] at legal
      cases ho : node.get? "Kids" with
      | none =>
        rw [kidDicts, entryArray?, value?, ho] at hchild
        exact absurd hchild List.not_mem_nil
      | some o =>
        obtain ⟨kids, hkids, hlegal⟩ := legal.2 o ho
        rw [kidDicts, entryArray?_eq ho hkids, Option.getD_some, List.mem_filterMap] at hchild
        obtain ⟨kid, hkid, hdict⟩ := hchild
        obtain ⟨child', hchild', hnode⟩ := hlegal kid hkid
        rw [hchild'] at hdict
        obtain rfl : child' = child := Option.some.inj hdict
        exact ih hnode e he

theorem numberTree_of_flat (doc : Document) {node : Dict Object} {items : List Object}
    (kids : node.get? "Kids" = none) (nums : node.get? "Nums" = some (.array items)) :
    doc.numberTree node = Nums.read doc.readKey? items := by
  have hkids : doc.kidDicts node = [] := by rw [kidDicts, entryArray?, value?, kids]; rfl
  rw [numberTree, treeDepth, numberLeaves, hkids, numberPairs_eq_read, entryArray?_eq nums rfl]
  exact List.append_nil _

end Reading

/-- A document whose root refers to its parent tree. -/
structure TreeAt (doc : Document) (root tree : ObjectId) (node : Dict Object) : Prop where
  dict : doc.dict? tree = some node
  link : ∃ x, doc.dict? root = some x ∧ x.get? "ParentTree" = some (.reference tree)

theorem TreeAt.parentTree?_eq {doc : Document} {root tree : ObjectId} {node : Dict Object}
    (h : doc.TreeAt root tree node) : doc.parentTree? root = some node := by
  obtain ⟨x, hx, hlink⟩ := h.link
  rw [parentTree?, hx, Option.bind_some, hlink, Option.bind_some, resolve, get?_of_dict? h.dict]
  rfl

theorem ReadsAlike.put {doc : Document} {t : ObjectId} {a b : Dict Object}
    (ha : doc.objects.get? t = some (.dictionary a)) (same : SameNode a b) :
    ReadsAlike doc (doc.put t (.dictionary b)) := by
  refine ⟨fun id o ho hdict => ?_, fun id x hx => ?_⟩
  · rw [get?_put ha rfl rfl, if_neg]
    · exact ho
    · intro ht
      rw [get?_eq_of_target? ht, ha] at ho
      rw [← Option.some.inj ho] at hdict
      exact absurd hdict (by simp [Object.dictionary?])
  · rw [dict?_put ha]
    by_cases ht : doc.target? id = some t
    · obtain ⟨t', ht', hx'⟩ := target?_of_dict? hx
      obtain rfl : t = t' := Option.some.inj (ht.symm.trans ht')
      obtain rfl : a = x := by simpa using ha.symm.trans hx'
      exact ⟨b, if_pos ht, same⟩
    · exact ⟨x, by rw [if_neg ht]; exact hx, .refl x⟩

theorem ReadsAlike.add {doc : Document} (unused : doc.Unused) (o : Object) :
    ReadsAlike doc (doc.add o) :=
  ⟨fun _ _ h _ => get?_add unused o h,
    fun _ x h => ⟨x, dict?_add unused o h, .refl x⟩⟩

theorem ReadsAlike.trans {a b c : Document} (h : ReadsAlike a b) (h' : ReadsAlike b c) :
    ReadsAlike a c := by
  refine ⟨fun id o ho hdict => h'.direct id o (h.direct id o ho hdict) hdict, fun id x hx => ?_⟩
  obtain ⟨y, hy, hsame⟩ := h.dict id x hx
  obtain ⟨z, hz, hsame'⟩ := h'.dict id y hy
  exact ⟨z, hz, hsame'.nums.trans hsame.nums, hsame'.kids.trans hsame.kids⟩

end Document

namespace Edit

open Document

variable {d d' : Draft} {root tree : ObjectId} {node : Dict Object}

theorem parentTree_inPlace {doc : Document} {x : Dict Object} (hx : doc.dict? root = some x)
    (hid : ownId? doc (x.get? "ParentTree") = none) :
    (doc.parentTree? root).getD ∅ = inPlace (x.get? "ParentTree") := by
  rw [parentTree?, hx, Option.bind_some]
  cases ho : x.get? "ParentTree" with
  | none => rfl
  | some o =>
    cases o with
    | reference id =>
      have hnone : doc.dict? id = none := by
        rw [ho, ownId?_reference] at hid
        cases hdict : doc.dict? id with
        | none => rfl
        | some y =>
          rw [hdict] at hid
          exact absurd hid (by simp)
      rw [Option.bind_some, dictionary?_resolve, hnone]
      rfl
    | _ => rfl

/-- A document in which the parent tree stands in a new object beside the root, whose entry then refers
to it. -/
def ownTree (doc : Document) (t : ObjectId) (x node : Dict Object) : Document :=
  (doc.add (.dictionary node)).put t (.dictionary (x.insert "ParentTree" (.reference doc.nextId)))

/-- The parent tree is an object of its own, or comes to one, and is read alike. -/
theorem exists_indirectTree (unused : d.doc.Unused) {x : Dict Object}
    (hx : d.doc.dict? root = some x) : ∃ tree d₁,
      (indirectDict root "ParentTree").run d = .ok tree d₁ ∧
      d₁.doc.TreeAt root tree ((d.doc.parentTree? root).getD ∅) ∧ ReadsAlike d.doc d₁.doc ∧
      (d₁ = d ∨ ∃ t, d.doc.target? root = some t ∧
        d.doc.objects.get? t = some (.dictionary x) ∧
        d₁ = { d with doc := ownTree d.doc t x ((d.doc.parentTree? root).getD ∅) }) := by
  cases hid : ownId? d.doc (x.get? "ParentTree") with
  | some id =>
    obtain ⟨hentry, y, hy⟩ := ownId?_eq_some hid
    have hat : d.doc.TreeAt root id y := ⟨hy, x, hx, hentry⟩
    refine ⟨id, d, indirectDict_ok.mpr ⟨x, hx, ?_⟩, ?_, .refl d.doc, Or.inl rfl⟩
    · rw [hid]
      exact ⟨rfl, rfl⟩
    · rw [hat.parentTree?_eq]
      exact hat
  | none =>
    obtain ⟨t, ht, hxt⟩ := target?_of_dict? hx
    have hmoved := parentTree_inPlace hx hid
    set y := (d.doc.parentTree? root).getD ∅
    have hne : t ≠ d.doc.nextId := by
      rintro rfl
      rw [unused] at hxt
      exact absurd hxt (by simp)
    have hroot : (d.doc.add (.dictionary y)).objects.get? t = some (.dictionary x) := by
      rw [objects_add, if_neg hne, hxt]
    have hnew : (d.doc.add (.dictionary y)).objects.get? d.doc.nextId = some (.dictionary y) := by
      rw [objects_add, if_pos rfl]
    have htarget := target?_add unused (.dictionary y) ht
    refine ⟨d.doc.nextId, { d with doc := ownTree d.doc t x y },
      indirectDict_ok.mpr ⟨x, hx, ?_⟩, ⟨?_, _, ?_, OrderedMap.get?_insert_self x _ _⟩, ?_,
      Or.inr ⟨t, ht, hxt, rfl⟩⟩
    · rw [hid, ← hmoved]
      exact ⟨rfl, setEntry_ok.mpr ⟨t, x, htarget, hroot, rfl⟩⟩
    · show (ownTree d.doc t x y).dict? d.doc.nextId = some y
      rw [ownTree, dict?_put hroot, target?_of_direct hnew rfl, if_neg]
      · exact dict?_of_get? (get?_of_direct hnew rfl)
      · exact fun h => hne (Option.some.inj h).symm
    · show (ownTree d.doc t x y).dict? root = some _
      rw [ownTree, dict?_put hroot, if_pos htarget]
    · refine (ReadsAlike.add unused _).trans (ReadsAlike.put hroot ⟨?_, ?_⟩)
      · exact OrderedMap.get?_insert_of_ne x (by decide) _
      · exact OrderedMap.get?_insert_of_ne x (by decide) _

theorem exists_ownTree (unused : d.doc.Unused) (htree : d.doc.parentTree? root = some node) :
    ∃ tree d₁, (indirectDict root "ParentTree").run d = .ok tree d₁ ∧
      d₁.doc.TreeAt root tree node ∧ ReadsAlike d.doc d₁.doc := by
  obtain ⟨o, ho, -⟩ := Option.bind_eq_some_iff.mp htree
  obtain ⟨x, hx, -⟩ := Option.bind_eq_some_iff.mp ho
  obtain ⟨tree, d₁, hrun, hat, halike, -⟩ := exists_indirectTree unused hx
  rw [htree, Option.getD_some] at hat
  exact ⟨tree, d₁, hrun, hat, halike⟩

/-- A change of the parent tree that leaves it one. -/
theorem exists_modifyTree (h : d.doc.TreeAt root tree node) (f : Dict Object → Dict Object)
    (hf : (f node).get? "ParentTree" = node.get? "ParentTree") :
    ∃ d₁, (modifyDict tree f).run d = .ok () d₁ ∧ d₁.doc.TreeAt root tree (f node) ∧
      KeepsIntegers d.doc d₁.doc := by
  obtain ⟨t, ht, hnode⟩ := target?_of_dict? h.dict
  obtain ⟨x, hx, hlink⟩ := h.link
  refine ⟨{ d with doc := d.doc.put t (.dictionary (f node)) },
    modifyDict_ok.mpr ⟨t, node, ht, hnode, rfl⟩, ⟨?_, ?_⟩, fun o n hn => ?_⟩
  · rw [dict?_put hnode, if_pos ht]
  · by_cases hroot : d.doc.target? root = some t
    · -- The root is the tree itself.
      obtain ⟨t', ht', hx'⟩ := target?_of_dict? hx
      obtain rfl : t = t' := Option.some.inj (hroot.symm.trans ht')
      obtain rfl : node = x := by simpa using hnode.symm.trans hx'
      exact ⟨f node, by rw [dict?_put hnode, if_pos hroot], hf.trans hlink⟩
    · exact ⟨x, by rw [dict?_put hnode, if_neg hroot]; exact hx, hlink⟩
  · cases o with
    | reference id =>
      rw [resolve] at hn ⊢
      rw [get?_put hnode rfl rfl]
      by_cases hid : d.doc.target? id = some t
      · rw [get?_eq_of_target? hid, hnode] at hn
        exact absurd hn (by simp)
      · rw [if_neg hid]
        exact hn
    | _ => exact hn

/-- What flattening makes of a node. -/
def flattened (flat : List Object) (node : Dict Object) : Dict Object :=
  ((node.erase "Kids").erase "Limits").insert "Nums" (.array flat)

theorem get?_flattened (distinct : node.Distinct) (flat : List Object) (key : Bytes) :
    (flattened flat node).get? key =
      if key = utf8 "Nums" then some (.array flat)
      else if key = utf8 "Limits" then none
      else if key = utf8 "Kids" then none
      else node.get? key := by
  rw [flattened, OrderedMap.get?_insert, OrderedMap.get?_erase (distinct.erase _),
    OrderedMap.get?_erase distinct]

/-- A tree without kids that has a list is kept as it is. -/
def isFlat (node : Dict Object) : Bool := !node.contains "Kids" && node.contains "Nums"

/-- The parent tree of a root: as it was if it is flat, else as one sorted list of the same
bindings. -/
theorem exists_parentTree (unused : d.doc.Unused) (htree : d.doc.parentTree? root = some node)
    (distinct : node.Distinct) (legal : d.doc.LegalNode treeDepth node) :
    ∃ tree d₁ node₁, (parentTree root).run d = .ok tree d₁ ∧ d₁.doc.TreeAt root tree node₁ ∧
      KeepsIntegers d.doc d₁.doc ∧ node₁.get? "Kids" = none ∧
      if isFlat node then node₁ = node
      else ∃ es, node₁.get? "Nums" = some (.array (Nums.ofEntries es)) ∧ Nums.Ascending es ∧
        bindings es = d.doc.parents root := by
  obtain ⟨tree, d₁, hrun, hat, halike⟩ := exists_ownTree unused htree
  have hleaves : d₁.doc.numberTree node = d.doc.numberTree node :=
    numberLeaves_eq halike treeDepth (.refl node) legal
  have hstart : ∀ d₂, (do
      if node.contains "Kids" || !node.contains "Nums" then
        modifyDict tree (flattened
          ((d.doc.numberTree node).foldl (fun nums e => Nums.insert e.1 e.2 nums) []))
      return tree : Edit ObjectId).run d₁ = .ok tree d₂ → (parentTree root).run d = .ok tree d₂ := by
    intro d₂ h
    unfold parentTree
    rw [bind_ok]
    refine ⟨tree, d₁, hrun, ?_⟩
    simp only [bind_ok (x := dict tree), dict_ok, bind_ok (x := doc), doc_ok, hat.dict,
      Option.some_inj, and_assoc, exists_and_left, exists_eq_left', exists_eq_left, hleaves]
    exact h
  have hcondition : (node.contains "Kids" || !node.contains "Nums") = !isFlat node := by
    rw [isFlat, Bool.not_and, Bool.not_not]
  rw [hcondition] at hstart
  by_cases hflat : isFlat node = true
  · refine ⟨tree, d₁, node, hstart d₁ ?_, hat, halike.keepsIntegers, ?_, by rw [if_pos hflat]⟩
    · rw [hflat]
      rfl
    · rw [isFlat, Bool.and_eq_true, Bool.not_eq_true'] at hflat
      exact Option.not_isSome_iff_eq_none.mp (by rw [← OrderedMap.contains, hflat.1]; simp)
  · rw [Bool.not_eq_true] at hflat
    obtain ⟨es, hsorted, hascending, hbindings⟩ := Nums.exists_sorted (LegalNode.exact treeDepth legal)
    obtain ⟨d₂, hmodify, hat₂, hkeeps⟩ := exists_modifyTree hat (flattened (Nums.ofEntries es))
      (by rw [get?_flattened distinct]; rfl)
    refine ⟨tree, d₂, _, hstart d₂ ?_, hat₂,
      fun o n hn => hkeeps o n (halike.keepsIntegers o n hn), ?_, ?_⟩
    · rw [numberTree, hsorted, hflat, Bool.not_false, if_pos rfl, bind_ok]
      exact ⟨(), d₂, hmodify, rfl⟩
    · rw [get?_flattened distinct]
      rfl
    · rw [hflat, if_neg Bool.false_ne_true]
      refine ⟨es, ?_, hascending, ?_⟩
      · rw [get?_flattened distinct, if_pos rfl]
      · rw [hbindings, parents, htree]
        rfl

theorem exists_setNums {items : List Object} (h : d.doc.TreeAt root tree node)
    (kids : node.get? "Kids" = none) (legal : d.doc.LegalNums items) (key : Int)
    (value : Object) :
    ∃ d₁, (modifyDict tree fun node => node.insert "Nums"
        (.array (Nums.insert key value items))).run d = .ok () d₁ ∧
      d₁.doc.parents root = bindings (Nums.read d.doc.readKey? (Nums.insert key value items)) := by
  obtain ⟨d₁, hrun, hat, hkeeps⟩ := exists_modifyTree h
    (fun node => node.insert "Nums" (.array (Nums.insert key value items)))
    (OrderedMap.get?_insert_of_ne _ (by decide) _)
  refine ⟨d₁, hrun, ?_⟩
  rw [parents, hat.parentTree?_eq, Option.getD_some, numberTree_of_flat,
    (legal.insert key value).read_eq hkeeps]
  · rw [OrderedMap.get?_insert_of_ne _ (by decide)]
    exact kids
  · exact OrderedMap.get?_insert_self _ _ _

/-- The list of a node, if it is in place. -/
def numsOf (node : Dict Object) : List Object := ((node.get? "Nums").bind Object.array?).getD []

/-- Setting a key succeeds, and sets it in the list of the tree: the one that is in place if the tree
is flat, else the sorted list of its bindings. -/
theorem exists_setParent (unused : d.doc.Unused) (htree : d.doc.parentTree? root = some node)
    (distinct : node.Distinct) (legal : d.doc.LegalNode treeDepth node) (key : Int) :
    ∃ items, d.doc.LegalNums items ∧
      (∀ value, ∃ d₁, (setParent root key value).run d = .ok () d₁ ∧ d₁.doc.parents root =
        bindings (Nums.read d.doc.readKey? (Nums.insert key value items))) ∧
      if isFlat node then items = numsOf node
      else ∃ es, items = Nums.ofEntries es ∧ Nums.Ascending es ∧
        bindings es = d.doc.parents root := by
  obtain ⟨tree, d₁, node₁, hrun, hat, hkeeps, hkids, hform⟩ :=
    exists_parentTree unused htree distinct legal
  have hlegal : d.doc.LegalNums (numsOf node₁) := by
    rw [numsOf]
    by_cases hflat : isFlat node = true
    · rw [if_pos hflat] at hform
      rw [hform]
      rw [LegalNode.eq_def] at legal
      cases ho : node.get? "Nums" with
      | none => trivial
      | some o =>
        obtain ⟨items, hitems, hlegal⟩ := legal.1 o ho
        cases o with
        | array items' =>
          obtain rfl : items' = items := by simpa [resolve] using hitems
          exact hlegal
        | _ => trivial
    · rw [if_neg hflat] at hform
      obtain ⟨es, hes, _⟩ := hform
      rw [hes]
      exact legalNums_ofEntries d.doc es
  refine ⟨numsOf node₁, hlegal, fun value => ?_, ?_⟩
  · obtain ⟨d₂, hset, hparents⟩ := exists_setNums hat hkids (hlegal.keeps hkeeps) key value
    refine ⟨d₂, ?_, ?_⟩
    · unfold setParent
      rw [bind_ok]
      refine ⟨tree, d₁, hrun, ?_⟩
      obtain ⟨t, ht, hnode⟩ := target?_of_dict? hat.dict
      obtain ⟨t', x, ht', hx, rfl⟩ := modifyDict_ok.mp hset
      obtain rfl : t = t' := Option.some.inj (ht.symm.trans ht')
      obtain rfl : node₁ = x := by simpa using hnode.symm.trans hx
      exact modifyDict_ok.mpr ⟨t, node₁, ht, hnode, rfl⟩
    · rw [hparents, (hlegal.insert key value).read_eq hkeeps]
  · by_cases hflat : isFlat node = true
    · rw [if_pos hflat] at hform ⊢
      rw [hform]
    · rw [if_neg hflat] at hform ⊢
      obtain ⟨es, hes, hascending, hbindings⟩ := hform
      exact ⟨es, by rw [numsOf, hes]; rfl, hascending, hbindings⟩

/-- When a key can be set without a loss: it is read as itself, and if the tree is flat, its list is
in place and holds nothing behind that is read as the key, or there is nothing to lose. -/
def Settable (doc : Document) (node : Dict Object) (key : Int) : Prop :=
  readKey key = key ∧ (isFlat node = true →
    match node.get? "Nums" with
    | some (.array items) =>
      ∀ e ∈ Nums.read doc.readKey? (Nums.behind key items), e.1 ≠ key
    | _ => ∀ k, k ≠ key → bindings (doc.numberTree node) k = none)

theorem settable_of_sorted (doc : Document) {es : List (Int × Object)} {key : Int}
    (nums : node.get? "Nums" = some (.array (Nums.ofEntries es))) (ascending : Nums.Ascending es)
    (exact : readKey key = key) : Settable doc node key := by
  refine ⟨exact, fun _ => ?_⟩
  rw [nums]
  exact Nums.ne_of_mem_behind ascending fun _ => rfl

theorem settable_of_kids (doc : Document) {key : Int} (kids : node.contains "Kids" = true)
    (exact : readKey key = key) : Settable doc node key := by
  refine ⟨exact, fun hflat => ?_⟩
  rw [isFlat, kids] at hflat
  exact absurd hflat Bool.false_ne_true

/-- Setting a key in a legal parent tree binds it and leaves every other key as it was, just when
the key is settable. -/
theorem setParent_binds_iff (unused : d.doc.Unused) (htree : d.doc.parentTree? root = some node)
    (distinct : node.Distinct) (legal : d.doc.LegalNode treeDepth node) (key : Int) :
    (∀ value, ∃ d₁, (setParent root key value).run d = .ok () d₁ ∧
        d₁.doc.parents root = Function.update (d.doc.parents root) key (some value)) ↔
      Settable d.doc node key := by
  obtain ⟨items, hlegal, hset, hform⟩ := exists_setParent unused htree distinct legal key
  have hbefore : d.doc.parents root = bindings (d.doc.numberTree node) := by
    rw [parents, htree]
    rfl
  have hkey : d.doc.readKey? (.integer key) = some (readKey key) := rfl
  have hiff := Nums.bindings_insert_iff hlegal.paired hkey
  have hlaw : (∀ value, ∃ d₁, (setParent root key value).run d = .ok () d₁ ∧
        d₁.doc.parents root = Function.update (d.doc.parents root) key (some value)) ↔
      ∀ value, bindings (Nums.read d.doc.readKey? (Nums.insert key value items)) =
        Function.update (d.doc.parents root) key (some value) := by
    refine forall_congr' fun value => ?_
    obtain ⟨d₁, hrun, hparents⟩ := hset value
    constructor
    · rintro ⟨d₂, hrun', h⟩
      rw [hrun] at hrun'
      cases hrun'
      rw [← hparents, h]
    · exact fun h => ⟨d₁, hrun, hparents.trans h⟩
  rw [hlaw, Settable]
  by_cases hflat : isFlat node = true
  · rw [if_pos hflat, numsOf] at hform
    have hkids : node.get? "Kids" = none := by
      rw [isFlat, Bool.and_eq_true, Bool.not_eq_true'] at hflat
      exact Option.not_isSome_iff_eq_none.mp (by rw [← OrderedMap.contains, hflat.1]; simp)
    simp only [hflat, true_implies]
    rw [hbefore]
    cases ho : node.get? "Nums" with
    | none =>
      rw [isFlat, OrderedMap.contains, OrderedMap.contains, ho] at hflat
      exact absurd hflat (by simp)
    | some o =>
      rw [ho] at hform
      cases o with
      | array list =>
        obtain rfl : items = list := hform
        rw [numberTree_of_flat d.doc hkids ho]
        exact hiff
      | _ =>
        obtain rfl : items = [] := hform
        exact bindings_single_iff
  · rw [if_neg hflat] at hform
    obtain ⟨es, rfl, hascending, hbindings⟩ := hform
    have hread : Nums.read d.doc.readKey? (Nums.ofEntries es) = es := by
      refine Nums.read_ofEntries fun e he => ?_
      show some (readKey e.1) = some e.1
      rw [hascending.exact e he]
    rw [hread, hbindings] at hiff
    rw [hiff]
    simp only [hflat, false_implies, and_true, Bool.false_eq_true]
    exact and_iff_left_of_imp fun _ => Nums.ne_of_mem_behind hascending fun _ => rfl

/-- A root whose tree is in place, with one key. -/
theorem setParent_binds_inPlace :
    let node : Dict Object := .ofList [(utf8 "Nums", .array [.integer 0, .null])]
    let root : Object := .ofEntries [(utf8 "ParentTree", .dictionary node)]
    let d : Draft := { doc := ⟨"1.7", .empty, .ofList [(⟨1, 0⟩, root)], 1⟩ }
    d.doc.Unused ∧ node.Distinct ∧ d.doc.LegalNode treeDepth node ∧
      ∀ value, ∃ d₁, (setParent ⟨1, 0⟩ 1 value).run d = .ok () d₁ ∧
        d₁.doc.parents ⟨1, 0⟩ = Function.update (d.doc.parents ⟨1, 0⟩) 1 (some value) := by
  intro node root d
  have unused : d.doc.Unused := rfl
  have distinct : node.Distinct := by decide
  have nums : node.get? "Nums" = some (.array (Nums.ofEntries [(0, .null)])) := rfl
  have legal : d.doc.LegalNode treeDepth node := by
    have kids : node.get? "Kids" = none := rfl
    refine ⟨fun o ho => ?_, fun o ho => absurd ho (by rw [kids]; simp)⟩
    rw [nums, Option.some_inj] at ho
    rw [← ho]
    exact ⟨_, rfl, legalNums_ofEntries d.doc _⟩
  have ascending : Nums.Ascending [(0, Object.null)] :=
    ⟨List.pairwise_singleton _ _, fun e he => by rw [List.mem_singleton.mp he]; decide⟩
  exact ⟨unused, distinct, legal, (setParent_binds_iff unused rfl distinct legal 1).mpr
    (settable_of_sorted d.doc nums ascending (by decide))⟩

/-- A flat tree whose list stands behind a reference: the list is not found where a key is set, and
the keys in it are lost. -/
theorem setParent_loses_keys :
    let node : Dict Object := .ofList [(utf8 "Nums", .reference ⟨3, 0⟩)]
    let root : Object := .ofEntries [(utf8 "ParentTree", .reference ⟨2, 0⟩)]
    let d : Draft := { doc := ⟨"1.7", .empty, .ofList [(⟨1, 0⟩, root), (⟨2, 0⟩, .dictionary node),
      (⟨3, 0⟩, .array [.integer 0, .boolean true])], 3⟩ }
    d.doc.parents ⟨1, 0⟩ 0 = some (.boolean true) ∧
      ∀ value, ∃ d₁, (setParent ⟨1, 0⟩ 1 value).run d = .ok () d₁ ∧
        d₁.doc.parents ⟨1, 0⟩ 0 = none := by
  intro node root d
  have unused : d.doc.Unused := rfl
  have distinct : node.Distinct := by decide
  have legal : d.doc.LegalNode treeDepth node := by
    have kids : node.get? "Kids" = none := rfl
    refine ⟨fun o ho => ?_, fun o ho => absurd ho (by rw [kids]; simp)⟩
    rw [show node.get? "Nums" = some (.reference ⟨3, 0⟩) from rfl, Option.some_inj] at ho
    rw [← ho]
    exact ⟨Nums.ofEntries [(0, .boolean true)], rfl, legalNums_ofEntries d.doc _⟩
  refine ⟨rfl, fun value => ?_⟩
  have tree : d.doc.parentTree? ⟨1, 0⟩ = some node := rfl
  obtain ⟨items, _, hset, hform⟩ := exists_setParent unused tree distinct legal 1
  obtain rfl : items = [] := hform
  obtain ⟨d₁, hrun, hparents⟩ := hset value
  refine ⟨d₁, hrun, ?_⟩
  rw [hparents]
  exact bindings_single 1 value 0

end Edit

end AccessiblePdf
