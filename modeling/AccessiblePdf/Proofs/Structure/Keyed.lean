import AccessiblePdf.Proofs.Document.Sparing
import AccessiblePdf.Proofs.Structure.ParentTree

/-!
Documents whose parent tree holds its keys as integers (`Document.Keyed`), and what edits maintain,
whether they succeed or fail (`Edit.Maintains`). The edits of the parent tree maintain both that it is
kept so and the next key that its root declares, apart from the one that declares another
(`allocateKey_next`).
-/
namespace AccessiblePdf

namespace Nums

theorem mem_keys_setEntry {key k : Int} {value : Object} {es : List (Int × Object)} :
    k ∈ (setEntry key value es).map (·.1) ↔ k = key ∨ k ∈ es.map (·.1) := by
  induction es with
  | nil => simp [setEntry]
  | cons e es ih =>
    rw [setEntry]
    split
    · next h => simp [h]
    · split
      · simp
      · rw [List.map_cons, List.mem_cons, ih, List.map_cons, List.mem_cons]
        tauto

theorem exists_ofEntries (pairs : List (Int × Object)) :
    ∃ es, pairs.foldl (fun nums e => insert e.1 e.2 nums) [] = ofEntries es ∧
      ∀ k, k ∈ es.map (·.1) ↔ k ∈ pairs.map (·.1) := by
  induction pairs using List.reverseRecOn with
  | nil => exact ⟨[], rfl, fun k => Iff.rfl⟩
  | append_singleton pairs e ih =>
    obtain ⟨es, hflat, hkeys⟩ := ih
    refine ⟨setEntry e.1 e.2 es, ?_, fun k => ?_⟩
    · rw [List.foldl_append, List.foldl_cons, List.foldl_nil, hflat, insert_ofEntries]
    · rw [mem_keys_setEntry, hkeys, List.map_append, List.mem_append, or_comm]
      simp

end Nums

/-! ## Documents -/

namespace Document

variable {doc : Document} {root id t : ObjectId} {a b x : Dict Object} {o : Object} {n : Int}

theorem dict?_of_add (direct : o.isDirect = true) (h : (doc.add o).dict? id = some x) :
    o = .dictionary x ∨ doc.dict? id = some x := by
  obtain ⟨t, ht, hx⟩ := target?_of_dict? h
  rw [objects_add] at hx
  split at hx
  · exact Or.inl (Option.some.inj hx)
  · next hne =>
    have htarget : doc.target? id = some t := chase_of_insert_new direct hne ht
    exact Or.inr (dict?_of_get? (by rw [get?_eq_of_target? htarget, hx]))

theorem dict?_putArray {items items' : List Object} (ho : doc.objects.get? t = some (.array items))
    (id : ObjectId) : (doc.put t (.array items')).dict? id = doc.dict? id := by
  rw [dict?, get?_put ho rfl rfl]
  split
  · next ht =>
    rw [dict?, get?_eq_of_target? ht, ho]
    rfl
  · rfl

theorem dict?_of_target? (ht : doc.target? id = some t)
    (hx : doc.objects.get? t = some (.dictionary x)) : doc.dict? id = some x :=
  dict?_of_get? (by rw [get?_eq_of_target? ht, hx])

theorem entry_put (ha : doc.objects.get? t = some (.dictionary a)) {key : Bytes}
    (same : b.get? key = a.get? key) (id : ObjectId) :
    ((doc.put t (.dictionary b)).dict? id).bind (·.get? key) = (doc.dict? id).bind (·.get? key) := by
  rw [dict?_put ha]
  split
  · next ht =>
    rw [dict?_of_target? ht ha]
    exact same
  · rfl

theorem parentTree?_put (ha : doc.objects.get? t = some (.dictionary a))
    (same : b.get? "ParentTree" = a.get? "ParentTree") {node : Dict Object}
    (h : (doc.put t (.dictionary b)).parentTree? root = some node) :
    doc.parentTree? root = some node ∨ node = b ∧ doc.parentTree? root = some a := by
  rw [parentTree?, entry_put ha same] at h
  obtain ⟨o, ho, hnode⟩ := Option.bind_eq_some_iff.mp h
  cases o with
  | reference id =>
    rw [dictionary?_resolve, dict?_put ha] at hnode
    split at hnode
    · next ht =>
      refine Or.inr ⟨(Option.some.inj hnode).symm, ?_⟩
      rw [parentTree?, ho, Option.bind_some, dictionary?_resolve, dict?_of_target? ht ha]
    · refine Or.inl ?_
      rw [parentTree?, ho, Option.bind_some, dictionary?_resolve, hnode]
  | _ => exact Or.inl (by rw [parentTree?, ho]; exact hnode)

/-! ## Keys in place -/

/-- A tree node whose entries occur once and that has a list in place of integers with their values if
it is flat. -/
structure KeyedNode (node : Dict Object) : Prop where
  distinct : node.Distinct
  nums : Edit.isFlat node = true → ∃ es, node.get? "Nums" = some (.array (Nums.ofEntries es))

theorem keyedNode_empty : KeyedNode ∅ :=
  ⟨List.nodup_nil, fun h => absurd h (by decide)⟩

/-- A document in which no dictionary has an entry twice, no object has a number above the highest one
given out, and the parent tree of a root, unless it is nested, is one list of integers with their
values. -/
structure Keyed (doc : Document) (root : ObjectId) : Prop where
  numbered : doc.Numbered
  distinct : ∀ id x, doc.dict? id = some x → x.Distinct
  tree : ∀ node, doc.parentTree? root = some node → KeyedNode node

/-- A root declares the next key. -/
def DeclaresNext (doc : Document) (root : ObjectId) (n : Int) : Prop :=
  (doc.dict? root).bind (·.get? "ParentTreeNextKey") = some (.integer n)

/-- A document with keys in place, and with a next key if one is given. -/
def KeyedFrom (doc : Document) (root : ObjectId) (next : Option Int) : Prop :=
  doc.Keyed root ∧ ∀ n ∈ next, doc.DeclaresNext root n

/-- Changes of dictionaries that leave keys in place. -/
structure KeepsKeys (f : Dict Object → Dict Object) : Prop where
  distinct : ∀ a, a.Distinct → (f a).Distinct
  keyed : ∀ a, KeyedNode a → KeyedNode (f a)
  tree : ∀ a, a.Distinct → (f a).get? "ParentTree" = a.get? "ParentTree"

namespace KeepsKeys

theorem insert {key : Bytes} (other : key ∉ [utf8 "Kids", utf8 "Nums", utf8 "ParentTree"])
    (o : Object) : KeepsKeys fun a => a.insert key o := by
  simp only [List.mem_cons, List.not_mem_nil, or_false, not_or] at other
  obtain ⟨hkids, hnums, htree⟩ := other
  refine ⟨fun a distinct => distinct.insert key o, fun a keyed => ⟨keyed.distinct.insert key o, ?_⟩,
    fun a _ => OrderedMap.get?_insert_of_ne a (Ne.symm htree) o⟩
  rw [Edit.isFlat, OrderedMap.contains, OrderedMap.contains,
    OrderedMap.get?_insert_of_ne a (Ne.symm hkids), OrderedMap.get?_insert_of_ne a (Ne.symm hnums)]
  exact keyed.nums

theorem flattened (es : List (Int × Object)) : KeepsKeys (Edit.flattened (Nums.ofEntries es)) := by
  have hdistinct : ∀ a : Dict Object, a.Distinct → (Edit.flattened (Nums.ofEntries es) a).Distinct :=
    fun a distinct => ((distinct.erase _).erase _).insert _ _
  refine ⟨hdistinct, fun a keyed => ⟨hdistinct a keyed.distinct, fun _ => ⟨es, ?_⟩⟩,
    fun a distinct => ?_⟩
  · rw [Edit.get?_flattened keyed.distinct, if_pos rfl]
  · rw [Edit.get?_flattened distinct]
    rfl

theorem setNums (key : Int) (value : Object) : KeepsKeys fun a =>
    a.insert "Nums" (.array (Nums.insert key value (Edit.numsOf a))) := by
  refine ⟨fun a distinct => distinct.insert _ _, fun a keyed =>
    ⟨keyed.distinct.insert _ _, fun hflat => ?_⟩,
    fun a _ => OrderedMap.get?_insert_of_ne a (by decide) _⟩
  obtain ⟨es, hes⟩ : ∃ es, Edit.numsOf a = Nums.ofEntries es := by
    cases hnums : a.get? "Nums" with
    | none => exact ⟨[], by rw [Edit.numsOf, hnums]; rfl⟩
    | some o =>
      have hflat' : Edit.isFlat a = true := by
        rw [Edit.isFlat, OrderedMap.contains, OrderedMap.get?_insert_of_ne a (by decide),
          Bool.and_eq_true] at hflat
        rw [Edit.isFlat, OrderedMap.contains, hflat.1, OrderedMap.contains, hnums]
        rfl
      obtain ⟨es, hes⟩ := keyed.nums hflat'
      exact ⟨es, by rw [Edit.numsOf, hes]; rfl⟩
  rw [hes, Nums.insert_ofEntries]
  exact ⟨_, OrderedMap.get?_insert_self _ _ _⟩

end KeepsKeys

namespace Keyed

theorem node (h : doc.Keyed root) : KeyedNode ((doc.parentTree? root).getD ∅) := by
  cases hnode : doc.parentTree? root with
  | none => exact keyedNode_empty
  | some node => exact h.tree node hnode

theorem putDict (h : doc.Keyed root) {f : Dict Object → Dict Object} (hf : KeepsKeys f)
    (ha : doc.objects.get? t = some (.dictionary a)) : (doc.put t (.dictionary (f a))).Keyed root where
  numbered := h.numbered.put ha
  distinct := by
    intro id x hx
    rw [dict?_put ha] at hx
    split at hx
    · rw [← Option.some.inj hx]
      exact hf.distinct a (h.distinct t a (dict?_of_get? (get?_of_direct ha rfl)))
    · exact h.distinct id x hx
  tree := by
    intro node hnode
    have hdistinct := h.distinct t a (dict?_of_get? (get?_of_direct ha rfl))
    rcases parentTree?_put ha (hf.tree a hdistinct) hnode with hold | ⟨rfl, hold⟩
    · exact h.tree node hold
    · exact hf.keyed a (h.tree a hold)

theorem congr {doc' : Document} (h : doc.Keyed root) (numbered : doc'.Numbered)
    (same : ∀ id, doc'.dict? id = doc.dict? id) : doc'.Keyed root where
  numbered := numbered
  distinct := fun id x hx => h.distinct id x ((same id).symm.trans hx)
  tree := by
    intro node hnode
    refine h.tree node ?_
    rw [parentTree?, same] at hnode
    obtain ⟨o, ho, hnode⟩ := Option.bind_eq_some_iff.mp hnode
    rw [parentTree?, ho, Option.bind_some, ← hnode]
    cases o with
    | reference id => rw [dictionary?_resolve, dictionary?_resolve, same]
    | _ => rfl

end Keyed

namespace KeyedFrom

variable {next : Option Int}

theorem congr {doc' : Document} (h : doc.KeyedFrom root next) (numbered : doc'.Numbered)
    (same : ∀ id, doc'.dict? id = doc.dict? id) : doc'.KeyedFrom root next :=
  ⟨h.1.congr numbered same, fun n hn => by rw [DeclaresNext, same]; exact h.2 n hn⟩

theorem putDict (h : doc.KeyedFrom root next) {f : Dict Object → Dict Object} (hf : KeepsKeys f)
    (hnext : ∀ a, a.Distinct → (f a).get? "ParentTreeNextKey" = a.get? "ParentTreeNextKey")
    (ha : doc.objects.get? t = some (.dictionary a)) :
    (doc.put t (.dictionary (f a))).KeyedFrom root next := by
  refine ⟨h.1.putDict hf ha, fun n hn => ?_⟩
  rw [DeclaresNext, entry_put ha (hnext a (h.1.distinct t a (dict?_of_get? (get?_of_direct ha rfl))))]
  exact h.2 n hn

theorem putArray (h : doc.KeyedFrom root next) {items : List Object}
    (ho : doc.objects.get? t = some (.array items)) (items' : List Object) :
    (doc.put t (.array items')).KeyedFrom root next :=
  h.congr (h.1.numbered.put ho) (dict?_putArray ho)

theorem addArray (h : doc.KeyedFrom root next) (items : List Object) :
    (doc.add (.array items)).KeyedFrom root next := by
  refine h.congr (h.1.numbered.add _) fun id => ?_
  cases hx : doc.dict? id with
  | none =>
    refine Option.eq_none_iff_forall_ne_some.mpr fun x hnew => ?_
    rcases dict?_of_add rfl hnew with hsame | hold
    · exact absurd hsame (by simp)
    · exact absurd (hx.symm.trans hold) (by simp)
  | some x => exact dict?_of_get? (get?_add h.1.numbered.unused _ (get?_of_dict? hx))

end KeyedFrom

end Document

/-! ## Edits -/

namespace Edit

open Document

/-- Whether it succeeds or fails, an edit leaves a document with a property that it had before. -/
def Maintains (I : Document → Prop) {α : Type} (e : Edit α) : Prop :=
  ∀ d, I d.doc → I (e.perform d).2.doc

namespace Maintains

variable {I : Document → Prop} {α β : Type} {e : Edit α} {d d' : Draft}

theorem ok (h : Maintains I e) {a : α} (hrun : e.run d = .ok a d') (hd : I d.doc) : I d'.doc := by
  have hafter := h d hd
  rwa [perform, hrun] at hafter

theorem error (h : Maintains I e) {f : Fault} (hrun : e.run d = .error f d') (hd : I d.doc) :
    I d'.doc := by
  have hafter := h d hd
  rwa [perform, hrun] at hafter

theorem pure (a : α) : Maintains I (Pure.pure a) := fun _ hd => hd

theorem throw (f : Fault) : Maintains I (MonadExcept.throw f : Edit α) := fun _ hd => hd

theorem bind {g : α → Edit β} (he : Maintains I e) (hg : ∀ a, Maintains I (g a)) :
    Maintains I (e >>= g) := by
  intro d hd
  rw [perform, EStateM.run_bind]
  cases hrun : e.run d with
  | ok a d₁ => exact hg a d₁ (he.ok hrun hd)
  | error f d₁ => exact he.error hrun hd

theorem bindDoc {g : Document → Edit β}
    (hg : ∀ d : Draft, I d.doc → I ((g d.doc).perform d).2.doc) : Maintains I (Edit.doc >>= g) :=
  hg

theorem doc : Maintains I Edit.doc := fun _ hd => hd

theorem dict (id : ObjectId) : Maintains I (Edit.dict id) := by
  refine bindDoc fun d hd => ?_
  cases d.doc.dict id <;> exact hd

theorem modifyDict {f : Dict Object → Dict Object}
    (hf : ∀ doc t a, I doc → doc.objects.get? t = some (.dictionary a) →
      I (doc.put t (.dictionary (f a)))) (id : ObjectId) : Maintains I (Edit.modifyDict id f) := by
  refine bindDoc fun d hd => ?_
  cases hm : d.doc.modifyDict? id f with
  | none => exact hd
  | some doc' =>
    obtain ⟨t, a, -, ha, rfl⟩ := modifyDict?_eq_some.mp hm
    exact hf d.doc t a hd ha

/-- A change that is made where there is an array to change, and what comes after it. -/
theorem tryModifyArray {f : List Object → List Object}
    (hf : ∀ doc t items, I doc → doc.objects.get? t = some (.array items) →
      I (doc.put t (.array (f items)))) (id : ObjectId) (he : Maintains I e) : Maintains I (do
        match (← Edit.doc).modifyArray? id f with
        | some doc => do
          setDoc doc
          e
        | none => e) := by
  refine bindDoc fun d hd => ?_
  cases hm : d.doc.modifyArray? id f with
  | none => exact he d hd
  | some doc' =>
    obtain ⟨t, items, ho, rfl⟩ : ∃ t items, d.doc.objects.get? t = some (.array items) ∧
        doc' = d.doc.put t (.array (f items)) := by
      obtain ⟨t, -, hm⟩ := Option.bind_eq_some_iff.mp hm
      obtain ⟨o, ho, hm⟩ := Option.bind_eq_some_iff.mp hm
      obtain ⟨items, hitems, hm⟩ := Option.bind_eq_some_iff.mp hm
      cases o with
      | array items' =>
        obtain rfl := Option.some.inj hitems
        exact ⟨t, items', ho, (Option.some.inj hm).symm⟩
      | _ => exact absurd hitems (by simp [Object.array?])
    exact he { d with doc := _ } (hf d.doc t items hd ho)

end Maintains

theorem dict_error {d : Draft} {id : ObjectId} (h : d.doc.dict? id = none) :
    (dict id).run d = .error .unreadable d := by
  have hdict : d.doc.dict id = .error .unreadable := by rw [Document.dict, h]
  show (lift (d.doc.dict id)).run d = _
  rw [hdict]
  rfl

theorem modifyDict_error {d d' : Draft} {id : ObjectId} {f : Dict Object → Dict Object} {e : Fault}
    (hrun : (modifyDict id f).run d = .error e d') : d' = d := by
  have hchange : (match d.doc.modifyDict? id f with
      | some doc => setDoc doc
      | none => throw .unreadable : Edit Unit).run d = .error e d' := hrun
  split at hchange
  · cases hchange
  · cases hchange
    rfl

section Keyed

variable {root : ObjectId} {next : Option Int} {d d' : Draft} {key : Int}

/-- When the parent tree comes to an object of its own, keys stay in place, and so does the next key. -/
theorem keyedFrom_ownTree {doc : Document} {t tree : ObjectId} {x : Dict Object}
    (h : doc.KeyedFrom root next) (ht : doc.target? root = some t)
    (hx : doc.objects.get? t = some (.dictionary x))
    (hat : (ownTree doc t x ((doc.parentTree? root).getD ∅)).TreeAt root tree
      ((doc.parentTree? root).getD ∅)) :
    (ownTree doc t x ((doc.parentTree? root).getD ∅)).KeyedFrom root next := by
  have hnode : KeyedNode ((doc.parentTree? root).getD ∅) := h.1.node
  set node := (doc.parentTree? root).getD ∅
  have hne : t ≠ doc.nextId := by
    rintro rfl
    rw [h.1.numbered.unused] at hx
    exact absurd hx (by simp)
  have hroot : (doc.add (.dictionary node)).objects.get? t = some (.dictionary x) := by
    rw [objects_add, if_neg hne, hx]
  refine ⟨⟨(h.1.numbered.add _).put hroot, fun id y hy => ?_, fun node' hnode' => ?_⟩, fun n hn => ?_⟩
  · rw [ownTree, dict?_put hroot] at hy
    split at hy
    · rw [← Option.some.inj hy]
      exact (h.1.distinct t x (dict?_of_get? (get?_of_direct hx rfl))).insert _ _
    · rcases dict?_of_add rfl hy with hsame | hold
      · rw [← Object.dictionary.inj hsame]
        exact hnode.distinct
      · exact h.1.distinct id y hold
  · rw [hat.parentTree?_eq] at hnode'
    rw [← Option.some.inj hnode']
    exact hnode
  · have htarget := target?_add h.1.numbered.unused (.dictionary node) ht
    have hdeclared := h.2 n hn
    rw [DeclaresNext, dict?_of_target? ht hx] at hdeclared
    rw [DeclaresNext, ownTree, dict?_put hroot, if_pos htarget, Option.bind_some,
      OrderedMap.get?_insert_of_ne x (by decide)]
    exact hdeclared

/-! ### What is maintained -/

theorem Maintains.indirectTree (root : ObjectId) (next : Option Int) :
    Maintains (·.KeyedFrom root next) (indirectDict root "ParentTree") := by
  intro d h
  cases hx : d.doc.dict? root with
  | none =>
    have hrun : (indirectDict root "ParentTree").run d = .error .unreadable d := by
      unfold indirectDict
      rw [EStateM.run_bind, dict_error hx]
    rw [perform, hrun]
    exact h
  | some x =>
    obtain ⟨tree, d₁, hrun, hat, -, hsame | ⟨t, ht, hxt, hmoved⟩⟩ :=
      exists_indirectTree h.1.numbered.unused hx
    · rw [perform, hrun, hsame]
      exact h
    · rw [hmoved] at hat hrun
      rw [perform, hrun]
      exact keyedFrom_ownTree h ht hxt hat

theorem Maintains.parentTree (root : ObjectId) (next : Option Int) :
    Maintains (·.KeyedFrom root next) (parentTree root) := by
  unfold Edit.parentTree
  refine (indirectTree root next).bind fun tree => (dict tree).bind fun node => doc.bind fun doc => ?_
  obtain ⟨es, hflat, -⟩ := Nums.exists_ofEntries (doc.numberTree node)
  dsimp only
  rw [hflat]
  split
  · refine (modifyDict (fun doc t a h ha => h.putDict (.flattened es) ?_ ha) tree).bind fun _ => pure tree
    intro a distinct
    rw [get?_flattened distinct]
    rfl
  · exact pure tree

theorem Maintains.setParent (root : ObjectId) (next : Option Int) (key : Int) (value : Object) :
    Maintains (·.KeyedFrom root next) (setParent root key value) := by
  refine (parentTree root next).bind fun tree => modifyDict (fun doc t a h ha => ?_) tree
  refine h.putDict (.setNums key value) (fun a _ => ?_) ha
  exact OrderedMap.get?_insert_of_ne a (by decide) _

theorem Maintains.setMcidParent (root : ObjectId) (next : Option Int) (key mcid : Int)
    (element : ObjectId) : Maintains (·.KeyedFrom root next) (setMcidParent root key mcid element) := by
  have hadd : ∀ items, Maintains (·.KeyedFrom root next) (add (.array items)) :=
    fun items => bindDoc fun d hd => hd.addArray items
  have hset : ∀ slot array, Maintains (·.KeyedFrom root next) (do
      match (← Edit.doc).modifyArray? array (setItem slot (.reference element)) with
      | some doc => do
        setDoc doc
        Edit.setParent root key (.reference array)
      | none => Edit.setParent root key (.reference array)) :=
    fun slot array => tryModifyArray (fun doc t items h ho => h.putArray ho _) array
      (setParent root next key _)
  unfold Edit.setMcidParent
  refine bind ?_ fun mcid => (parentTree root next).bind fun tree => (dict tree).bind fun node =>
    doc.bind fun doc => ?_
  · rw [checkMcid]
    split
    · exact pure _
    · exact throw _
  · split
    · split
      · exact hset _ _
      · exact (hadd _).bind fun array => hset _ array
    · exact (hadd _).bind fun array => hset _ array
    · exact (hadd _).bind fun array => hset _ array

/-! ### Keys that are given out -/

/-- The key that comes next, before it is noted at the root. -/
def proposeKey (root : ObjectId) : Edit Int := do
  let tree ← parentTree root
  let doc ← doc
  let declared := ((← dict root).get? "ParentTreeNextKey").bind Object.truncated?
  let used := (maxKey? ((Nums.keys (numsOf (← dict tree))).map nextKey)).getD 0
  let assigned := ((maxKey? (assignedKeys doc)).map nextKey).getD 0
  return max (max (declared.getD 0) used) assigned

theorem allocateKey_eq (root : ObjectId) : allocateKey root = do
    let key ← proposeKey root
    setEntry root "ParentTreeNextKey" (.integer (nextKey key))
    return key := by
  unfold allocateKey proposeKey
  simp only [bind_assoc, pure_bind]
  rfl

theorem Maintains.proposeKey (root : ObjectId) (next : Option Int) :
    Maintains (·.KeyedFrom root next) (proposeKey root) :=
  (parentTree root next).bind fun tree => doc.bind fun _ => (dict root).bind fun _ =>
    (dict tree).bind fun _ => pure _

theorem allocateKey_ok (hrun : (allocateKey root).run d = .ok key d') : ∃ d₁ t x,
    (proposeKey root).run d = .ok key d₁ ∧ d₁.doc.target? root = some t ∧
      d₁.doc.objects.get? t = some (.dictionary x) ∧ d' = { d₁ with
        doc := d₁.doc.put t (.dictionary (x.insert "ParentTreeNextKey" (.integer (nextKey key)))) } := by
  rw [allocateKey_eq] at hrun
  obtain ⟨key', d₁, hpropose, hnote⟩ := bind_ok.mp hrun
  obtain ⟨_, d₂, hset, hreturn⟩ := bind_ok.mp hnote
  obtain ⟨rfl, rfl⟩ := pure_ok.mp hreturn
  obtain ⟨t, x, ht, hx, rfl⟩ := setEntry_ok.mp hset
  exact ⟨d₁, t, x, hpropose, ht, hx, rfl⟩

/-- After a key has been given out the root declares the one behind it. -/
theorem allocateKey_next (keyed : d.doc.Keyed root) (hrun : (allocateKey root).run d = .ok key d') :
    d'.doc.KeyedFrom root (some (nextKey key)) := by
  obtain ⟨d₁, t, x, hpropose, ht, hx, rfl⟩ := allocateKey_ok hrun
  have h₁ : d₁.doc.KeyedFrom root none :=
    (Maintains.proposeKey root none).ok hpropose ⟨keyed, fun n hn => absurd hn (by simp)⟩
  refine ⟨h₁.1.putDict (.insert (by decide) _) hx, fun n hn => ?_⟩
  obtain rfl := Option.some.inj hn
  rw [DeclaresNext, dict?_put hx, if_pos ht, Option.bind_some]
  exact OrderedMap.get?_insert_self x _ _

theorem allocateKey_error {next : Option Int} {f : Fault} (h : d.doc.KeyedFrom root next)
    (hrun : (allocateKey root).run d = .error f d') : d'.doc.KeyedFrom root next := by
  rw [allocateKey_eq, EStateM.run_bind] at hrun
  cases hpropose : (proposeKey root).run d with
  | error f₁ d₁ =>
    rw [hpropose] at hrun
    cases hrun
    exact (Maintains.proposeKey root next).error hpropose h
  | ok key d₁ =>
    have h₁ := (Maintains.proposeKey root next).ok hpropose h
    rw [hpropose] at hrun
    have hrest : (setEntry root "ParentTreeNextKey" (.integer (nextKey key)) >>= fun _ =>
        pure key : Edit Int).run d₁ = .error f d' := hrun
    rw [EStateM.run_bind] at hrest
    cases hset : (setEntry root "ParentTreeNextKey" (.integer (nextKey key))).run d₁ with
    | ok u d₂ =>
      rw [hset] at hrest
      cases hrest
    | error f₂ d₂ =>
      rw [hset] at hrest
      cases hrest
      rw [modifyDict_error hset]
      exact h₁

end Keyed

end Edit

end AccessiblePdf
