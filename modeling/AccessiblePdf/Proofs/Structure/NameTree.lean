import AccessiblePdf.Proofs.Document.Sparing
import AccessiblePdf.Proofs.Structure.NameList
import AccessiblePdf.Proofs.Structure.ParentTree
import AccessiblePdf.Structure.Build

/-!
Name trees in documents: their leaves as byte strings with values (`keyLeaves`), and what has to hold of a
legal one (`NameNode`). A name tree is read alike in a later document that is steady (`Document.Steady`):
nothing but entries of dictionaries has changed there, and of the nodes of the tree neither their lists
nor their kids (`NameNode.steady`).
-/
namespace AccessiblePdf.Document

/-! ## Steady documents -/

/-- A later document in which nothing has changed but entries that may be touched, and nothing that was
there is found in another way. -/
structure Steady (touched : ObjectId → Bytes → Prop) (doc doc' : Document) : Prop where
  spares : doc.Spares touched doc'
  other : ∀ t o, doc.objects.get? t = some o → o.dictionary? = none → doc'.objects.get? t = some o
  back : ∀ id t, t.number ≤ doc.maxId → doc'.target? id = some t → doc.target? id = some t

section Steady

variable {touched : ObjectId → Bytes → Prop} {doc doc₁ doc' : Document} {t id : ObjectId}
  {x x' : Dict Object} {o v : Object}

namespace Steady

theorem refl (numbered : doc.Numbered) : Steady touched doc doc where
  spares := .refl numbered
  other := fun _ _ h _ => h
  back := fun _ _ _ h => h

theorem trans (h : Steady touched doc doc₁) (h' : Steady touched doc₁ doc') :
    Steady touched doc doc' where
  spares := h.spares.trans h'.spares
  other := fun t o ho hdict => h'.other t o (h.other t o ho hdict) hdict
  back := fun id t ht hend =>
    h.back id t ht (h'.back id t (Nat.le_trans ht h.spares.grown) hend)

theorem mono {touched' : ObjectId → Bytes → Prop} (h : Steady touched doc doc')
    (sub : ∀ t key, touched t key → touched' t key) : Steady touched' doc doc' where
  spares := h.spares.mono sub
  other := h.other
  back := h.back

theorem add (numbered : doc.Numbered) (x : Dict Object) :
    Steady touched doc (doc.add (.dictionary x)) where
  spares := spares_add numbered _
  other := by
    intro t o ho _
    have hne : t ≠ doc.nextId := by
      rintro rfl
      rw [numbered.unused] at ho
      cases ho
    rw [objects_add, if_neg hne, ho]
  back := by
    intro id t ht hend
    refine chase_of_insert_new rfl ?_ hend
    rintro rfl
    exact absurd ht (Nat.not_succ_le_self _)

theorem putDict (numbered : doc.Numbered) (hx : doc.objects.get? t = some (.dictionary x))
    (h : x.Distinct → x'.Distinct ∧ ∀ key, ¬touched t key → x'.get? key = x.get? key) :
    Steady touched doc (doc.put t (.dictionary x')) where
  spares := spares_putDict numbered hx h
  other := by
    intro s o ho hdict
    rw [put, OrderedMap.get?_insert, if_neg]
    · exact ho
    · rintro rfl
      rw [hx] at ho
      rw [← Option.some.inj ho] at hdict
      cases hdict
  back := fun id s _ hend => by rwa [target?_put hx rfl rfl] at hend

theorem resolve (h : Steady touched doc doc') (hv : doc.resolve o = v) (hdict : v.dictionary? = none)
    (hnull : v ≠ .null) : doc'.resolve o = v := by
  cases o with
  | reference id =>
    rw [Document.resolve] at hv ⊢
    cases hid : doc.get? id with
    | none =>
      rw [hid] at hv
      exact absurd hv.symm hnull
    | some y =>
      rw [hid, Option.getD_some] at hv
      subst hv
      obtain ⟨t, ht, hy, -⟩ := target?_of_get? hid
      rw [get?_eq_of_target? (h.spares.target id t ht), h.other t y hy hdict]
      rfl
  | _ => exact hv

theorem dict? (h : Steady touched doc doc') (hx : doc.dict? id = some x) (distinct : x.Distinct) :
    ∃ t y, doc.target? id = some t ∧ doc'.dict? id = some y ∧ y.Distinct ∧
      ∀ key, ¬touched t key → y.get? key = x.get? key := by
  obtain ⟨t, ht, hx⟩ := target?_of_dict? hx
  obtain ⟨y, hy, distinct', hsame⟩ := h.spares.entries t x hx distinct
  refine ⟨t, y, ht, dict?_of_get? ?_, distinct', hsame⟩
  rw [get?_eq_of_target? (h.spares.target id t ht), hy]

end Steady

end Steady

/-! ## Legal name trees -/

/-- An object stands for a dictionary that is in none of some places. -/
structure Stored (apart : ObjectId → Prop) (doc : Document) (o : Object) (x : Dict Object) : Prop where
  resolve : doc.resolve o = .dictionary x
  distinct : x.Distinct
  place : ∀ id t, o = .reference id → doc.target? id = some t → ¬apart t

/-- The byte strings and values that a node of a name tree itself lists. -/
def keyPairs (doc : Document) (node : Dict Object) : List (Bytes × Object) :=
  (pairs ((doc.entryArray? node "Names").getD [])).filterMap fun e =>
    (doc.resolve e.1).string?.map fun bytes => (bytes, e.2)

/-- The byte strings and values of a name tree, in the order of the leaves, down to `depth` levels. -/
def keyLeaves (doc : Document) : Nat → Dict Object → List (Bytes × Object)
  | depth, node =>
    doc.keyPairs node ++
      match depth with
      | 0 => []
      | depth + 1 => (doc.kidDicts node).flatMap (keyLeaves doc depth)

/-- A node of a name tree with strings for its keys, which is at most `depth` levels deep and has none of
its kids in some places. -/
def NameNode (apart : ObjectId → Prop) (doc : Document) : Nat → Dict Object → Prop
  | depth, node =>
    (∀ o, node.get? "Names" = some o → ∃ items, doc.resolve o = .array items ∧
      ∀ e ∈ pairs items, ∃ bytes style, doc.resolve e.1 = .string bytes style) ∧
    match depth with
    | 0 => node.get? "Kids" = none
    | depth + 1 => ∀ o, node.get? "Kids" = some o → ∃ kids, doc.resolve o = .array kids ∧
        ∀ kid ∈ kids, ∃ child, doc.Stored apart kid child ∧ NameNode apart doc depth child

section Reading

variable {touched : ObjectId → Bytes → Prop} {apart : ObjectId → Prop} {doc doc' : Document}
  {o : Object} {a b node : Dict Object} {depth : Nat}

theorem nameLeaves_eq_map (doc : Document) (depth : Nat) (node : Dict Object) :
    doc.nameLeaves depth node =
      (doc.keyLeaves depth node).map fun e => (TextString.decode e.1, e.2) := by
  have hpairs : ∀ node, doc.namePairs node =
      (doc.keyPairs node).map fun e => (TextString.decode e.1, e.2) := by
    intro node
    rw [namePairs, keyPairs, List.map_filterMap]
    refine List.filterMap_congr fun e _ => ?_
    rw [Option.map_map]
    rfl
  induction depth generalizing node with
  | zero => rw [nameLeaves, keyLeaves, List.append_nil, List.append_nil, hpairs]
  | succ depth ih =>
    rw [nameLeaves, keyLeaves, List.map_append, hpairs, List.map_flatMap]
    exact congrArg _ (List.flatMap_congr fun child _ => ih child)

theorem nameTree_eq_read (doc : Document) (node : Dict Object) :
    doc.nameTree node = NameTree.read (doc.keyLeaves treeDepth node) := by
  rw [nameTree, nameLeaves_eq_map, List.foldl_map]
  rfl

theorem Stored.mono {apart' : ObjectId → Prop} (h : doc.Stored apart o a)
    (sub : ∀ t o, doc.objects.get? t = some o → apart' t → apart t) : doc.Stored apart' o a := by
  refine ⟨h.resolve, h.distinct, fun id t hid ht hplace => h.place id t hid ht ?_⟩
  obtain ⟨o, ho, -⟩ := direct_of_target? ht
  exact sub t o ho hplace

theorem NameNode.mono {apart' : ObjectId → Prop} (h : doc.NameNode apart depth node)
    (sub : ∀ t o, doc.objects.get? t = some o → apart' t → apart t) : doc.NameNode apart' depth node := by
  induction depth generalizing node with
  | zero => exact h
  | succ depth ih =>
    refine ⟨h.1, fun o ho => ?_⟩
    obtain ⟨kids, hkids, hlegal⟩ := h.2 o ho
    refine ⟨kids, hkids, fun kid hkid => ?_⟩
    obtain ⟨child, hstored, hchild⟩ := hlegal kid hkid
    exact ⟨child, hstored.mono sub, ih hchild⟩

section Later

variable (h : doc.Steady touched doc')
  (clear : ∀ t, ¬apart t → ¬touched t "Names" ∧ ¬touched t "Kids")

include h clear

/-- A node stays where it is, with its lists and its kids. -/
theorem Stored.steady (ha : doc.Stored apart o a) : ∃ b, doc'.Stored apart o b ∧
    b.get? "Names" = a.get? "Names" ∧ b.get? "Kids" = a.get? "Kids" := by
  cases o with
  | reference id =>
    have hdict : doc.dict? id = some a := by
      rw [← dictionary?_resolve, ha.resolve]
      rfl
    obtain ⟨t, b, ht, hb, distinct, hsame⟩ := h.dict? hdict ha.distinct
    have hplace := ha.place id t rfl ht
    refine ⟨b, ⟨?_, distinct, ?_⟩, hsame _ (clear t hplace).1, hsame _ (clear t hplace).2⟩
    · rw [Document.resolve, get?_of_dict? hb]
      rfl
    · rintro _ s ⟨⟩ hs
      obtain rfl := Option.some.inj ((h.spares.target id t ht).symm.trans hs)
      exact hplace
  | dictionary d =>
    obtain rfl : d = a := by simpa [Document.resolve] using ha.resolve
    refine ⟨d, ⟨rfl, ha.distinct, ?_⟩, rfl, rfl⟩
    rintro _ _ ⟨⟩
  | _ => exact absurd ha.resolve (by simp [Document.resolve])

omit clear in
/-- The list of a node stays legal and is read alike. -/
theorem keyPairs_steady (names : b.get? "Names" = a.get? "Names")
    (legal : ∀ o, a.get? "Names" = some o → ∃ items, doc.resolve o = .array items ∧
      ∀ e ∈ pairs items, ∃ bytes style, doc.resolve e.1 = .string bytes style) :
    (∀ o, b.get? "Names" = some o → ∃ items, doc'.resolve o = .array items ∧
      ∀ e ∈ pairs items, ∃ bytes style, doc'.resolve e.1 = .string bytes style) ∧
      doc'.keyPairs b = doc.keyPairs a := by
  cases ho : a.get? "Names" with
  | none =>
    have ha : doc.entryArray? a "Names" = none := by rw [entryArray?, value?, ho]; rfl
    have hb : doc'.entryArray? b "Names" = none := by rw [entryArray?, value?, names, ho]; rfl
    refine ⟨fun o h => ?_, by rw [keyPairs, keyPairs, ha, hb]; rfl⟩
    rw [names, ho] at h
    cases h
  | some o =>
    obtain ⟨items, hitems, hkeys⟩ := legal o ho
    have hitems' := h.resolve hitems rfl (by simp)
    have hkeys' : ∀ e ∈ pairs items, doc'.resolve e.1 = doc.resolve e.1 := by
      intro e he
      obtain ⟨bytes, style, hkey⟩ := hkeys e he
      rw [hkey, h.resolve hkey rfl (by simp)]
    refine ⟨fun o' ho' => ?_, ?_⟩
    · rw [names, ho, Option.some_inj] at ho'
      subst ho'
      refine ⟨items, hitems', fun e he => ?_⟩
      rw [hkeys' e he]
      exact hkeys e he
    · rw [keyPairs, keyPairs, entryArray?_eq ho hitems, entryArray?_eq (names.trans ho) hitems']
      exact List.filterMap_congr fun e he => by rw [hkeys' e he]

/-- A legal tree stays one and is read alike. -/
theorem NameNode.steady (legal : doc.NameNode apart depth a) (names : b.get? "Names" = a.get? "Names")
    (kids : b.get? "Kids" = a.get? "Kids") :
    doc'.NameNode apart depth b ∧ doc'.keyLeaves depth b = doc.keyLeaves depth a := by
  induction depth generalizing a b with
  | zero =>
    obtain ⟨hlist, hread⟩ := keyPairs_steady h names legal.1
    exact ⟨⟨hlist, kids.trans legal.2⟩, by rw [keyLeaves, keyLeaves, hread]⟩
  | succ depth ih =>
    obtain ⟨hlist, hread⟩ := keyPairs_steady h names legal.1
    rw [keyLeaves, keyLeaves, hread]
    cases ho : a.get? "Kids" with
    | none =>
      have ha : doc.kidDicts a = [] := by rw [kidDicts, entryArray?, value?, ho]; rfl
      have hb : doc'.kidDicts b = [] := by rw [kidDicts, entryArray?, value?, kids, ho]; rfl
      refine ⟨⟨hlist, fun o h => ?_⟩, by rw [ha, hb]; rfl⟩
      rw [kids, ho] at h
      cases h
    | some o =>
      obtain ⟨items, hitems, hlegal⟩ := legal.2 o ho
      have hitems' := h.resolve hitems rfl (by simp)
      have hkid : ∀ kid ∈ items, ∃ child child', doc.resolve kid = .dictionary child ∧
          doc'.Stored apart kid child' ∧ doc'.NameNode apart depth child' ∧
          doc'.keyLeaves depth child' = doc.keyLeaves depth child := by
        intro kid hmem
        obtain ⟨child, hstored, hchild⟩ := hlegal kid hmem
        obtain ⟨child', hstored', hnames, hkids⟩ := hstored.steady h clear
        obtain ⟨hnode, hleaves⟩ := ih hchild hnames hkids
        exact ⟨child, child', hstored.resolve, hstored', hnode, hleaves⟩
      refine ⟨⟨hlist, fun o' ho' => ?_⟩, congrArg _ ?_⟩
      · rw [kids, ho, Option.some_inj] at ho'
        subst ho'
        refine ⟨items, hitems', fun kid hmem => ?_⟩
        obtain ⟨-, child', -, hstored', hnode, -⟩ := hkid kid hmem
        exact ⟨child', hstored', hnode⟩
      · have ha : doc.kidDicts a = items.filterMap fun kid => (doc.resolve kid).dictionary? := by
          rw [kidDicts, entryArray?_eq ho hitems]
          rfl
        have hb : doc'.kidDicts b = items.filterMap fun kid => (doc'.resolve kid).dictionary? := by
          rw [kidDicts, entryArray?_eq (kids.trans ho) hitems']
          rfl
        rw [ha, hb]
        refine flatMap_filterMap_congr items fun kid hmem => ?_
        obtain ⟨child, child', hchild, hstored', -, hleaves⟩ := hkid kid hmem
        exact ⟨child, child', by rw [hchild]; rfl, by rw [hstored'.resolve]; rfl, hleaves⟩

end Later

/-! ## Flat trees -/

/-- The items of the list of a node: each byte string as a key, and its value. -/
def nameItems (ls : List (Bytes × Object)) : List Object :=
  ls.flatMap fun e => [.string e.1 .literal, e.2]

theorem nameArray_eq_nameItems (m : Std.TreeMap String Object) :
    Edit.nameArray m = nameItems (NameTree.leaves m) := by
  rw [Edit.nameArray, nameItems, NameTree.leaves, List.flatMap_map]

theorem pairs_nameItems (ls : List (Bytes × Object)) :
    pairs (nameItems ls) = ls.map fun e => (.string e.1 .literal, e.2) := by
  induction ls with
  | nil => rfl
  | cons e ls ih =>
    rw [nameItems, List.flatMap_cons, ← nameItems, List.cons_append, List.singleton_append, pairs, ih]
    rfl

theorem nameNode_of_flat (apart : ObjectId → Prop) (doc : Document) {ls : List (Bytes × Object)}
    (names : node.get? "Names" = some (.array (nameItems ls))) (kids : node.get? "Kids" = none) :
    doc.NameNode apart treeDepth node ∧ doc.keyLeaves treeDepth node = ls := by
  refine ⟨⟨fun o ho => ?_, fun o ho => ?_⟩, ?_⟩
  · rw [names, Option.some_inj] at ho
    subst ho
    refine ⟨_, rfl, fun e he => ?_⟩
    rw [pairs_nameItems] at he
    obtain ⟨l, -, rfl⟩ := List.mem_map.mp he
    exact ⟨l.1, .literal, rfl⟩
  · rw [kids] at ho
    cases ho
  · have hkids : doc.kidDicts node = [] := by rw [kidDicts, entryArray?, value?, kids]; rfl
    rw [treeDepth, keyLeaves, hkids, keyPairs, entryArray?_eq names rfl, Option.getD_some,
      pairs_nameItems, List.filterMap_map]
    simp [Function.comp_def, Document.resolve, Object.string?]

end Reading

end AccessiblePdf.Document
