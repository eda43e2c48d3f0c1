import AccessiblePdf.Proofs.Outline.Reading
import AccessiblePdf.Proofs.Structure.Readback

/-!
Reports on documents whose links loop or share objects. Reading elements is paid for by dictionaries:
an element in place is one of those that its list holds, and one behind a reference is one of those in an
object that has not been met before (`readAll_within`). So no id is reported twice, and there are no
more elements than dictionaries. An outline has the items that a reader enters, none of them twice
(`readOutline_entered`).
-/
namespace AccessiblePdf

/-! ## Dictionaries -/

mutual

/-- The dictionaries in an object, which may be one itself. -/
def Object.dictionaries : Object → Nat
  | .array items => dictionariesIn items
  | .dictionary ⟨es⟩ => 1 + dictionariesOf es
  | .stream ⟨es⟩ _ => dictionariesOf es
  | _ => 0

def dictionariesIn : List Object → Nat
  | [] => 0
  | o :: os => o.dictionaries + dictionariesIn os

def dictionariesOf : List (Bytes × Object) → Nat
  | [] => 0
  | (_, o) :: es => o.dictionaries + dictionariesOf es

end

theorem dictionariesIn_filter_le (p : Object → Bool) (os : List Object) :
    dictionariesIn (os.filter p) ≤ dictionariesIn os := by
  induction os with
  | nil => exact Nat.le_refl _
  | cons o os ih =>
    rw [List.filter_cons]
    split
    · exact Nat.add_le_add_left ih _
    · exact Nat.le_trans ih (Nat.le_add_left _ _)

theorem dictionaries_le_of_mem {key : Bytes} {o : Object} {es : List (Bytes × Object)}
    (h : (key, o) ∈ es) : o.dictionaries ≤ dictionariesOf es := by
  induction es with
  | nil => exact absurd h List.not_mem_nil
  | cons e es ih =>
    rw [dictionariesOf]
    rcases List.mem_cons.mp h with rfl | h
    · exact Nat.le_add_right _ _
    · exact Nat.le_trans (ih h) (Nat.le_add_left _ _)

theorem dictionariesIn_kidsOf_le (d : Dict Object) :
    dictionariesIn (Document.kidsOf d) ≤ dictionariesOf d.entries := by
  rw [Document.kidsOf]
  split
  · next items h => exact dictionaries_le_of_mem (OrderedMap.mem_of_get? h)
  · next o _ h => exact dictionaries_le_of_mem (OrderedMap.mem_of_get? h)
  · exact Nat.zero_le _

namespace Document

variable {doc : Document} {met : List ObjectId}

/-- The dictionaries in what an id stands for. -/
def dictionariesAt (doc : Document) (id : ObjectId) : Nat :=
  ((doc.get? id).map Object.dictionaries).getD 0

/-- The dictionaries in what those objects stand for that have not been met. -/
def unmet (doc : Document) (met : List ObjectId) : Nat :=
  doc.objects.keys.foldr (fun id n => (if met.contains id then 0 else doc.dictionariesAt id) + n) 0

/-- Meeting an object takes what it stands for. -/
theorem unmet_cons {id : ObjectId} (new : id ∉ met) :
    doc.dictionariesAt id + doc.unmet (id :: met) ≤ doc.unmet met := by
  have hleft : ∀ keys : List ObjectId, (if id ∈ keys then doc.dictionariesAt id else 0) +
      keys.foldr (fun i n => (if (id :: met).contains i then 0 else doc.dictionariesAt i) + n) 0 ≤
        keys.foldr (fun i n => (if met.contains i then 0 else doc.dictionariesAt i) + n) 0 := by
    intro keys
    induction keys with
    | nil => exact Nat.le_refl _
    | cons key keys ih =>
      rw [List.foldr_cons, List.foldr_cons]
      by_cases hkey : key = id
      · subst hkey
        rw [← List.contains_iff_mem] at new
        rw [if_pos List.mem_cons_self, if_pos (List.contains_iff_mem.mpr List.mem_cons_self),
          if_neg new]
        omega
      · have hbehind : (id :: met).contains key = met.contains key := by
          rw [List.contains_cons, beq_false_of_ne hkey, Bool.false_or]
        rw [hbehind]
        simp only [List.mem_cons, Ne.symm hkey, false_or]
        omega
  have hat : (if id ∈ doc.objects.keys then doc.dictionariesAt id else 0) = doc.dictionariesAt id := by
    split
    · rfl
    · next hnone =>
      rw [dictionariesAt, get?, target?, chase, OrderedMap.get?_of_not_mem_keys hnone]
      rfl
  have hall := hleft doc.objects.keys
  rw [hat] at hall
  exact hall

theorem dictionaries_resolve_le {kid : Object} (new : kid.reference?.any met.contains = false) :
    (doc.resolve kid).dictionaries + doc.unmet (kid.reference?.toList ++ met) ≤
      kid.dictionaries + doc.unmet met := by
  cases kid with
  | reference id =>
    have hnew : id ∉ met := by
      simpa [Object.reference?] using new
    have hat : (doc.resolve (.reference id)).dictionaries = doc.dictionariesAt id := by
      rw [resolve, dictionariesAt]
      cases doc.get? id <;> rfl
    have hnone : (Object.reference id).dictionaries = 0 := by simp [Object.dictionaries]
    rw [hat, hnone, Nat.zero_add]
    exact unmet_cons hnew
  | _ => exact Nat.le_refl _

end Document

/-! ## Elements -/

/-- The ids of the elements that were read behind a reference. -/
def elementIds (trees : List (Tree ElementFacts)) : List ObjectId :=
  (Tree.valuesAll trees).filterMap (·.id)

theorem elementIds_append (ts us : List (Tree ElementFacts)) :
    elementIds (ts ++ us) = elementIds ts ++ elementIds us := by
  rw [elementIds, Tree.valuesAll_append, List.filterMap_append]
  rfl

/-- Trees read within a budget of dictionaries: their ids were met on the way and not before, each of
them once, and no dictionary has paid for two elements. -/
structure Within (doc : Document) (budget : Nat) (met met' : List ObjectId)
    (trees : List (Tree ElementFacts)) : Prop where
  nodup : (elementIds trees).Nodup
  new : ∀ id ∈ elementIds trees, id ∉ met ∧ id ∈ met'
  kept : ∀ id ∈ met, id ∈ met'
  paid : Tree.sizeAll trees + doc.unmet met' ≤ budget + doc.unmet met

namespace Within

variable {doc : Document} {budget budget' : Nat} {met met₁ met' : List ObjectId}
  {trees us : List (Tree ElementFacts)}

theorem none (h : ∀ id ∈ met, id ∈ met') (paid : doc.unmet met' ≤ budget + doc.unmet met) :
    Within doc budget met met' [] :=
  ⟨List.nodup_nil, fun _ hid => absurd hid List.not_mem_nil, h,
    by rwa [Tree.sizeAll, Nat.zero_add]⟩

theorem refl (doc : Document) (budget : Nat) (met : List ObjectId) : Within doc budget met met [] :=
  none (fun _ hid => hid) (Nat.le_add_left _ _)

theorem append (h : Within doc budget met met₁ trees) (h' : Within doc budget' met₁ met' us) :
    Within doc (budget + budget') met met' (trees ++ us) where
  nodup := by
    rw [elementIds_append]
    refine List.nodup_append.mpr ⟨h.nodup, h'.nodup, ?_⟩
    rintro id hid _ hid' rfl
    exact (h'.new id hid').1 (h.new id hid).2
  new := by
    intro id hid
    rw [elementIds_append, List.mem_append] at hid
    rcases hid with hid | hid
    · exact ⟨(h.new id hid).1, h'.kept id (h.new id hid).2⟩
    · exact ⟨fun hmet => (h'.new id hid).1 (h.kept id hmet), (h'.new id hid).2⟩
  kept := fun id hid => h'.kept id (h.kept id hid)
  paid := by
    have hpaid := h.paid
    have hpaid' := h'.paid
    rw [Tree.sizeAll_append]
    omega

/-- An element above what has been read below it, for one dictionary more. -/
theorem node {facts : ElementFacts} (new : facts.id.any met.contains = false)
    (h : Within doc budget (facts.id.toList ++ met) met' trees)
    (paid : budget + 1 + doc.unmet (facts.id.toList ++ met) ≤ budget' + doc.unmet met) :
    Within doc budget' met met' [.node facts trees] := by
  have hids : elementIds [.node facts trees] = facts.id.toList ++ elementIds trees := by
    rw [elementIds, Tree.valuesAll, Tree.values, Tree.valuesAll, List.append_nil]
    cases hid : facts.id with
    | none => exact List.filterMap_cons_none hid
    | some id => exact List.filterMap_cons_some hid
  have hnew : ∀ id ∈ facts.id.toList, id ∉ met := by
    intro id hid
    rw [Option.mem_toList.mp hid] at new
    simpa using new
  refine ⟨?_, fun id hid => ?_, fun id hid => h.kept id (List.mem_append_right _ hid), ?_⟩
  · rw [hids]
    refine List.nodup_append.mpr ⟨Option.toList_nodup _, h.nodup, ?_⟩
    rintro id hid _ hid' rfl
    exact (h.new id hid').1 (List.mem_append_left _ hid)
  · rw [hids, List.mem_append] at hid
    rcases hid with hid | hid
    · exact ⟨hnew id hid, h.kept id (List.mem_append_left _ hid)⟩
    · exact ⟨fun hmet => (h.new id hid).1 (List.mem_append_right _ hmet), (h.new id hid).2⟩
  · have hbelow := h.paid
    rw [Tree.sizeAll, Tree.size, Tree.sizeAll]
    omega

end Within

namespace ElementContext

variable {c : ElementContext} {levels : Nat}

/-- A kid is read within the dictionaries in it, if lists of kids are read within those in them on the
levels below. -/
theorem readKid_within (below : ∀ page met kids, Within c.doc (dictionariesIn kids) met
      (c.readAll levels page met kids).2 (c.readAll levels page met kids).1)
    (page : Option Nat) (trees : List (Tree ElementFacts)) (met : List ObjectId) (kid : Object) :
    ∃ ts met', c.readKid levels page (trees, met) kid = (ts.reverse ++ trees, met') ∧
      Within c.doc kid.dictionaries met met' ts := by
  by_cases hmet : kid.reference?.any met.contains = true
  · refine ⟨[], met, ?_, .refl c.doc _ met⟩
    simp only [readKid, hmet, if_true]
    rfl
  rw [Bool.not_eq_true] at hmet
  have htaken := c.doc.dictionaries_resolve_le hmet
  have hmiss : Within c.doc kid.dictionaries met (kid.reference?.toList ++ met) [] :=
    .none (fun _ hid => List.mem_append_right _ hid) (by omega)
  simp only [readKid, hmet, Bool.false_eq_true, if_false]
  cases hresolved : c.doc.resolve kid with
  | dictionary d =>
    simp only [Object.dictionary?]
    split
    · let facts := c.facts page kid.reference? d
      have hbelow := below facts.page (kid.reference?.toList ++ met) (c.elementKids facts.page d)
      have hkids : dictionariesIn (c.elementKids facts.page d) ≤ dictionariesOf d.entries :=
        Nat.le_trans (dictionariesIn_filter_le _ _) (dictionariesIn_kidsOf_le d)
      have hcost : (Object.dictionary d).dictionaries = 1 + dictionariesOf d.entries := by
        rw [Object.dictionaries]
      rw [hresolved, hcost] at htaken
      refine ⟨[.node facts _], _, rfl, .node hmet hbelow ?_⟩
      show dictionariesIn (c.elementKids facts.page d) + 1 +
        c.doc.unmet (kid.reference?.toList ++ met) ≤ _
      omega
    · exact ⟨[], _, rfl, hmiss⟩
  | _ => exact ⟨[], _, rfl, hmiss⟩

/-- Kids are read within the dictionaries in them, whatever loops there are. -/
theorem readAll_within (c : ElementContext) (levels : Nat) (page : Option Nat) (met : List ObjectId)
    (kids : List Object) : Within c.doc (dictionariesIn kids) met (c.readAll levels page met kids).2
      (c.readAll levels page met kids).1 := by
  induction levels generalizing page met kids with
  | zero => exact .refl c.doc _ met
  | succ levels ih =>
    have hfold : ∀ (kids : List Object) (trees : List (Tree ElementFacts)) (met : List ObjectId),
        ∃ ts met', kids.foldl (c.readKid levels page) (trees, met) = (ts.reverse ++ trees, met') ∧
          Within c.doc (dictionariesIn kids) met met' ts := by
      intro kids
      induction kids with
      | nil => exact fun trees met => ⟨[], met, rfl, .refl c.doc 0 met⟩
      | cons kid kids ihkids =>
        intro trees met
        obtain ⟨ts, met₁, hkid, hwithin⟩ := readKid_within ih page trees met kid
        obtain ⟨us, met', hkids, hwithin'⟩ := ihkids (ts.reverse ++ trees) met₁
        refine ⟨ts ++ us, met', ?_, hwithin.append hwithin'⟩
        rw [List.foldl_cons, hkid, hkids, List.reverse_append, List.append_assoc]
    obtain ⟨ts, met', hread, hwithin⟩ := hfold kids [] met
    rw [readAll_succ, hread, List.append_nil, List.reverse_reverse]
    exact hwithin

end ElementContext

/-! ## Items of outlines -/

namespace Document

/-- The items that are read are those of the objects that a reader enters, in the order in which it does;
it enters no object twice, and none that had been met. -/
theorem readOutline_entered (c : OutlineContext) (limit : Nat) (met : Std.TreeSet ObjectId)
    (next : Option ObjectId) : ∃ entered : List ObjectId,
      entered.Nodup ∧ (∀ id ∈ entered, met.contains id = false) ∧
      (∀ id, (readOutline c limit met next).met.contains id = true ↔
        met.contains id = true ∨ id ∈ entered) ∧
      entered.length + (readOutline c limit met next).left ≤ limit ∧
      Tree.valuesAll (readOutline c limit met next).items =
        entered.filterMap fun id => (c.doc.dict? id).map c.item := by
  fun_induction readOutline c limit met next with
  | case1 limit met => exact ⟨[], List.nodup_nil, by simp, by simp, by simp, rfl⟩
  | case2 met id => exact ⟨[], List.nodup_nil, by simp, by simp, by simp, rfl⟩
  | case3 limit met id hmet => exact ⟨[], List.nodup_nil, by simp, by simp, by simp, rfl⟩
  | case4 limit met id hmet hnone =>
    refine ⟨[id], List.nodup_singleton id, ?_, fun i => ?_, by simp; omega, ?_⟩
    · simpa using Bool.eq_false_iff.mpr hmet
    · rw [contains_insert_iff, List.mem_singleton, or_comm]
    · simp [hnone, Tree.valuesAll]
  | case5 limit met id hmet d hd below after ihbelow ihafter =>
    obtain ⟨entered₁, hnodup₁, hnew₁, hmet₁, hlength₁, hitems₁⟩ := ihbelow
    replace hmet₁ : ∀ i, below.met.contains i = true ↔ (met.insert id).contains i = true ∨
      i ∈ entered₁ := hmet₁
    obtain ⟨entered₂, hnodup₂, hnew₂, hmet₂, hlength₂, hitems₂⟩ := ihafter
    have hapart : ∀ i ∈ entered₂, i ≠ id ∧ met.contains i = false ∧ i ∉ entered₁ := by
      intro i hi
      have hnot := hnew₂ i hi
      rw [← Bool.not_eq_true, hmet₁, contains_insert_iff, not_or, not_or] at hnot
      exact ⟨hnot.1.1, Bool.eq_false_iff.mpr hnot.1.2, hnot.2⟩
    have hbelow : ∀ i ∈ entered₁, i ≠ id ∧ met.contains i = false := by
      intro i hi
      have hnot := hnew₁ i hi
      rw [← Bool.not_eq_true, contains_insert_iff, not_or] at hnot
      exact ⟨hnot.1, Bool.eq_false_iff.mpr hnot.2⟩
    refine ⟨id :: (entered₁ ++ entered₂), ?_, ?_, fun i => ?_, ?_, ?_⟩
    · refine List.nodup_cons.mpr ⟨fun hmem => ?_, List.nodup_append.mpr ⟨hnodup₁, hnodup₂, ?_⟩⟩
      · rcases List.mem_append.mp hmem with h | h
        · exact (hbelow id h).1 rfl
        · exact (hapart id h).1 rfl
      · rintro i hi _ hi' rfl
        exact (hapart i hi').2.2 hi
    · refine List.forall_mem_cons.mpr ⟨Bool.eq_false_iff.mpr hmet, fun i hi => ?_⟩
      exact (List.mem_append.mp hi).elim (fun h => (hbelow i h).2) fun h => (hapart i h).2.1
    · show after.met.contains i = true ↔ _
      rw [hmet₂, hmet₁, contains_insert_iff, List.mem_cons, List.mem_append]
      tauto
    · show (id :: (entered₁ ++ entered₂)).length + after.left ≤ limit + 1
      have hbelow : entered₁.length + below.left ≤ limit := hlength₁
      have hafter : entered₂.length + after.left ≤ below.left := hlength₂
      rw [List.length_cons, List.length_append]
      omega
    · rw [Tree.valuesAll, Tree.values, hitems₁, hitems₂,
        List.filterMap_cons_some (by rw [hd]; rfl), List.filterMap_append, List.cons_append]

/-- However the links of a document loop or share objects: a report tells of no id of an element twice,
nor of the root's, and of no more elements than there are dictionaries; and its outline has the items
of at most 10000 objects, each entered once. -/
theorem structureTrees_outline_bounded (doc : Document) :
    (∀ rootId root, (rootId.toList ++ elementIds (doc.structureTrees rootId root)).Nodup ∧
      Tree.sizeAll (doc.structureTrees rootId root) ≤
        dictionariesOf root.entries + doc.unmet rootId.toList) ∧
    ∀ catalog, ∃ entered : List ObjectId, entered.Nodup ∧ entered.length ≤ 10000 ∧
      Tree.valuesAll (doc.outline catalog) = (entered.filterMap fun id => (doc.dict? id).map
        (OutlineContext.item ⟨doc, doc.pageNumbers, doc.namedDestinations catalog⟩)) ∧
      Tree.sizeAll (doc.outline catalog) ≤ 10000 := by
  refine ⟨fun rootId root => ?_, fun catalog => ?_⟩
  · let c : ElementContext := ⟨doc, doc.roleMap root, doc.pageNumbers⟩
    have hread := c.readAll_within ElementContext.maxLevels none rootId.toList (kidsOf root)
    refine ⟨List.nodup_append.mpr ⟨Option.toList_nodup rootId, hread.nodup, ?_⟩, ?_⟩
    · rintro id hid _ hid' rfl
      exact (hread.new id hid').1 hid
    · have hpaid := hread.paid
      have hkids := dictionariesIn_kidsOf_le root
      show Tree.sizeAll (c.readAll ElementContext.maxLevels none rootId.toList (kidsOf root)).1 ≤ _
      show _ ≤ dictionariesOf root.entries + c.doc.unmet rootId.toList
      omega
  · rw [outline]
    split
    · exact ⟨[], List.nodup_nil, Nat.zero_le _, rfl, Nat.zero_le _⟩
    · next root hroot =>
      obtain ⟨entered, hnodup, -, -, hlength, hitems⟩ := readOutline_entered
        ⟨doc, doc.pageNumbers, doc.namedDestinations catalog⟩ maxOutlineItems ∅ (link? root "First")
      replace hlength : entered.length ≤ 10000 := Nat.le_of_add_right_le hlength
      refine ⟨entered, hnodup, hlength, hitems, ?_⟩
      rw [← Tree.length_valuesAll, hitems]
      exact Nat.le_trans (List.length_filterMap_le _ _) hlength

end Document

end AccessiblePdf
