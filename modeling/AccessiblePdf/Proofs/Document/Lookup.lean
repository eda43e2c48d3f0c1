import AccessiblePdf.Document.Change
import Mathlib.Data.List.Nodup

/-!
What a change to the object table does to look-ups. A direct object in the place of another keeps
all chains of references (`target?_put`), and a new object under an id that is not in use keeps the
chains that lead somewhere (`target?_add`).
-/
namespace AccessiblePdf

namespace Object

/-- Not a reference. -/
def isDirect (o : Object) : Bool := o.reference?.isNone

end Object

namespace Document

variable {doc : Document} {id t : ObjectId} {o o' : Object}

/-! ## Chains of references -/

theorem chase_of_direct {objects : OrderedMap ObjectId Object} (h : objects.get? id = some o)
    (direct : o.isDirect = true) (n : Nat) : chase objects n id = some id := by
  rw [chase, h]
  cases o <;> first | rfl | exact absurd direct Bool.false_ne_true

theorem target?_of_direct (h : doc.objects.get? id = some o) (direct : o.isDirect = true) :
    doc.target? id = some id := chase_of_direct h direct referenceLimit

theorem get?_of_direct (h : doc.objects.get? id = some o) (direct : o.isDirect = true) :
    doc.get? id = some o := by
  rw [get?, target?_of_direct h direct]
  exact h

/-- A chain of references ends at a direct object. -/
theorem direct_of_chase {objects : OrderedMap ObjectId Object} {n : Nat}
    (h : chase objects n id = some t) :
    ∃ o, objects.get? t = some o ∧ o.isDirect = true := by
  induction n generalizing id with
  | zero =>
    rw [chase] at h
    split at h
    · exact absurd h (by simp)
    · exact absurd h (by simp)
    · next o hne ho =>
      obtain rfl := Option.some.inj h
      refine ⟨o, ho, ?_⟩
      cases o with
      | reference next => exact absurd rfl (hne next)
      | _ => rfl
  | succ n ih =>
    rw [chase] at h
    split at h
    · exact absurd h (by simp)
    · exact ih h
    · next o hne ho =>
      obtain rfl := Option.some.inj h
      refine ⟨o, ho, ?_⟩
      cases o with
      | reference next => exact absurd rfl (hne next)
      | _ => rfl

theorem direct_of_target? (h : doc.target? id = some t) :
    ∃ o, doc.objects.get? t = some o ∧ o.isDirect = true :=
  direct_of_chase h

theorem get?_eq_of_target? (h : doc.target? id = some t) :
    doc.get? id = doc.objects.get? t := by
  rw [get?, h]
  rfl

theorem target?_of_get? (h : doc.get? id = some o) :
    ∃ t, doc.target? id = some t ∧ doc.objects.get? t = some o ∧ o.isDirect = true := by
  obtain ⟨t, ht, ho⟩ := Option.bind_eq_some_iff.mp h
  obtain ⟨o', ho', hdirect⟩ := direct_of_target? ht
  obtain rfl : o = o' := Option.some.inj (ho.symm.trans ho')
  exact ⟨t, ht, ho, hdirect⟩

theorem direct_of_get? (h : doc.get? id = some o) : o.isDirect = true := by
  obtain ⟨-, -, -, hdirect⟩ := target?_of_get? h
  exact hdirect

theorem resolve_reference (h : doc.get? id = some o) : doc.resolve (.reference id) = o := by
  rw [resolve, h, Option.getD_some]

theorem resolve_of_direct (doc : Document) (direct : o.isDirect = true) : doc.resolve o = o := by
  cases o <;> first | rfl | exact absurd direct Bool.false_ne_true

/-! ## Another object in a place -/

theorem chase_insert {objects : OrderedMap ObjectId Object} (ho : objects.get? t = some o)
    (direct : o.isDirect = true) (direct' : o'.isDirect = true) (n : Nat) (id : ObjectId) :
    chase (objects.insert t o') n id = chase objects n id := by
  induction n generalizing id with
  | zero =>
    rw [chase, chase, OrderedMap.get?_insert]
    by_cases h : id = t
    · subst h
      rw [if_pos rfl, ho]
      cases o <;> cases o' <;> first | rfl | exact absurd direct Bool.false_ne_true |
        exact absurd direct' Bool.false_ne_true
    · rw [if_neg h]
  | succ n ih =>
    rw [chase, chase, OrderedMap.get?_insert]
    by_cases h : id = t
    · subst h
      rw [if_pos rfl, ho]
      cases o <;> cases o' <;> first | rfl | exact absurd direct Bool.false_ne_true |
        exact absurd direct' Bool.false_ne_true
    · rw [if_neg h]
      simp only [ih]

theorem target?_put (ho : doc.objects.get? t = some o) (direct : o.isDirect = true)
    (direct' : o'.isDirect = true) (id : ObjectId) : (doc.put t o').target? id = doc.target? id :=
  chase_insert ho direct direct' referenceLimit id

theorem get?_put (ho : doc.objects.get? t = some o) (direct : o.isDirect = true)
    (direct' : o'.isDirect = true) (id : ObjectId) :
    (doc.put t o').get? id = if doc.target? id = some t then some o' else doc.get? id := by
  rw [get?, target?_put ho direct direct', get?]
  cases h : doc.target? id with
  | none => simp
  | some t' =>
    rw [Option.bind_some, Option.bind_some, put, OrderedMap.get?_insert]
    simp only [Option.some_inj]

theorem dict?_put {d d' : Dict Object} (ho : doc.objects.get? t = some (.dictionary d))
    (id : ObjectId) : (doc.put t (.dictionary d')).dict? id =
      if doc.target? id = some t then some d' else doc.dict? id := by
  rw [dict?, get?_put ho rfl rfl]
  split <;> rfl

/-! ## A new object -/

/-- Chains that end somewhere do not see a new object. -/
theorem chase_insert_new {objects : OrderedMap ObjectId Object} {f : ObjectId}
    (unused : objects.get? f = none) (o : Object) {n : Nat} (h : chase objects n id = some t) :
    chase (objects.insert f o) n id = some t := by
  induction n generalizing id with
  | zero =>
    rw [chase] at h ⊢
    rw [OrderedMap.get?_insert]
    by_cases hid : id = f
    · rw [hid, unused] at h
      exact absurd h (by simp)
    · rw [if_neg hid]
      exact h
  | succ n ih =>
    rw [chase] at h ⊢
    rw [OrderedMap.get?_insert]
    by_cases hid : id = f
    · rw [hid, unused] at h
      exact absurd h (by simp)
    · rw [if_neg hid]
      revert h
      split
      · exact fun h => h
      · exact fun h => ih h
      · exact fun h => h

theorem chase_of_insert_new {objects : OrderedMap ObjectId Object} {f : ObjectId}
    (direct : o.isDirect = true) (hne : t ≠ f) {m : Nat}
    (h : chase (objects.insert f o) m id = some t) : chase objects m id = some t := by
  have hid : ∀ {m id}, chase (objects.insert f o) m id = some t → id ≠ f := by
    rintro m id h rfl
    rw [chase_of_direct (OrderedMap.get?_insert_self _ _ _) direct] at h
    exact hne (Option.some.inj h).symm
  induction m generalizing id with
  | zero =>
    have hother := OrderedMap.get?_insert_of_ne objects (hid h) o
    rw [chase] at h ⊢
    rwa [hother] at h
  | succ m ih =>
    have hother := OrderedMap.get?_insert_of_ne objects (hid h) o
    rw [chase] at h ⊢
    rw [hother] at h
    revert h
    split
    · exact fun h => h
    · exact fun h => ih h
    · exact fun h => h

/-- The next id is not in use. -/
def Unused (doc : Document) : Prop := doc.objects.get? doc.nextId = none

theorem objects_add (doc : Document) (o : Object) (id : ObjectId) :
    (doc.add o).objects.get? id = if id = doc.nextId then some o else doc.objects.get? id := by
  rw [add, put, OrderedMap.get?_insert]
  rfl

/-- No object has a number above the highest one given out. -/
def Numbered (doc : Document) : Prop :=
  ∀ id o, doc.objects.get? id = some o → id.number ≤ doc.maxId

theorem Numbered.unused (h : doc.Numbered) : doc.Unused := by
  cases ho : doc.objects.get? doc.nextId with
  | none => exact ho
  | some o =>
    have hle : doc.maxId + 1 ≤ doc.maxId := h _ o ho
    omega

theorem Numbered.add (h : doc.Numbered) (o : Object) : (doc.add o).Numbered := by
  intro id v hv
  rw [objects_add] at hv
  split at hv
  · next hid =>
    rw [hid]
    exact Nat.le_refl _
  · exact Nat.le_succ_of_le (h id v hv)

/-- Ids that came between two documents. -/
def NewIds (doc doc' : Document) (ids : List ObjectId) : Prop :=
  ids.Nodup ∧ ∀ id ∈ ids, doc.maxId < id.number ∧ id.number ≤ doc'.maxId

theorem NewIds.nil (doc doc' : Document) : doc.NewIds doc' [] :=
  ⟨List.nodup_nil, fun _ h => absurd h List.not_mem_nil⟩

theorem NewIds.nextId {doc' : Document} (grown : doc.maxId < doc'.maxId) :
    doc.NewIds doc' [doc.nextId] := by
  refine ⟨List.nodup_singleton _, fun id hid => ?_⟩
  rw [List.mem_singleton.mp hid]
  exact ⟨Nat.lt_succ_self _, grown⟩

theorem NewIds.perm {doc' : Document} {ids ids' : List ObjectId} (h : doc.NewIds doc' ids)
    (perm : ids'.Perm ids) : doc.NewIds doc' ids' :=
  ⟨perm.nodup_iff.mpr h.1, fun id hid => h.2 id (perm.mem_iff.mp hid)⟩

theorem NewIds.append {doc₁ doc₂ doc' : Document} {ids ids' : List ObjectId}
    (h : doc.NewIds doc₁ ids) (h' : doc₂.NewIds doc' ids') (grown : doc.maxId ≤ doc₁.maxId)
    (grown₁ : doc₁.maxId ≤ doc₂.maxId) (grown₂ : doc₂.maxId ≤ doc'.maxId) :
    doc.NewIds doc' (ids ++ ids') := by
  refine ⟨List.nodup_append.mpr ⟨h.1, h'.1, ?_⟩, fun id hid => ?_⟩
  · rintro id hid _ hid' rfl
    have hearlier := (h.2 id hid).2
    have hlater := (h'.2 id hid').1
    omega
  · rcases List.mem_append.mp hid with hid | hid
    · have := h.2 id hid
      omega
    · have := h'.2 id hid
      omega

theorem target?_add (unused : doc.Unused) (o : Object) (h : doc.target? id = some t) :
    (doc.add o).target? id = some t :=
  chase_insert_new unused o h

theorem get?_add (unused : doc.Unused) (o : Object) {x : Object} (h : doc.get? id = some x) :
    (doc.add o).get? id = some x := by
  obtain ⟨t, ht, hx, _⟩ := target?_of_get? h
  have hne : t ≠ doc.nextId := by
    rintro rfl
    rw [unused] at hx
    exact absurd hx (by simp)
  rw [get?_eq_of_target? (target?_add unused o ht), objects_add, if_neg hne, hx]

theorem get?_add_nextId (direct : o.isDirect = true) : (doc.add o).get? doc.nextId = some o :=
  get?_of_direct (by rw [objects_add, if_pos rfl]) direct

theorem resolve_add_nextId (direct : o.isDirect = true) :
    (doc.add o).resolve (.reference doc.nextId) = o := by
  rw [resolve, get?_add_nextId direct]
  rfl

/-! ## Changing a dictionary -/

theorem target?_of_dict? {d : Dict Object} (h : doc.dict? id = some d) :
    ∃ t, doc.target? id = some t ∧ doc.objects.get? t = some (.dictionary d) := by
  obtain ⟨o, ho, hd⟩ := Option.bind_eq_some_iff.mp h
  obtain ⟨t, ht, hto, _⟩ := target?_of_get? ho
  cases o with
  | dictionary d' =>
    obtain rfl := Option.some.inj hd
    exact ⟨t, ht, hto⟩
  | _ => exact absurd hd (by simp [Object.dictionary?])

theorem get?_of_dict? {d : Dict Object} (h : doc.dict? id = some d) :
    doc.get? id = some (.dictionary d) := by
  obtain ⟨t, ht, hd⟩ := target?_of_dict? h
  rw [get?_eq_of_target? ht, hd]

theorem dict?_of_get? {d : Dict Object} (h : doc.get? id = some (.dictionary d)) :
    doc.dict? id = some d := by
  rw [dict?, h]
  rfl

theorem dict?_add (unused : doc.Unused) (o : Object) {d : Dict Object} (h : doc.dict? id = some d) :
    (doc.add o).dict? id = some d :=
  dict?_of_get? (get?_add unused o (get?_of_dict? h))

theorem dictionary?_resolve (doc : Document) (id : ObjectId) :
    (doc.resolve (.reference id)).dictionary? = doc.dict? id := by
  rw [resolve, dict?]
  cases doc.get? id <;> rfl

theorem modifyDict?_eq_some {f : Dict Object → Dict Object} {doc' : Document} :
    doc.modifyDict? id f = some doc' ↔ ∃ t d, doc.target? id = some t ∧
      doc.objects.get? t = some (.dictionary d) ∧ doc' = doc.put t (.dictionary (f d)) := by
  constructor
  · intro h
    obtain ⟨t, ht, h⟩ := Option.bind_eq_some_iff.mp h
    obtain ⟨o, ho, h⟩ := Option.bind_eq_some_iff.mp h
    obtain ⟨d, hd, h⟩ := Option.bind_eq_some_iff.mp h
    cases o with
    | dictionary d' =>
      obtain rfl := Option.some.inj hd
      exact ⟨t, d', ht, ho, (Option.some.inj h).symm⟩
    | _ => exact absurd hd (by simp [Object.dictionary?])
  · rintro ⟨t, d, ht, hd, rfl⟩
    rw [modifyDict?]
    simp [ht, hd, Object.dictionary?]

end Document

end AccessiblePdf
