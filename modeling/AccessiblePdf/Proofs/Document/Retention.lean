import AccessiblePdf.Proofs.Document.Entry
import AccessiblePdf.Proofs.Document.Likeness
import AccessiblePdf.Proofs.Draft
import AccessiblePdf.Proofs.OrderedMap
import Mathlib.Data.List.Forall2

/-!
Documents that retain what others hold, up to entries that are free (`Document.Retains`). A dictionary
may have moved from its place behind a reference to it, and an id that stood for nothing may stand for a
dictionary. So numbers, names and strings are read as before (`Seen.eq`), and of arrays and dictionaries
each item and each other entry is retained. Edits that make dictionaries objects of their own retain
everything (`indirectDict_retains`).
-/
namespace AccessiblePdf

/-! ## Objects -/

section Objects

variable {free : Bytes → Bool → Prop} {doc : Document} {a b c : Object} {x y : Dict Object} {key : Bytes}

/-- An object as it was stored, and as a later document stores it in its place. Which entries of
dictionaries are free depends on their key, and on whether there was one. -/
inductive Object.Retained (free : Bytes → Bool → Prop) (doc : Document) : Object → Object → Prop where
  | same (o : Object) : Retained free doc o o
  | dictionary {x y : Dict Object}
      (has : ∀ key, ¬free key (x.get? key).isSome → (y.get? key).isSome = (x.get? key).isSome)
      (entry : ∀ key a b, ¬free key true → x.get? key = some a → y.get? key = some b →
        Retained free doc a b) : Retained free doc (.dictionary x) (.dictionary y)
  | array {items items' : List Object} (length : items'.length = items.length)
      (item : ∀ (i : Nat) a b, items[i]? = some a → items'[i]? = some b → Retained free doc a b) :
      Retained free doc (.array items) (.array items')
  | moved {x y : Dict Object} {id : ObjectId} (here : doc.get? id = some (.dictionary y))
      (retained : Retained free doc (.dictionary x) (.dictionary y)) :
      Retained free doc (.dictionary x) (.reference id)

/-- What an object stood for, and what it stands for in a later document. -/
inductive Object.Seen (free : Bytes → Bool → Prop) (doc : Document) : Object → Object → Prop where
  | retained {a b : Object} (h : a.Retained free doc b) (direct : b.isDirect = true) :
      Seen free doc a b
  | fresh (y : Dict Object) : Seen free doc .null (.dictionary y)

namespace Object.Retained

theorem of_get? (h : ∀ key, ¬free key (x.get? key).isSome → y.get? key = x.get? key) :
    Retained free doc (.dictionary x) (.dictionary y) := by
  refine .dictionary (fun key hkey => by rw [h key hkey]) fun key a b hkey ha hb => ?_
  rw [h key (by rw [ha]; exact hkey), ha] at hb
  rw [Option.some.inj hb]
  exact .same b

theorem insert (hkey : free key (x.get? key).isSome) (o : Object) :
    Retained free doc (.dictionary x) (.dictionary (x.insert key o)) := by
  refine of_get? fun key' hkey' => OrderedMap.get?_insert_of_ne _ ?_ _
  rintro rfl
  exact hkey' hkey

theorem insert_rel (ha : x.get? key = some a) (hab : a.Retained free doc b) :
    Retained free doc (.dictionary x) (.dictionary (x.insert key b)) := by
  refine .dictionary (fun key' _ => ?_) fun key' a' b' _ ha' hb' => ?_
  · rw [OrderedMap.get?_insert]
    split
    · next h => rw [h, ha]; rfl
    · rfl
  · rw [OrderedMap.get?_insert] at hb'
    split at hb'
    · next h =>
      rw [h, ha] at ha'
      rwa [← Option.some.inj ha', ← Option.some.inj hb']
    · rw [ha'] at hb'
      rw [Option.some.inj hb']
      exact .same b'

theorem set_moved {items : List Object} {i : Nat} {id : ObjectId}
    (hi : items[i]? = some (.dictionary x)) (here : doc.get? id = some (.dictionary x)) :
    Retained free doc (.array items) (.array (items.set i (.reference id))) := by
  refine .array List.length_set fun j a b ha hb => ?_
  rw [List.getElem?_set] at hb
  split at hb
  · next hij =>
    subst hij
    obtain rfl := Option.some.inj (hi.symm.trans ha)
    split at hb
    · obtain rfl := Option.some.inj hb
      exact .moved here (.same _)
    · cases hb
  · obtain rfl := Option.some.inj (ha.symm.trans hb)
    exact .same a

theorem entry_rel (h : Retained free doc (.dictionary x) (.dictionary y))
    (hkey : ¬free key (x.get? key).isSome) :
    Option.Rel (Retained free doc) (x.get? key) (y.get? key) := by
  cases h with
  | same => cases x.get? key <;> first | exact .none | exact .some (.same _)
  | dictionary has entry =>
    have hhas := has key hkey
    cases hx : x.get? key with
    | none =>
      rw [hx, Option.isSome_none, Option.isSome_eq_false_iff, Option.isNone_iff_eq_none] at hhas
      rw [hhas]
      exact .none
    | some a =>
      rw [hx, Option.isSome_some] at hhas hkey
      obtain ⟨b, hb⟩ := Option.isSome_iff_exists.mp hhas
      rw [hb]
      exact .some (entry key a b hkey hx hb)

theorem reference_entry {id : ObjectId} (h : Retained free doc (.dictionary x) (.dictionary y))
    (hkey : ¬free key true) (hid : x.get? key = some (.reference id)) :
    y.get? key = some (.reference id) := by
  have hrel := h.entry_rel (by rw [hid]; exact hkey)
  rw [hid] at hrel
  cases hy : y.get? key with
  | none =>
    rw [hy] at hrel
    cases hrel
  | some b =>
    rw [hy] at hrel
    cases hrel with
    | some hsame =>
      cases hsame
      rfl

theorem items_rel {items items' : List Object}
    (h : Retained free doc (.array items) (.array items')) :
    List.Forall₂ (Retained free doc) items items' := by
  cases h with
  | same => exact List.forall₂_same.mpr fun o _ => .same o
  | array length item =>
    refine List.forall₂_iff_get.mpr ⟨length.symm, fun i hi hi' => ?_⟩
    exact item i _ _ (List.getElem?_eq_getElem hi) (List.getElem?_eq_getElem hi')

end Object.Retained

end Objects

/-- The entries under some keys. -/
def Under (keys : List String) (key : Bytes) (_ : Bool) : Prop := key ∈ keys.map utf8

theorem not_under {keys : List String} {key : Bytes} (h : key ∉ keys.map utf8) (present : Bool) :
    ¬Under keys key present := h

theorem Under.mono {keys keys' : List String} (sub : keys ⊆ keys') (key : Bytes) (present : Bool)
    (h : Under keys key present) : Under keys' key present := List.map_subset utf8 sub h

/-! ## Documents -/

/-- A later document holds what an earlier one held, up to entries that are free. -/
structure Document.Retains (free : Bytes → Bool → Prop) (old doc : Document) : Prop where
  kept : ∀ id a, old.get? id = some a → ∃ b, doc.get? id = some b ∧ a.Retained free doc b
  fresh : ∀ id b, old.get? id = none → doc.get? id = some b → ∃ y, b = .dictionary y

section Later

variable {free : Bytes → Bool → Prop} {old doc doc' : Document} {a b c : Object} {x y z : Dict Object}
  {key : Bytes}

theorem Document.Retains.dict? {id : ObjectId} (h : old.Retains free doc)
    (hx : old.dict? id = some x) : ∃ y, doc.dict? id = some y ∧
      (Object.dictionary x).Retained free doc (.dictionary y) := by
  obtain ⟨b, hb, hretained⟩ := h.kept id _ (Document.get?_of_dict? hx)
  cases hretained with
  | same => exact ⟨x, Document.dict?_of_get? hb, .same _⟩
  | dictionary has entry => exact ⟨_, Document.dict?_of_get? hb, .dictionary has entry⟩
  | moved => exact absurd (Document.direct_of_get? hb) Bool.false_ne_true

namespace Object.Retained

/-- What is retained goes on being retained. -/
theorem trans (h : a.Retained free doc b) (later : doc.Retains free doc')
    (h' : b.Retained free doc' c) : a.Retained free doc' c := by
  -- The induction is on what the first step did; the second one may do more below that.
  induction h generalizing c with
  | same => exact h'
  | @dictionary x y has entry ih =>
    have hdict : ∀ z, (Object.dictionary y).Retained free doc' (.dictionary z) →
        (Object.dictionary x).Retained free doc' (.dictionary z) := by
      intro z hz
      refine .dictionary (fun key hkey => ?_) fun key a c hkey ha hc => ?_
      · have hhas := has key hkey
        have hrel : Option.Rel (Retained free doc') (y.get? key) (z.get? key) :=
          hz.entry_rel (by rw [hhas]; exact hkey)
        rw [← hhas]
        revert hrel
        generalize y.get? key = o
        generalize z.get? key = o'
        intro hrel
        cases hrel <;> rfl
      · have hb := has key (by rw [ha]; exact hkey)
        rw [ha, Option.isSome_some] at hb
        have hrel : Option.Rel (Retained free doc') (y.get? key) (z.get? key) :=
          hz.entry_rel (by rw [hb]; exact hkey)
        obtain ⟨b, hb⟩ := Option.isSome_iff_exists.mp hb
        rw [hb, hc] at hrel
        cases hrel with
        | some hbc => exact ih key a b hkey ha hb hbc
    cases h' with
    | same => exact hdict y (.same _)
    | dictionary has' entry' => exact hdict _ (.dictionary has' entry')
    | moved here hz => exact .moved here (hdict _ hz)
  | @array items items' length item ih =>
    have harray : ∀ items'', (Object.array items').Retained free doc' (.array items'') →
        (Object.array items).Retained free doc' (.array items'') := by
      intro items'' hitems
      have hforall := List.forall₂_iff_get.mp hitems.items_rel
      refine .array (hforall.1.symm.trans length) fun i a c ha hc => ?_
      have hi : i < items'.length := by
        rw [length]
        exact (List.getElem?_eq_some_iff.mp ha).1
      obtain ⟨hi'', rfl⟩ := List.getElem?_eq_some_iff.mp hc
      exact ih i a _ ha (List.getElem?_eq_getElem hi) (hforall.2 i hi hi'')
    cases h' with
    | same => exact harray items' (.same _)
    | array length' item' => exact harray _ (.array length' item')
  | @moved x y id here _ ih =>
    cases h' with
    | same =>
      obtain ⟨z, hz, hretained⟩ := later.dict? (Document.dict?_of_get? here)
      exact .moved (Document.get?_of_dict? hz) (ih hretained)

theorem mono {free' : Bytes → Bool → Prop} (sub : ∀ key present, free key present → free' key present)
    (h : a.Retained free doc b) : a.Retained free' doc b := by
  induction h with
  | same o => exact .same o
  | dictionary has _ ih =>
    exact .dictionary (fun key hkey => has key fun hfree => hkey (sub _ _ hfree))
      fun key a b hkey ha hb => ih key a b (fun hfree => hkey (sub _ _ hfree)) ha hb
  | array length _ ih => exact .array length ih
  | moved here _ ih => exact .moved here ih

end Object.Retained

namespace Document.Retains

theorem refl (doc : Document) : doc.Retains free doc :=
  ⟨fun _ a ha => ⟨a, ha, .same a⟩, fun _ _ hnone hb => by rw [hnone] at hb; cases hb⟩

theorem mono {free' : Bytes → Bool → Prop} (sub : ∀ key present, free key present → free' key present)
    (h : old.Retains free doc) : old.Retains free' doc where
  kept := by
    intro id a ha
    obtain ⟨b, hb, hab⟩ := h.kept id a ha
    exact ⟨b, hb, hab.mono sub⟩
  fresh := h.fresh

theorem trans (h : old.Retains free doc) (h' : doc.Retains free doc') : old.Retains free doc' where
  kept := by
    intro id a ha
    obtain ⟨b, hb, hab⟩ := h.kept id a ha
    obtain ⟨c, hc, hbc⟩ := h'.kept id b hb
    exact ⟨c, hc, hab.trans h' hbc⟩
  fresh := by
    intro id c hnone hc
    cases hb : doc.get? id with
    | none => exact h'.fresh id c hb hc
    | some b =>
      obtain ⟨y, rfl⟩ := h.fresh id b hnone hb
      obtain ⟨z, hz, -⟩ := h'.dict? (dict?_of_get? hb)
      rw [get?_of_dict? hz] at hc
      exact ⟨z, (Option.some.inj hc).symm⟩

theorem put {t : ObjectId} (ha : doc.objects.get? t = some a) (direct : a.isDirect = true)
    (direct' : b.isDirect = true) (h : a.Retained free (doc.put t b) b) :
    doc.Retains free (doc.put t b) where
  kept := by
    intro id o ho
    rw [get?_put ha direct direct']
    split
    · next ht =>
      rw [get?_eq_of_target? ht, ha] at ho
      rw [← Option.some.inj ho]
      exact ⟨b, rfl, h⟩
    · exact ⟨o, ho, .same o⟩
  fresh := by
    intro id o hnone ho
    rw [get?_put ha direct direct'] at ho
    split at ho
    · next ht =>
      rw [get?_eq_of_target? ht, ha] at hnone
      cases hnone
    · rw [hnone] at ho
      cases ho

end Document.Retains

theorem Document.Retains.add (unused : doc.Unused) (y : Dict Object) :
    doc.Retains free (doc.add (.dictionary y)) where
  kept := fun _ a ha => ⟨a, get?_add unused _ ha, .same a⟩
  fresh := by
    intro id b hnone hb
    obtain ⟨t, ht, hobject, -⟩ := target?_of_get? hb
    rw [objects_add] at hobject
    by_cases hnew : t = doc.nextId
    · rw [if_pos hnew] at hobject
      exact ⟨y, (Option.some.inj hobject).symm⟩
    · rw [if_neg hnew] at hobject
      have hold : doc.target? id = some t := chase_of_insert_new rfl hnew ht
      rw [get?_eq_of_target? hold, hobject] at hnone
      cases hnone

theorem Document.Retains.add_put (unused : doc.Unused) {t : ObjectId}
    (ha : doc.objects.get? t = some a) (direct : a.isDirect = true) (direct' : b.isDirect = true)
    (retained : ∀ later : Document, later.get? doc.nextId = some (.dictionary z) →
      a.Retained free later b) :
    doc.Retains free ((doc.add (.dictionary z)).put t b) ∧
      ((doc.add (.dictionary z)).put t b).get? doc.nextId = some (.dictionary z) := by
  have hne : t ≠ doc.nextId := by
    rintro rfl
    rw [unused] at ha
    cases ha
  have hadd : (doc.add (.dictionary z)).objects.get? t = some a := by
    rw [objects_add, if_neg hne, ha]
  have hnew : ((doc.add (.dictionary z)).put t b).get? doc.nextId = some (.dictionary z) := by
    rw [get?_put hadd direct direct', if_neg, get?_add_nextId rfl]
    intro hend
    rw [target?_of_direct (by rw [objects_add, if_pos rfl]) rfl] at hend
    exact hne (Option.some.inj hend).symm
  exact ⟨(add unused z).trans (put hadd direct direct' (retained _ hnew)), hnew⟩

/-! ## Reading -/

/-- An entry is not a reference to nothing. -/
def Document.Leads (doc : Document) (x : Dict Object) (key : Bytes) : Prop :=
  ∀ id, x.get? key = some (.reference id) → (doc.get? id).isSome = true

namespace Object.Seen

/-- What tells neither arrays nor dictionaries apart, nor from nothing, is read as before. -/
theorem eq {α : Type} (h : a.Seen free doc b) {f : Object → α} {r : α} (null : f .null = r)
    (array : ∀ items, f (.array items) = r) (dictionary : ∀ x, f (.dictionary x) = r) : f b = f a := by
  cases h with
  | fresh y => rw [dictionary, null]
  | retained h direct =>
    cases h with
    | same => rfl
    | dictionary => rw [dictionary, dictionary]
    | array => rw [array, array]
    | moved => exact absurd direct Bool.false_ne_true

theorem number?_eq (h : a.Seen free doc b) : b.number? = a.number? :=
  h.eq rfl (fun _ => rfl) fun _ => rfl

theorem nameText?_eq (h : a.Seen free doc b) : b.nameText? = a.nameText? :=
  h.eq rfl (fun _ => rfl) fun _ => rfl

theorem array?_rel (h : a.Seen free doc b) :
    Option.Rel (List.Forall₂ (Object.Retained free doc)) a.array? b.array? := by
  cases h with
  | fresh y => exact .none
  | retained h direct =>
    cases h with
    | same =>
      cases a with
      | array items => exact .some (List.forall₂_same.mpr fun o _ => .same o)
      | _ => exact .none
    | dictionary => exact .none
    | array length item => exact .some (Retained.array length item).items_rel
    | moved => exact absurd direct Bool.false_ne_true

theorem exists_array {items : List Object} (h : (Object.array items).Seen free doc b) :
    ∃ items', b = .array items' ∧ List.Forall₂ (Object.Retained free doc) items items' := by
  obtain ⟨items', hitems', hrel⟩ := h.array?_rel.exists_right rfl
  cases b with
  | array _ =>
    obtain rfl := Option.some.inj hitems'
    exact ⟨_, rfl, hrel⟩
  | _ => cases hitems'

theorem array?_eq_none (h : a.Seen free doc b) (ha : a.array? = none) : b.array? = none := by
  have hrel := h.array?_rel
  rw [ha] at hrel
  revert hrel
  generalize b.array? = o
  intro hrel
  cases hrel
  rfl

theorem exists_dictionary (h : (Object.dictionary x).Seen free doc b) :
    ∃ y, b = .dictionary y ∧ (Object.dictionary x).Retained free doc (.dictionary y) := by
  cases h with
  | retained h direct =>
    cases h with
    | same => exact ⟨x, rfl, .same _⟩
    | dictionary has entry => exact ⟨_, rfl, .dictionary has entry⟩
    | moved => exact absurd direct Bool.false_ne_true

end Object.Seen

namespace Document.Retains

variable (h : old.Retains free doc)

include h

theorem resolve_retained (hab : a.Retained free doc b)
    (leads : ∀ id, a = .reference id → (old.get? id).isSome = true) :
    (old.resolve a).Retained free doc (doc.resolve b) ∧ (doc.resolve b).isDirect = true := by
  cases hab with
  | same =>
    cases a with
    | reference id =>
      obtain ⟨o, ho⟩ := Option.isSome_iff_exists.mp (leads id rfl)
      obtain ⟨o', ho', hretained⟩ := h.kept id o ho
      rw [resolve_reference ho, resolve_reference ho']
      exact ⟨hretained, direct_of_get? ho'⟩
    | _ => exact ⟨.same _, rfl⟩
  | dictionary has entry => exact ⟨.dictionary has entry, rfl⟩
  | array length item => exact ⟨.array length item, rfl⟩
  | moved here hretained =>
    rw [resolve_reference here]
    exact ⟨hretained, rfl⟩

theorem resolve (hab : a.Retained free doc b) : (old.resolve a).Seen free doc (doc.resolve b) := by
  by_cases leads : ∀ id, a = .reference id → (old.get? id).isSome = true
  · obtain ⟨hretained, direct⟩ := h.resolve_retained hab leads
    exact .retained hretained direct
  · obtain ⟨id, hid⟩ := not_forall.mp leads
    obtain ⟨rfl, hnone⟩ := Classical.not_imp.mp hid
    rw [Option.isSome_iff_ne_none, not_not] at hnone
    cases hab
    rw [Document.resolve, hnone, Option.getD_none]
    cases hb : doc.get? id with
    | none =>
      rw [Document.resolve, hb, Option.getD_none]
      exact .retained (.same _) rfl
    | some b =>
      obtain ⟨y, rfl⟩ := h.fresh id b hnone hb
      rw [resolve_reference hb]
      exact .fresh y

theorem value?_rel (hxy : (Object.dictionary x).Retained free doc (.dictionary y))
    (hkey : ¬free key (x.get? key).isSome) :
    Option.Rel (Object.Seen free doc) (old.value? x key) (doc.value? y key) := by
  have hrel := hxy.entry_rel hkey
  rw [value?, value?]
  revert hrel
  generalize x.get? key = o
  generalize y.get? key = o'
  intro hrel
  cases hrel with
  | none => exact .none
  | some hab => exact .some (h.resolve hab)

theorem value?_retained (hxy : (Object.dictionary x).Retained free doc (.dictionary y))
    (hkey : ¬free key (x.get? key).isSome) (leads : old.Leads x key) :
    Option.Rel (fun a b => a.Retained free doc b ∧ b.isDirect = true)
      (old.value? x key) (doc.value? y key) := by
  have hrel := hxy.entry_rel hkey
  rw [value?, value?]
  rw [Leads] at leads
  revert hrel leads
  generalize x.get? key = o
  generalize y.get? key = o'
  intro leads hrel
  cases hrel with
  | none => exact .none
  | some hab => exact .some (h.resolve_retained hab fun id hid => leads id (congrArg some hid))

theorem value?_same (x : Dict Object) (key : Bytes) :
    Option.Rel (Object.Seen free doc) (old.value? x key) (doc.value? x key) := by
  rw [value?, value?]
  cases x.get? key with
  | none => exact .none
  | some o => exact .some (h.resolve (.same o))

theorem entryNumber?_eq (hxy : (Object.dictionary x).Retained free doc (.dictionary y))
    (hkey : ¬free key (x.get? key).isSome) : doc.entryNumber? y key = old.entryNumber? x key :=
  (h.value?_rel hxy hkey).bind_eq fun _ _ hseen => hseen.number?_eq

theorem entryName?_eq (hxy : (Object.dictionary x).Retained free doc (.dictionary y))
    (hkey : ¬free key (x.get? key).isSome) : doc.entryName? y key = old.entryName? x key :=
  (h.value?_rel hxy hkey).bind_eq fun _ _ hseen => hseen.nameText?_eq

theorem entryArray?_rel (hxy : (Object.dictionary x).Retained free doc (.dictionary y))
    (hkey : ¬free key (x.get? key).isSome) : Option.Rel (List.Forall₂ (Object.Retained free doc))
      (old.entryArray? x key) (doc.entryArray? y key) :=
  (h.value?_rel hxy hkey).bind fun _ _ hseen => hseen.array?_rel

theorem exists_dictionary (hxy : (Object.dictionary x).Retained free doc (.dictionary y))
    (hkey : ¬free key (x.get? key).isSome) (hz : old.value? x key = some (.dictionary z)) :
    ∃ z', doc.value? y key = some (.dictionary z') ∧
      (Object.dictionary z).Retained free doc (.dictionary z') := by
  have hrel := h.value?_rel hxy hkey
  rw [hz] at hrel
  obtain ⟨b, hb, hseen⟩ := hrel.exists_right rfl
  obtain ⟨z', rfl, hretained⟩ := hseen.exists_dictionary
  exact ⟨z', hb, hretained⟩

end Document.Retains

end Later

/-! ## Dictionaries of their own -/

namespace Edit

variable {free : Bytes → Bool → Prop} {d d' : Draft} {owner id : ObjectId} {x z : Dict Object}
  {key : Bytes} {u : Unit}

theorem setEntry_new (unused : d.doc.Unused) (hx : d.doc.dict? owner = some x) {o : Object}
    (retained : ∀ later : Document, later.get? d.doc.nextId = some (.dictionary z) →
      (Object.dictionary x).Retained free later (.dictionary (x.insert key o)))
    (hrun : (setEntry owner key o).run { d with doc := d.doc.add (.dictionary z) } = .ok u d') :
    d.doc.Retains free d'.doc ∧ d'.doc.dict? d.doc.nextId = some z ∧
      d'.doc.dict? owner = some (x.insert key o) ∧
      (Object.dictionary x).Retained free d'.doc (.dictionary (x.insert key o)) := by
  obtain ⟨t, y, ht, hy, rfl⟩ := setEntry_ok.mp hrun
  obtain ⟨s, hs, hxs⟩ := Document.target?_of_dict? hx
  obtain rfl : s = t :=
    Option.some.inj ((Document.target?_add unused (.dictionary z) hs).symm.trans ht)
  obtain rfl : x = y := by
    have hsame := Document.get?_add unused (.dictionary z) (Document.get?_of_dict? hx)
    rw [Document.get?_eq_of_target? ht, hy] at hsame
    exact (Object.dictionary.inj (Option.some.inj hsame)).symm
  obtain ⟨hretains, hnew⟩ := Document.Retains.add_put unused hxs rfl rfl retained
  refine ⟨hretains, Document.dict?_of_get? hnew, ?_, retained _ hnew⟩
  rw [Document.dict?_put hy, if_pos ht]

/-- An array with an id of its own changes when there is a new dictionary, which it may refer to. -/
theorem modifyArray?_new {doc : Document} (unused : doc.Unused) {r : ObjectId} {items : List Object}
    (hr : doc.get? r = some (.array items)) {f : List Object → List Object}
    (retained : ∀ later : Document, later.get? doc.nextId = some (.dictionary z) →
      (Object.array items).Retained free later (.array (f items))) :
    ∃ doc', (doc.add (.dictionary z)).modifyArray? r f = some doc' ∧ doc.Retains free doc' ∧
      doc'.get? doc.nextId = some (.dictionary z) ∧ doc'.get? r = some (.array (f items)) ∧
      ∀ id x, doc.dict? id = some x → doc'.dict? id = some x := by
  obtain ⟨t, ht, harray, -⟩ := Document.target?_of_get? hr
  have htadd := Document.target?_add unused (.dictionary z) ht
  have hobject : (doc.add (.dictionary z)).objects.get? t = some (.array items) := by
    rw [← Document.get?_eq_of_target? htadd]
    exact Document.get?_add unused _ hr
  have hset : (doc.add (.dictionary z)).modifyArray? r f =
      some ((doc.add (.dictionary z)).put t (.array (f items))) := by
    rw [Document.modifyArray?]
    simp [htadd, hobject, Object.array?]
  obtain ⟨hretains, hnew⟩ := Document.Retains.add_put unused harray rfl rfl retained
  refine ⟨_, hset, hretains, hnew, by rw [Document.get?_put hobject rfl rfl, if_pos htadd],
    fun id x hx => ?_⟩
  have hxadd : (doc.add (.dictionary z)).dict? id = some x := Document.dict?_add unused _ hx
  obtain ⟨s, hs, hxs⟩ := Document.target?_of_dict? hxadd
  rw [Document.dict?, Document.get?_put hobject rfl rfl, if_neg, ← Document.dict?, hxadd]
  intro hend
  rw [hs, Option.some_inj] at hend
  rw [hend, hobject] at hxs
  cases hxs

/-- An array in an entry, or behind the reference there, changes when there is a new dictionary, which it
may refer to. -/
theorem modifyArray_new (unused : d.doc.Unused) (hx : d.doc.dict? owner = some x) {items : List Object}
    (hitems : d.doc.entryArray? x key = some items) {f : List Object → List Object}
    (retained : ∀ later : Document, later.get? d.doc.nextId = some (.dictionary z) →
      (Object.array items).Retained free later (.array (f items)))
    (hrun : (modifyArray owner key f).run { d with doc := d.doc.add (.dictionary z) } = .ok u d') :
    d.doc.Retains free d'.doc ∧ d'.doc.dict? d.doc.nextId = some z ∧
      ∃ y, d'.doc.dict? owner = some y ∧ (Object.dictionary x).Retained free d'.doc (.dictionary y) ∧
        d'.doc.entryArray? y key = some (f items) := by
  unfold modifyArray at hrun
  obtain ⟨x', d₀, hdict, hrest⟩ := bind_ok.mp hrun
  obtain ⟨hx', rfl⟩ := dict_ok.mp hdict
  have hxadd : (d.doc.add (.dictionary z)).dict? owner = some x := Document.dict?_add unused _ hx
  obtain rfl : x = x' := Option.some.inj (hxadd.symm.trans hx')
  obtain ⟨o, ho, harray⟩ := Option.bind_eq_some_iff.mp hitems
  obtain ⟨entry, hentry, rfl⟩ := Option.map_eq_some_iff.mp ho
  rw [hentry] at hrest
  cases entry with
  | array items' =>
    obtain rfl : items' = items := Option.some.inj harray
    have hinsert (later : Document) (hnew : later.get? d.doc.nextId = some (.dictionary z)) :
        (Object.dictionary x).Retained free later (.dictionary (x.insert key (.array (f items')))) :=
      .insert_rel hentry (retained later hnew)
    obtain ⟨hretains, hid, howner, hretained⟩ := setEntry_new unused hx hinsert hrest
    refine ⟨hretains, hid, _, howner, hretained, ?_⟩
    rw [Document.entryArray?, Document.value?_of_direct (OrderedMap.get?_insert_self _ _ _) rfl]
    rfl
  | reference r =>
    have hr : d.doc.get? r = some (.array items) := by
      rw [Document.resolve] at harray
      cases hget : d.doc.get? r with
      | none => rw [hget] at harray; cases harray
      | some v =>
        rw [hget, Option.getD_some] at harray
        cases v <;> cases harray
        rfl
    obtain ⟨doc, d₁, hdoc, hmodify⟩ := bind_ok.mp hrest
    obtain ⟨rfl, rfl⟩ := doc_ok.mp hdoc
    obtain ⟨doc', hset, hretains, hnew, harray', hothers⟩ := modifyArray?_new unused hr retained
    simp only [hset] at hmodify
    obtain rfl := setDoc_ok.mp hmodify
    refine ⟨hretains, Document.dict?_of_get? hnew, x, hothers owner x hx, .same _, ?_⟩
    rw [Document.entryArray?, Document.value?, hentry, Option.map_some, Document.resolve, harray']
    rfl
  | _ => cases harray

theorem inPlace_of_ownId?_eq_none {doc : Document} (h : ownId? doc (x.get? key) = none) :
    inPlace (x.get? key) = ((doc.value? x key).bind Object.dictionary?).getD ∅ ∧
      ((doc.value? x key).bind Object.dictionary? = none ∨
        x.get? key = some (.dictionary (inPlace (x.get? key)))) := by
  rw [Document.value?]
  cases ho : x.get? key with
  | none => exact ⟨rfl, .inl rfl⟩
  | some o =>
    cases o with
    | dictionary w => exact ⟨rfl, .inr rfl⟩
    | reference r =>
      have hnone : doc.dict? r = none := by
        rw [ho, ownId?_reference, ite_eq_right_iff] at h
        rw [← Option.isNone_iff_eq_none, ← Option.not_isSome]
        simpa using h
      have hvalue : (doc.resolve (.reference r)).dictionary? = none := by
        rw [Document.dictionary?_resolve, hnone]
      rw [Option.map_some, Option.bind_some, hvalue]
      exact ⟨rfl, .inl rfl⟩
    | _ => exact ⟨rfl, .inl rfl⟩

/-- The dictionary that an entry stands for comes to an object of its own, if it is in none. An entry
that stands for anything else has to be free. -/
theorem indirectDict_own (unused : d.doc.Unused) (hx : d.doc.dict? owner = some x)
    (hfree : (d.doc.value? x key).bind Object.dictionary? = none → free key (x.get? key).isSome)
    (hrun : (indirectDict owner key).run d = .ok id d') :
    d.doc.Retains free d'.doc ∧
      d'.doc.dict? id = some (((d.doc.value? x key).bind Object.dictionary?).getD ∅) ∧
      ∃ y, d'.doc.dict? owner = some y ∧ y.get? key = some (.reference id) ∧
        (Object.dictionary x).Retained free d'.doc (.dictionary y) := by
  obtain ⟨x', hx', hcases⟩ := indirectDict_ok.mp hrun
  obtain rfl : x = x' := Option.some.inj (hx.symm.trans hx')
  cases hown : ownId? d.doc (x.get? key) with
  | some id' =>
    rw [hown] at hcases
    obtain ⟨rfl, rfl⟩ := hcases
    obtain ⟨ho, y, hy⟩ := ownId?_eq_some hown
    refine ⟨.refl _, ?_, x, hx, ho, .same _⟩
    rw [Document.value?, ho, Option.map_some, Option.bind_some, Document.dictionary?_resolve, hy,
      Option.getD_some]
  | none =>
    rw [hown] at hcases
    obtain ⟨rfl, hset⟩ := hcases
    obtain ⟨hplace, hcase⟩ := inPlace_of_ownId?_eq_none hown
    have hentry (doc : Document) (hnew : doc.get? d.doc.nextId =
        some (.dictionary (inPlace (x.get? key)))) : (Object.dictionary x).Retained free doc
          (.dictionary (x.insert key (.reference d.doc.nextId))) := by
      rcases hcase with hnone | hdict
      · exact .insert (hfree hnone) _
      · exact .insert_rel hdict (.moved hnew (.same _))
    obtain ⟨hretains, hid, howner, hretained⟩ := setEntry_new unused hx hentry hset
    rw [hplace] at hid
    exact ⟨hretains, hid, _, howner, OrderedMap.get?_insert_self _ _ _, hretained⟩

/-- A dictionary that an entry stands for comes to an object of its own. -/
theorem indirectDict_retains (unused : d.doc.Unused) (hx : d.doc.dict? owner = some x)
    (hz : d.doc.value? x key = some (.dictionary z))
    (hrun : (indirectDict owner key).run d = .ok id d') :
    d.doc.Retains free d'.doc ∧ d'.doc.dict? id = some z := by
  have hdict : (d.doc.value? x key).bind Object.dictionary? = some z := by rw [hz]; rfl
  have hfree : (d.doc.value? x key).bind Object.dictionary? = none → free key (x.get? key).isSome := by
    intro hnone
    rw [hdict] at hnone
    cases hnone
  obtain ⟨hretains, hid, -⟩ := indirectDict_own unused hx hfree hrun
  rw [hdict, Option.getD_some] at hid
  exact ⟨hretains, hid⟩

theorem dict?_of_modifyDict {f : Dict Object → Dict Object} (hz : d.doc.dict? id = some z)
    (hrun : (modifyDict id f).run d = .ok u d') : ∃ t, d.doc.objects.get? t = some (.dictionary z) ∧
      d' = { d with doc := d.doc.put t (.dictionary (f z)) } ∧ d'.doc.dict? id = some (f z) := by
  obtain ⟨t, y, ht, hy, rfl⟩ := modifyDict_ok.mp hrun
  obtain rfl : z = y := by
    rw [← Document.get?_eq_of_target? ht, Document.get?_of_dict? hz] at hy
    exact Object.dictionary.inj (Option.some.inj hy)
  refine ⟨t, hy, rfl, ?_⟩
  rw [Document.dict?_put hy, if_pos ht]

theorem modifyDict_retains {f : Dict Object → Dict Object} (hz : d.doc.dict? id = some z)
    (hf : ∀ key, ¬free key (z.get? key).isSome → (f z).get? key = z.get? key)
    (hrun : (modifyDict id f).run d = .ok u d') :
    d.doc.Retains free d'.doc ∧ d'.doc.dict? id = some (f z) := by
  obtain ⟨t, hy, rfl, hchanged⟩ := dict?_of_modifyDict hz hrun
  exact ⟨.put hy rfl rfl (.of_get? hf), hchanged⟩

/-- The dictionary that an entry stands for comes to an object of its own and then changes, but for nothing
that is not free. The entry stands for it ever after. -/
theorem modifyOwn_retains (keys : List String) {d₁ : Draft} {name : String}
    {f : Dict Object → Dict Object} (unused : d.doc.Unused) (hx : d.doc.dict? owner = some x)
    (hz : ((d.doc.value? x name).bind Object.dictionary?).getD ∅ = z)
    (hname : utf8 name ∉ keys.map utf8)
    (hkeep : ∀ key, key ∉ keys.map utf8 → (f z).get? key = z.get? key)
    (hown : (indirectDict owner name).run d = .ok id d₁) (hrun : (modifyDict id f).run d₁ = .ok u d') :
    d.doc.Retains (Under (name :: keys)) d'.doc ∧ ∃ y, d'.doc.dict? owner = some y ∧
      (Object.dictionary x).Retained (Under (name :: keys)) d'.doc (.dictionary y) ∧
      y.get? name = some (.reference id) ∧ d'.doc.value? y name = some (.dictionary (f z)) := by
  have hfree : (d.doc.value? x name).bind Object.dictionary? = none →
      Under [name] name (x.get? name).isSome := fun _ => List.mem_cons_self
  obtain ⟨hmoved, hid, y₁, hy₁, hentry, hxy₁⟩ := indirectDict_own unused hx hfree hown
  rw [hz] at hid
  obtain ⟨hchanged, hid'⟩ : d₁.doc.Retains (Under keys) d'.doc ∧ _ := modifyDict_retains hid hkeep hrun
  obtain ⟨y, hy, hy₁y⟩ := hchanged.dict? hy₁
  have hentry' : y.get? name = some (.reference id) := hy₁y.reference_entry (not_under hname _) hentry
  have hfirst : [name] ⊆ name :: keys := by simp
  have hlater : d₁.doc.Retains (Under (name :: keys)) d'.doc :=
    hchanged.mono (Under.mono (List.subset_cons_self ..))
  refine ⟨(hmoved.mono (Under.mono hfirst)).trans hlater, y, hy, ?_, hentry', ?_⟩
  · exact (hxy₁.mono (Under.mono hfirst)).trans hlater
      (hy₁y.mono (Under.mono (List.subset_cons_self ..)))
  · rw [Document.value?, hentry', Option.map_some, Document.resolve_reference (Document.get?_of_dict? hid')]

end Edit

end AccessiblePdf
