import AccessiblePdf.Proofs.Document.Pages
import AccessiblePdf.Proofs.Draft
import AccessiblePdf.Proofs.OrderedMap
import Std.Tactic.Do

/-!
Edits that leave some entries of all dictionaries alone. A document is kept (`Document.Keeps`) when the
watched entries of its objects are as they were, chains of references end where they ended, and no
object has a key into the parent tree that it did not have. A dictionary may have such a key only as an
object of its own, never inside of one; so a dictionary that moves into a new object brings none along.
-/
open Std.Do

namespace AccessiblePdf

set_option mvcgen.warning false

/-! ## Objects without some keys -/

mutual

/-- No dictionary in an object has a key among some. -/
def Object.lacks (keys : List Bytes) : Object → Bool
  | .array items => lackIn keys items
  | .dictionary d => lackOf keys d.entries
  | .stream d _ => lackOf keys d.entries
  | _ => true

def lackIn (keys : List Bytes) : List Object → Bool
  | [] => true
  | o :: os => o.lacks keys && lackIn keys os

def lackOf (keys : List Bytes) : List (Bytes × Object) → Bool
  | [] => true
  | (key, o) :: es => !keys.contains key && o.lacks keys && lackOf keys es

end

namespace Object

variable {keys : List Bytes}

theorem lacks_array {items : List Object} :
    (array items).lacks keys = true ↔ ∀ o ∈ items, o.lacks keys = true := by
  rw [lacks]
  induction items with
  | nil => simp [lackIn]
  | cons o items ih => simp [lackIn, ih]

theorem lacks_dictionary {d : Dict Object} : (dictionary d).lacks keys = true ↔
    ∀ e ∈ d.entries, e.1 ∉ keys ∧ e.2.lacks keys = true := by
  obtain ⟨entries⟩ := d
  rw [lacks]
  show lackOf keys entries = true ↔ _
  induction entries with
  | nil => simp [lackOf]
  | cons e entries ih => simp [lackOf, ih, and_assoc]

theorem get?_of_lacks {d : Dict Object} {key : Bytes} (h : (dictionary d).lacks keys = true)
    (hkey : key ∈ keys) : d.get? key = none :=
  OrderedMap.get?_eq_none_iff.mpr fun e he heq => (lacks_dictionary.mp h e he).1 (heq ▸ hkey)

theorem lacks_reference (id : ObjectId) : (reference id).lacks keys = true := rfl

end Object

/-- The keys of pages and of annotations into the parent tree. -/
def parentKeys : List Bytes := ["StructParent", "StructParents"]

/-- The entries whose dictionaries may move from their places into new objects. -/
def movingKeys : List Bytes :=
  ["StructTreeRoot", "ParentTree", "IDTree", "MarkInfo", "AcroForm", "Annots", "Fields"]

/-- An object without some keys, and without keys into the parent tree in what may move. -/
def Object.Sound (banned : List Bytes) : Object → Prop
  | .array items => ∀ o ∈ items, o.lacks parentKeys = true
  | .dictionary x => ∀ e ∈ x.entries, e.1 ∉ banned ∧ (e.1 ∈ movingKeys → e.2.lacks parentKeys = true)
  | _ => True

namespace Object

variable {banned : List Bytes} {x : Dict Object} {key : Bytes} {o : Object}

theorem Sound.of_lacks (h : o.lacks parentKeys = true) (sub : banned ⊆ parentKeys) :
    o.Sound banned := by
  cases o with
  | array items => exact lacks_array.mp h
  | dictionary x =>
    intro e he
    obtain ⟨hkey, hlacks⟩ := lacks_dictionary.mp h e he
    exact ⟨fun hbanned => hkey (sub hbanned), fun _ => hlacks⟩
  | _ => trivial

theorem Sound.mono {banned' : List Bytes} (h : o.Sound banned) (sub : banned' ⊆ banned) :
    o.Sound banned' := by
  cases o with
  | dictionary x => exact fun e he => ⟨fun hbanned => (h e he).1 (sub hbanned), (h e he).2⟩
  | array items => exact h
  | _ => trivial

theorem Sound.insert (h : (dictionary x).Sound banned) (allowed : key ∉ banned)
    (moving : key ∈ movingKeys → o.lacks parentKeys = true) :
    (dictionary (x.insert key o)).Sound banned := by
  intro e he
  rcases OrderedMap.mem_insert he with rfl | he
  · exact ⟨allowed, moving⟩
  · exact h e he

theorem Sound.erase (h : (dictionary x).Sound banned) (key : Bytes) :
    (dictionary (x.erase key)).Sound banned :=
  fun e he => h e (OrderedMap.mem_erase he)

theorem Sound.of_keys (sub : banned ⊆ parentKeys)
    (keys : ∀ key ∈ x.keys, key ∉ parentKeys ∧ key ∉ movingKeys) : (dictionary x).Sound banned := by
  intro e he
  obtain ⟨hparent, hmoving⟩ := keys e.1 (List.mem_map_of_mem he)
  exact ⟨fun hbanned => hparent (sub hbanned), fun h => absurd h hmoving⟩

theorem Sound.entry (h : (dictionary x).Sound banned) (ho : x.get? key = some o)
    (moving : key ∈ movingKeys) : o.lacks parentKeys = true :=
  (h _ (OrderedMap.mem_of_get? ho)).2 moving

theorem Sound.inPlace (h : (dictionary x).Sound banned) (moving : key ∈ movingKeys) :
    (dictionary (Edit.inPlace (x.get? key))).lacks parentKeys = true := by
  cases ho : x.get? key with
  | none => rfl
  | some o =>
    cases o with
    | dictionary y => exact h.entry ho moving
    | _ => rfl

end Object

/-! ## Documents that are kept -/

namespace Document

/-- An entry of the dictionary in a place. -/
def entryAt? (doc : Document) (place : ObjectId) (key : Bytes) : Option Object :=
  ((doc.objects.get? place).bind Object.dictionary?).bind (·.get? key)

theorem entryAt?_of_get? {doc : Document} {t : ObjectId} {x : Dict Object}
    (h : doc.objects.get? t = some (.dictionary x)) (key : Bytes) : doc.entryAt? t key = x.get? key := by
  rw [entryAt?, h]
  rfl

theorem get?_of_entryAt? {doc : Document} {t : ObjectId} {key : Bytes} {o : Object}
    (h : doc.entryAt? t key = some o) :
    ∃ x, doc.objects.get? t = some (.dictionary x) ∧ x.get? key = some o := by
  obtain ⟨x, hx, ho⟩ := Option.bind_eq_some_iff.mp h
  obtain ⟨v, hv, hd⟩ := Option.bind_eq_some_iff.mp hx
  cases v with
  | dictionary y =>
    obtain rfl := Option.some.inj hd
    exact ⟨y, hv, ho⟩
  | _ => exact absurd hd (by simp [Object.dictionary?])

theorem entryAt?_setEntry {doc : Document} {t : ObjectId} {x : Dict Object} {key : Bytes} {o : Object}
    (hx : doc.objects.get? t = some (.dictionary x)) (t' : ObjectId) (key' : Bytes) :
    (doc.put t (.dictionary (x.insert key o))).entryAt? t' key' =
      if t' = t ∧ key' = key then some o else doc.entryAt? t' key' := by
  by_cases ht : t' = t
  · subst ht
    rw [entryAt?_of_get? (OrderedMap.get?_insert_self ..), OrderedMap.get?_insert,
      entryAt?_of_get? hx]
    simp
  · rw [if_neg fun h => ht h.1, entryAt?, entryAt?]
    congr 2
    exact OrderedMap.get?_insert_of_ne _ ht _

/-- All objects of a document are sound, and none has a number above the highest one given out. -/
structure Sound (banned : List Bytes) (doc : Document) : Prop where
  numbered : doc.Numbered
  objects : ∀ id o, doc.objects.get? id = some o → o.Sound banned

namespace Sound

variable {banned : List Bytes} {doc : Document} {id : ObjectId} {x : Dict Object} {key : Bytes}

theorem mono {banned' : List Bytes} (sound : doc.Sound banned) (sub : banned' ⊆ banned) :
    doc.Sound banned' :=
  ⟨sound.numbered, fun id o ho => (sound.objects id o ho).mono sub⟩

theorem dict (sound : doc.Sound banned) (hx : doc.dict? id = some x) :
    (Object.dictionary x).Sound banned := by
  obtain ⟨t, -, ho⟩ := target?_of_dict? hx
  exact sound.objects t _ ho

theorem get?_eq_none (sound : doc.Sound banned) (hx : doc.dict? id = some x) (hkey : key ∈ banned) :
    x.get? key = none := by
  refine OrderedMap.get?_eq_none_iff.mpr fun e he heq => ?_
  exact (sound.dict hx e he).1 (heq ▸ hkey)

/-- The items of an array that may move have no keys into the parent tree. -/
theorem item_lacks (sound : doc.Sound banned) (hx : doc.dict? id = some x) (moving : key ∈ movingKeys)
    {item : Object} (hitem : item ∈ (doc.entryArray? x key).getD []) :
    item.lacks parentKeys = true := by
  cases harray : doc.entryArray? x key with
  | none =>
    rw [harray] at hitem
    exact absurd hitem List.not_mem_nil
  | some items =>
    rw [harray, Option.getD_some] at hitem
    obtain ⟨v, hv, hitems⟩ := Option.bind_eq_some_iff.mp harray
    obtain ⟨o, ho, rfl⟩ := Option.map_eq_some_iff.mp hv
    cases o with
    | array items' =>
      obtain rfl := Option.some.inj hitems
      exact Object.lacks_array.mp ((sound.dict hx).entry ho moving) item hitem
    | reference r =>
      rw [resolve] at hitems
      cases hr : doc.get? r with
      | none =>
        rw [hr] at hitems
        exact absurd hitems (by simp [Object.array?])
      | some o =>
        obtain ⟨t, -, hobject, -⟩ := target?_of_get? hr
        rw [hr, Option.getD_some] at hitems
        cases o with
        | array items' =>
          obtain rfl := Option.some.inj hitems
          exact sound.objects t _ hobject item hitem
        | _ => exact absurd hitems (by simp [Object.array?])
    | _ => exact absurd hitems (by simp [resolve, Object.array?])

theorem item_dictionary? (sound : doc.Sound banned) (hx : doc.dict? id = some x)
    (moving : key ∈ movingKeys) {item : Object} (hitem : item ∈ (doc.entryArray? x key).getD [])
    {a : Dict Object} (ha : (doc.resolve item).dictionary? = some a) :
    (∀ k ∈ parentKeys, a.get? k = none) ∨ ∃ r, doc.dict? r = some a := by
  have hlacks := sound.item_lacks hx moving hitem
  cases item with
  | dictionary a' =>
    obtain rfl := Option.some.inj ha
    exact Or.inl fun k hk => Object.get?_of_lacks hlacks hk
  | reference r =>
    rw [resolve] at ha
    refine Or.inr ⟨r, ?_⟩
    cases hget : doc.get? r with
    | none =>
      rw [hget] at ha
      exact absurd ha (by simp [Object.dictionary?])
    | some o =>
      rw [hget, Option.getD_some] at ha
      rw [dict?, hget]
      exact ha
  | _ => exact absurd ha (by simp [resolve, Object.dictionary?])

theorem put {t : ObjectId} {o o' : Object} (sound : doc.Sound banned)
    (ho : doc.objects.get? t = some o) (here : o'.Sound banned) : (doc.put t o').Sound banned := by
  have hget : ∀ id, (doc.put t o').objects.get? id = if id = t then some o' else doc.objects.get? id :=
    fun id => OrderedMap.get?_insert ..
  refine ⟨?_, ?_⟩
  · intro id v hv
    rw [hget] at hv
    split at hv
    · next hid => exact sound.numbered id o (hid ▸ ho)
    · exact sound.numbered id v hv
  · intro id v hv
    rw [hget] at hv
    split at hv
    · obtain rfl := Option.some.inj hv
      exact here
    · exact sound.objects id v hv

theorem add {o : Object} (sound : doc.Sound banned) (here : o.Sound banned) :
    (doc.add o).Sound banned := by
  refine ⟨sound.numbered.add o, ?_⟩
  intro id v hv
  rw [objects_add] at hv
  split at hv
  · obtain rfl := Option.some.inj hv
    exact here
  · exact sound.objects id v hv

end Sound

/-- An entry that may be set: not a watched one, nor one that is banned. -/
def Free (watched banned : List Bytes) (key : Bytes) : Prop :=
  key ∉ watched ∧ key ∉ banned ∧ key ≠ "StructParent"

instance (watched banned : List Bytes) (key : Bytes) : Decidable (Free watched banned key) := by
  unfold Free
  infer_instance

/-- What a change of a dictionary has to leave alone. -/
structure Tame (watched banned : List Bytes) (f : Dict Object → Dict Object) : Prop where
  sound : ∀ x, (Object.dictionary x).Sound banned → (Object.dictionary (f x)).Sound banned
  same : ∀ x, ∀ key ∈ watched, (f x).get? key = x.get? key
  unkeyed : ∀ x, x.get? "StructParent" = none → (f x).get? "StructParent" = none

namespace Tame

variable {watched banned : List Bytes} {key : Bytes} {f g : Dict Object → Dict Object}

theorem insert {o : Dict Object → Object} (free : Free watched banned key)
    (moving : key ∈ movingKeys → ∀ x, (o x).lacks parentKeys = true) :
    Tame watched banned fun x => x.insert key (o x) where
  sound := fun x h => h.insert free.2.1 fun hkey => moving hkey x
  same := by
    intro x key' hkey'
    refine OrderedMap.get?_insert_of_ne _ ?_ _
    rintro rfl
    exact free.1 hkey'
  unkeyed := fun x h => by rw [OrderedMap.get?_insert_of_ne _ (Ne.symm free.2.2), h]

theorem comp (hg : Tame watched banned g) (hf : Tame watched banned f) :
    Tame watched banned fun x => g (f x) where
  sound := fun x h => hg.sound _ (hf.sound x h)
  same := fun x key hkey => (hg.same _ key hkey).trans (hf.same x key hkey)
  unkeyed := fun x h => hg.unkeyed _ (hf.unkeyed x h)

theorem ite {p : Dict Object → Prop} [DecidablePred p] (hf : Tame watched banned f) :
    Tame watched banned fun x => if p x then x else f x where
  sound := by
    intro x h
    split
    · exact h
    · exact hf.sound x h
  same := by
    intro x key hkey
    split
    · rfl
    · exact hf.same x key hkey
  unkeyed := by
    intro x h
    split
    · exact h
    · exact hf.unkeyed x h

theorem erase (key : Bytes) : Tame [] banned (·.erase key) where
  sound := fun x h => h.erase key
  same := fun x key' hkey' => absurd hkey' List.not_mem_nil
  unkeyed := by
    intro x h
    rw [OrderedMap.get?_eq_none_iff] at h ⊢
    exact fun e he => h e (OrderedMap.mem_erase he)

end Tame

/-- The watched entries of a document are as they were, and there is no new key into the parent tree. -/
structure Keeps (watched banned : List Bytes) (old doc : Document) : Prop where
  trailer : doc.trailer = old.trailer
  sound : doc.Sound banned
  targets : ∀ id t, old.target? id = some t → doc.target? id = some t
  entries : ∀ t, (old.objects.get? t).isSome = true → (doc.objects.get? t).isSome = true ∧
    ∀ key ∈ watched, doc.entryAt? t key = old.entryAt? t key
  unkeyed : ∀ t, old.objects.get? t = none → doc.entryAt? t "StructParent" = none

namespace Keeps

variable {watched banned : List Bytes} {old doc : Document} {t : ObjectId} {x y : Dict Object}
  {o : Object}

theorem refl (sound : doc.Sound banned) : Keeps watched banned doc doc where
  trailer := rfl
  sound := sound
  targets := fun _ _ h => h
  entries := fun _ h => ⟨h, fun _ _ => rfl⟩
  unkeyed := by
    intro t h
    rw [entryAt?, h]
    rfl

/-- Another direct object in the place of one. -/
theorem put {o' : Object} (h : Keeps watched banned old doc) (ho : doc.objects.get? t = some o)
    (direct : o.isDirect = true) (direct' : o'.isDirect = true) (sound : o'.Sound banned)
    (same : ∀ key ∈ watched, (doc.put t o').entryAt? t key = doc.entryAt? t key)
    (unkeyed : doc.entryAt? t "StructParent" = none → (doc.put t o').entryAt? t "StructParent" = none) :
    Keeps watched banned old (doc.put t o') := by
  have hget : ∀ id, (doc.put t o').objects.get? id = if id = t then some o' else doc.objects.get? id :=
    fun id => OrderedMap.get?_insert ..
  have helse : ∀ id, id ≠ t → ∀ key, (doc.put t o').entryAt? id key = doc.entryAt? id key := by
    intro id hid key
    rw [entryAt?, hget, if_neg hid, entryAt?]
  refine ⟨h.trailer, h.sound.put ho sound, ?_, ?_, ?_⟩
  · intro id t' ht'
    rw [target?_put ho direct direct']
    exact h.targets id t' ht'
  · intro id hid
    obtain ⟨hsome, hentries⟩ := h.entries id hid
    refine ⟨?_, fun key hkey => ?_⟩
    · rw [hget]
      split
      · rfl
      · exact hsome
    · by_cases hid : id = t
      · subst hid
        rw [same key hkey, hentries key hkey]
      · rw [helse id hid, hentries key hkey]
  · intro id hnone
    by_cases hid : id = t
    · subst hid
      exact unkeyed (h.unkeyed id hnone)
    · rw [helse id hid]
      exact h.unkeyed id hnone

theorem putDict (h : Keeps watched banned old doc) (hx : doc.objects.get? t = some (.dictionary x))
    (sound : (Object.dictionary y).Sound banned) (same : ∀ key ∈ watched, y.get? key = x.get? key)
    (unkeyed : x.get? "StructParent" = none → y.get? "StructParent" = none) :
    Keeps watched banned old (doc.put t (.dictionary y)) := by
  have hy : ∀ key, (doc.put t (.dictionary y)).entryAt? t key = y.get? key :=
    entryAt?_of_get? (OrderedMap.get?_insert_self ..)
  refine h.put hx rfl rfl sound ?_ ?_
  · intro key hkey
    rw [hy, entryAt?_of_get? hx, same key hkey]
  · rw [hy, entryAt?_of_get? hx]
    exact unkeyed

theorem putArray {items items' : List Object} (h : Keeps watched banned old doc)
    (ho : doc.objects.get? t = some (.array items)) (sound : (Object.array items').Sound banned) :
    Keeps watched banned old (doc.put t (.array items')) := by
  have hnone : ∀ key, (doc.put t (.array items')).entryAt? t key = none := by
    intro key
    rw [entryAt?, show (doc.put t (.array items')).objects.get? t = some (.array items') from
      OrderedMap.get?_insert_self ..]
    rfl
  refine h.put ho rfl rfl sound ?_ (fun _ => hnone _)
  intro key _
  rw [hnone, entryAt?, ho]
  rfl

/-- A new object. -/
theorem add (h : Keeps watched banned old doc) (sound : o.Sound banned)
    (unkeyed : (o.dictionary?.bind (·.get? "StructParent")) = none) :
    Keeps watched banned old (doc.add o) := by
  have hunused := h.sound.numbered.unused
  refine ⟨h.trailer, h.sound.add sound, ?_, ?_, ?_⟩
  · exact fun id t ht => target?_add hunused o (h.targets id t ht)
  · intro id hid
    obtain ⟨hsome, hentries⟩ := h.entries id hid
    have hne : id ≠ doc.nextId := by
      rintro rfl
      rw [hunused] at hsome
      exact absurd hsome Bool.false_ne_true
    refine ⟨?_, fun key hkey => ?_⟩
    · rw [objects_add, if_neg hne]
      exact hsome
    · rw [entryAt?, objects_add, if_neg hne]
      exact hentries key hkey
  · intro id hnone
    rw [entryAt?, objects_add]
    split
    · exact unkeyed
    · exact h.unkeyed id hnone

theorem modifyDict? {id : ObjectId} {f : Dict Object → Dict Object} {doc' : Document}
    (h : Keeps watched banned old doc) (tame : Tame watched banned f)
    (hmodify : doc.modifyDict? id f = some doc') : Keeps watched banned old doc' := by
  obtain ⟨t, x, -, hx, rfl⟩ := modifyDict?_eq_some.mp hmodify
  exact h.putDict hx (tame.sound x (h.sound.objects t _ hx)) (tame.same x) (tame.unkeyed x)

theorem modifyArray? {id : ObjectId} {f : List Object → List Object} {doc' : Document}
    (h : Keeps watched banned old doc)
    (lacks : ∀ items : List Object, (∀ o ∈ items, o.lacks parentKeys = true) →
      ∀ o ∈ f items, o.lacks parentKeys = true)
    (hmodify : doc.modifyArray? id f = some doc') : Keeps watched banned old doc' := by
  obtain ⟨t, -, hmodify⟩ := Option.bind_eq_some_iff.mp hmodify
  obtain ⟨o, ho, hmodify⟩ := Option.bind_eq_some_iff.mp hmodify
  obtain ⟨items, hitems, hmodify⟩ := Option.bind_eq_some_iff.mp hmodify
  obtain rfl := Option.some.inj hmodify
  cases o with
  | array items' =>
    obtain rfl := Option.some.inj hitems
    exact h.putArray ho (lacks _ (h.sound.objects t _ ho))
  | _ => exact absurd hitems (by simp [Object.array?])

theorem inPlace_lacks {id : ObjectId} {key : Bytes} (h : Keeps watched banned old doc)
    (hx : doc.dict? id = some x) (moving : key ∈ movingKeys) :
    (Object.dictionary (Edit.inPlace (x.get? key))).lacks parentKeys = true :=
  (h.sound.dict hx).inPlace moving

end Keeps

end Document

/-- What is watched during some edits. -/
structure Watch where
  /-- The document at first. -/
  old : Document
  /-- The entries that stay as they are. -/
  watched : List Bytes
  /-- Keys that no dictionary has. -/
  banned : List Bytes
  sub : banned ⊆ parentKeys
  /-- What holds of the declared elements. -/
  known : OrderedMap String ObjectId → Prop

namespace Watch

variable (w : Watch)

/-- The document is kept, and the declared elements are as they should be. -/
structure Holds (d : Draft) : Prop where
  keeps : w.old.Keeps w.watched w.banned d.doc
  known : w.known d.nodes

/-- An entry that may be set. -/
def Free (key : Bytes) : Prop := Document.Free w.watched w.banned key

end Watch

namespace Edit

variable {w : Watch}

/-- What is watched holds. -/
abbrev holds (w : Watch) : Assertion (.except Fault (.arg Draft .pure)) := fun d => ⌜w.Holds d⌝

/-- What is watched holds after an edit that succeeds. -/
abbrev held {α : Type} (w : Watch) : PostCond α (.except Fault (.arg Draft .pure)) :=
  post⟨fun _ d => ⌜w.Holds d⌝, fun _ _ => ⌜True⌝⟩

end Edit

namespace Watch

open Edit

variable {w : Watch}

theorem Holds.run {α : Type} {e : Edit α} {d d' : Draft} {a : α} (h : w.Holds d)
    (keeps : ⦃holds w⦄ e ⦃held w⦄) (hrun : e.run d = .ok a d') : w.Holds d' := by
  have hresult := keeps d h
  simp only [wp, PredTrans.apply] at hresult
  rw [hrun] at hresult
  exact hresult

theorem triple_of_run {α : Type} {e : Edit α}
    (keeps : ∀ d a d', w.Holds d → e.run d = .ok a d' → w.Holds d') : ⦃holds w⦄ e ⦃held w⦄ := by
  intro d h
  simp only [wp, PredTrans.apply]
  cases hrun : e.run d with
  | ok a d' => exact keeps d a d' h hrun
  | error f d' => trivial

@[scoped spec] theorem modifyDict_holds (id : ObjectId) {f : Dict Object → Dict Object}
    (tame : Document.Tame w.watched w.banned f) : ⦃holds w⦄ modifyDict id f ⦃held w⦄ := by
  mvcgen [modifyDict, doc, setDoc]
  next _ h _ hmodify _ => exact ⟨h.keeps.modifyDict? tame hmodify, h.known⟩

@[scoped spec] theorem setEntry_holds (id : ObjectId) {key : Bytes} {o : Object} (free : w.Free key)
    (moving : key ∈ movingKeys → o.lacks parentKeys = true) :
    ⦃holds w⦄ setEntry id key o ⦃held w⦄ :=
  modifyDict_holds id (.insert (o := fun _ => o) free fun hkey _ => moving hkey)

@[scoped spec] theorem add_holds {o : Object} (sound : o.Sound w.banned)
    (unkeyed : (o.dictionary?.bind (·.get? "StructParent")) = none) : ⦃holds w⦄ add o ⦃held w⦄ := by
  mvcgen [add, doc, setDoc]
  next h _ => exact ⟨h.keeps.add sound unkeyed, h.known⟩

@[scoped spec] theorem dict_holds (id : ObjectId) : ⦃holds w⦄ dict id ⦃held w⦄ := by
  mvcgen [dict, doc, lift]

@[scoped spec] theorem indirectDict_holds (owner : ObjectId) {key : Bytes} (free : w.Free key)
    (moving : key ∈ movingKeys) : ⦃holds w⦄ indirectDict owner key ⦃held w⦄ := by
  refine triple_of_run fun d id d' h hrun => ?_
  obtain ⟨x, hx, hrest⟩ := indirectDict_ok.mp hrun
  split at hrest
  · obtain ⟨-, rfl⟩ := hrest
    exact h
  · obtain ⟨-, hset⟩ := hrest
    have hlacks := h.keeps.inPlace_lacks hx moving
    have hadd : w.Holds { d with doc := d.doc.add (.dictionary (inPlace (x.get? key))) } := by
      exact ⟨h.keeps.add (.of_lacks hlacks w.sub) (Object.get?_of_lacks hlacks (by decide)), h.known⟩
    exact hadd.run (setEntry_holds owner free fun _ => rfl) hset

/-- The items of an array change, none of which has keys into the parent tree. -/
@[scoped spec] theorem modifyArray_holds (owner : ObjectId) {key : Bytes} {f : List Object → List Object}
    (free : w.Free key) (moving : key ∈ movingKeys)
    (lacks : ∀ items : List Object, (∀ o ∈ items, o.lacks parentKeys = true) →
      ∀ o ∈ f items, o.lacks parentKeys = true) :
    ⦃holds w⦄ modifyArray owner key f ⦃held w⦄ := by
  refine triple_of_run fun d u d' h hrun => ?_
  have hinPlace : ∀ items : List Object, (∀ o ∈ items, o.lacks parentKeys = true) →
      (setEntry owner key (.array (f items))).run d = .ok u d' → w.Holds d' :=
    fun items hitems hset =>
      h.run (setEntry_holds owner free fun _ => Object.lacks_array.mpr (lacks items hitems)) hset
  have hempty := hinPlace [] fun o ho => absurd ho List.not_mem_nil
  unfold modifyArray at hrun
  rw [bind_ok] at hrun
  obtain ⟨x, d₁, hdict, hrun⟩ := hrun
  obtain ⟨hx, rfl⟩ := dict_ok.mp hdict
  obtain ⟨t, -, hobject⟩ := Document.target?_of_dict? hx
  cases hentry : x.get? key with
  | none =>
    rw [hentry] at hrun
    exact hempty hrun
  | some o =>
    rw [hentry] at hrun
    cases o with
    | array items =>
      have hitems := (h.keeps.sound.objects t _ hobject).entry hentry moving
      exact hinPlace items (Object.lacks_array.mp hitems) hrun
    | reference id =>
      replace hrun := bind_ok.mp hrun
      obtain ⟨doc, d₂, hdoc, hrun⟩ := hrun
      obtain ⟨rfl, rfl⟩ := doc_ok.mp hdoc
      cases hmodify : d₂.doc.modifyArray? id f with
      | none =>
        rw [hmodify] at hrun
        exact hempty hrun
      | some doc' =>
        rw [hmodify] at hrun
        obtain rfl := setDoc_ok.mp hrun
        exact ⟨h.keeps.modifyArray? lacks hmodify, h.known⟩
    | _ => exact hempty hrun

end Watch

end AccessiblePdf
