import AccessiblePdf.Proofs.Document.Extension
import AccessiblePdf.Proofs.Draft
import AccessiblePdf.Proofs.OrderedMap
import AccessiblePdf.Proofs.Structure.NumberTree
import AccessiblePdf.Structure.Tagging

/-!
The books of a document that is being tagged: which new object holds what (`Cell`), and which entries
of old dictionaries are set. A document that agrees with its books (`Represents`) still does after
each of three changes, when the change is entered: a new object (`Represents.add`), another object in
the place of a new one (`Represents.putCell`), and an entry of an old dictionary
(`Represents.setEntry`). It has grown out of the old document (`Represents.toExtends`).
-/
namespace AccessiblePdf

/-! ## What new objects hold -/

/-- A tagged sequence: its page, its MCID there, and the element that owns it. -/
structure TaggedSequence where
  page : ObjectId
  mcid : Int
  element : ObjectId

namespace TaggedSequence

/-- What an element lists for a sequence: the number on the page of the element, a reference
elsewhere. -/
def kid (own : Option ObjectId) (s : TaggedSequence) : Object :=
  if own = some s.page then .integer s.mcid
  else .ofEntries [(utf8 "Type", .name "MCR"), (utf8 "Pg", .reference s.page),
    (utf8 "MCID", .integer s.mcid)]

/-- The page of an element is that of its first sequence. -/
def own? (marks : List TaggedSequence) : Option ObjectId := marks.head?.map (·.page)

end TaggedSequence

/-- What a new object holds. -/
inductive Cell where
  /-- The root of the structure tree, with its parent tree, its tree of element ids, the next key and
  its kids. -/
  | root (tree : ObjectId) (names : Option ObjectId) (next : Nat) (kids : List ObjectId)
  /-- The parent tree. -/
  | tree (entries : List (Int × Object))
  /-- The elements that own the MCIDs of a page. -/
  | slots (elements : List ObjectId)
  /-- An element, with the elements below it and its sequences. -/
  | element (kids : List ObjectId) (marks : List TaggedSequence)
  /-- The content of a page. -/
  | content (entries : Dict Object) (bytes : Bytes)
  /-- The tree of element ids. -/
  | names
  /-- Some dictionary with this for its MCID. -/
  | info (mcid : Option Object)
  /-- This dictionary. -/
  | exact (entries : Dict Object)

namespace Cell

/-- The kids of an element. -/
def elementKids (kids : List ObjectId) (marks : List TaggedSequence) : List Object :=
  kids.map Object.reference ++ marks.map (TaggedSequence.kid (TaggedSequence.own? marks))

/-- The entry for the next key. -/
def nextEntry (next : Nat) : Option Object := if next = 0 then none else some (.integer next)

/-- Whether an object holds what it should. -/
def Holds : Cell → Object → Prop
  | .root parents ids next kids, .dictionary x =>
    x.get? "ParentTree" = some (.reference parents) ∧
      x.get? "IDTree" = ids.map Object.reference ∧
      x.get? "ParentTreeNextKey" = nextEntry next ∧
      x.get? "K" = some (.array (kids.map Object.reference)) ∧ x.get? "MCID" = none
  | .tree entries, .dictionary x =>
    x.get? "Kids" = none ∧ x.get? "Nums" = some (.array (Nums.ofEntries entries)) ∧
      x.get? "MCID" = none
  | .slots elements, .array items => items = elements.map Object.reference
  | .element kids marks, .dictionary x =>
    x.get? "K" = some (.array (elementKids kids marks)) ∧
      x.get? "Pg" = (TaggedSequence.own? marks).map Object.reference ∧ x.get? "MCID" = none
  | .content entries bytes, .stream entries' bytes' =>
    entries' = entries ∧ bytes' = bytes ∧ entries.get? "MCID" = none
  | .names, .dictionary x => x.Distinct ∧ x.get? "MCID" = none
  | .info mcid, .dictionary x => x.get? "MCID" = mcid
  | .exact entries, .dictionary x => x = entries
  | _, _ => False

/-- What a cell has for its MCID. -/
def mcid? : Cell → Option Object
  | .info mcid => mcid
  | .exact entries => entries.get? "MCID"
  | _ => none

variable {c : Cell} {o : Object}

theorem Holds.isContainer (h : c.Holds o) : o.isContainer = true := by
  cases c <;> cases o <;> first | rfl | exact h.elim

theorem Holds.mcidEntry? (h : c.Holds o) : o.mcidEntry? = c.mcid? := by
  cases c <;> cases o <;> first
    | exact h.elim
    | exact h
    | exact h.2
    | exact h.2.2
    | exact h.2.2.2.2
    | (obtain ⟨rfl, _, h⟩ := h; exact h)
    | (obtain rfl := h; rfl)

end Cell

/-! ## Books -/

structure Books where
  /-- What new objects hold. -/
  cell : ObjectId → Option Cell
  /-- The entries of old dictionaries that are set. -/
  set : ObjectId → Bytes → Option Object

namespace Books

/-- Nothing is new, and nothing is set. -/
def empty : Books := ⟨fun _ => none, fun _ _ => none⟩

/-- Books in which a new object holds something else. -/
def put (b : Books) (id : ObjectId) (c : Cell) : Books :=
  { b with cell := Function.update b.cell id (some c) }

/-- Books in which an entry of an old dictionary is set. -/
def setEntry (b : Books) (id : ObjectId) (key : Bytes) (o : Object) : Books :=
  { b with set := Function.update b.set id (Function.update (b.set id) key (some o)) }

variable {b : Books} {id id' : ObjectId} {c c' : Cell} {key key' : Bytes} {o : Object}

theorem cell_put_self : (b.put id c).cell id = some c := Function.update_self ..

theorem cell_put_of_ne (h : id' ≠ id) : (b.put id c).cell id' = b.cell id' :=
  Function.update_of_ne h ..

theorem ne_of_cell (h : b.cell id = some c) (h' : b.cell id' = some c') (hne : c ≠ c') :
    id ≠ id' := by
  intro heq
  rw [heq, h'] at h
  exact hne (Option.some.inj h).symm

theorem cell_put_of_cell (hc : b.cell id' = some c') (hne : b.cell id ≠ some c') :
    (b.put id c).cell id' = some c' := by
  rw [cell_put_of_ne, hc]
  intro heq
  rw [heq] at hc
  exact hne hc

theorem cell_put_eq_some : (b.put id c).cell id' = some c' ↔
    id' = id ∧ c' = c ∨ id' ≠ id ∧ b.cell id' = some c' := by
  by_cases h : id' = id
  · rw [h, cell_put_self]
    simp [eq_comm]
  · rw [cell_put_of_ne h]
    simp [h]

theorem cell_put_eq_none : (b.put id c).cell id' = none ↔ id' ≠ id ∧ b.cell id' = none := by
  by_cases h : id' = id
  · rw [h, cell_put_self]
    simp
  · rw [cell_put_of_ne h]
    simp [h]

theorem put_eq_self (hc : b.cell id = some c) : b.put id c = b := by
  rw [put, ← hc, Function.update_eq_self]

theorem put_put (b : Books) (id : ObjectId) (c c' : Cell) : (b.put id c).put id c' = b.put id c' := by
  rw [put, put, put]
  simp only [Function.update_idem]

theorem setEntry_put (b : Books) (id id' : ObjectId) (c : Cell) (key : Bytes) (o : Object) :
    (b.put id c).setEntry id' key o = (b.setEntry id' key o).put id c := rfl

theorem set_setEntry : (b.setEntry id key o).set id' key' =
    if id' = id ∧ key' = key then some o else b.set id' key' := by
  show Function.update b.set id (Function.update (b.set id) key (some o)) id' key' = _
  by_cases hid : id' = id
  · subst hid
    rw [Function.update_self]
    by_cases hkey : key' = key
    · subst hkey
      rw [Function.update_self, if_pos ⟨rfl, rfl⟩]
    · rw [Function.update_of_ne hkey, if_neg fun h => hkey h.2]
  · rw [Function.update_of_ne hid, if_neg fun h => hid h.1]

/-- What an entry of an old dictionary may be set to: a number, a flag or a new object. A new object
has an MCID only if the dictionary with it stood in the entry. -/
def Settable (b : Books) (old : Option Object) : Object → Prop
  | .integer _ => True
  | .boolean _ => True
  | .reference id => ∃ c, b.cell id = some c ∧ ∀ v, c.mcid? = some v →
      ∃ y, old = some (.dictionary y) ∧ y.get? "MCID" = some v
  | _ => False

theorem Settable.put {old : Option Object} (h : b.Settable old o)
    (mcid : ∀ c', b.cell id = some c' → c'.mcid? = c.mcid?) : (b.put id c).Settable old o := by
  cases o with
  | reference r =>
    obtain ⟨c', hc', hmcid⟩ := h
    by_cases hr : r = id
    · subst hr
      exact ⟨c, cell_put_self, by rw [← mcid c' hc']; exact hmcid⟩
    · exact ⟨c', (cell_put_of_ne hr).trans hc', hmcid⟩
  | _ => exact h

/-- Books that differ in the mark of a tagged document only. -/
structure Beside (b b' : Books) : Prop where
  cell : ∀ (id : ObjectId) (c : Cell), b.cell id = some c → b'.cell id = some c
  cell_or : ∀ (id : ObjectId) (c : Cell), b'.cell id = some c →
    b.cell id = some c ∨ ∃ mcid, c = .info mcid
  set : ∀ (id : ObjectId) (key : Bytes), key ≠ utf8 "MarkInfo" → key ≠ utf8 "Marked" →
    b'.set id key = b.set id key

theorem Beside.refl (b : Books) : b.Beside b :=
  ⟨fun _ _ h => h, fun _ _ h => Or.inl h, fun _ _ _ _ => rfl⟩

theorem Beside.setMarked (id : ObjectId) (o : Object) : b.Beside (b.setEntry id "Marked" o) where
  cell := fun _ _ h => h
  cell_or := fun _ _ h => Or.inl h
  set := by
    intro id' key _ hmarked
    rw [set_setEntry, if_neg fun h => hmarked h.2]

theorem Beside.putInfo (hfree : b.cell id = none) (id' : ObjectId) (o : Object)
    (mcid : Option Object) : b.Beside ((b.setEntry id' "MarkInfo" o).put id (.info mcid)) where
  cell := fun _ _ h => cell_put_of_cell h (by simp [Books.setEntry, hfree])
  cell_or := by
    intro id'' c hc
    rcases cell_put_eq_some.mp hc with ⟨_, rfl⟩ | ⟨_, hc⟩
    · exact Or.inr ⟨_, rfl⟩
    · exact Or.inl hc
  set := by
    intro id'' key hmarkInfo _
    exact set_setEntry.trans (if_neg fun h => hmarkInfo h.2)

end Books

/-- The document agrees with the books: it is the old document, but for the entries that are set and
the new objects. -/
structure Represents (old : Document) (b : Books) (doc : Document) : Prop where
  trailer : doc.trailer = old.trailer
  grown : old.maxId ≤ doc.maxId
  numbered : ∀ (id : ObjectId) (c : Cell), b.cell id = some c →
    old.maxId < id.number ∧ id.number ≤ doc.maxId
  cells : ∀ (id : ObjectId) (c : Cell), b.cell id = some c →
    ∃ o, doc.objects.get? id = some o ∧ c.Holds o
  empty : ∀ id : ObjectId, old.maxId < id.number → b.cell id = none → doc.objects.get? id = none
  dictionaries : ∀ (id : ObjectId) (x : Dict Object), id.number ≤ old.maxId →
    old.objects.get? id = some (.dictionary x) → ∃ y, doc.objects.get? id = some (.dictionary y) ∧
      ∀ key, y.get? key = (b.set id key).or (x.get? key)
  others : ∀ id : ObjectId, id.number ≤ old.maxId →
    (∀ x, old.objects.get? id ≠ some (.dictionary x)) → doc.objects.get? id = old.objects.get? id
  settable : ∀ (id : ObjectId) (key : Bytes) (o : Object), b.set id key = some o →
    key ∈ Document.taggingKeys ∧ ∃ x, old.objects.get? id = some (.dictionary x) ∧
      b.Settable (x.get? key) o

namespace Represents

variable {old doc : Document} {b : Books} {id : ObjectId} {c c' : Cell} {o : Object}

/-! ## Changes -/

theorem refl (numbered : old.Numbered) :
    Represents old .empty old where
  trailer := rfl
  grown := Nat.le_refl _
  numbered := fun _ _ h => absurd h (by simp [Books.empty])
  cells := fun _ _ h => absurd h (by simp [Books.empty])
  empty := by
    intro id hid _
    cases ho : old.objects.get? id with
    | none => rfl
    | some o =>
      have := numbered id o ho
      omega
  dictionaries := fun id x _ hx => ⟨x, hx, fun _ => rfl⟩
  others := fun _ _ _ => rfl
  settable := fun _ _ _ h => absurd h (by simp [Books.empty])

theorem cell_nextId (h : Represents old b doc) : b.cell doc.nextId = none := by
  cases hc : b.cell doc.nextId with
  | none => rfl
  | some c =>
    have hle : doc.maxId + 1 ≤ doc.maxId := (h.numbered _ c hc).2
    omega

theorem nextId_above (h : Represents old b doc) : old.maxId < doc.nextId.number := by
  have := h.grown
  show old.maxId < doc.maxId + 1
  omega

/-- A new object. -/
theorem add (h : Represents old b doc) (holds : c.Holds o) :
    Represents old (b.put doc.nextId c) (doc.add o) := by
  have hne : ∀ {id : ObjectId}, id.number ≤ old.maxId → id ≠ doc.nextId := by
    rintro id hid rfl
    have := h.nextId_above
    omega
  refine ⟨h.trailer, Nat.le_succ_of_le h.grown, ?_, ?_, ?_, ?_, ?_, ?_⟩
  · intro id c' hc'
    rcases Books.cell_put_eq_some.mp hc' with ⟨rfl, rfl⟩ | ⟨hid, hc'⟩
    · exact ⟨h.nextId_above, Nat.le_refl _⟩
    · obtain ⟨habove, hle⟩ := h.numbered id c' hc'
      exact ⟨habove, Nat.le_succ_of_le hle⟩
  · intro id c' hc'
    rw [Document.objects_add]
    rcases Books.cell_put_eq_some.mp hc' with ⟨rfl, rfl⟩ | ⟨hid, hc'⟩
    · exact ⟨o, if_pos rfl, holds⟩
    · rw [if_neg hid]
      exact h.cells id c' hc'
  · intro id habove hnone
    obtain ⟨hid, hnone⟩ := Books.cell_put_eq_none.mp hnone
    rw [Document.objects_add, if_neg hid]
    exact h.empty id habove hnone
  · intro id x hid hx
    rw [Document.objects_add, if_neg (hne hid)]
    exact h.dictionaries id x hid hx
  · intro id hid hx
    rw [Document.objects_add, if_neg (hne hid)]
    exact h.others id hid hx
  · intro id key v hv
    obtain ⟨hkey, x, hx, hsettable⟩ := h.settable id key v hv
    refine ⟨hkey, x, hx, hsettable.put fun c' hc' => ?_⟩
    rw [h.cell_nextId] at hc'
    exact absurd hc' (by simp)

/-- Only what one new object holds is another thing. -/
theorem update (h : Represents old b doc) {doc' : Document} (htrailer : doc'.trailer = doc.trailer)
    (hmax : doc'.maxId = doc.maxId) (hc : b.cell id = some c)
    (same : ∀ id', id' ≠ id → doc'.objects.get? id' = doc.objects.get? id')
    (here : ∃ o, doc'.objects.get? id = some o ∧ c'.Holds o) (mcid : c'.mcid? = c.mcid?) :
    Represents old (b.put id c') doc' := by
  have habove := (h.numbered id c hc).1
  have hne : ∀ {id' : ObjectId}, id'.number ≤ old.maxId → id' ≠ id := by
    rintro id' hid' rfl
    omega
  refine ⟨htrailer.trans h.trailer, by rw [hmax]; exact h.grown, ?_, ?_, ?_, ?_, ?_, ?_⟩
  · intro id' e he
    rw [hmax]
    rcases Books.cell_put_eq_some.mp he with ⟨rfl, rfl⟩ | ⟨_, he⟩
    · exact h.numbered id' c hc
    · exact h.numbered id' e he
  · intro id' e he
    rcases Books.cell_put_eq_some.mp he with ⟨rfl, rfl⟩ | ⟨hid, he⟩
    · exact here
    · rw [same id' hid]
      exact h.cells id' e he
  · intro id' hid' hnone
    obtain ⟨hid, hnone⟩ := Books.cell_put_eq_none.mp hnone
    rw [same id' hid]
    exact h.empty id' hid' hnone
  · intro id' x hid' hx
    rw [same id' (hne hid')]
    exact h.dictionaries id' x hid' hx
  · intro id' hid' hx
    rw [same id' (hne hid')]
    exact h.others id' hid' hx
  · intro id' key v hv
    obtain ⟨hkey, x, hx, hsettable⟩ := h.settable id' key v hv
    refine ⟨hkey, x, hx, hsettable.put fun e he => ?_⟩
    obtain rfl := Option.some.inj (hc.symm.trans he)
    exact mcid.symm

/-- Another object in the place of a new one. -/
theorem putCell (h : Represents old b doc) (hc : b.cell id = some c) (holds : c'.Holds o)
    (mcid : c'.mcid? = c.mcid?) : Represents old (b.put id c') (doc.put id o) :=
  h.update rfl rfl hc (fun _ hid => OrderedMap.get?_insert_of_ne _ hid _)
    ⟨o, OrderedMap.get?_insert_self .., holds⟩ mcid

theorem relabel (h : Represents old b doc) (hc : b.cell id = some c) {e : Cell}
    (holds : ∀ o, c.Holds o → e.Holds o) (mcid : e.mcid? = c.mcid?) :
    Represents old (b.put id e) doc := by
  obtain ⟨o, ho, hholds⟩ := h.cells id c hc
  exact h.update rfl rfl hc (fun _ _ => rfl) ⟨o, ho, holds o hholds⟩ mcid

/-- An entry of an old dictionary. -/
theorem setEntry (h : Represents old b doc) {x y : Dict Object} (hid : id.number ≤ old.maxId)
    (hx : old.objects.get? id = some (.dictionary x))
    (hy : doc.objects.get? id = some (.dictionary y)) {key : Bytes}
    (hkey : key ∈ Document.taggingKeys) (settable : b.Settable (x.get? key) o) :
    Represents old (b.setEntry id key o) (doc.put id (.dictionary (y.insert key o))) := by
  have hne : ∀ {id' : ObjectId}, old.maxId < id'.number → id' ≠ id := by
    rintro id' hid' rfl
    omega
  have hput : ∀ id', (doc.put id (.dictionary (y.insert key o))).objects.get? id' =
      if id' = id then some (.dictionary (y.insert key o)) else doc.objects.get? id' :=
    fun id' => OrderedMap.get?_insert ..
  refine ⟨h.trailer, h.grown, h.numbered, ?_, ?_, ?_, ?_, ?_⟩
  · intro id' d hd
    rw [hput, if_neg (hne (h.numbered id' d hd).1)]
    exact h.cells id' d hd
  · intro id' hid' hnone
    rw [hput, if_neg (hne hid')]
    exact h.empty id' hid' hnone
  · intro id' x' hid' hx'
    obtain ⟨y', hy', hentry⟩ := h.dictionaries id' x' hid' hx'
    rw [hput]
    by_cases hsame : id' = id
    · subst hsame
      obtain rfl : y = y' := by simpa using hy.symm.trans hy'
      refine ⟨_, if_pos rfl, fun key' => ?_⟩
      rw [OrderedMap.get?_insert, Books.set_setEntry]
      by_cases hk : key' = key
      · simp [hk]
      · simp [hk, hentry]
    · rw [if_neg hsame]
      refine ⟨y', hy', fun key' => ?_⟩
      rw [Books.set_setEntry, if_neg fun h => hsame h.1]
      exact hentry key'
  · intro id' hid' hx'
    have hsame : id' ≠ id := by
      rintro rfl
      exact hx' x hx
    rw [hput, if_neg hsame]
    exact h.others id' hid' hx'
  · intro id' key' v hv
    rw [Books.set_setEntry] at hv
    split at hv
    · next hsame =>
      obtain ⟨rfl, rfl⟩ := hsame
      obtain rfl := Option.some.inj hv
      refine ⟨hkey, x, hx, ?_⟩
      cases o <;> exact settable
    · obtain ⟨hkey', x', hx', hsettable⟩ := h.settable id' key' v hv
      refine ⟨hkey', x', hx', ?_⟩
      cases v <;> exact hsettable

/-! ## Look-ups -/

theorem get?_cell (h : Represents old b doc) (hc : b.cell id = some c) :
    ∃ o, doc.objects.get? id = some o ∧ c.Holds o ∧ doc.target? id = some id ∧
      doc.get? id = some o := by
  obtain ⟨o, ho, holds⟩ := h.cells id c hc
  have direct := Object.isDirect_of_isContainer holds.isContainer
  exact ⟨o, ho, holds, Document.target?_of_direct ho direct, Document.get?_of_direct ho direct⟩

/-- The document has grown out of the old one. -/
theorem toExtends (h : Represents old b doc) (closed : old.Closed) : old.Extends doc where
  trailer := h.trailer
  kept := by
    intro id hid
    by_cases hdict : ∃ x, old.objects.get? id = some (.dictionary x)
    · obtain ⟨x, hx⟩ := hdict
      obtain ⟨y, hy, hentry⟩ := h.dictionaries id x hid hx
      rw [hx, hy]
      refine .some (.dictionary ⟨(closed.objects id _ hx).2, fun key => ?_⟩)
      rw [hentry key]
      cases hset : b.set id key with
      | none => exact Or.inl rfl
      | some v =>
        obtain ⟨hkey, x', hx', hsettable⟩ := h.settable id key v hset
        obtain rfl : x = x' := by simpa using hx.symm.trans hx'
        refine Or.inr ⟨hkey, v, rfl, ?_⟩
        cases v with
        | integer n => exact .integer n
        | boolean flag => exact .boolean flag
        | reference r =>
          obtain ⟨c, hc, hmcid⟩ := hsettable
          obtain ⟨o, ho, holds⟩ := h.cells r c hc
          refine .reference (h.numbered r c hc).1 ho fun v hv => hmcid v ?_
          rw [← holds.mcidEntry?, hv]
        | _ => exact hsettable.elim
    · rw [h.others id hid fun x hx => hdict ⟨x, hx⟩]
      cases ho : old.objects.get? id with
      | none => exact .none
      | some o => exact .some (.same (closed.objects id o ho).2)
  added := by
    intro id o habove ho
    cases hc : b.cell id with
    | none =>
      rw [h.empty id habove hc] at ho
      exact absurd ho (by simp)
    | some c =>
      obtain ⟨o', ho', holds⟩ := h.cells id c hc
      obtain rfl := Option.some.inj (ho.symm.trans ho')
      exact holds.isContainer

theorem dict?_old (h : Represents old b doc) (closed : old.Closed) {t : ObjectId} {x : Dict Object}
    (hid : id.number ≤ old.maxId) (ht : old.target? id = some t)
    (hx : old.objects.get? t = some (.dictionary x)) :
    ∃ y, doc.target? id = some t ∧ doc.objects.get? t = some (.dictionary y) ∧
      doc.dict? id = some y ∧ ∀ key, y.get? key = (b.set t key).or (x.get? key) := by
  obtain ⟨y, hy, hentry⟩ := h.dictionaries t x (closed.objects t _ hx).1 hx
  have htarget : doc.target? id = some t := by rw [(h.toExtends closed).like.target?_eq closed hid, ht]
  refine ⟨y, htarget, hy, ?_, hentry⟩
  rw [Document.dict?, Document.get?_eq_of_target? htarget, hy]
  rfl

end Represents

end AccessiblePdf
