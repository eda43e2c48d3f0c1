import AccessiblePdf.Draft
import AccessiblePdf.Proofs.Document.Lookup

/-!
Runs of edits. A sequence succeeds when both parts do, one after the other (`bind_ok`); for each
basic edit there is one lemma that says when it succeeds and what it does to the draft.
-/
namespace AccessiblePdf.Edit

variable {α β : Type} {d d' : Draft}

/-! ## Sequences -/

theorem pure_ok {a b : α} : (pure a : Edit α).run d = .ok b d' ↔ b = a ∧ d' = d := by
  constructor
  · intro h
    cases h
    exact ⟨rfl, rfl⟩
  · intro hx
    obtain ⟨rfl, rfl⟩ := hx
    rfl

theorem throw_ok {f : Fault} {a : α} : (throw f : Edit α).run d = .ok a d' ↔ False :=
  ⟨fun h => (by cases h), False.elim⟩

theorem bind_ok {x : Edit α} {f : α → Edit β} {b : β} :
    (x >>= f).run d = .ok b d' ↔ ∃ a d₁, x.run d = .ok a d₁ ∧ (f a).run d₁ = .ok b d' := by
  show EStateM.bind x f d = .ok b d' ↔ ∃ a d₁, x d = .ok a d₁ ∧ f a d₁ = .ok b d'
  unfold EStateM.bind
  cases x d with
  | ok a d₁ =>
    constructor
    · exact fun h => ⟨a, d₁, rfl, h⟩
    · intro hx
      obtain ⟨_, _, ⟨⟩, h⟩ := hx
      exact h
  | error e d₁ =>
    constructor
    · exact fun h => (by cases h)
    · intro hmem
      obtain ⟨_, _, ⟨⟩, _⟩ := hmem

theorem run_bind {x : Edit α} {f : α → Edit β} {a : α} {d₁ : Draft} (h : x.run d = .ok a d₁) :
    (x >>= f).run d = (f a).run d₁ := by
  rw [EStateM.run_bind, h]

theorem forIn_cons_ok {f : α → Edit Unit} {a : α} {as : List α} {u : PUnit} :
    (forIn (a :: as) PUnit.unit fun a _ => do
      f a
      pure (ForInStep.yield PUnit.unit) : Edit PUnit).run d = .ok u d' ↔
    ∃ d₁, (f a).run d = .ok () d₁ ∧ (forIn as PUnit.unit fun a _ => do
      f a
      pure (ForInStep.yield PUnit.unit) : Edit PUnit).run d₁ = .ok u d' := by
  rw [List.forIn_cons, bind_ok]
  constructor
  · intro h
    obtain ⟨step, d₁, hstep, hrest⟩ := h
    rw [bind_ok] at hstep
    obtain ⟨_, d₂, hf, hyield⟩ := hstep
    obtain ⟨rfl, rfl⟩ := pure_ok.mp hyield
    exact ⟨d₁, hf, hrest⟩
  · intro hx
    obtain ⟨d₁, hf, hrest⟩ := hx
    exact ⟨_, d₁, bind_ok.mpr ⟨(), d₁, hf, rfl⟩, hrest⟩

/-! ## Look-ups -/

theorem doc_ok {x : Document} : doc.run d = .ok x d' ↔ x = d.doc ∧ d' = d := by
  constructor
  · intro h
    cases h
    exact ⟨rfl, rfl⟩
  · intro hx
    obtain ⟨rfl, rfl⟩ := hx
    rfl

theorem lift_ok {r : Except Fault α} {a : α} :
    (lift r).run d = .ok a d' ↔ r = .ok a ∧ d' = d := by
  cases r with
  | ok b =>
    rw [lift, pure_ok, Except.ok.injEq, eq_comm]
  | error f =>
    rw [lift, throw_ok]
    exact ⟨False.elim, fun h => (by cases h.1)⟩

theorem dict_ok {id : ObjectId} {x : Dict Object} :
    (dict id).run d = .ok x d' ↔ d.doc.dict? id = some x ∧ d' = d := by
  have hdict : ∀ doc : Document, doc.dict id = .ok x ↔ doc.dict? id = some x := by
    intro doc
    rw [Document.dict]
    cases doc.dict? id <;> simp
  rw [dict, bind_ok]
  constructor
  · intro hx
    obtain ⟨doc, d₁, hdoc, h⟩ := hx
    obtain ⟨rfl, rfl⟩ := doc_ok.mp hdoc
    obtain ⟨h, rfl⟩ := lift_ok.mp h
    exact ⟨(hdict _).mp h, rfl⟩
  · intro hmem
    obtain ⟨h, rfl⟩ := hmem
    exact ⟨d'.doc, d', rfl, lift_ok.mpr ⟨(hdict _).mpr h, rfl⟩⟩

theorem catalogId_ok {catalog : ObjectId} : catalogId.run d = .ok catalog d' ↔
    (d.doc.trailer.get? "Root").bind Object.reference? = some catalog ∧ d' = d := by
  unfold catalogId
  rw [bind_ok]
  constructor
  · intro hx
    obtain ⟨doc, d₁, hdoc, h⟩ := hx
    obtain ⟨rfl, rfl⟩ := doc_ok.mp hdoc
    cases hroot : (d₁.doc.trailer.get? "Root").bind Object.reference? with
    | none =>
      rw [hroot] at h
      exact (throw_ok.mp h).elim
    | some id =>
      rw [hroot] at h
      obtain ⟨rfl, rfl⟩ := pure_ok.mp h
      exact ⟨rfl, rfl⟩
  · intro hmem
    obtain ⟨h, rfl⟩ := hmem
    refine ⟨d'.doc, d', rfl, ?_⟩
    rw [h]
    rfl

theorem node_ok {name : String} {element : ObjectId} (hrun : (node name).run d = .ok element d') :
    d.nodes.get? name = some element ∧ d' = d := by
  unfold node at hrun
  rw [bind_ok] at hrun
  obtain ⟨e, d₁, hget, hrun⟩ := hrun
  cases hget
  cases hnode : d.nodes.get? name with
  | none =>
    rw [hnode] at hrun
    exact (throw_ok.mp hrun).elim
  | some id =>
    rw [hnode] at hrun
    obtain ⟨rfl, rfl⟩ := pure_ok.mp hrun
    exact ⟨rfl, rfl⟩

theorem page_iff {number : Int} {page : ObjectId} : (Edit.page number).run d = .ok page d' ↔
    (0 < number ∧ number < 0x100000000) ∧ d.doc.pages[number.toNat - 1]? = some page ∧ d' = d := by
  unfold Edit.page
  rw [run_bind (doc_ok.mpr ⟨rfl, rfl⟩)]
  by_cases hnumber : 0 < number ∧ number < 0x100000000
  · have hpositive : number.toNat ≠ 0 := by omega
    rw [if_pos hnumber, lift_ok, and_iff_right hnumber, Document.page]
    simp only [if_neg hpositive]
    cases d.doc.pages[number.toNat - 1]? <;> simp
  · rw [if_neg hnumber, throw_ok]
    exact ⟨False.elim, fun h => hnumber h.1⟩

theorem page_ok {number : Int} {page : ObjectId} (hrun : (Edit.page number).run d = .ok page d') :
    (number.toNat - 1 < 0x100000000 ∧ d.doc.pages[number.toNat - 1]? = some page) ∧ d' = d := by
  obtain ⟨hnumber, hpage, hd⟩ := page_iff.mp hrun
  exact ⟨⟨by omega, hpage⟩, hd⟩

/-! ## Changes -/

theorem setDoc_ok {x : Document} {u : Unit} :
    (setDoc x).run d = .ok u d' ↔ d' = { d with doc := x } := by
  constructor
  · intro h
    cases h
    rfl
  · rintro rfl
    rfl

theorem clearNodes_ok {u : Unit} : (clearNodes).run d = .ok u d' ↔ d' = { d with nodes := ∅ } := by
  constructor
  · intro h
    cases h
    rfl
  · rintro rfl
    rfl

theorem register_ok {node : String} {element : ObjectId} {u : Unit} :
    (register node element).run d = .ok u d' ↔
      d' = { d with nodes := d.nodes.insert node element } := by
  constructor
  · intro h
    cases h
    rfl
  · rintro rfl
    rfl

theorem add_ok {o : Object} {id : ObjectId} :
    (add o).run d = .ok id d' ↔ id = d.doc.nextId ∧ d' = { d with doc := d.doc.add o } := by
  constructor
  · intro h
    cases h
    exact ⟨rfl, rfl⟩
  · intro hx
    obtain ⟨rfl, rfl⟩ := hx
    rfl

theorem reserve_ok {id : ObjectId} :
    (reserve).run d = .ok id d' ↔ id = d.doc.nextId ∧ d' = { d with doc := d.doc.reserve } := by
  constructor
  · intro h
    cases h
    exact ⟨rfl, rfl⟩
  · intro hx
    obtain ⟨rfl, rfl⟩ := hx
    rfl

theorem put_ok {id : ObjectId} {o : Object} {u : Unit} :
    (put id o).run d = .ok u d' ↔ d' = { d with doc := d.doc.put id o } := by
  constructor
  · intro h
    cases h
    rfl
  · rintro rfl
    rfl

theorem modifyDict_ok {id : ObjectId} {f : Dict Object → Dict Object} {u : Unit} :
    (modifyDict id f).run d = .ok u d' ↔ ∃ t x, d.doc.target? id = some t ∧
      d.doc.objects.get? t = some (.dictionary x) ∧
        d' = { d with doc := d.doc.put t (.dictionary (f x)) } := by
  rw [modifyDict, bind_ok]
  constructor
  · intro hmem
    obtain ⟨doc, d₁, hdoc, h⟩ := hmem
    obtain ⟨rfl, rfl⟩ := doc_ok.mp hdoc
    cases hm : d₁.doc.modifyDict? id f with
    | none =>
      rw [hm] at h
      exact (throw_ok.mp h).elim
    | some doc' =>
      rw [hm] at h
      obtain ⟨t, x, ht, hx, rfl⟩ := Document.modifyDict?_eq_some.mp hm
      exact ⟨t, x, ht, hx, setDoc_ok.mp h⟩
  · intro hexists
    obtain ⟨t, x, ht, hx, rfl⟩ := hexists
    refine ⟨d.doc, d, rfl, ?_⟩
    rw [Document.modifyDict?_eq_some.mpr ⟨t, x, ht, hx, rfl⟩]
    rfl

theorem setEntry_ok {id : ObjectId} {key : Bytes} {o : Object} {u : Unit} :
    (setEntry id key o).run d = .ok u d' ↔ ∃ t x, d.doc.target? id = some t ∧
      d.doc.objects.get? t = some (.dictionary x) ∧
        d' = { d with doc := d.doc.put t (.dictionary (x.insert key o)) } :=
  modifyDict_ok

/-- The id of the dictionary that an entry refers to. -/
def ownId? (doc : Document) (o : Option Object) : Option ObjectId :=
  (o.bind Object.reference?).filter fun id => (doc.dict? id).isSome

/-- What moves into a new object when an entry does not refer to a dictionary. -/
def inPlace (o : Option Object) : Dict Object := (o.bind Object.dictionary?).getD ∅

theorem ownId?_reference (doc : Document) (id : ObjectId) :
    ownId? doc (some (.reference id)) = if (doc.dict? id).isSome then some id else none := by
  rw [ownId?, Option.bind_some, Object.reference?, Option.filter_some]

theorem ownId?_eq_some {doc : Document} {o : Option Object} {id : ObjectId}
    (h : ownId? doc o = some id) : o = some (.reference id) ∧ ∃ x, doc.dict? id = some x := by
  rw [ownId?, Option.filter_eq_some_iff] at h
  obtain ⟨href, hdict⟩ := h
  obtain ⟨value, rfl, hid⟩ := Option.bind_eq_some_iff.mp href
  cases value with
  | reference id' =>
    obtain rfl := Option.some.inj hid
    exact ⟨rfl, Option.isSome_iff_exists.mp hdict⟩
  | _ => exact absurd hid (by simp [Object.reference?])

/-- A dictionary of its own is there already, or comes under a new id. -/
theorem indirectDict_ok {owner id : ObjectId} {key : Bytes} :
    (indirectDict owner key).run d = .ok id d' ↔ ∃ x, d.doc.dict? owner = some x ∧
      match ownId? d.doc (x.get? key) with
      | some id' => id = id' ∧ d' = d
      | none => id = d.doc.nextId ∧
        (setEntry owner key (.reference d.doc.nextId)).run
          { d with doc := d.doc.add (.dictionary (inPlace (x.get? key))) } = .ok () d' := by
  have hfresh : ∀ y : Dict Object,
      (do let id ← add (.dictionary y)
          setEntry owner key (.reference id)
          return id : Edit ObjectId).run d = .ok id d' ↔ id = d.doc.nextId ∧
        (setEntry owner key (.reference d.doc.nextId)).run
          { d with doc := d.doc.add (.dictionary y) } = .ok () d' := by
    intro y
    simp only [bind_ok, add_ok, pure_ok]
    constructor
    · intro hx
      obtain ⟨_, _, ⟨rfl, rfl⟩, _, _, h, rfl, rfl⟩ := hx
      exact ⟨rfl, h⟩
    · intro hmem
      obtain ⟨rfl, h⟩ := hmem
      exact ⟨_, _, ⟨rfl, rfl⟩, _, _, h, rfl, rfl⟩
  unfold indirectDict
  simp only [bind_ok (x := dict owner), dict_ok, and_assoc, exists_and_left, exists_eq_left]
  refine exists_congr fun x => and_congr_right fun _ => ?_
  cases hk : x.get? key with
  | none => exact hfresh ∅
  | some o =>
    cases o with
    | reference id' =>
      rw [ownId?_reference]
      simp only [bind_ok (x := doc), doc_ok, and_assoc, exists_and_left, exists_eq_left]
      by_cases h : (d.doc.dict? id').isSome = true
      · simp only [h, if_true]
        exact pure_ok
      · simp only [h, Bool.false_eq_true, if_false]
        exact hfresh ∅
    | dictionary y => exact hfresh y
    | _ => exact hfresh ∅

/-! ## Dictionaries that are there -/

theorem exists_setEntry {id : ObjectId} {x : Dict Object} (hx : d.doc.dict? id = some x) (key : Bytes)
    (o : Object) : ∃ d', (setEntry id key o).run d = .ok () d' := by
  obtain ⟨t, ht, hxt⟩ := Document.target?_of_dict? hx
  exact ⟨_, setEntry_ok.mpr ⟨t, x, ht, hxt, rfl⟩⟩

theorem exists_indirectDict {owner : ObjectId} {x : Dict Object} (unused : d.doc.Unused)
    (hx : d.doc.dict? owner = some x) (key : Bytes) :
    ∃ id d', (indirectDict owner key).run d = .ok id d' := by
  cases hown : ownId? d.doc (x.get? key) with
  | some id =>
    refine ⟨id, d, indirectDict_ok.mpr ⟨x, hx, ?_⟩⟩
    rw [hown]
    exact ⟨rfl, rfl⟩
  | none =>
    have hadd : (d.doc.add (.dictionary (inPlace (x.get? key)))).dict? owner = some x :=
      Document.dict?_add unused _ hx
    obtain ⟨d', hset⟩ := exists_setEntry
      (d := { d with doc := d.doc.add (.dictionary (inPlace (x.get? key))) }) hadd key
      (.reference d.doc.nextId)
    refine ⟨d.doc.nextId, d', indirectDict_ok.mpr ⟨x, hx, ?_⟩⟩
    rw [hown]
    exact ⟨rfl, hset⟩

end AccessiblePdf.Edit
