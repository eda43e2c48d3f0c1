import AccessiblePdf.Proofs.Document.Appending
import AccessiblePdf.Proofs.Document.Likeness
import AccessiblePdf.Proofs.Document.Sparing
import AccessiblePdf.Structure.Strip

/-!
Documents that shed what binds them to a structure tree. A dictionary loses entries (`bindingKeys`), gets
new content, or keeps an array of annotations in which dictionaries lose their keys; new objects are
streams for content (`Document.Sheds`). So what was gone stays gone (`dict?_rel`), the page tree is as it
was (`pages_eq`), and no operation gets an MCID that it had not (`openedMcid?_old`).
-/
namespace AccessiblePdf

/-! ## Entries -/

/-- The entries that bind catalog, pages and annotations to a structure tree. -/
def bindingKeys : List Bytes := ["StructTreeRoot", "StructParents", "StructParent"]

/-- The entries that are not as they were when a document sheds what binds it. -/
def sheddingKeys : List Bytes :=
  ["StructTreeRoot", "StructParents", "StructParent", "Contents", "Annots"]

/-- An annotation as it was, or a dictionary without its key into the parent tree. -/
inductive Object.Trimmed : Object → Object → Prop where
  | same (o : Object) : Trimmed o o
  | dictionary {a b : Dict Object}
      (entry : ∀ key, b.get? key = a.get? key ∨ key = "StructParent" ∧ b.get? key = none) :
      Trimmed (.dictionary a) (.dictionary b)

/-- What may become of an entry. Content comes to be a reference above a limit. -/
inductive Shed (limit : Nat) (key : Bytes) : Option Object → Option Object → Prop where
  | same (o : Option Object) : Shed limit key o o
  | gone (o : Option Object) (binding : key ∈ bindingKeys) : Shed limit key o none
  | content (o : Option Object) {id : ObjectId} (here : key = "Contents") (above : limit < id.number) :
      Shed limit key o (some (.reference id))
  | annotations {items items' : List Object} (here : key = "Annots")
      (trimmed : List.Forall₂ Object.Trimmed items items') :
      Shed limit key (some (.array items)) (some (.array items'))

/-- An object, and what has become of it. -/
inductive Object.Sheds (limit : Nat) : Object → Object → Prop where
  | same (o : Object) : Sheds limit o o
  | dictionary {x y : Dict Object} (entry : ∀ key, Shed limit key (x.get? key) (y.get? key)) :
      Sheds limit (.dictionary x) (.dictionary y)

/-- An old dictionary, in which no reference goes above an object number, and what remains of it. -/
structure Remains (limit top : Nat) (x y : Dict Object) : Prop where
  below : (Object.dictionary x).Below top
  entry : ∀ key, Shed limit key (x.get? key) (y.get? key)

section Relations

variable {limit : Nat} {key : Bytes} {o o' : Option Object} {v v' v'' : Object}

theorem Object.Trimmed.trans (h : v.Trimmed v') (h' : v'.Trimmed v'') : v.Trimmed v'' := by
  cases h with
  | same => exact h'
  | @dictionary a b entry =>
    cases h' with
    | same => exact .dictionary entry
    | @dictionary _ c entry' =>
      refine .dictionary fun key => ?_
      rcases entry' key with h | h
      · rw [h]
        exact entry key
      · exact Or.inr h

theorem trimmed_trans {items items' items'' : List Object}
    (h : List.Forall₂ Object.Trimmed items items') (h' : List.Forall₂ Object.Trimmed items' items'') :
    List.Forall₂ Object.Trimmed items items'' := by
  induction h generalizing items'' with
  | nil => exact h'
  | cons hitem _ ih =>
    obtain ⟨_, _, hitem', hrest', rfl⟩ := List.forall₂_cons_left_iff.mp h'
    exact .cons (hitem.trans hitem') (ih hrest')

theorem Shed.trans {o'' : Option Object} (h : Shed limit key o o') (h' : Shed limit key o' o'') :
    Shed limit key o o'' := by
  cases h' with
  | same => exact h
  | gone _ binding => exact .gone o binding
  | content _ here above => exact .content o here above
  | annotations here trimmed =>
    cases h with
    | same => exact .annotations here trimmed
    | annotations _ trimmed' => exact .annotations here (trimmed_trans trimmed' trimmed)

theorem Shed.eq (h : Shed limit key o o') (hkey : key ∉ sheddingKeys) : o' = o := by
  have subset : bindingKeys ⊆ sheddingKeys := by decide
  have hnot : ∀ key' ∈ sheddingKeys, key ≠ key' := fun key' hmem heq => hkey (heq ▸ hmem)
  cases h with
  | same => rfl
  | gone _ binding => exact absurd (subset binding) hkey
  | content _ here => exact absurd here (hnot _ (by decide))
  | annotations here => exact absurd here (hnot _ (by decide))

theorem Shed.none (h : Shed limit key o o') (gone : o = none) (hkey : key ≠ "Contents") : o' = none := by
  subst gone
  cases h with
  | same => rfl
  | gone => rfl
  | content _ here => exact absurd here hkey

theorem Object.Sheds.trans (h : v.Sheds limit v') (h' : v'.Sheds limit v'') : v.Sheds limit v'' := by
  cases h with
  | same => exact h'
  | dictionary entry =>
    cases h' with
    | same => exact .dictionary entry
    | dictionary entry' => exact .dictionary fun key => (entry key).trans (entry' key)

theorem Object.Sheds.array? (h : v.Sheds limit v') : v'.array? = v.array? := by
  cases h <;> rfl

theorem Object.Sheds.integer? (h : v.Sheds limit v') : v'.integer? = v.integer? := by
  cases h <;> rfl

theorem Object.Sheds.isDirect (h : v.Sheds limit v') : v'.isDirect = v.isDirect := by
  cases h <;> rfl

theorem Object.Sheds.dictionary? (h : v.Sheds limit v') :
    Option.Rel (fun x y => ∀ key, Shed limit key (x.get? key) (y.get? key)) v.dictionary?
      v'.dictionary? := by
  cases h with
  | same =>
    cases v with
    | dictionary x => exact .some fun _ => .same _
    | _ => exact .none
  | dictionary entry => exact .some entry

theorem remains_of_rel {top : Nat} {a b : Option (Dict Object)}
    (h : Option.Rel (fun x y => ∀ key, Shed limit key (x.get? key) (y.get? key)) a b)
    (below : ∀ x, a = some x → (Object.dictionary x).Below top) :
    Option.Rel (Remains limit top) a b := by
  cases h with
  | none => exact .none
  | some entry => exact .some ⟨below _ rfl, entry⟩

theorem Object.Sheds.entries? {top : Nat} (h : v.Sheds limit v') (below : v.Below top) :
    Option.Rel (Remains limit top) v.entries? v'.entries? := by
  refine remains_of_rel ?_ fun x hx => below.entries hx
  cases h with
  | same =>
    cases v with
    | dictionary x => exact .some fun _ => .same _
    | stream x content => exact .some fun _ => .same _
    | _ => exact .none
  | dictionary entry => exact .some entry

end Relations

/-! ## Dictionaries that lose entries -/

/-- Every key occurs once in a dictionary, and in each annotation in place. -/
def Object.Keyed : Object → Prop
  | .dictionary x => x.Distinct ∧
      ∀ items, x.get? "Annots" = some (.array items) → ∀ a, .dictionary a ∈ items → a.Distinct
  | _ => True

instance : DecidablePred Object.Keyed
  | .dictionary x => decidable_of_iff (x.Distinct ∧ ∀ items ∈ (x.get? "Annots").bind Object.array?,
      ∀ item ∈ items, ∀ a ∈ item.dictionary?, a.Distinct) <| by
    refine and_congr_right fun _ => ⟨fun h items hitems a ha => ?_,
      fun h items hitems item hitem a ha => ?_⟩
    · exact h items (Option.bind_eq_some_iff.mpr ⟨_, hitems, rfl⟩) _ ha a rfl
    · obtain ⟨o, ho, harray⟩ := Option.bind_eq_some_iff.mp hitems
      cases o with
      | array =>
        obtain rfl := Option.some.inj harray
        cases item with
        | dictionary =>
          obtain rfl := Option.some.inj ha
          exact h _ ho _ hitem
        | _ => cases ha
      | _ => cases harray
  | .null | .boolean _ | .integer _ | .real _ | .name _ | .string .. | .array _ | .stream .. |
    .reference _ => .isTrue trivial

/-- A dictionary, and what is left of it. -/
structure Shorn (limit top : Nat) (x y : Dict Object) : Prop where
  keyed : (Object.dictionary y).Keyed
  entry : ∀ key, Shed limit key (x.get? key) (y.get? key)
  below : (Object.dictionary x).Below top → (Object.dictionary y).Below top

/-- An annotation in place without its key. -/
def trimAnnotation : Object → Object
  | .dictionary a => .dictionary (a.erase Edit.annotationKey)
  | o => o

/-- What a page keeps of its entries. -/
def shearPage (x : Dict Object) : Dict Object :=
  let x := x.erase "StructParents"
  match x.get? "Annots" with
  | some (.array items) => x.insert "Annots" (.array (items.map trimAnnotation))
  | _ => x

namespace Shorn

variable {limit top : Nat} {x y z : Dict Object} {key : Bytes}

theorem trans (h : Shorn limit top x y) (h' : Shorn limit top y z) : Shorn limit top x z where
  keyed := h'.keyed
  entry := fun key => (h.entry key).trans (h'.entry key)
  below := fun hx => h'.below (h.below hx)

theorem erase (keyed : (Object.dictionary x).Keyed) (binding : key ∈ bindingKeys) :
    Shorn limit top x (x.erase key) where
  keyed := by
    refine ⟨keyed.1.erase key, fun items hitems => keyed.2 items ?_⟩
    rw [OrderedMap.get?_erase keyed.1] at hitems
    split at hitems
    · cases hitems
    · exact hitems
  entry := by
    intro key'
    rw [OrderedMap.get?_erase keyed.1]
    split
    · next heq => exact .gone _ (heq ▸ binding)
    · exact .same _
  below := fun hx => Object.below_dictionary.mpr fun e he =>
    Object.below_dictionary.mp hx e (OrderedMap.mem_erase he)

theorem content (keyed : (Object.dictionary x).Keyed) {id : ObjectId} (above : limit < id.number)
    (given : id.number ≤ top) : Shorn limit top x (x.insert "Contents" (.reference id)) where
  keyed := by
    refine ⟨keyed.1.insert _ _, fun items hitems => keyed.2 items ?_⟩
    rw [OrderedMap.get?_insert_of_ne _ (by decide)] at hitems
    exact hitems
  entry := by
    intro key
    rw [OrderedMap.get?_insert]
    split
    · next heq => exact .content _ heq above
    · exact .same _
  below := by
    intro hx
    refine Object.below_dictionary.mpr fun e he => ?_
    rcases OrderedMap.mem_insert he with rfl | he
    · exact Object.below_reference.mpr given
    · exact Object.below_dictionary.mp hx e he

theorem annotations (keyed : (Object.dictionary x).Keyed) {items : List Object}
    (hitems : x.get? "Annots" = some (.array items)) :
    Shorn limit top x (x.insert "Annots" (.array (items.map trimAnnotation))) where
  keyed := by
    refine ⟨keyed.1.insert _ _, fun items' hitems' a ha => ?_⟩
    rw [OrderedMap.get?_insert_self] at hitems'
    obtain rfl := Object.array.inj (Option.some.inj hitems')
    obtain ⟨item, hitem, htrim⟩ := List.mem_map.mp ha
    cases item with
    | dictionary b =>
      obtain rfl := Object.dictionary.inj htrim
      exact (keyed.2 items hitems b hitem).erase _
    | _ => cases htrim
  entry := by
    intro key
    rw [OrderedMap.get?_insert]
    split
    · next heq =>
      subst heq
      rw [hitems]
      refine .annotations rfl (List.forall₂_map_right_iff.mpr (List.forall₂_same.mpr ?_))
      intro item hitem
      cases item with
      | dictionary a =>
        refine .dictionary fun key => ?_
        rw [OrderedMap.get?_erase (keyed.2 items hitems a hitem)]
        split
        · next heq => exact Or.inr ⟨heq, rfl⟩
        · exact Or.inl rfl
      | _ => exact .same _
    · exact .same _
  below := by
    intro hx
    refine Object.below_dictionary.mpr fun e he => ?_
    rcases OrderedMap.mem_insert he with rfl | he
    · have hbelow := hx.entry hitems
      refine Object.below_array.mpr fun o ho => ?_
      obtain ⟨item, hitem, rfl⟩ := List.mem_map.mp ho
      cases item with
      | dictionary a => exact Object.below_dictionary.mpr fun e he =>
          Object.below_dictionary.mp (hbelow.item hitem) e (OrderedMap.mem_erase he)
      | _ => exact hbelow.item hitem
    · exact Object.below_dictionary.mp hx e he

theorem page (keyed : (Object.dictionary x).Keyed) : Shorn limit top x (shearPage x) := by
  have herase : Shorn limit top x (x.erase "StructParents") := .erase keyed (by decide)
  unfold shearPage
  dsimp only
  split
  · next items hitems => exact herase.trans (annotations herase.keyed hitems)
  · exact herase

end Shorn

/-! ## Documents -/

namespace Document

/-- A document above whose first object numbers there are only streams for content. -/
structure Tidy (limit : Nat) (doc : Document) : Prop where
  numbered : doc.Numbered
  limit_le : limit ≤ doc.maxId
  keyed : ∀ id o, doc.objects.get? id = some o → o.Keyed
  above : ∀ id o, doc.objects.get? id = some o → limit < id.number →
    ∃ z content, o = contentStream z content

/-- A document that has shed some of what bound it to a structure tree. -/
structure Sheds (limit : Nat) (old doc : Document) : Prop where
  tidy : doc.Tidy limit
  limit_le : limit ≤ old.maxId
  grown : old.maxId ≤ doc.maxId
  trailer : doc.trailer = old.trailer
  kept : ∀ id o, old.objects.get? id = some o →
    ∃ o', doc.objects.get? id = some o' ∧ o.Sheds limit o'
  fresh : ∀ id o, doc.objects.get? id = some o → old.objects.get? id = none → old.maxId < id.number
  closed : old.Closed → doc.Closed

theorem Numbered.tidy {doc : Document} (numbered : doc.Numbered)
    (keyed : ∀ id o, doc.objects.get? id = some o → o.Keyed) : doc.Tidy doc.maxId where
  numbered := numbered
  limit_le := Nat.le_refl _
  keyed := keyed
  above := fun id o ho hlt => absurd (numbered id o ho) (Nat.not_le_of_lt hlt)

variable {limit : Nat} {old doc doc' : Document} {t id : ObjectId} {x y : Dict Object} {o : Object}

theorem references_contentEntries (z : Compressor) (content : Bytes) :
    referencesOf (contentEntries z content).entries = [] := by
  rw [contentEntries]
  cases (z.deflate? content).isSome <;> rfl

theorem objects_put (doc : Document) (t : ObjectId) (o : Object) (id : ObjectId) :
    (doc.put t o).objects.get? id = if id = t then some o else doc.objects.get? id :=
  OrderedMap.get?_insert ..

namespace Sheds

theorem refl (tidy : doc.Tidy limit) : doc.Sheds limit doc where
  tidy := tidy
  limit_le := tidy.limit_le
  grown := Nat.le_refl _
  trailer := rfl
  kept := fun _ o ho => ⟨o, ho, .same o⟩
  fresh := fun _ o ho hnone => absurd (hnone.symm.trans ho) (by simp)
  closed := fun h => h

theorem trans (h : old.Sheds limit doc) (h' : doc.Sheds limit doc') : old.Sheds limit doc' where
  tidy := h'.tidy
  limit_le := h.limit_le
  grown := Nat.le_trans h.grown h'.grown
  trailer := h'.trailer.trans h.trailer
  kept := by
    intro id o ho
    obtain ⟨o₁, ho₁, hsheds₁⟩ := h.kept id o ho
    obtain ⟨o', ho', hsheds'⟩ := h'.kept id o₁ ho₁
    exact ⟨o', ho', hsheds₁.trans hsheds'⟩
  fresh := by
    intro id o ho hnone
    cases ho₁ : doc.objects.get? id with
    | none => exact Nat.lt_of_le_of_lt h.grown (h'.fresh id o ho ho₁)
    | some o₁ => exact h.fresh id o₁ ho₁ hnone
  closed := fun hold => h'.closed (h.closed hold)

/-- A new stream of content. -/
theorem add (tidy : doc.Tidy limit) (z : Compressor) (content : Bytes) :
    doc.Sheds limit (doc.add (contentStream z content)) where
  tidy := by
    refine ⟨tidy.numbered.add _, Nat.le_succ_of_le tidy.limit_le, fun id o ho => ?_,
      fun id o ho hlt => ?_⟩ <;> rw [objects_add] at ho <;> split at ho
    · obtain rfl := Option.some.inj ho
      trivial
    · exact tidy.keyed id o ho
    · exact ⟨z, content, (Option.some.inj ho).symm⟩
    · exact tidy.above id o ho hlt
  limit_le := tidy.limit_le
  grown := Nat.le_succ _
  trailer := rfl
  kept := by
    intro id o ho
    have hne : id ≠ doc.nextId := by
      rintro rfl
      rw [tidy.numbered.unused] at ho
      cases ho
    exact ⟨o, by rw [objects_add, if_neg hne, ho], .same o⟩
  fresh := by
    intro id o ho hnone
    rw [objects_add] at ho
    split at ho
    · next heq =>
      rw [heq]
      exact Nat.lt_succ_self _
    · exact absurd (hnone.symm.trans ho) (by simp)
  closed := by
    intro closed
    refine ⟨fun id o ho => ?_, fun id hid => Nat.le_succ_of_le (closed.trailer id hid)⟩
    rw [objects_add] at ho
    split at ho
    · next heq =>
      obtain rfl := Option.some.inj ho
      rw [heq]
      refine ⟨Nat.le_refl _, ?_⟩
      intro id' hid'
      rw [contentStream, Object.references, references_contentEntries] at hid'
      exact absurd hid' List.not_mem_nil
    · obtain ⟨hid, hbelow⟩ := closed.objects id o ho
      exact ⟨Nat.le_succ_of_le hid, hbelow.mono (Nat.le_succ _)⟩

/-- What is left of a dictionary, in its place. -/
theorem put (tidy : doc.Tidy limit) (hx : doc.objects.get? t = some (.dictionary x))
    (shorn : Shorn limit doc.maxId x y) : doc.Sheds limit (doc.put t (.dictionary y)) where
  tidy := by
    refine ⟨tidy.numbered.put hx, tidy.limit_le, fun id o ho => ?_, fun id o ho hlt => ?_⟩ <;>
      rw [objects_put] at ho <;> split at ho
    · obtain rfl := Option.some.inj ho
      exact shorn.keyed
    · exact tidy.keyed id o ho
    · next heq =>
      subst heq
      obtain ⟨_, _, hstream⟩ := tidy.above id _ hx hlt
      cases hstream
    · exact tidy.above id o ho hlt
  limit_le := tidy.limit_le
  grown := Nat.le_refl _
  trailer := rfl
  kept := by
    intro id o ho
    rw [objects_put]
    split
    · next heq =>
      subst heq
      obtain rfl := Option.some.inj (hx.symm.trans ho)
      exact ⟨_, rfl, .dictionary shorn.entry⟩
    · exact ⟨o, ho, .same o⟩
  fresh := by
    intro id o ho hnone
    rw [objects_put] at ho
    split at ho
    · next heq =>
      subst heq
      rw [hx] at hnone
      cases hnone
    · exact absurd (hnone.symm.trans ho) (by simp)
  closed := by
    intro closed
    refine ⟨fun id o ho => ?_, closed.trailer⟩
    rw [objects_put] at ho
    split at ho
    · next heq =>
      subst heq
      obtain rfl := Option.some.inj ho
      obtain ⟨hid, hbelow⟩ := closed.objects id _ hx
      exact ⟨hid, shorn.below hbelow⟩
    · exact closed.objects id o ho

/-! ## Look-ups -/

theorem stream_of_fresh (h : old.Sheds limit doc) (ho : doc.objects.get? id = some o)
    (hnone : old.objects.get? id = none) : ∃ z content, o = contentStream z content :=
  h.tidy.above id o ho (Nat.lt_of_le_of_lt h.limit_le (h.fresh id o ho hnone))

/-- A chain of references ends where it ended, or it led nowhere and leads to a new stream now. -/
theorem chase_cases (h : old.Sheds limit doc) (n : Nat) (id : ObjectId) :
    chase doc.objects n id = chase old.objects n id ∨ chase old.objects n id = none ∧
      ∃ t, chase doc.objects n id = some t ∧ old.objects.get? t = none := by
  induction n using Nat.strong_induction_on generalizing id with
  | _ n ih =>
    cases hid : old.objects.get? id with
    | none =>
      rw [chase, chase, hid]
      cases hdoc : doc.objects.get? id with
      | none => exact Or.inl rfl
      | some o =>
        obtain ⟨z, content, rfl⟩ := h.stream_of_fresh hdoc hid
        exact Or.inr ⟨rfl, id, rfl, hid⟩
    | some o =>
      obtain ⟨o', ho', hsheds⟩ := h.kept id o hid
      cases o with
      | reference next =>
        cases hsheds
        rw [chase, chase, hid, ho']
        cases n with
        | zero => exact Or.inl rfl
        | succ n => exact ih n (Nat.lt_succ_self n) next
      | _ =>
        exact Or.inl ((chase_of_direct ho' hsheds.isDirect n).trans (chase_of_direct hid rfl n).symm)

/-- What an id stood for has shed what binds it; an id that stood for nothing may stand for a new
stream. -/
theorem get?_cases (h : old.Sheds limit doc) (id : ObjectId) :
    Option.Rel (Object.Sheds limit) (old.get? id) (doc.get? id) ∨ old.get? id = none ∧
      ∃ z content, doc.get? id = some (contentStream z content) := by
  rcases h.chase_cases referenceLimit id with hsame | ⟨hnone, t, ht, hnew⟩
  · left
    rw [get?, get?, target?, target?, hsame]
    cases ht : chase old.objects referenceLimit id with
    | none => exact .none
    | some t =>
      obtain ⟨o, ho, -⟩ := direct_of_chase ht
      obtain ⟨o', ho', hsheds⟩ := h.kept t o ho
      rw [Option.bind_some, Option.bind_some, ho, ho']
      exact .some hsheds
  · right
    obtain ⟨o, ho, -⟩ := direct_of_chase ht
    obtain ⟨z, content, rfl⟩ := h.stream_of_fresh ho hnew
    refine ⟨by rw [get?, target?, hnone]; rfl, z, content, ?_⟩
    rw [get?, target?, ht, Option.bind_some, ho]

/-- The dictionary that an id stands for has lost entries only. -/
theorem dict?_rel (h : old.Sheds limit doc) (id : ObjectId) :
    Option.Rel (fun x y => ∀ key, Shed limit key (x.get? key) (y.get? key)) (old.dict? id)
      (doc.dict? id) := by
  rw [dict?, dict?]
  rcases h.get?_cases id with hrel | ⟨hold, z, content, hdoc⟩
  · exact hrel.bind fun _ _ hsheds => hsheds.dictionary?
  · rw [hold, hdoc]
    exact .none

theorem resolve_array? (h : old.Sheds limit doc) (o : Object) :
    (doc.resolve o).array? = (old.resolve o).array? := by
  cases o with
  | reference id =>
    rw [resolve, resolve]
    rcases h.get?_cases id with hrel | ⟨hold, z, content, hdoc⟩
    · exact (hrel.getD (.same .null)).array?
    · rw [hold, hdoc]
      rfl
  | _ => rfl

theorem entryArray?_eq (h : old.Sheds limit doc) {key : Bytes} (same : y.get? key = x.get? key) :
    doc.entryArray? y key = old.entryArray? x key := by
  rw [entryArray?, entryArray?, value?, value?, same]
  cases x.get? key with
  | none => rfl
  | some o => exact h.resolve_array? o

/-! ## Pages -/

theorem typeOf?_eq (h : old.Sheds limit doc) (id : ObjectId) : doc.typeOf? id = old.typeOf? id := by
  rw [typeOf?, typeOf?, (h.dict?_rel id).bind_eq fun x y entry => (entry "Type").eq (by decide)]

theorem pageKids_eq (h : old.Sheds limit doc) (id : ObjectId) :
    doc.pageKids id = old.pageKids id := by
  rw [pageKids, pageKids, (h.dict?_rel id).bind_eq fun x y entry =>
    h.entryArray?_eq ((entry "Kids").eq (by decide))]

/-- The pages are those of the old document; only the limit is another one. -/
theorem pages_eq (h : old.Sheds limit doc) : doc.pages = old.pagesWithin doc.objects.size := by
  refine pages_eq_of_kids (P := fun _ => True) (fun id _ => h.typeOf?_eq id)
    (fun id _ => h.pageKids_eq id) (fun _ _ _ _ => trivial) ?_ fun _ _ => trivial
  rw [catalogDict?, catalogDict?, h.trailer]
  cases (old.trailer.get? "Root").bind Object.reference? with
  | none => rfl
  | some id => exact (h.dict?_rel id).bind_eq fun x y entry => (entry "Pages").eq (by decide)

/-! ## Closed documents -/

theorem like (h : old.Sheds limit doc) : old.Like (· ∈ sheddingKeys) doc where
  trailer := h.trailer
  objects := by
    intro id hid
    cases hold : old.objects.get? id with
    | none =>
      cases hdoc : doc.objects.get? id with
      | none => exact .none
      | some o => exact absurd (h.fresh id o hdoc hold) (Nat.not_lt_of_le hid)
    | some o =>
      obtain ⟨o', ho', hsheds⟩ := h.kept id o hold
      rw [ho']
      refine .some ?_
      cases hsheds with
      | same => exact .same o
      | dictionary entry => exact .dictionary fun key hkey => (entry key).eq hkey

theorem integer?_resolve (h : old.Sheds limit doc) {o : Object} {m : Int}
    (hm : (doc.resolve o).integer? = some m) : (old.resolve o).integer? = some m := by
  cases o with
  | reference id =>
    rw [resolve] at hm ⊢
    rcases h.get?_cases id with hrel | ⟨hold, z, content, hdoc⟩
    · rw [← (hrel.getD (.same .null)).integer?]
      exact hm
    · rw [hdoc] at hm
      exact absurd hm (by simp [contentStream, Object.integer?])
  | _ => exact hm

theorem mcidOfDict_old (h : old.Sheds limit doc)
    (entry : ∀ key, Shed limit key (x.get? key) (y.get? key)) {m : Int}
    (hm : (doc.value? y "MCID").bind Object.integer? = some m) :
    (old.value? x "MCID").bind Object.integer? = some m := by
  obtain ⟨o, ho, hm⟩ := Option.bind_eq_some_iff.mp hm
  obtain ⟨v, hv, rfl⟩ := Option.map_eq_some_iff.mp ho
  rw [(entry "MCID").eq (by decide)] at hv
  rw [value?, hv]
  exact h.integer?_resolve hm

theorem resolve_above (h : old.Sheds limit doc) (above : limit < id.number)
    (hx : (doc.resolve (.reference id)).entries? = some x) :
    ∃ z content, x = contentEntries z content := by
  rw [resolve] at hx
  cases ho : doc.objects.get? id with
  | none =>
    have hnone : doc.get? id = none := by rw [get?, target?, chase, ho]; rfl
    rw [hnone] at hx
    exact absurd hx (by simp [Object.entries?])
  | some o =>
    obtain ⟨z, content, rfl⟩ := h.tidy.above id o ho above
    rw [get?_of_direct ho rfl, Option.getD_some] at hx
    exact ⟨z, content, (Option.some.inj hx).symm⟩

variable (closed : old.Closed) (h : old.Sheds limit doc)

include closed h

theorem resolve_sheds (ho : o.Below old.maxId) : (old.resolve o).Sheds limit (doc.resolve o) := by
  cases o with
  | reference id =>
    have hid := Object.below_reference.mp ho
    rw [resolve, resolve, get?, get?, h.like.target?_eq closed hid]
    cases ht : old.target? id with
    | none => exact .same .null
    | some t =>
      obtain ⟨o, ho, -⟩ := direct_of_target? ht
      obtain ⟨o', ho', hsheds⟩ := h.kept t o ho
      rw [Option.bind_some, Option.bind_some, ho, ho']
      exact hsheds
  | _ => exact .same _

variable {key : Bytes}

theorem value?_rel (left : Remains limit old.maxId x y) (hkey : key ∉ sheddingKeys) :
    Option.Rel (fun o o' => o.Below old.maxId ∧ o.Sheds limit o') (old.value? x key)
      (doc.value? y key) := by
  rw [value?, value?, (left.entry key).eq hkey]
  cases ho : x.get? key with
  | none => exact .none
  | some o =>
    have hbelow := left.below.entry ho
    exact .some ⟨closed.resolve_below hbelow, resolve_sheds closed h hbelow⟩

theorem entryDict?_rel (left : Remains limit old.maxId x y) (hkey : key ∉ sheddingKeys) :
    Option.Rel (Remains limit old.maxId) (old.entryDict? x key) (doc.entryDict? y key) :=
  (value?_rel closed h left hkey).bind fun _ _ hsheds => hsheds.2.entries? hsheds.1

/-! ## MCIDs -/

theorem inheritedFrom_rel (hkey : key ∉ sheddingKeys) (depth : Nat) :
    ∀ x y : Dict Object, Remains limit old.maxId x y →
      Option.Rel (fun o o' => o.Below old.maxId ∧ o.Sheds limit o')
        (old.inheritedFrom key depth x) (doc.inheritedFrom key depth y) := by
  induction depth with
  | zero => exact fun _ _ _ => .none
  | succ depth ih =>
    intro x y left
    have hrel := value?_rel closed h left hkey
    have hparent := entryDict?_rel closed h left (show utf8 "Parent" ∉ sheddingKeys by decide)
    rw [inheritedFrom, inheritedFrom]
    revert hrel
    generalize old.value? x key = o
    generalize doc.value? y key = o'
    intro hrel
    cases hrel with
    | some hsheds => exact .some hsheds
    | none => exact hparent.bind ih

theorem pageResources_remains (page : ObjectId) :
    Remains limit old.maxId (old.pageResources page) (doc.pageResources page) := by
  have hdict : Option.Rel (Remains limit old.maxId) (old.dict? page) (doc.dict? page) :=
    remains_of_rel (h.dict?_rel page) fun x hx => closed.dict?_below hx
  have hinherited := hdict.bind (inheritedFrom_rel closed h (show utf8 "Resources" ∉ sheddingKeys by decide)
    inheritanceDepth)
  have hrel : Option.Rel (Remains limit old.maxId) (old.pageResources? page)
      (doc.pageResources? page) := by
    refine hinherited.bind fun o o' hsheds => remains_of_rel hsheds.2.dictionary? fun x hx => ?_
    cases o with
    | dictionary x' =>
      obtain rfl := Option.some.inj hx
      exact hsheds.1
    | _ => exact absurd hx (by simp [Object.dictionary?])
  exact hrel.getD ⟨fun id hid => absurd hid List.not_mem_nil, fun _ => .same _⟩

/-- A named property list has no MCID that it had not, even if its name is that of an entry that was
shed or set. -/
theorem namedMcid_old (left : Remains limit old.maxId x y) {d : Dict Object} {m : Int}
    (hd : doc.entryDict? y key = some d) (hm : (doc.value? d "MCID").bind Object.integer? = some m) :
    ((old.entryDict? x key).bind (old.value? · "MCID")).bind Object.integer? = some m := by
  obtain ⟨value, hvalue, hentries⟩ := Option.bind_eq_some_iff.mp hd
  obtain ⟨entry, hentry, rfl⟩ := Option.map_eq_some_iff.mp hvalue
  have hshed := left.entry key
  rw [hentry] at hshed
  generalize hx : x.get? key = old? at hshed
  cases hshed with
  | same =>
    have hbelow := left.below.entry hx
    have hrel := (resolve_sheds closed h hbelow).entries? (closed.resolve_below hbelow)
    obtain ⟨d₀, hd₀, left₀⟩ := hrel.exists_left hentries
    rw [entryDict?, value?, hx, Option.map_some, Option.bind_some, hd₀, Option.bind_some]
    exact mcidOfDict_old h left₀.entry hm
  | content _ _ above =>
    rename_i id
    obtain ⟨z, content, hstream⟩ := h.resolve_above above hentries
    rw [hstream, value?, mcid_contentEntries] at hm
    exact absurd hm (by simp)
  | annotations => exact absurd hentries (by simp [resolve, Object.entries?])

theorem mcid?_old (left : Remains limit old.maxId x y) {properties : Object} {m : Int}
    (hm : ContentResources.mcid? doc y properties = some m) :
    ContentResources.mcid? old x properties = some m := by
  unfold ContentResources.mcid? at hm ⊢
  cases properties with
  | dictionary d => exact mcidOfDict_old h (fun _ => .same _) hm
  | name key =>
    obtain ⟨o, ho, hm⟩ := Option.bind_eq_some_iff.mp hm
    obtain ⟨d, hd, ho⟩ := Option.bind_eq_some_iff.mp ho
    obtain ⟨lists', hlists', hd⟩ := Option.bind_eq_some_iff.mp hd
    obtain ⟨lists, hlists, left'⟩ := (entryDict?_rel closed h left (by decide)).exists_left hlists'
    simp only [hlists, Option.bind_some]
    exact namedMcid_old closed h left' hd (by rw [ho]; exact hm)
  | _ => exact absurd hm (by simp)

/-- The MCID that an operation opens on a page, it opened there before. -/
theorem openedMcid?_old {page : ObjectId} {ops : List Operation} (ops' : List Operation)
    {op : Operation} {m : Int}
    (hm : PageScan.openedMcid? (.ofDict doc (doc.pageResources page) ops) op = some m) :
    PageScan.openedMcid? (.ofDict old (old.pageResources page) ops') op = some m := by
  unfold PageScan.openedMcid? at hm ⊢
  cases hcommand : op.command with
  | beginMarked tag properties =>
    rw [hcommand] at hm
    obtain ⟨list, hlist, hm⟩ := Option.bind_eq_some_iff.mp hm
    exact Option.bind_eq_some_iff.mpr
      ⟨list, hlist, mcid?_old closed h (pageResources_remains closed h page) hm⟩
  | _ =>
    rw [hcommand] at hm
    exact absurd hm (by simp)

end Sheds

end Document

end AccessiblePdf
