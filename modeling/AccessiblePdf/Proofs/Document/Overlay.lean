import AccessiblePdf.Ocr.Layer
import AccessiblePdf.Proofs.Document.Appending
import AccessiblePdf.Proofs.Document.Likeness

/-!
Documents that text layers were added to. An object stays as it was, except that a dictionary may get
other content where that of a page is set, another entry for resources or fonts where the old one does
not refer to a dictionary, and fonts under names that are free (`Open`). So what a page reaches through
such references, it reaches ever after; and in a closed document the pages are those that there were
(`pages_eq`), with the content that they had, unless it is set (`extendable`).
-/
namespace AccessiblePdf

open Edit

/-! ## What a text layer sets -/

/-- An entry that a text layer replaces. -/
def IsReplaced (key : Bytes) : Prop :=
  key = utf8 "Contents" ∨ key = utf8 "Resources" ∨ key = utf8 "Font"

/-- A name for fonts of text layers, or one that goes on after it, as with a number. -/
def IsLayerName (key : Bytes) : Prop :=
  utf8 Ocr.LayerFont.latin.resource <+: key ∨ utf8 Ocr.LayerFont.universal.resource <+: key

instance (key : Bytes) : Decidable (IsLayerName key) := by
  unfold IsLayerName
  infer_instance

theorem isLayerName (layer : Ocr.LayerFont) {key : Bytes} (h : utf8 layer.resource <+: key) :
    IsLayerName key := by
  cases layer with
  | latin => exact Or.inl h
  | universal => exact Or.inr h

/-- An entry that a text layer sets. -/
def IsLayerKey (key : Bytes) : Prop := IsReplaced key ∨ IsLayerName key

instance (key : Bytes) : Decidable (IsLayerKey key) := by
  unfold IsLayerKey IsReplaced
  infer_instance

namespace Document

/-- An entry that a text layer may set, given the place of the dictionary and the old entry. -/
def Open (doc : Document) (homes : ObjectId → Prop) (place : ObjectId) (key : Bytes)
    (old : Option Object) : Prop :=
  (key = utf8 "Contents" ∧ homes place) ∨
    ((key = utf8 "Resources" ∨ key = utf8 "Font") ∧ ownId? doc old = none) ∨
      (IsLayerName key ∧ old = none)

/-- A dictionary in a place, and what has become of it. -/
def Painted (doc : Document) (homes : ObjectId → Prop) (place : ObjectId) (x y : Dict Object) : Prop :=
  ∀ key, y.get? key = x.get? key ∨ doc.Open homes place key (x.get? key)

/-- A document, and what text layers have made of it, whose content stands in some places. -/
structure Overlays (homes : ObjectId → Prop) (old doc : Document) : Prop where
  numbered : doc.Numbered
  trailer : doc.trailer = old.trailer
  maxId : old.maxId ≤ doc.maxId
  absent : ∀ id : ObjectId, id.number ≤ old.maxId → old.objects.get? id = none →
    doc.objects.get? id = none
  same : ∀ id o, old.objects.get? id = some o → o.dictionary? = none → doc.objects.get? id = some o
  dictionary : ∀ id x, old.objects.get? id = some (.dictionary x) →
    ∃ y, doc.objects.get? id = some (.dictionary y) ∧ old.Painted homes id x y

variable {homes : ObjectId → Prop} {old mid doc : Document} {id t : ObjectId}
  {x y : Dict Object} {o : Object} {key : Bytes}

theorem Open.isLayerKey (h : doc.Open homes t key (x.get? key)) :
    IsLayerKey key := by
  rcases h with ⟨rfl, -⟩ | ⟨rfl | rfl, -⟩ | ⟨h, -⟩
  · exact Or.inl (Or.inl rfl)
  · exact Or.inl (Or.inr (Or.inl rfl))
  · exact Or.inl (Or.inr (Or.inr rfl))
  · exact Or.inr h

theorem Painted.resembles (h : doc.Painted homes t x y) : Resembles IsLayerKey x y := fun key hkey =>
  (h key).resolve_right fun hopen => hkey hopen.isLayerKey

theorem Painted.entry (h : doc.Painted homes t x y) (hkey : ¬IsReplaced key)
    (ho : x.get? key = some o) : y.get? key = some o := by
  rw [← ho]
  refine (h key).resolve_right ?_
  rintro (⟨rfl, -⟩ | ⟨rfl | rfl, -⟩ | ⟨-, hnone⟩)
  · exact hkey (Or.inl rfl)
  · exact hkey (Or.inr (Or.inl rfl))
  · exact hkey (Or.inr (Or.inr rfl))
  · rw [ho] at hnone
    cases hnone

theorem Painted.contents (h : doc.Painted homes t x y) (elsewhere : ¬homes t) :
    y.get? "Contents" = x.get? "Contents" := by
  refine (h _).resolve_right ?_
  rintro (⟨-, hhome⟩ | ⟨hkey, -⟩ | ⟨hkey, -⟩)
  · exact elsewhere hhome
  · exact absurd hkey (by decide)
  · exact absurd hkey (by decide)

/-! ## Changes that are allowed -/

namespace Overlays

theorem refl (numbered : doc.Numbered) : Overlays homes doc doc where
  numbered := numbered
  trailer := rfl
  maxId := Nat.le_refl _
  absent := fun _ _ h => h
  same := fun _ _ h _ => h
  dictionary := fun _ x h => ⟨x, h, fun _ => Or.inl rfl⟩

theorem add (numbered : doc.Numbered) (o : Object) : Overlays homes doc (doc.add o) := by
  have hold : ∀ id o', doc.objects.get? id = some o' → (doc.add o).objects.get? id = some o' := by
    intro id o' ho'
    rw [objects_add, if_neg]
    · exact ho'
    · rintro rfl
      rw [numbered.unused] at ho'
      cases ho'
  refine ⟨numbered.add o, rfl, Nat.le_succ _, ?_, fun id o' ho' _ => hold id o' ho', ?_⟩
  · intro id hid hnone
    rw [objects_add, if_neg]
    · exact hnone
    · rintro rfl
      exact absurd hid (Nat.not_succ_le_self _)
  · exact fun id x hx => ⟨x, hold id _ hx, fun _ => Or.inl rfl⟩

/-- An entry is set that was open, or whose dictionary is new. -/
theorem setEntry (h : Overlays homes old mid) (hy : mid.objects.get? t = some (.dictionary y))
    (allowed : ∀ x, old.objects.get? t = some (.dictionary x) → old.Open homes t key (x.get? key)) :
    Overlays homes old (mid.put t (.dictionary (y.insert key o))) := by
  have hget : ∀ id, (mid.put t (.dictionary (y.insert key o))).objects.get? id =
      if id = t then some (.dictionary (y.insert key o)) else mid.objects.get? id :=
    fun id => OrderedMap.get?_insert ..
  refine ⟨?_, h.trailer, h.maxId, ?_, ?_, ?_⟩
  · intro id v hv
    rw [hget] at hv
    split at hv
    · next hid => exact h.numbered id _ (hid ▸ hy)
    · exact h.numbered id v hv
  · intro id hid hnone
    have hmid := h.absent id hid hnone
    rw [hget, if_neg]
    · exact hmid
    · rintro rfl
      rw [hy] at hmid
      cases hmid
  · intro id o' ho' hother
    have hmid := h.same id o' ho' hother
    rw [hget, if_neg]
    · exact hmid
    · rintro rfl
      obtain rfl := Option.some.inj (hy.symm.trans hmid)
      cases hother
  · intro id x hx
    obtain ⟨y', hy', hpainted⟩ := h.dictionary id x hx
    rw [hget]
    by_cases hid : id = t
    · subst hid
      obtain rfl := Object.dictionary.inj (Option.some.inj (hy.symm.trans hy'))
      refine ⟨_, if_pos rfl, fun key' => ?_⟩
      rw [OrderedMap.get?_insert]
      by_cases hkey : key' = key
      · subst hkey
        exact Or.inr (allowed x hx)
      · rw [if_neg hkey]
        exact hpainted key'
    · exact ⟨y', by rw [if_neg hid, hy'], hpainted⟩

/-! ## What is reached -/

theorem alike (h : Overlays homes old doc) (ho : old.objects.get? id = some o) :
    doc.objects.get? id = some o ∨ ∃ x y, o = .dictionary x ∧
      doc.objects.get? id = some (.dictionary y) := by
  cases o with
  | dictionary x =>
    obtain ⟨y, hy, -⟩ := h.dictionary id x ho
    exact Or.inr ⟨x, y, rfl, hy⟩
  | _ => exact Or.inl (h.same id _ ho rfl)

theorem chase (h : Overlays homes old doc) {n : Nat} (ht : Document.chase old.objects n id = some t) :
    Document.chase doc.objects n id = some t := by
  induction n generalizing id with
  | zero =>
    rw [Document.chase] at ht ⊢
    cases ho : old.objects.get? id with
    | none =>
      rw [ho] at ht
      cases ht
    | some o =>
      rw [ho] at ht
      rcases h.alike ho with hsame | ⟨x, y, rfl, hy⟩
      · rw [hsame]
        exact ht
      · rw [hy]
        exact ht
  | succ n ih =>
    rw [Document.chase] at ht ⊢
    cases ho : old.objects.get? id with
    | none =>
      rw [ho] at ht
      cases ht
    | some o =>
      rw [ho] at ht
      rcases h.alike ho with hsame | ⟨x, y, rfl, hy⟩
      · rw [hsame]
        cases o with
        | reference next => exact ih ht
        | _ => exact ht
      · rw [hy]
        exact ht

theorem target? (h : Overlays homes old doc) (ht : old.target? id = some t) :
    doc.target? id = some t :=
  h.chase ht

theorem get? (h : Overlays homes old doc) (ho : old.get? id = some o) (other : o.dictionary? = none) :
    doc.get? id = some o := by
  obtain ⟨t, ht, hobject, -⟩ := target?_of_get? ho
  rw [get?_eq_of_target? (h.target? ht), h.same t o hobject other]

theorem dict? (h : Overlays homes old doc) (hx : old.dict? id = some x) :
    ∃ t y, old.target? id = some t ∧ doc.dict? id = some y ∧ old.Painted homes t x y := by
  obtain ⟨t, ht, hobject⟩ := target?_of_dict? hx
  obtain ⟨y, hy, hpainted⟩ := h.dictionary t x hobject
  refine ⟨t, y, ht, dict?_of_get? ?_, hpainted⟩
  rw [get?_eq_of_target? (h.target? ht), hy]

theorem ownId? {entry : Option Object} (h : Overlays homes old doc)
    (own : Edit.ownId? old entry = some id) : Edit.ownId? doc entry = some id := by
  obtain ⟨rfl, x, hx⟩ := ownId?_eq_some own
  obtain ⟨-, y, -, hy, -⟩ := h.dict? hx
  rw [ownId?_reference, hy]
  rfl

theorem trans (h : Overlays homes old mid) (h' : Overlays homes mid doc) :
    Overlays homes old doc where
  numbered := h'.numbered
  trailer := h'.trailer.trans h.trailer
  maxId := Nat.le_trans h.maxId h'.maxId
  absent := fun id hid hnone =>
    h'.absent id (Nat.le_trans hid h.maxId) (h.absent id hid hnone)
  same := fun id o ho hother => h'.same id o (h.same id o ho hother) hother
  dictionary := by
    intro id x hx
    obtain ⟨y, hy, hxy⟩ := h.dictionary id x hx
    obtain ⟨z, hz, hyz⟩ := h'.dictionary id y hy
    refine ⟨z, hz, fun key => ?_⟩
    rcases hxy key with hsame | hopen
    · rw [← hsame]
      refine (hyz key).imp_right ?_
      rintro (hhome | ⟨hkey, hown⟩ | hfree)
      · exact Or.inl hhome
      · refine Or.inr (Or.inl ⟨hkey, ?_⟩)
        cases hold : Edit.ownId? old (y.get? key) with
        | none => rfl
        | some r =>
          rw [h.ownId? hold] at hown
          cases hown
      · exact Or.inr (Or.inr hfree)
    · exact Or.inr hopen

/-! ## What is read -/

theorem like (h : Overlays homes old doc) : old.Like IsLayerKey doc where
  trailer := h.trailer
  objects := by
    intro id hid
    cases ho : old.objects.get? id with
    | none =>
      rw [h.absent id hid ho]
      exact .none
    | some o =>
      cases o with
      | dictionary x =>
        obtain ⟨y, hy, hpainted⟩ := h.dictionary id x ho
        rw [hy]
        exact .some (.dictionary hpainted.resembles)
      | _ =>
        rw [h.same id _ ho rfl]
        exact .some (.same _)

/-- In a closed document the pages are those that there were; only the limit is another one. -/
theorem pages_eq (h : Overlays homes old doc) (closed : old.Closed) :
    doc.pages = old.pagesWithin doc.objects.size :=
  h.like.pages_eq closed (by decide) (by decide) (by decide)

theorem resolve_eq (h : Overlays homes old doc) (present : old.Present o)
    (other : ∀ x, old.resolve o ≠ .dictionary x) : doc.resolve o = old.resolve o := by
  cases o with
  | reference id =>
    obtain ⟨o, ho⟩ := present
    rw [Document.resolve_reference ho] at other ⊢
    refine Document.resolve_reference (h.get? ho ?_)
    cases o with
    | dictionary x => exact absurd rfl (other x)
    | _ => rfl
  | _ => rfl

theorem present (h : Overlays homes old doc) (present : old.Present o) : doc.Present o := by
  cases o with
  | reference id =>
    obtain ⟨o, ho⟩ := present
    cases o with
    | dictionary x =>
      obtain ⟨_, y, -, hy, -⟩ := h.dict? (dict?_of_get? ho)
      exact ⟨_, get?_of_dict? hy⟩
    | _ => exact ⟨_, h.get? ho rfl⟩
  | _ => trivial

/-- Content that can be added to stays as it is until it is set. -/
theorem extendable {page : ObjectId} {entry : Option Object} {content : Bytes} (h : Overlays homes old doc)
    (extendable : old.Extendable page entry content)
    (elsewhere : ∀ t, old.target? page = some t → ¬homes t) : doc.Extendable page entry content := by
  obtain ⟨⟨x, hx, hentry⟩, legal, inPlace, read⟩ := extendable
  obtain ⟨t, y, ht, hy, hpainted⟩ := h.dict? hx
  have hcontents : y.get? "Contents" = entry := (hpainted.contents (elsewhere t ht)).trans hentry
  rw [pageContent_eq_joinStreams hx, hentry] at read
  have hread : doc.pageContent page = doc.joinStreams (doc.contentItems entry) := by
    rw [pageContent_eq_joinStreams hy, hcontents]
  cases legal with
  | absent => exact ⟨⟨y, hy, hcontents⟩, .absent, rfl, hread.trans read⟩
  | @reference id leads =>
    obtain ⟨o, ho⟩ := leads
    have harray : o.array? = none := by simpa [refersToArray, ho] using inPlace
    rw [contentItems_reference, ho, Option.bind_some, harray, Option.getD_none,
      Document.resolve_reference ho] at read
    have hself : ∀ doc : Document, doc.resolve o = o := fun doc =>
      resolve_of_direct doc (direct_of_get? ho)
    have hother : o.dictionary? = none := by
      cases o with
      | dictionary x => exact absurd (hself old) (resolve_ne_of_joinStreams read List.mem_cons_self)
      | _ => rfl
    have hsame := h.get? ho hother
    refine ⟨⟨y, hy, hcontents⟩, .reference ⟨o, hsame⟩, ?_, ?_⟩
    · rw [refersToArray, hsame, Option.bind_some, harray]
      rfl
    · rw [hread, contentItems_reference, hsame, Option.bind_some, harray, Option.getD_none,
        Document.resolve_reference hsame, ← read]
      exact joinStreams_congr fun o' ho' => by rw [List.mem_singleton.mp ho', hself, hself]
  | @array items leads =>
    refine ⟨⟨y, hy, hcontents⟩, .array fun o ho => h.present (leads o ho), rfl, hread.trans ?_⟩
    rw [← read]
    exact joinStreams_congr fun o ho =>
      h.resolve_eq (leads o ho) fun x => resolve_ne_of_joinStreams read ho

theorem mono {homes' : ObjectId → Prop} (h : Overlays homes old doc) (sub : ∀ t, homes t → homes' t) :
    Overlays homes' old doc :=
  { h with
    dictionary := fun id x hx => by
      obtain ⟨y, hy, hpainted⟩ := h.dictionary id x hx
      exact ⟨y, hy, fun key => (hpainted key).imp_right (Or.imp_left fun h => ⟨h.1, sub _ h.2⟩)⟩ }

end Overlays

end Document

end AccessiblePdf
