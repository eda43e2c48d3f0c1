import AccessiblePdf.Proofs.Draft
import AccessiblePdf.Proofs.OrderedMap
import AccessiblePdf.Structure.Element

/-!
Edits that spare all entries but some. A document is spared (`Document.Spares`) when chains of
references end where they ended and every dictionary has the entries that it had, apart from those that
may be touched. Edits that touch only entries under some keys can be put together (`Edit.Sparing`).
-/
namespace AccessiblePdf

/-! ## Documents -/

namespace Document

/-- A later document has what an earlier one had, apart from entries that may be touched: those of a
dictionary in a place under a key. -/
structure Spares (touched : ObjectId → Bytes → Prop) (doc doc' : Document) : Prop where
  numbered : doc'.Numbered
  grown : doc.maxId ≤ doc'.maxId
  trailer : doc'.trailer = doc.trailer
  target : ∀ id t, doc.target? id = some t → doc'.target? id = some t
  entries : ∀ t x, doc.objects.get? t = some (.dictionary x) → x.Distinct →
    ∃ x', doc'.objects.get? t = some (.dictionary x') ∧ x'.Distinct ∧
      ∀ key, ¬touched t key → x'.get? key = x.get? key

variable {touched : ObjectId → Bytes → Prop} {doc doc₁ doc' : Document} {t : ObjectId}
  {x x' : Dict Object}

namespace Spares

theorem refl (numbered : doc.Numbered) : Spares touched doc doc where
  numbered := numbered
  grown := Nat.le_refl _
  trailer := rfl
  target := fun _ _ h => h
  entries := fun _ x h distinct => ⟨x, h, distinct, fun _ _ => rfl⟩

theorem trans_new {touched' : ObjectId → Bytes → Prop} (h : Spares touched doc doc₁)
    (h' : Spares touched' doc₁ doc')
    (sub : ∀ t o key, doc.objects.get? t = some o → touched' t key → touched t key) :
    Spares touched doc doc' where
  numbered := h'.numbered
  grown := Nat.le_trans h.grown h'.grown
  trailer := h'.trailer.trans h.trailer
  target := fun id t ht => h'.target id t (h.target id t ht)
  entries := by
    intro t x hx distinct
    obtain ⟨x₁, hx₁, distinct₁, hsame₁⟩ := h.entries t x hx distinct
    obtain ⟨x', hx', distinct', hsame'⟩ := h'.entries t x₁ hx₁ distinct₁
    exact ⟨x', hx', distinct', fun key hkey =>
      (hsame' key fun h => hkey (sub t _ key hx h)).trans (hsame₁ key hkey)⟩

theorem trans (h : Spares touched doc doc₁) (h' : Spares touched doc₁ doc') :
    Spares touched doc doc' := h.trans_new h' fun _ _ _ _ h => h

theorem mono {touched' : ObjectId → Bytes → Prop} (h : Spares touched doc doc')
    (sub : ∀ t key, touched t key → touched' t key) :
    Spares touched' doc doc' where
  numbered := h.numbered
  grown := h.grown
  trailer := h.trailer
  target := h.target
  entries := by
    intro t x hx distinct
    obtain ⟨x', hx', distinct', hsame⟩ := h.entries t x hx distinct
    exact ⟨x', hx', distinct', fun key hkey => hsame key fun h => hkey (sub t key h)⟩

theorem exists_dict {id : ObjectId} (h : Spares touched doc doc') (hx : doc.dict? id = some x)
    (distinct : x.Distinct) : ∃ t y, doc'.dict? id = some y ∧
      ∀ key, ¬touched t key → y.get? key = x.get? key := by
  obtain ⟨t, ht, hx⟩ := target?_of_dict? hx
  obtain ⟨y, hy, -, hsame⟩ := h.entries t x hx distinct
  refine ⟨t, y, dict?_of_get? ?_, hsame⟩
  rw [get?_eq_of_target? (h.target id t ht), hy]

end Spares

theorem Numbered.put (numbered : doc.Numbered) {o o' : Object} (ho : doc.objects.get? t = some o) :
    (doc.put t o').Numbered := by
  intro id v hv
  rw [Document.put, OrderedMap.get?_insert] at hv
  split at hv
  · next hid =>
    rw [hid]
    exact numbered t o ho
  · exact numbered id v hv

theorem spares_add (numbered : doc.Numbered) (o : Object) : Spares touched doc (doc.add o) where
  numbered := numbered.add o
  grown := Nat.le_succ _
  trailer := rfl
  target := fun _ _ ht => target?_add numbered.unused o ht
  entries := by
    intro t x hx distinct
    have hne : t ≠ doc.nextId := by
      rintro rfl
      rw [numbered.unused] at hx
      cases hx
    exact ⟨x, by rw [objects_add, if_neg hne, hx], distinct, fun _ _ => rfl⟩

theorem spares_putDict (numbered : doc.Numbered) (hx : doc.objects.get? t = some (.dictionary x))
    (h : x.Distinct → x'.Distinct ∧ ∀ key, ¬touched t key → x'.get? key = x.get? key) :
    Spares touched doc (doc.put t (.dictionary x')) where
  numbered := numbered.put hx
  grown := Nat.le_refl _
  trailer := rfl
  target := fun id _ ht => (target?_put hx rfl rfl id).trans ht
  entries := by
    intro s y hy distinct
    rw [put, OrderedMap.get?_insert]
    by_cases hs : s = t
    · subst hs
      obtain rfl : x = y := Object.dictionary.inj (Option.some.inj (hx.symm.trans hy))
      rw [if_pos rfl]
      exact ⟨x', rfl, (h distinct).1, (h distinct).2⟩
    · rw [if_neg hs]
      exact ⟨y, hy, distinct, fun _ _ => rfl⟩

end Document

/-! ## Edits -/

namespace Edit

/-- A change of a dictionary that touches only entries under some keys. -/
def Mild (keys : Bytes → Prop) (f : Dict Object → Dict Object) : Prop :=
  ∀ x, x.Distinct → (f x).Distinct ∧ ∀ key, ¬keys key → (f x).get? key = x.get? key

namespace Mild

variable {keys : Bytes → Prop} {f g : Dict Object → Dict Object} {key : Bytes}

theorem insert (hkey : keys key) (o : Dict Object → Object) : Mild keys fun x => x.insert key (o x) := by
  intro x distinct
  refine ⟨distinct.insert key (o x), fun key' hkey' => ?_⟩
  have hne : key' ≠ key := by
    rintro rfl
    exact hkey' hkey
  exact OrderedMap.get?_insert_of_ne _ hne _

theorem erase (hkey : keys key) : Mild keys (·.erase key) := by
  intro x distinct
  refine ⟨distinct.erase key, fun key' hkey' => ?_⟩
  have hne : key' ≠ key := by
    rintro rfl
    exact hkey' hkey
  rw [OrderedMap.get?_erase distinct, if_neg hne]

theorem comp (hg : Mild keys g) (hf : Mild keys f) : Mild keys fun x => g (f x) := by
  intro x distinct
  obtain ⟨distinct₁, hsame₁⟩ := hf x distinct
  obtain ⟨distinct', hsame'⟩ := hg (f x) distinct₁
  exact ⟨distinct', fun key hkey => (hsame' key hkey).trans (hsame₁ key hkey)⟩

end Mild

/-- An edit that touches only entries under some keys. -/
def Sparing (keys : Bytes → Prop) {α : Type} (e : Edit α) : Prop :=
  ∀ d d' a, e.run d = .ok a d' → d.doc.Numbered → d.doc.Spares (fun _ key => keys key) d'.doc

namespace Sparing

variable {α β : Type} {keys : Bytes → Prop} {key : Bytes}

theorem of_same {e : Edit α} (h : ∀ d d' a, e.run d = .ok a d' → d'.doc = d.doc) :
    Sparing keys e := by
  intro d d' a hrun numbered
  rw [h d d' a hrun]
  exact .refl numbered

theorem pure (a : α) : Sparing keys (Pure.pure a) :=
  of_same fun _ _ _ hrun => by rw [(pure_ok.mp hrun).2]

theorem throw (f : Fault) : Sparing keys (MonadExcept.throw f : Edit α) :=
  of_same fun _ _ _ hrun => (throw_ok.mp hrun).elim

theorem lift (r : Except Fault α) : Sparing keys (Edit.lift r) :=
  of_same fun _ _ _ hrun => by rw [(lift_ok.mp hrun).2]

theorem bind {e : Edit α} {g : α → Edit β} (he : Sparing keys e) (hg : ∀ a, Sparing keys (g a)) :
    Sparing keys (e >>= g) := by
  intro d d' b hrun numbered
  obtain ⟨a, d₁, hfirst, hrest⟩ := bind_ok.mp hrun
  have h := he d d₁ a hfirst numbered
  exact h.trans (hg a d₁ d' b hrest h.numbered)

theorem forIn {items : List α} {f : α → β → Edit (ForInStep β)} (hf : ∀ a b, Sparing keys (f a b))
    (b : β) : Sparing keys (forIn items b f) := by
  induction items generalizing b with
  | nil => exact pure b
  | cons a items ih =>
    rw [List.forIn_cons]
    refine (hf a b).bind fun step => ?_
    cases step with
    | done b => exact pure b
    | yield b => exact ih b

theorem doc : Sparing keys Edit.doc := of_same fun _ _ _ hrun => by rw [(doc_ok.mp hrun).2]

theorem get : Sparing keys (get : Edit Draft) := of_same fun _ _ _ hrun => by cases hrun; rfl

theorem dict (id : ObjectId) : Sparing keys (Edit.dict id) :=
  of_same fun _ _ _ hrun => by rw [(dict_ok.mp hrun).2]

theorem catalogId : Sparing keys Edit.catalogId :=
  of_same fun _ _ _ hrun => by rw [(catalogId_ok.mp hrun).2]

theorem clearNodes : Sparing keys Edit.clearNodes :=
  of_same fun _ _ _ hrun => by rw [clearNodes_ok.mp hrun]

theorem add (o : Object) : Sparing keys (Edit.add o) := by
  intro d d' id hrun numbered
  obtain ⟨-, rfl⟩ := add_ok.mp hrun
  exact Document.spares_add numbered o

theorem stream (content : Bytes) : Sparing keys (Edit.stream content) := by
  unfold Edit.stream
  refine get.bind fun d => ?_
  split <;> exact pure _

theorem modifyDict {f : Dict Object → Dict Object} (hf : Mild keys f) (id : ObjectId) :
    Sparing keys (Edit.modifyDict id f) := by
  intro d d' u hrun numbered
  obtain ⟨t, x, -, hx, rfl⟩ := modifyDict_ok.mp hrun
  exact Document.spares_putDict numbered hx (hf x)

theorem setEntry (hkey : keys key) (id : ObjectId) (o : Object) :
    Sparing keys (Edit.setEntry id key o) :=
  modifyDict (Mild.insert hkey fun _ => o) id

/-- A change that is made where there is a dictionary to change, and what comes after it. -/
theorem tryModifyDict {f : Dict Object → Dict Object} (hf : Mild keys f) (id : ObjectId) {e : Edit α}
    (he : Sparing keys e) : Sparing keys (do
      match (← Edit.doc).modifyDict? id f with
      | some doc => do
        setDoc doc
        e
      | none => e) := by
  intro d d' a hrun numbered
  obtain ⟨doc, d₁, hdoc, hrest⟩ := bind_ok.mp hrun
  obtain ⟨rfl, rfl⟩ := doc_ok.mp hdoc
  cases hm : d₁.doc.modifyDict? id f with
  | none =>
    rw [hm] at hrest
    exact he d₁ d' a hrest numbered
  | some doc' =>
    rw [hm] at hrest
    obtain ⟨_, d₂, hset, hlater⟩ := bind_ok.mp hrest
    obtain rfl := setDoc_ok.mp hset
    obtain ⟨t, x, -, hx, rfl⟩ := Document.modifyDict?_eq_some.mp hm
    have hput : d₁.doc.Spares (fun _ key => keys key) (d₁.doc.put t (.dictionary (f x))) :=
      Document.spares_putDict numbered hx (hf x)
    exact hput.trans (he _ d' a hlater hput.numbered)

theorem indirectDict (hkey : keys key) (owner : ObjectId) :
    Sparing keys (Edit.indirectDict owner key) := by
  intro d d' id hrun numbered
  obtain ⟨x, -, hcases⟩ := indirectDict_ok.mp hrun
  split at hcases
  · obtain ⟨-, rfl⟩ := hcases
    exact .refl numbered
  · have hadd : d.doc.Spares (fun _ key => keys key)
        (d.doc.add (.dictionary (inPlace (x.get? key)))) := Document.spares_add numbered _
    exact hadd.trans (setEntry hkey _ _ _ _ _ hcases.2 hadd.numbered)

theorem pageResources (hkey : keys (utf8 "Resources")) (page : ObjectId) :
    Sparing keys (Edit.pageResources page) := by
  unfold Edit.pageResources
  refine (dict page).bind fun x => ?_
  split
  · exact doc.bind fun _ => (setEntry hkey _ _).bind fun _ => indirectDict hkey _
  · exact indirectDict hkey _

theorem setOperations (hkey : keys (utf8 "Contents")) (page : ObjectId) (ops : List Operation) :
    Sparing keys (Edit.setOperations page ops) := by
  unfold Edit.setOperations
  exact (stream _).bind fun s => (add s).bind fun id => setEntry hkey page _

theorem setMarked (hinfo : keys (utf8 "MarkInfo")) (hmarked : keys (utf8 "Marked")) (marked : Bool) :
    Sparing keys (Edit.setMarked marked) := by
  unfold Edit.setMarked
  exact catalogId.bind fun _ => (indirectDict hinfo _).bind fun _ => setEntry hmarked _ _

end Sparing

end Edit

end AccessiblePdf
