import AccessiblePdf.Annotation.Edit
import AccessiblePdf.Proofs.Annotation.Skeleton
import AccessiblePdf.Proofs.Structure.Bookkeeping
import AccessiblePdf.Proofs.Structure.Unkeyed

/-!
Documents whose structure tree is as an account of it says (`Carries`). Each edit of the structure tree
has a lemma that says what the account is afterwards; an edit that leaves the entries alone that the
account is about leaves the account as it is (`Carries.keeps`).
-/
namespace AccessiblePdf

open Edit

/-- The places of the catalog, of the root of the structure tree and of the parent tree. -/
structure Places where
  catalog : ObjectId
  root : ObjectId
  tree : ObjectId

/-- The entries that an account of the structure tree is about. -/
def skeletonKeys : List Bytes :=
  ["StructTreeRoot", "ParentTree", "K", "ParentTreeNextKey", "Kids", "Nums", "StructParent"]

/-- What an account says about an entry of the dictionary in a place. -/
inductive Skeleton.Entry (s : Skeleton) (p : Places) : ObjectId → Bytes → Option Object → Prop where
  | root : Entry s p p.catalog "StructTreeRoot" (some (.reference p.root))
  | tree : Entry s p p.root "ParentTree" (some (.reference p.tree))
  | tops : Entry s p p.root "K" (some (.array [.reference s.top]))
  | next : Entry s p p.root "ParentTreeNextKey" (Cell.nextEntry s.next)
  | flat : Entry s p p.tree "Kids" none
  | owners : Entry s p p.tree "Nums" (some (.array (Nums.ofEntries s.entries)))
  | kids {element : ObjectId} {kids : List Kid} (here : s.kids element = some kids) :
      Entry s p element "K" (some (.array (kids.map Kid.item)))
  | key (home : ObjectId) : Entry s p home "StructParent" ((s.keys home).map Object.integer)

theorem Skeleton.Entry.mem_keys {s : Skeleton} {p : Places} {t : ObjectId} {key : Bytes}
    {v : Option Object} (h : s.Entry p t key v) : key ∈ skeletonKeys := by
  cases h <;> decide

/-- The structure tree of a document is as an account says. -/
structure Carries (p : Places) (s : Skeleton) (doc : Document) : Prop where
  sound : doc.Sound ["StructParents"]
  catalog : ∃ id, (doc.trailer.get? "Root").bind Object.reference? = some id ∧
    doc.target? id = some p.catalog
  entries : ∀ t key v, s.Entry p t key v → doc.entryAt? t key = v
  homes : ∀ element target page home, s.Lists element (.object target page home) →
    doc.target? target = some home
  apart : s.kids p.root = none

namespace Carries

variable {p : Places} {s s' : Skeleton} {doc doc' : Document} {d d' : Draft} {t : ObjectId}
  {x : Dict Object} {key : Bytes} {o : Object} {u : Unit}

/-! ## What is read -/

theorem object (h : Carries p s doc) (entry : s.Entry p t key (some o)) :
    ∃ x, doc.objects.get? t = some (.dictionary x) ∧ doc.target? t = some t ∧
      doc.dict? t = some x ∧ ∀ key v, s.Entry p t key v → x.get? key = v := by
  obtain ⟨x, hx, -⟩ := Document.get?_of_entryAt? (h.entries t key _ entry)
  refine ⟨x, hx, Document.target?_of_direct hx rfl,
    Document.dict?_of_get? (Document.get?_of_direct hx rfl), fun key' v hv => ?_⟩
  rw [← Document.entryAt?_of_get? hx]
  exact h.entries t key' v hv

theorem key_of_dict? (h : Carries p s doc) {id home : ObjectId} (hhome : doc.target? id = some home)
    (hx : doc.dict? id = some x) : x.get? "StructParent" = (s.keys home).map Object.integer := by
  obtain ⟨t, ht, hobject⟩ := Document.target?_of_dict? hx
  obtain rfl : home = t := Option.some.inj (hhome.symm.trans ht)
  rw [← Document.entryAt?_of_get? hobject]
  exact h.entries _ _ _ (.key home)

theorem structureRoot?_eq (h : Carries p s doc) : doc.structureRoot? = some p.root := by
  obtain ⟨id, hid, htarget⟩ := h.catalog
  obtain ⟨x, hx, -, -, hentries⟩ := h.object .root
  have hdict : doc.dict? id = some x := by
    rw [Document.dict?, Document.get?_eq_of_target? htarget, hx]
    rfl
  rw [Document.structureRoot?, Document.catalogDict?, hid, Option.bind_some, hdict, Option.bind_some,
    hentries _ _ .root]
  rfl

/-- All keys in use are below the next one. -/
theorem assignedKeys_lt (h : Carries p s doc) (agrees : s.Agrees) :
    ∀ k ∈ assignedKeys doc, 0 ≤ k ∧ k < s.next := by
  have hkeyed : ∀ {id : ObjectId} {a : Dict Object} {k : Int}, doc.dict? id = some a →
      (a.get? "StructParent").bind Object.integer? = some k → 0 ≤ k ∧ k < s.next := by
    intro id a k ha hk
    obtain ⟨home, hhome, -⟩ := Document.target?_of_dict? ha
    rw [h.key_of_dict? hhome ha] at hk
    cases hkey : s.keys home with
    | none =>
      rw [hkey] at hk
      exact absurd hk (by simp)
    | some key =>
      rw [hkey] at hk
      obtain rfl := Option.some.inj hk
      exact agrees.keyed home _ hkey
  intro k hk
  obtain ⟨page, -, hk⟩ := List.mem_flatMap.mp hk
  cases hx : doc.dict? page with
  | none =>
    rw [hx] at hk
    exact absurd hk List.not_mem_nil
  | some x =>
    rw [hx] at hk
    have hnone : x.get? "StructParents" = none := h.sound.get?_eq_none hx (by decide)
    simp only [hnone, Option.bind_none, Option.toList_none, List.nil_append] at hk
    obtain ⟨item, hitem, hk⟩ := List.mem_filterMap.mp hk
    obtain ⟨v, hv, hinteger⟩ := Option.bind_eq_some_iff.mp hk
    obtain ⟨a, ha, hentry⟩ := Option.bind_eq_some_iff.mp hv
    rcases h.sound.item_dictionary? hx (by decide) hitem ha with hnone | ⟨id, hid⟩
    · exact absurd ((hnone _ (by decide)).symm.trans hentry) (by simp)
    · exact hkeyed hid (by rw [hentry]; exact hinteger)

/-! ## What is left alone -/

/-- The account stays when its entries do. -/
theorem keeps (h : Carries p s doc) (kept : doc.Keeps skeletonKeys ["StructParents"] doc') :
    Carries p s doc' where
  sound := kept.sound
  catalog := by
    obtain ⟨id, hid, htarget⟩ := h.catalog
    exact ⟨id, by rw [kept.trailer, hid], kept.targets id _ htarget⟩
  entries := by
    intro t key v entry
    have hv := h.entries t key v entry
    by_cases hsome : (doc.objects.get? t).isSome = true
    · rw [(kept.entries t hsome).2 key entry.mem_keys, hv]
    · have hnone : doc.objects.get? t = none := by simpa using hsome
      have hempty : ∀ key, doc.entryAt? t key = none := by
        intro key
        rw [Document.entryAt?, hnone]
        rfl
      have habsent : ∀ {key' o}, ¬s.Entry p t key' (some o) := by
        intro key' o entry'
        exact absurd ((hempty key').symm.trans (h.entries t key' _ entry')) (by simp)
      cases entry with
      | next => exact (habsent .tree).elim
      | flat => exact (habsent .owners).elim
      | key =>
        rw [kept.unkeyed t hnone, ← hv, hempty]
      | root => exact (habsent .root).elim
      | tree => exact (habsent .tree).elim
      | tops => exact (habsent .tops).elim
      | owners => exact (habsent .owners).elim
      | kids here => exact (habsent (.kids here)).elim
  homes := fun e target page home hlists => kept.targets _ _ (h.homes e target page home hlists)
  apart := h.apart

/-! ## What is set -/

/-- One entry is set, and the account changes in this entry only. -/
theorem setEntry (h : Carries p s doc) (hx : doc.objects.get? t = some (.dictionary x))
    (allowed : key ≠ "StructParents" ∧ key ∉ movingKeys)
    (entries : ∀ t' key' v, s'.Entry p t' key' v → t' = t ∧ key' = key ∧ v = some o ∨
      ¬(t' = t ∧ key' = key) ∧ s.Entry p t' key' v)
    (homes : ∀ element target page home, s'.Lists element (.object target page home) →
      doc.target? target = some home)
    (apart : s'.kids p.root = none) : Carries p s' (doc.put t (.dictionary (x.insert key o))) where
  sound := h.sound.put hx ((h.sound.objects t _ hx).insert (by simpa using allowed.1)
    fun hmoving => absurd hmoving allowed.2)
  catalog := by
    obtain ⟨id, hid, htarget⟩ := h.catalog
    exact ⟨id, hid, (Document.target?_put hx rfl rfl id).trans htarget⟩
  entries := by
    intro t' key' v entry
    rw [Document.entryAt?_setEntry hx]
    rcases entries t' key' v entry with ⟨rfl, rfl, rfl⟩ | ⟨hne, hold⟩
    · rw [if_pos ⟨rfl, rfl⟩]
    · rw [if_neg hne]
      exact h.entries t' key' v hold
  homes := fun e target page home hlists =>
    (Document.target?_put hx rfl rfl target).trans (homes e target page home hlists)
  apart := apart

theorem setNext (h : Carries p s d.doc)
    (hrun : (Edit.setEntry p.root "ParentTreeNextKey" (.integer (s.next + 1))).run d = .ok u d') :
    ∃ doc', d' = { d with doc := doc' } ∧ (∀ id, doc'.target? id = d.doc.target? id) ∧
      Carries p s.advance doc' := by
  obtain ⟨t, x, ht, hx, rfl⟩ := setEntry_ok.mp hrun
  obtain ⟨_, -, htarget, -⟩ := h.object .tree
  obtain rfl : p.root = t := Option.some.inj (htarget.symm.trans ht)
  refine ⟨_, rfl, Document.target?_put hx rfl rfl, h.setEntry hx (by decide) ?_ h.homes h.apart⟩
  intro t' key' v entry
  cases entry with
  | next => exact Or.inl ⟨rfl, rfl, rfl⟩
  | kids here => exact Or.inr ⟨fun heq => absurd heq.2 (by decide), .kids here⟩
  | _ => exact Or.inr ⟨fun heq => absurd heq.2 (by decide), by constructor⟩

theorem setKey (h : Carries p s d.doc) {annot home : ObjectId} {k : Int}
    (hhome : d.doc.target? annot = some home)
    (hrun : (Edit.setEntry annot "StructParent" (.integer k)).run d = .ok u d') :
    ∃ doc', d' = { d with doc := doc' } ∧ (∀ id, doc'.target? id = d.doc.target? id) ∧
      Carries p (s.setKey home k) doc' := by
  obtain ⟨t, x, ht, hx, rfl⟩ := setEntry_ok.mp hrun
  obtain rfl : home = t := Option.some.inj (hhome.symm.trans ht)
  refine ⟨_, rfl, Document.target?_put hx rfl rfl, h.setEntry hx (by decide) ?_ h.homes h.apart⟩
  intro t' key' v entry
  cases entry with
  | key =>
    by_cases hsame : t' = home
    · subst hsame
      exact Or.inl ⟨rfl, rfl, by rw [Skeleton.keys_setKey, if_pos rfl]; rfl⟩
    · refine Or.inr ⟨fun heq => hsame heq.1, ?_⟩
      rw [Skeleton.keys_setKey, if_neg hsame]
      exact .key t'
  | kids here => exact Or.inr ⟨fun heq => absurd heq.2 (by decide), .kids here⟩
  | _ => exact Or.inr ⟨fun heq => absurd heq.2 (by decide), by constructor⟩

theorem parentTree (h : Carries p s d.doc) {t : ObjectId}
    (hrun : (Edit.parentTree p.root).run d = .ok t d') : t = p.tree ∧ d' = d := by
  obtain ⟨x, -, -, hx, hroot⟩ := h.object .tree
  obtain ⟨y, -, -, hy, htree⟩ := h.object .owners
  exact parentTree_flat hx (hroot _ _ .tree) hy (htree _ _ .flat) (htree _ _ .owners) hrun

theorem allocateKey (h : Carries p s d.doc) (agrees : s.Agrees) (small : s.next < 0x20000000000000)
    {k : Int} (hrun : (Edit.allocateKey p.root).run d = .ok k d') : k = s.next ∧
      ∃ doc', d' = { d with doc := doc' } ∧ (∀ id, doc'.target? id = d.doc.target? id) ∧
        Carries p s.advance doc' := by
  obtain ⟨x, -, -, hx, hroot⟩ := h.object .tree
  obtain ⟨y, -, -, hy, htree⟩ := h.object .owners
  obtain ⟨rfl, hset⟩ := allocateKey_flat hx (hroot _ _ .tree) (hroot _ _ .next) hy (htree _ _ .flat)
    (htree _ _ .owners) small agrees.range (h.assignedKeys_lt agrees) hrun
  exact ⟨rfl, h.setNext hset⟩

/-- A key gets another owner. -/
theorem setParent (h : Carries p s d.doc) {k : Int} {owner : ObjectId}
    (hrun : (Edit.setParent p.root k (.reference owner)).run d = .ok u d') :
    ∃ doc', d' = { d with doc := doc' } ∧ (∀ id, doc'.target? id = d.doc.target? id) ∧
      Carries p (s.setOwner k owner) doc' := by
  unfold Edit.setParent at hrun
  rw [bind_ok] at hrun
  obtain ⟨tree, d₁, hparent, hrun⟩ := hrun
  obtain ⟨rfl, rfl⟩ := h.parentTree hparent
  obtain ⟨t, x, ht, hx, rfl⟩ := modifyDict_ok.mp hrun
  obtain ⟨y, hy, htarget, -, htree⟩ := h.object .owners
  obtain rfl : p.tree = t := Option.some.inj (htarget.symm.trans ht)
  obtain rfl : y = x := by simpa using hy.symm.trans hx
  have hnums : ((y.get? "Nums").bind Object.array?).getD [] = Nums.ofEntries s.entries := by
    rw [htree _ _ .owners]
    rfl
  simp only [hnums, Nums.insert_ofEntries]
  refine ⟨_, rfl, Document.target?_put hx rfl rfl, h.setEntry hx (by decide) ?_ h.homes h.apart⟩
  intro t' key' v entry
  cases entry with
  | owners => exact Or.inl ⟨rfl, rfl, rfl⟩
  | kids here => exact Or.inr ⟨fun heq => absurd heq.2 (by decide), .kids here⟩
  | _ => exact Or.inr ⟨fun heq => absurd heq.2 (by decide), by constructor⟩

/-- An element lists one more kid. -/
theorem appendKid (h : Carries p s d.doc) {element : ObjectId} (kid : Kid) (helement : s.Has element)
    (hkid : ∀ target page home, kid = .object target page home → d.doc.target? target = some home)
    (hrun : (Edit.appendKid element kid.item).run d = .ok u d') :
    ∃ doc', d' = { d with doc := doc' } ∧ Carries p (s.append element kid) doc' := by
  obtain ⟨kids, hkids⟩ := helement
  obtain ⟨t, x, ht, hx, rfl⟩ := modifyDict_ok.mp hrun
  obtain ⟨y, hy, htarget, -, hentries⟩ := h.object (.kids hkids)
  obtain rfl : element = t := Option.some.inj (htarget.symm.trans ht)
  obtain rfl : y = x := by simpa using hy.symm.trans hx
  have hne : p.root ≠ element := by
    intro heq
    have := h.apart
    rw [heq, hkids] at this
    exact absurd this (by simp)
  have hwith : kidsWith kid.item (y.get? "K") = (kids ++ [kid]).map Kid.item := by
    rw [hentries _ _ (.kids hkids), List.map_append]
    rfl
  rw [hwith]
  refine ⟨_, rfl, h.setEntry hx (by decide) ?_ ?_ ?_⟩
  · intro t' key' v entry
    cases entry with
    | tops => exact Or.inr ⟨fun heq => hne heq.1, .tops⟩
    | kids here =>
      by_cases hsame : t' = element
      · subst hsame
        refine Or.inl ⟨rfl, rfl, ?_⟩
        rw [Skeleton.kids_append, if_pos rfl, hkids] at here
        rw [← Option.some.inj here]
      · rw [Skeleton.kids_append, if_neg hsame] at here
        exact Or.inr ⟨fun heq => hsame heq.1, .kids here⟩
    | _ => exact Or.inr ⟨fun heq => absurd heq.2 (by decide), by constructor⟩
  · intro e target page home hlists
    rcases Skeleton.lists_append.mp hlists with hlists | ⟨-, -, heq⟩
    · exact h.homes e target page home hlists
    · exact hkid target page home heq.symm
  · rw [Skeleton.kids_append, if_neg hne, h.apart]

/-- An element comes under a new id. -/
theorem newElement (h : Carries p s d.doc) {role : String} {parent element : ObjectId}
    (hrun : (Edit.add (.dictionary (Edit.newElement role parent))).run d = .ok element d') :
    s.kids element = none ∧ ∃ doc', d' = { d with doc := doc' } ∧
      Carries p (s.addElement element) doc' := by
  obtain ⟨rfl, rfl⟩ := add_ok.mp hrun
  have hfree := h.sound.numbered.unused
  have habsent : ∀ {t key o}, s.Entry p t key (some o) → t ≠ d.doc.nextId := by
    rintro t key o entry rfl
    obtain ⟨x, hx, -⟩ := h.object entry
    rw [hfree] at hx
    exact absurd hx (by simp)
  have hnone : s.kids d.doc.nextId = none := by
    cases hkids : s.kids d.doc.nextId with
    | none => rfl
    | some kids => exact absurd rfl (habsent (.kids hkids))
  have hkeys : (Edit.newElement role parent).keys = ["Type", "S", "P", "K"] := rfl
  have hsound : (Object.dictionary (Edit.newElement role parent)).Sound ["StructParents"] := by
    refine .of_keys (by decide) ?_
    rw [hkeys]
    decide
  have hrefl : d.doc.Keeps skeletonKeys ["StructParents"] d.doc := .refl h.sound
  have hkept := hrefl.add hsound rfl
  have h' := h.keeps hkept
  refine ⟨hnone, _, rfl, hkept.sound, h'.catalog, ?_, ?_, ?_⟩
  · intro t key v entry
    cases entry with
    | kids here =>
      by_cases hsame : t = d.doc.nextId
      · subst hsame
        rw [Skeleton.kids_addElement, if_pos rfl] at here
        rw [← Option.some.inj here, Document.entryAt?, Document.objects_add, if_pos rfl]
        rfl
      · rw [Skeleton.kids_addElement, if_neg hsame] at here
        exact h'.entries _ _ _ (.kids here)
    | _ => exact h'.entries _ _ _ (by constructor)
  · intro e target page home hlists
    exact h'.homes e target page home ((Skeleton.lists_addElement hnone).mp hlists)
  · rw [Skeleton.kids_addElement, if_neg (habsent .tree), h.apart]

end Carries

end AccessiblePdf
