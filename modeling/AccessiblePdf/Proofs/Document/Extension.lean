import AccessiblePdf.Content.Scan
import AccessiblePdf.Proofs.Document.Likeness

/-!
Documents that grew out of others. An old object stays as it was, except that some entries of
dictionaries are set (`taggingKeys`), to numbers and flags or to references to objects that are new;
every new object is an array, a dictionary or a stream. So such a document is like the old one (`like`),
with the same pages (`pages_eq`); their resources are what has become of the old ones
(`pageResources_kin`), and no operation gets an MCID that it had not (`mcid?_old`).
-/
namespace AccessiblePdf

namespace Object

/-- An array, a dictionary or a stream. -/
def isContainer : Object → Bool
  | array _ | dictionary _ | stream _ _ => true
  | _ => false

theorem isDirect_of_isContainer {o : Object} (h : o.isContainer = true) : o.isDirect = true := by
  cases o with
  | reference id => exact absurd h Bool.false_ne_true
  | _ => rfl

/-- What a dictionary, or the dictionary of a stream, has for its MCID. -/
def mcidEntry? (o : Object) : Option Object := o.entries?.bind (·.get? "MCID")

end Object

namespace Document

/-! ## Documents that grow -/

/-- The entries of old dictionaries that tagging sets. -/
def taggingKeys : List Bytes := ["StructTreeRoot", "MarkInfo", "Marked", "StructParents", "Contents"]

section Relations

variable (limit : Nat) (doc : Document)

/-- What an entry of an old dictionary may be set to. A dictionary that was in place may have moved
into the new object, with its MCID if it has one. -/
inductive Fresh (old : Option Object) : Object → Prop where
  | integer (n : Int) : Fresh old (.integer n)
  | boolean (b : Bool) : Fresh old (.boolean b)
  | reference {id : ObjectId} {o : Object} (above : limit < id.number)
      (here : doc.objects.get? id = some o)
      (mcid : ∀ v, o.mcidEntry? = some v →
        ∃ y, old = some (.dictionary y) ∧ y.get? "MCID" = some v) : Fresh old (.reference id)

/-- An old dictionary, and what has become of it. -/
structure Kin (x y : Dict Object) : Prop where
  below : (Object.dictionary x).Below limit
  entry : ∀ key, y.get? key = x.get? key ∨
    key ∈ taggingKeys ∧ ∃ o, y.get? key = some o ∧ Fresh limit doc (x.get? key) o

/-- An old object, and what has become of it. -/
inductive Alike : Object → Object → Prop where
  | same {o : Object} (below : o.Below limit) : Alike o o
  | dictionary {x y : Dict Object} (kin : Kin limit doc x y) : Alike (.dictionary x) (.dictionary y)

end Relations

/-- A document that grew out of an old one. -/
structure Extends (old doc : Document) : Prop where
  trailer : doc.trailer = old.trailer
  kept : ∀ id : ObjectId, id.number ≤ old.maxId →
    Option.Rel (Alike old.maxId doc) (old.objects.get? id) (doc.objects.get? id)
  added : ∀ (id : ObjectId) (o : Object), old.maxId < id.number → doc.objects.get? id = some o →
    o.isContainer = true

section Objects

variable {limit : Nat} {doc : Document} {x y : Dict Object} {o o' : Object}

theorem Kin.refl (below : (Object.dictionary x).Below limit) : Kin limit doc x x :=
  ⟨below, fun _ => Or.inl rfl⟩

theorem Kin.get?_eq (h : Kin limit doc x y) {key : Bytes} (hkey : key ∉ taggingKeys) :
    y.get? key = x.get? key := by
  rcases h.entry key with h | ⟨hmem, _⟩
  · exact h
  · exact absurd hmem hkey

theorem Alike.array? (h : Alike limit doc o o') : o'.array? = o.array? := by
  cases h <;> rfl

theorem Alike.integer? (h : Alike limit doc o o') : o'.integer? = o.integer? := by
  cases h <;> rfl

theorem Alike.dictionary? (h : Alike limit doc o o') :
    Option.Rel (Kin limit doc) o.dictionary? o'.dictionary? := by
  cases h with
  | same below =>
    cases o with
    | dictionary x => exact .some (Kin.refl below)
    | _ => exact .none
  | dictionary kin => exact .some kin

theorem Alike.entries? (h : Alike limit doc o o') :
    Option.Rel (Kin limit doc) o.entries? o'.entries? := by
  cases h with
  | same below =>
    cases o with
    | dictionary x => exact .some (Kin.refl below)
    | stream x content => exact .some (Kin.refl (below.entries rfl))
    | _ => exact .none
  | dictionary kin => exact .some kin

end Objects

section Reading

variable {old doc : Document} (closed : old.Closed) (ext : old.Extends doc)

/-! ## Look-ups -/

include ext

/-- The document is like the old one, but for what tagging sets. -/
theorem Extends.like : old.Like (· ∈ taggingKeys) doc where
  trailer := ext.trailer
  objects := fun id hid => (ext.kept id hid).imp fun o o' halike => by
    cases halike with
    | same => exact .same o
    | dictionary kin => exact .dictionary fun key hkey => kin.get?_eq hkey

include closed

theorem Extends.get?_rel {id : ObjectId} (hid : id.number ≤ old.maxId) :
    Option.Rel (Alike old.maxId doc) (old.get? id) (doc.get? id) := by
  rw [get?, get?, ext.like.target?_eq closed hid]
  cases ht : old.target? id with
  | none => exact .none
  | some t =>
    obtain ⟨o, ho, _⟩ := direct_of_target? ht
    exact ext.kept t (closed.objects t o ho).1

theorem Extends.dict?_rel {id : ObjectId} (hid : id.number ≤ old.maxId) :
    Option.Rel (Kin old.maxId doc) (old.dict? id) (doc.dict? id) :=
  (ext.get?_rel closed hid).bind fun _ _ halike => halike.dictionary?

theorem Extends.resolve_alike {o : Object} (ho : o.Below old.maxId) :
    Alike old.maxId doc (old.resolve o) (doc.resolve o) := by
  cases o with
  | reference id =>
    rw [resolve, resolve]
    exact (ext.get?_rel closed (Object.below_reference.mp ho)).getD (.same Object.below_null)
  | _ => exact .same ho

variable {x y : Dict Object} {key : Bytes}

theorem Extends.value?_rel (kin : Kin old.maxId doc x y) (hkey : key ∉ taggingKeys) :
    Option.Rel (Alike old.maxId doc) (old.value? x key) (doc.value? y key) := by
  rw [value?, value?, kin.get?_eq hkey]
  cases ho : x.get? key with
  | none => exact .none
  | some o => exact .some (ext.resolve_alike closed (kin.below.entry ho))

theorem Extends.entryArray?_eq (kin : Kin old.maxId doc x y) (hkey : key ∉ taggingKeys) :
    doc.entryArray? y key = old.entryArray? x key :=
  (ext.value?_rel closed kin hkey).bind_eq fun _ _ halike => halike.array?

theorem Extends.entryDict?_rel (kin : Kin old.maxId doc x y) (hkey : key ∉ taggingKeys) :
    Option.Rel (Kin old.maxId doc) (old.entryDict? x key) (doc.entryDict? y key) :=
  (ext.value?_rel closed kin hkey).bind fun _ _ halike => halike.entries?

/-! ## Pages -/

/-- The pages are those of the old document; only the limit is another one. -/
theorem Extends.pages_eq : doc.pages = old.pagesWithin doc.objects.size :=
  ext.like.pages_eq closed (by decide) (by decide) (by decide)

/-! ## Resources -/

theorem Extends.inheritedFrom_rel (hkey : key ∉ taggingKeys) (depth : Nat) :
    ∀ x y : Dict Object, Kin old.maxId doc x y → Option.Rel (Alike old.maxId doc)
      (old.inheritedFrom key depth x) (doc.inheritedFrom key depth y) := by
  induction depth with
  | zero => exact fun _ _ _ => .none
  | succ depth ih =>
    intro x y kin
    have hrel := ext.value?_rel closed kin hkey
    have hparent := ext.entryDict?_rel closed kin (show utf8 "Parent" ∉ taggingKeys by decide)
    rw [inheritedFrom, inheritedFrom]
    revert hrel
    generalize old.value? x key = o
    generalize doc.value? y key = o'
    intro hrel
    cases hrel with
    | some halike => exact .some halike
    | none => exact hparent.bind ih

/-- The resources of a page are what has become of its old ones. -/
theorem Extends.pageResources_kin {page : ObjectId} (hpage : page.number ≤ old.maxId) :
    Kin old.maxId doc (old.pageResources page) (doc.pageResources page) := by
  have hinherited : Option.Rel (Alike old.maxId doc) (old.inherited? page "Resources")
      (doc.inherited? page "Resources") :=
    (ext.dict?_rel closed hpage).bind (ext.inheritedFrom_rel closed (by decide) inheritanceDepth)
  have hrel : Option.Rel (Kin old.maxId doc) (old.pageResources? page) (doc.pageResources? page) :=
    hinherited.bind fun _ _ halike => halike.dictionary?
  exact hrel.getD (Kin.refl fun id hid => absurd hid List.not_mem_nil)

/-! ## MCIDs -/

/-- What is read as an integer was one before. -/
theorem Extends.integer?_resolve {o : Object} {m : Int}
    (h : (doc.resolve o).integer? = some m) : (old.resolve o).integer? = some m := by
  by_cases ho : o.Below old.maxId
  · rw [← (ext.resolve_alike closed ho).integer?]
    exact h
  · cases o with
    | reference id =>
      have hid : old.maxId < id.number := Nat.lt_of_not_le fun hle =>
        ho (Object.below_reference.mpr hle)
      exfalso
      rw [resolve] at h
      cases hx : doc.objects.get? id with
      | none =>
        have hnone : doc.get? id = none := by rw [get?, target?, chase, hx]; rfl
        rw [hnone] at h
        exact absurd h (by simp [Object.integer?])
      | some x =>
        have hcontainer := ext.added id x hid hx
        rw [get?_of_direct hx (Object.isDirect_of_isContainer hcontainer), Option.getD_some] at h
        cases x with
        | integer n => exact absurd hcontainer Bool.false_ne_true
        | _ => exact absurd h (by simp [Object.integer?])
    | _ => exact h

theorem Extends.mcidOfDict_old (kin : Kin old.maxId doc x y) {m : Int}
    (h : (doc.value? y "MCID").bind Object.integer? = some m) :
    (old.value? x "MCID").bind Object.integer? = some m := by
  obtain ⟨o, ho, hm⟩ := Option.bind_eq_some_iff.mp h
  obtain ⟨v, hv, rfl⟩ := Option.map_eq_some_iff.mp ho
  rw [kin.get?_eq (by decide)] at hv
  rw [value?, hv]
  exact ext.integer?_resolve closed hm

/-- A named property list has no MCID that it had not, even if its name is that of an entry that was
set. -/
theorem Extends.namedMcid_old (kin : Kin old.maxId doc x y) {d : Dict Object} {o : Object} {m : Int}
    (hd : doc.entryDict? y key = some d) (ho : doc.value? d "MCID" = some o)
    (hm : o.integer? = some m) :
    ((old.entryDict? x key).bind (old.value? · "MCID")).bind Object.integer? = some m := by
  obtain ⟨value, hvalue, hentries⟩ := Option.bind_eq_some_iff.mp hd
  obtain ⟨entry, hentry, rfl⟩ := Option.map_eq_some_iff.mp hvalue
  rcases kin.entry key with hsame | ⟨_, entry', hentry', hfresh⟩
  · -- The list is where it was.
    rw [hentry] at hsame
    have hrel := (ext.resolve_alike closed (kin.below.entry hsame.symm)).entries?
    obtain ⟨d₀, hd₀, hkin⟩ := hrel.exists_left hentries
    rw [entryDict?, value?, ← hsame, Option.map_some, Option.bind_some, hd₀, Option.bind_some]
    refine ext.mcidOfDict_old closed hkin ?_
    rw [ho]
    exact hm
  · obtain rfl := Option.some.inj (hentry.symm.trans hentry')
    cases hfresh with
    | integer n => exact absurd hentries (by simp [resolve, Object.entries?])
    | boolean b => exact absurd hentries (by simp [resolve, Object.entries?])
    | @reference id target above here hmcid =>
      -- The entry was set to a new object, which has an MCID only if the list moved there.
      have hget := get?_of_direct here (Object.isDirect_of_isContainer (ext.added _ _ above here))
      rw [resolve, hget, Option.getD_some] at hentries
      obtain ⟨v, hv, rfl⟩ := Option.map_eq_some_iff.mp ho
      obtain ⟨d₀, hd₀, hv₀⟩ := hmcid v (by rw [Object.mcidEntry?, hentries]; exact hv)
      simp only [entryDict?, value?, hd₀, Option.map_some, resolve, Object.entries?,
        Option.bind_some, hv₀]
      exact ext.integer?_resolve closed hm

/-- No property list has an MCID that it had not. -/
theorem Extends.mcid?_old (kin : Kin old.maxId doc x y) {properties : Object} {m : Int}
    (h : ContentResources.mcid? doc y properties = some m) :
    ContentResources.mcid? old x properties = some m := by
  unfold ContentResources.mcid? at h ⊢
  cases properties with
  | dictionary d =>
    obtain ⟨o, ho, hm⟩ := Option.bind_eq_some_iff.mp h
    obtain ⟨v, hv, rfl⟩ := Option.map_eq_some_iff.mp ho
    simp only [Option.bind_some, value?, hv, Option.map_some]
    exact ext.integer?_resolve closed hm
  | name key =>
    obtain ⟨o, ho, hm⟩ := Option.bind_eq_some_iff.mp h
    obtain ⟨d, hd, ho⟩ := Option.bind_eq_some_iff.mp ho
    obtain ⟨lists', hlists', hd⟩ := Option.bind_eq_some_iff.mp hd
    obtain ⟨lists, hlists, hkin⟩ :=
      (ext.entryDict?_rel closed kin (by decide)).exists_left hlists'
    simp only [hlists, Option.bind_some]
    exact ext.namedMcid_old closed hkin hd ho hm
  | _ => exact absurd h (by simp)

theorem Extends.openedMcid?_old {page : ObjectId} (hpage : page.number ≤ old.maxId)
    {ops ops' : List Operation} {op : Operation} {m : Int}
    (h : PageScan.openedMcid? (.ofDict doc (doc.pageResources page) ops) op = some m) :
    PageScan.openedMcid? (.ofDict old (old.pageResources page) ops') op = some m := by
  unfold PageScan.openedMcid? at h ⊢
  cases hcommand : op.command with
  | beginMarked tag properties =>
    rw [hcommand] at h
    obtain ⟨list, hlist, hm⟩ := Option.bind_eq_some_iff.mp h
    exact Option.bind_eq_some_iff.mpr
      ⟨list, hlist, ext.mcid?_old closed (ext.pageResources_kin closed hpage) hm⟩
  | _ =>
    rw [hcommand] at h
    exact absurd h (by simp)

end Reading

end Document

end AccessiblePdf
