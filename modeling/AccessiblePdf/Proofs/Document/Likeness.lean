import AccessiblePdf.Document.Content
import AccessiblePdf.Proofs.Document.Pages

/-!
Documents that are like others. An old object is what it was, or a dictionary with the entries that it
had, but for those under some keys (`Document.Like`). If the old document is closed, what is read of it
without such an entry is read as before: the pages (`pages_eq`) and their content (`pageContent_eq`).
-/

/-! ## Related options -/

namespace Option.Rel

variable {α β γ δ : Type} {R : α → β → Prop} {S : γ → δ → Prop} {a : Option α} {b : Option β}
  {x : α} {y : β}

theorem imp {T : α → β → Prop} (h : Option.Rel R a b) (sub : ∀ x y, R x y → T x y) :
    Option.Rel T a b := by
  cases h with
  | none => exact .none
  | some h => exact .some (sub _ _ h)

theorem bind {f : α → Option γ} {g : β → Option δ} (h : Option.Rel R a b)
    (related : ∀ x y, R x y → Option.Rel S (f x) (g y)) : Option.Rel S (a.bind f) (b.bind g) := by
  cases h with
  | none => exact .none
  | some h => exact related _ _ h

theorem bind_eq {f : α → Option γ} {g : β → Option γ} (h : Option.Rel R a b)
    (same : ∀ x y, R x y → g y = f x) : b.bind g = a.bind f := by
  cases h with
  | none => rfl
  | some h => exact same _ _ h

theorem getD (h : Option.Rel R a b) (hxy : R x y) : R (a.getD x) (b.getD y) := by
  cases h with
  | none => exact hxy
  | some h => exact h

theorem exists_left (h : Option.Rel R a b) (hb : b = Option.some y) :
    ∃ x, a = Option.some x ∧ R x y := by
  cases h with
  | none => exact absurd hb (by simp)
  | some h =>
    obtain rfl := Option.some.inj hb
    exact ⟨_, rfl, h⟩

theorem exists_right (h : Option.Rel R a b) (ha : a = Option.some x) :
    ∃ y, b = Option.some y ∧ R x y := by
  cases h with
  | none => exact absurd ha (by simp)
  | some h =>
    obtain rfl := Option.some.inj ha
    exact ⟨_, rfl, h⟩

end Option.Rel

namespace AccessiblePdf

/-! ## Likeness -/

section Likeness

variable {keys : Bytes → Prop} {x y z : Dict Object} {o o' : Object}

/-- A dictionary with the entries of another one, but for those under some keys. -/
def Resembles (keys : Bytes → Prop) (x y : Dict Object) : Prop :=
  ∀ key, ¬keys key → y.get? key = x.get? key

theorem Resembles.trans (h : Resembles keys x y) (h' : Resembles keys y z) : Resembles keys x z :=
  fun key hkey => (h' key hkey).trans (h key hkey)

theorem Resembles.value? (h : Resembles keys x y) (doc : Document) {key : Bytes} (hkey : ¬keys key) :
    doc.value? y key = doc.value? x key := by
  rw [Document.value?, Document.value?, h key hkey]

/-- The same object, or a dictionary that resembles one. -/
inductive Object.Like (keys : Bytes → Prop) : Object → Object → Prop where
  | same (o : Object) : Like keys o o
  | dictionary {x y : Dict Object} (resembles : Resembles keys x y) :
      Like keys (.dictionary x) (.dictionary y)

theorem Object.Like.array? (h : Object.Like keys o o') : o'.array? = o.array? := by
  cases h <;> rfl

/-- A document in which each old object is what it was, or a dictionary that resembles it. -/
structure Document.Like (keys : Bytes → Prop) (old doc : Document) : Prop where
  trailer : doc.trailer = old.trailer
  objects : ∀ id : ObjectId, id.number ≤ old.maxId →
    Option.Rel (Object.Like keys) (old.objects.get? id) (doc.objects.get? id)

end Likeness

namespace Document

/-! ## The content of a page -/

section PageContent

variable {doc : Document} {page : ObjectId} {x : Dict Object}

theorem pageContent_of_none (hx : doc.dict? page = some x) (none : x.get? "Contents" = none) :
    doc.pageContent page = .ok [] := by
  have hdict : doc.dict page = .ok x := by rw [dict, hx]
  simp only [pageContent, hdict, bind, Except.bind, none]
  rfl

theorem pageContent_of_some (hx : doc.dict? page = some x) {contents : Object}
    (some : x.get? "Contents" = some contents) : doc.pageContent page =
      doc.joinStreams ((doc.resolve contents).array?.getD [doc.resolve contents]) := by
  have hdict : doc.dict page = .ok x := by rw [dict, hx]
  simp only [pageContent, hdict, bind, Except.bind, some]
  cases doc.resolve contents <;> rfl

end PageContent

namespace Like

variable {keys : Bytes → Prop} {old doc : Document} {x y : Dict Object} {id : ObjectId}
  {key : Bytes} {o o' : Object} (closed : old.Closed) (like : Like keys old doc)

include closed like

/-! ## Look-ups -/

theorem target?_eq (hid : id.number ≤ old.maxId) : doc.target? id = old.target? id := by
  refine closed.chase_eq (fun id hid => ?_) referenceLimit id hid
  have hrel := like.objects id hid
  revert hrel
  generalize old.objects.get? id = a
  generalize doc.objects.get? id = b
  intro hrel
  cases hrel with
  | none => exact Or.inl rfl
  | some h =>
    cases h with
    | same => exact Or.inl rfl
    | @dictionary x y => exact Or.inr ⟨x, y, rfl, rfl⟩

theorem get?_rel (hid : id.number ≤ old.maxId) :
    Option.Rel (Object.Like keys) (old.get? id) (doc.get? id) := by
  rw [get?, get?, like.target?_eq closed hid]
  cases ht : old.target? id with
  | none => exact .none
  | some t =>
    obtain ⟨o, ho, -⟩ := direct_of_target? ht
    exact like.objects t (closed.objects t o ho).1

theorem dict?_rel (hid : id.number ≤ old.maxId) :
    Option.Rel (Resembles keys) (old.dict? id) (doc.dict? id) := by
  refine (like.get?_rel closed hid).bind fun o o' h => ?_
  cases h with
  | same =>
    cases o with
    | dictionary x => exact .some fun _ _ => rfl
    | _ => exact .none
  | dictionary resembles => exact .some resembles

theorem resolve (ho : o.Below old.maxId) : Object.Like keys (old.resolve o) (doc.resolve o) := by
  cases o with
  | reference id =>
    rw [Document.resolve, Document.resolve]
    exact (like.get?_rel closed (Object.below_reference.mp ho)).getD (.same .null)
  | _ => exact .same _

/-! ## Pages -/

theorem typeOf?_eq (unset : ¬keys "Type") (hid : id.number ≤ old.maxId) :
    doc.typeOf? id = old.typeOf? id := by
  rw [typeOf?, typeOf?, (like.dict?_rel closed hid).bind_eq fun _ _ resembles => resembles _ unset]

theorem pageKids_eq (unset : ¬keys "Kids") (hid : id.number ≤ old.maxId) :
    doc.pageKids id = old.pageKids id := by
  have hrel := like.dict?_rel closed hid
  have hbelow : ∀ x, old.dict? id = some x → (Object.dictionary x).Below old.maxId :=
    fun x hx => closed.dict?_below hx
  rw [pageKids, pageKids]
  revert hrel hbelow
  generalize old.dict? id = a
  generalize doc.dict? id = b
  intro hrel hbelow
  cases hrel with
  | none => rfl
  | @some x y resembles =>
    rw [Option.bind_some, Option.bind_some, entryArray?, entryArray?, value?, value?,
      resembles _ unset]
    cases hkids : x.get? "Kids" with
    | none => rfl
    | some kids =>
      rw [Option.map_some, Option.map_some, Option.bind_some, Option.bind_some,
        (like.resolve closed ((hbelow x rfl).entry hkids)).array?]

/-- The pages are those of the old document; only the limit is another one. -/
theorem pages_eq (types : ¬keys "Type") (kids : ¬keys "Kids") (tree : ¬keys "Pages") :
    doc.pages = old.pagesWithin doc.objects.size := by
  refine closed.pages_eq (fun _ hid => like.typeOf?_eq closed types hid)
    (fun _ hid => like.pageKids_eq closed kids hid) ?_
  rw [catalogDict?, catalogDict?, like.trailer]
  cases hroot : (old.trailer.get? "Root").bind Object.reference? with
  | none => rfl
  | some id =>
    obtain ⟨o, ho, hid⟩ := Option.bind_eq_some_iff.mp hroot
    cases o with
    | reference id' =>
      obtain rfl := Option.some.inj hid
      have hbelow := Object.below_reference.mp (closed.trailer.entry ho)
      exact (like.dict?_rel closed hbelow).bind_eq fun _ _ resembles => resembles _ tree
    | _ => exact absurd hid (by simp [Object.reference?])

/-! ## Inherited values -/

theorem value?_rel (unset : ¬keys key) (resembles : Resembles keys x y)
    (below : (Object.dictionary x).Below old.maxId) :
    Option.Rel (fun o o' => Object.Like keys o o' ∧ o.Below old.maxId) (old.value? x key)
      (doc.value? y key) := by
  rw [value?, value?, resembles key unset]
  cases ho : x.get? key with
  | none => exact .none
  | some o =>
    have hentry := below.entry ho
    exact .some ⟨like.resolve closed hentry, closed.resolve_below hentry⟩

theorem inheritedFrom_rel (unset : ¬keys key) (parents : ¬keys "Parent") (depth : Nat)
    (resembles : Resembles keys x y) (below : (Object.dictionary x).Below old.maxId) :
    Option.Rel (fun o o' => Object.Like keys o o' ∧ o.Below old.maxId)
      (old.inheritedFrom key depth x) (doc.inheritedFrom key depth y) := by
  induction depth generalizing x y with
  | zero => exact .none
  | succ depth ih =>
    have hvalue := like.value?_rel closed unset resembles below
    have hparent := like.value?_rel closed parents resembles below
    rw [inheritedFrom, inheritedFrom]
    revert hvalue
    generalize old.value? x key = o
    generalize doc.value? y key = o'
    intro hvalue
    cases hvalue with
    | some h => exact .some h
    | none =>
      rw [entryDict?, entryDict?, Option.bind_assoc, Option.bind_assoc]
      refine hparent.bind fun o o' h => ?_
      obtain ⟨hlike, hbelow⟩ := h
      cases hlike with
      | dictionary resembles => exact ih resembles hbelow
      | same =>
        cases hx : o.entries? with
        | none => exact .none
        | some x => exact ih (fun _ _ => rfl) (hbelow.entries hx)

theorem box?_eq (h : Object.Like keys o o') (below : o.Below old.maxId) : doc.box? o' = old.box? o := by
  cases h with
  | dictionary => rfl
  | same =>
    have hlike := like.resolve closed below
    have hbelow := closed.resolve_below below
    rw [box?, box?]
    revert hlike hbelow
    generalize old.resolve o = value
    generalize doc.resolve o = value'
    intro hlike hbelow
    cases hlike with
    | dictionary => rfl
    | same =>
      cases value with
      | array items =>
        have hitems : (items.take 4).filterMap (fun item => (doc.resolve item).float?) =
            (items.take 4).filterMap fun item => (old.resolve item).float? := by
          refine List.filterMap_congr fun item hitem => ?_
          have hlike := like.resolve closed (hbelow.item (List.mem_of_mem_take hitem))
          revert hlike
          generalize old.resolve item = value
          generalize doc.resolve item = value'
          intro hlike
          cases hlike <;> rfl
        simp only [hitems]
      | _ => rfl

theorem pageBox_eq (unset : ¬keys "MediaBox") (parents : ¬keys "Parent") {page : ObjectId}
    (hid : page.number ≤ old.maxId) : doc.pageBox page = old.pageBox page := by
  have hrel : Option.Rel (fun o o' => Object.Like keys o o' ∧ o.Below old.maxId)
      (old.inherited? page "MediaBox") (doc.inherited? page "MediaBox") := by
    have hdict := like.dict?_rel closed hid
    have hbelow : ∀ x, old.dict? page = some x → (Object.dictionary x).Below old.maxId :=
      fun x hx => closed.dict?_below hx
    rw [inherited?, inherited?]
    revert hdict hbelow
    generalize old.dict? page = a
    generalize doc.dict? page = b
    intro hdict hbelow
    cases hdict with
    | none => exact .none
    | some resembles =>
      exact like.inheritedFrom_rel closed unset parents inheritanceDepth resembles (hbelow _ rfl)
  rw [pageBox, pageBox, hrel.bind_eq fun o o' h => like.box?_eq closed h.1 h.2]

/-! ## Content -/

theorem joinStreams_eq {items : List Object} (hitems : ∀ o ∈ items, o.Below old.maxId) :
    doc.joinStreams items = old.joinStreams items := by
  induction items with
  | nil => rfl
  | cons o items ih =>
    rw [List.forall_mem_cons] at hitems
    have hlike := like.resolve closed hitems.1
    rw [joinStreams, joinStreams, ih hitems.2]
    revert hlike
    generalize old.resolve o = value
    generalize doc.resolve o = value'
    intro hlike
    cases hlike <;> rfl

/-- A page whose content is not set anew has the content that it had. -/
theorem pageContent_eq {page : ObjectId} (hx : old.dict? page = some x)
    (hy : doc.dict? page = some y) (same : y.get? "Contents" = x.get? "Contents") :
    doc.pageContent page = old.pageContent page := by
  cases hcontents : x.get? "Contents" with
  | none =>
    rw [pageContent_of_none hx hcontents, pageContent_of_none hy (same.trans hcontents)]
  | some contents =>
    rw [pageContent_of_some hx hcontents, pageContent_of_some hy (same.trans hcontents)]
    have hentry := (closed.dict?_below hx).entry hcontents
    have hbelow := closed.resolve_below hentry
    have hlike := like.resolve closed hentry
    revert hlike hbelow
    generalize old.resolve contents = value
    generalize doc.resolve contents = value'
    intro hbelow hlike
    cases hlike with
    | same =>
      refine like.joinStreams_eq closed fun o ho => ?_
      cases value with
      | array items => exact hbelow.item ho
      | _ =>
        rw [List.mem_singleton.mp ho]
        exact hbelow
    | dictionary => rfl

end Like

end Document

end AccessiblePdf
