import AccessiblePdf.Document.Pages
import AccessiblePdf.Document.Reachable
import AccessiblePdf.Proofs.Document.Lookup
import AccessiblePdf.Proofs.OrderedMap

/-!
Documents whose references stay below the next object number, and their pages. How many kids are
looked at for pages depends on the number of objects; with more objects further pages come behind
(`pagesWithin_mono`), so a page keeps its number (`getElem?_pagesWithin_unique`).
-/
namespace AccessiblePdf

/-! ## References in objects -/

theorem mem_referencesIn {id : ObjectId} {items : List Object} :
    id ∈ referencesIn items ↔ ∃ o ∈ items, id ∈ o.references := by
  induction items with
  | nil => simp [referencesIn]
  | cons o items ih => simp [referencesIn, ih]

theorem mem_referencesOf {id : ObjectId} {entries : List (Bytes × Object)} :
    id ∈ referencesOf entries ↔ ∃ e ∈ entries, id ∈ e.2.references := by
  induction entries with
  | nil => simp [referencesOf]
  | cons e entries ih => simp [referencesOf, ih]

namespace Object

/-- No reference goes above an object number. -/
def Below (limit : Nat) (o : Object) : Prop := ∀ id ∈ o.references, id.number ≤ limit

variable {limit : Nat}

theorem below_reference {id : ObjectId} : (reference id).Below limit ↔ id.number ≤ limit :=
  List.forall_mem_singleton

theorem below_array {items : List Object} :
    (array items).Below limit ↔ ∀ o ∈ items, o.Below limit := by
  constructor
  · intro h o ho id hid
    exact h id (mem_referencesIn.mpr ⟨o, ho, hid⟩)
  · intro h id hid
    obtain ⟨o, ho, hid⟩ := mem_referencesIn.mp hid
    exact h o ho id hid

theorem below_dictionary {d : Dict Object} :
    (dictionary d).Below limit ↔ ∀ e ∈ d.entries, e.2.Below limit := by
  constructor
  · intro h e he id hid
    exact h id (mem_referencesOf.mpr ⟨e, he, hid⟩)
  · intro h id hid
    obtain ⟨e, he, hid⟩ := mem_referencesOf.mp hid
    exact h e he id hid

theorem below_stream {d : Dict Object} {content : Bytes} :
    (stream d content).Below limit ↔ (dictionary d).Below limit := Iff.rfl

theorem Below.mono {limit' : Nat} {o : Object} (h : o.Below limit) (hle : limit ≤ limit') :
    o.Below limit' := fun id hid => Nat.le_trans (h id hid) hle

theorem Below.item {items : List Object} (h : (array items).Below limit) {o : Object}
    (ho : o ∈ items) : o.Below limit := below_array.mp h o ho

theorem Below.entry {d : Dict Object} (h : (dictionary d).Below limit) {key : Bytes} {o : Object}
    (ho : d.get? key = some o) : o.Below limit :=
  below_dictionary.mp h _ (OrderedMap.mem_of_get? ho)

theorem Below.entries {o : Object} (h : o.Below limit) {d : Dict Object}
    (hd : o.entries? = some d) : (dictionary d).Below limit := by
  cases o with
  | dictionary d' =>
    obtain rfl := Option.some.inj hd
    exact h
  | stream d' content =>
    obtain rfl := Option.some.inj hd
    exact below_stream.mp h
  | _ => exact absurd hd (by simp [entries?])

theorem below_null : null.Below limit := fun _ hid => absurd hid List.not_mem_nil

end Object

namespace Document

/-! ## Closed documents -/

theorem numbered_of_entries {doc : Document}
    (h : ∀ e ∈ doc.objects.entries, e.1.number ≤ doc.maxId) : doc.Numbered :=
  fun _ _ ho => h _ (OrderedMap.mem_of_get? ho)

/-- No object has a number above the highest one given out, and none is referred to. -/
structure Closed (doc : Document) : Prop where
  objects : ∀ id o, doc.objects.get? id = some o → id.number ≤ doc.maxId ∧ o.Below doc.maxId
  trailer : (Object.dictionary doc.trailer).Below doc.maxId

namespace Closed

variable {doc : Document} (closed : doc.Closed)

include closed

theorem numbered : doc.Numbered := fun id o ho => (closed.objects id o ho).1

theorem get?_below {id : ObjectId} {o : Object} (h : doc.get? id = some o) : o.Below doc.maxId := by
  obtain ⟨t, _, ho, _⟩ := target?_of_get? h
  exact (closed.objects t o ho).2

theorem dict?_below {id : ObjectId} {x : Dict Object} (h : doc.dict? id = some x) :
    (Object.dictionary x).Below doc.maxId :=
  closed.get?_below (get?_of_dict? h)

theorem resolve_below {o : Object} (ho : o.Below doc.maxId) : (doc.resolve o).Below doc.maxId := by
  cases o with
  | reference id =>
    rw [resolve]
    cases h : doc.get? id with
    | none => exact Object.below_null
    | some o => exact closed.get?_below h
  | _ => exact ho

theorem entryArray?_below {x : Dict Object} (below : (Object.dictionary x).Below doc.maxId)
    {key : Bytes} {items : List Object} (h : doc.entryArray? x key = some items) :
    ∀ o ∈ items, o.Below doc.maxId := by
  obtain ⟨value, hvalue, hitems⟩ := Option.bind_eq_some_iff.mp h
  obtain ⟨entry, hentry, rfl⟩ := Option.map_eq_some_iff.mp hvalue
  have hbelow := closed.resolve_below (below.entry hentry)
  cases hresolve : doc.resolve entry with
  | array items' =>
    rw [hresolve] at hitems hbelow
    obtain rfl := Option.some.inj hitems
    exact fun o ho => hbelow.item ho
  | _ =>
    rw [hresolve] at hitems
    exact absurd hitems (by simp [Object.array?])

theorem pageKids_below (node : ObjectId) : ∀ o ∈ doc.pageKids node, o.Below doc.maxId := by
  intro o ho
  rw [pageKids] at ho
  cases hx : doc.dict? node with
  | none =>
    rw [hx] at ho
    exact absurd ho (by simp)
  | some x =>
    rw [hx, Option.bind_some] at ho
    cases hitems : doc.entryArray? x "Kids" with
    | none =>
      rw [hitems] at ho
      exact absurd ho (by simp)
    | some items =>
      rw [hitems] at ho
      exact closed.entryArray?_below (closed.dict?_below hx) hitems o ho

end Closed

/-! ## Pages of one level -/

theorem pagesFrom_leaves {doc : Document} {limit : Nat} {ids : List ObjectId}
    (hlimit : ids.length ≤ limit) (hleaves : ∀ id ∈ ids, doc.typeOf? id = some (utf8 "Page")) :
    pagesFrom doc limit (ids.map .reference) [] = ids := by
  induction ids generalizing limit with
  | nil => rw [List.map_nil, pagesFrom]
  | cons id ids ih =>
    obtain ⟨limit, rfl⟩ := Nat.exists_eq_add_of_le' (Nat.le_trans (Nat.succ_le_succ ids.length.zero_le) hlimit)
    rw [List.forall_mem_cons] at hleaves
    rw [List.map_cons, pagesFrom]
    simp only [hleaves.1, if_true]
    rw [ih (Nat.le_of_succ_le_succ hlimit) hleaves.2]

/-- A page tree of one level, all kids of which are pages. -/
theorem pages_of_leaves {doc : Document} {tree : ObjectId} {ids : List ObjectId}
    (htree : (doc.catalogDict?.bind (·.get? "Pages")).bind Object.reference? = some tree)
    (hkids : doc.pageKids tree = ids.map .reference)
    (hleaves : ∀ id ∈ ids, doc.typeOf? id = some (utf8 "Page")) (hsize : ids.length ≤ doc.objects.size) :
    doc.pages = ids := by
  rw [pages, htree]
  simp only
  rw [hkids, pagesFrom_leaves hsize hleaves]

/-! ## Pages and limits -/

/-- The pages that are found when at most `limit` kids are looked at. -/
def pagesWithin (doc : Document) (limit : Nat) : List ObjectId :=
  match (doc.catalogDict?.bind (·.get? "Pages")).bind Object.reference? with
  | some tree => pagesFrom doc limit (doc.pageKids tree) []
  | none => []

/-- A page of the page tree. -/
def IsPage (doc : Document) (page : ObjectId) : Prop := ∃ limit, page ∈ doc.pagesWithin limit

theorem pages_eq_pagesWithin (doc : Document) : doc.pages = doc.pagesWithin doc.objects.size := rfl

theorem isPage_of_mem_pages {doc : Document} {page : ObjectId} (h : page ∈ doc.pages) :
    doc.IsPage page :=
  ⟨doc.objects.size, h⟩

/-- With a higher limit further pages come behind. -/
theorem pagesFrom_mono (doc : Document) {limit limit' : Nat} (h : limit ≤ limit')
    (kids : List Object) (levels : List (List Object)) :
    pagesFrom doc limit kids levels <+: pagesFrom doc limit' kids levels := by
  fun_induction pagesFrom doc limit kids levels generalizing limit' with
  | case1 limit => exact List.nil_prefix
  | case2 limit level above ih =>
    rw [pagesFrom]
    exact ih h
  | case3 kid rest above => exact List.nil_prefix
  | case4 rest above limit id htype ih =>
    obtain ⟨m, rfl⟩ := Nat.exists_eq_add_of_le' (Nat.le_trans (Nat.succ_le_succ limit.zero_le) h)
    simp only [pagesFrom, htype, if_pos]
    exact List.prefix_cons_inj id |>.mpr (ih (Nat.le_of_succ_le_succ h))
  | case5 rest above limit id type htype hpage hpages ih =>
    obtain ⟨m, rfl⟩ := Nat.exists_eq_add_of_le' (Nat.le_trans (Nat.succ_le_succ limit.zero_le) h)
    simp only [pagesFrom, htype, if_neg hpage, if_pos hpages]
    exact ih (Nat.le_of_succ_le_succ h)
  | case6 rest above limit id type htype hpage hpages ih =>
    obtain ⟨m, rfl⟩ := Nat.exists_eq_add_of_le' (Nat.le_trans (Nat.succ_le_succ limit.zero_le) h)
    simp only [pagesFrom, htype, if_neg hpage, if_neg hpages]
    exact ih (Nat.le_of_succ_le_succ h)
  | case7 rest above limit id htype ih =>
    obtain ⟨m, rfl⟩ := Nat.exists_eq_add_of_le' (Nat.le_trans (Nat.succ_le_succ limit.zero_le) h)
    simp only [pagesFrom, htype]
    exact ih (Nat.le_of_succ_le_succ h)
  | case8 kid rest above limit hkid ih =>
    obtain ⟨m, rfl⟩ := Nat.exists_eq_add_of_le' (Nat.le_trans (Nat.succ_le_succ limit.zero_le) h)
    rw [pagesFrom]
    · exact ih (Nat.le_of_succ_le_succ h)
    · exact hkid

theorem pagesWithin_mono (doc : Document) {limit limit' : Nat} (h : limit ≤ limit') :
    doc.pagesWithin limit <+: doc.pagesWithin limit' := by
  rw [pagesWithin, pagesWithin]
  cases (doc.catalogDict?.bind (·.get? "Pages")).bind Object.reference? with
  | none => exact List.prefix_rfl
  | some tree => exact pagesFrom_mono doc h _ _

/-- A page has its number whatever the limit is. -/
theorem getElem?_pagesWithin_unique {doc : Document} {limit limit' i : Nat} {p q : ObjectId}
    (hp : (doc.pagesWithin limit)[i]? = some p) (hq : (doc.pagesWithin limit')[i]? = some q) :
    p = q := by
  have hat : ∀ {limit : Nat} {page : ObjectId}, (doc.pagesWithin limit)[i]? = some page →
      ∀ m, limit ≤ m → (doc.pagesWithin m)[i]? = some page := by
    intro limit page h m hm
    obtain ⟨more, hmore⟩ := doc.pagesWithin_mono hm
    rw [← hmore, List.getElem?_append_left (List.getElem?_eq_some_iff.mp h).1, h]
  have hpm := hat hp (max limit limit') (Nat.le_max_left _ _)
  exact Option.some.inj (hpm.symm.trans (hat hq _ (Nat.le_max_right _ _)))

theorem typeOf?_of_mem_pagesFrom {doc : Document} {limit : Nat} {kids : List Object}
    {levels : List (List Object)} {page : ObjectId}
    (h : page ∈ doc.pagesFrom limit kids levels) : doc.typeOf? page = some (utf8 "Page") := by
  fun_induction pagesFrom doc limit kids levels with
  | case1 limit => exact absurd h List.not_mem_nil
  | case2 limit level above ih => exact ih h
  | case3 kid rest above => exact absurd h List.not_mem_nil
  | case4 rest above limit id htype ih =>
    rcases List.mem_cons.mp h with rfl | h
    · exact htype
    · exact ih h
  | case5 rest above limit id type htype hpage hpages ih => exact ih h
  | case6 rest above limit id type htype hpage hpages ih => exact ih h
  | case7 rest above limit id htype ih => exact ih h
  | case8 kid rest above limit hkid ih => exact ih h

theorem Closed.mem_pagesFrom_below {doc : Document} (closed : doc.Closed) {limit : Nat}
    {kids : List Object} {levels : List (List Object)} {page : ObjectId}
    (hkids : ∀ o ∈ kids, o.Below doc.maxId) (hlevels : ∀ l ∈ levels, ∀ o ∈ l, o.Below doc.maxId)
    (h : page ∈ doc.pagesFrom limit kids levels) : page.number ≤ doc.maxId := by
  fun_induction pagesFrom doc limit kids levels with
  | case1 limit => exact absurd h List.not_mem_nil
  | case2 limit level above ih =>
    exact ih (hlevels level List.mem_cons_self) (fun l hl => hlevels l (List.mem_cons_of_mem _ hl)) h
  | case3 kid rest above => exact absurd h List.not_mem_nil
  | case4 rest above limit id htype ih =>
    rw [List.forall_mem_cons] at hkids
    rcases List.mem_cons.mp h with rfl | h
    · exact Object.below_reference.mp hkids.1
    · exact ih hkids.2 hlevels h
  | case5 rest above limit id type htype hpage hpages ih =>
    rw [List.forall_mem_cons] at hkids
    refine ih (closed.pageKids_below id) ?_ h
    split
    · exact hlevels
    · exact List.forall_mem_cons.mpr ⟨hkids.2, hlevels⟩
  | case6 rest above limit id type htype hpage hpages ih =>
    exact ih (List.forall_mem_cons.mp hkids).2 hlevels h
  | case7 rest above limit id htype ih => exact ih (List.forall_mem_cons.mp hkids).2 hlevels h
  | case8 kid rest above limit hkid ih => exact ih (List.forall_mem_cons.mp hkids).2 hlevels h

theorem IsPage.below {doc : Document} (closed : doc.Closed) {page : ObjectId}
    (h : doc.IsPage page) : page.number ≤ doc.maxId := by
  obtain ⟨limit, h⟩ := h
  rw [pagesWithin] at h
  split at h
  · next tree _ =>
    exact closed.mem_pagesFrom_below (closed.pageKids_below tree)
      (fun l hl => absurd hl List.not_mem_nil) h
  · exact absurd h List.not_mem_nil

theorem IsPage.exists_dict {doc : Document} {page : ObjectId} (h : doc.IsPage page) :
    ∃ x, doc.dict? page = some x := by
  obtain ⟨limit, h⟩ := h
  rw [pagesWithin] at h
  split at h
  · next tree _ =>
    have htype := typeOf?_of_mem_pagesFrom h
    rw [typeOf?] at htype
    obtain ⟨_, h, _⟩ := Option.bind_eq_some_iff.mp htype
    obtain ⟨x, hx, _⟩ := Option.bind_eq_some_iff.mp h
    exact ⟨x, hx⟩
  · exact absurd h List.not_mem_nil

/-! ## Documents with the same page tree -/

/-- The same pages are found below kids whose nodes have the same types and kids, and the kids below
them likewise. -/
theorem pagesFrom_eq {old doc : Document} {P : Object → Prop}
    (types : ∀ id, P (.reference id) → doc.typeOf? id = old.typeOf? id)
    (listed : ∀ id, P (.reference id) → doc.pageKids id = old.pageKids id)
    (below : ∀ id, P (.reference id) → ∀ o ∈ old.pageKids id, P o) (limit : Nat)
    (kids : List Object) (levels : List (List Object)) (hkids : ∀ o ∈ kids, P o)
    (hlevels : ∀ l ∈ levels, ∀ o ∈ l, P o) :
    doc.pagesFrom limit kids levels = old.pagesFrom limit kids levels := by
  fun_induction pagesFrom old limit kids levels with
  | case1 limit => rw [pagesFrom]
  | case2 limit level above ih =>
    rw [pagesFrom]
    exact ih (hlevels level List.mem_cons_self) fun l hl => hlevels l (List.mem_cons_of_mem _ hl)
  | case3 kid rest above => rw [pagesFrom]
  | case4 rest above limit id htype ih =>
    rw [List.forall_mem_cons] at hkids
    simp only [pagesFrom, types id hkids.1, htype, if_pos]
    rw [ih hkids.2 hlevels]
  | case5 rest above limit id type htype hpage hpages ih =>
    rw [List.forall_mem_cons] at hkids
    simp only [pagesFrom, types id hkids.1, htype, if_neg hpage, if_pos hpages, listed id hkids.1]
    refine ih (below id hkids.1) ?_
    split
    · exact hlevels
    · exact List.forall_mem_cons.mpr ⟨hkids.2, hlevels⟩
  | case6 rest above limit id type htype hpage hpages ih =>
    rw [List.forall_mem_cons] at hkids
    simp only [pagesFrom, types id hkids.1, htype, if_neg hpage, if_neg hpages]
    exact ih hkids.2 hlevels
  | case7 rest above limit id htype ih =>
    rw [List.forall_mem_cons] at hkids
    simp only [pagesFrom, types id hkids.1, htype]
    exact ih hkids.2 hlevels
  | case8 kid rest above limit hkid ih =>
    rw [List.forall_mem_cons] at hkids
    rw [pagesFrom]
    · exact ih hkids.2 hlevels
    · exact hkid

/-- The pages are those of the old document if the tree starts at the same node; only the limit is
another one. -/
theorem pages_eq_of_kids {old doc : Document} {P : Object → Prop}
    (types : ∀ id, P (.reference id) → doc.typeOf? id = old.typeOf? id)
    (listed : ∀ id, P (.reference id) → doc.pageKids id = old.pageKids id)
    (below : ∀ id, P (.reference id) → ∀ o ∈ old.pageKids id, P o)
    (link : doc.catalogDict?.bind (·.get? "Pages") = old.catalogDict?.bind (·.get? "Pages"))
    (start : ∀ o, old.catalogDict?.bind (·.get? "Pages") = some o → P o) :
    doc.pages = old.pagesWithin doc.objects.size := by
  rw [pages_eq_pagesWithin, pagesWithin, pagesWithin, link]
  cases htree : (old.catalogDict?.bind (·.get? "Pages")).bind Object.reference? with
  | none => rfl
  | some tree =>
    have hseen : P (.reference tree) := by
      obtain ⟨o, ho, hreference⟩ := Option.bind_eq_some_iff.mp htree
      cases o with
      | reference id =>
        obtain rfl := Option.some.inj hreference
        exact start _ ho
      | _ => exact absurd hreference (by simp [Object.reference?])
    show doc.pagesFrom doc.objects.size (doc.pageKids tree) [] = _
    rw [listed tree hseen]
    exact pagesFrom_eq types listed below _ _ _ (below tree hseen)
      fun l hl => absurd hl List.not_mem_nil

section Same

variable {old doc : Document} (closed : old.Closed)

include closed

/-- Chains of old references end where they ended, when nothing but dictionaries is changed: no chain
goes on from one. -/
theorem Closed.chase_eq
    (alike : ∀ id : ObjectId, id.number ≤ old.maxId →
      doc.objects.get? id = old.objects.get? id ∨ ∃ x y,
        old.objects.get? id = some (.dictionary x) ∧ doc.objects.get? id = some (.dictionary y))
    (n : Nat) : ∀ id : ObjectId, id.number ≤ old.maxId →
      chase doc.objects n id = chase old.objects n id := by
  induction n with
  | zero =>
    intro id hid
    rcases alike id hid with h | ⟨x, y, hx, hy⟩
    · rw [chase, chase, h]
    · rw [chase, chase, hx, hy]
  | succ n ih =>
    intro id hid
    rcases alike id hid with h | ⟨x, y, hx, hy⟩
    · rw [chase, chase, h]
      cases ho : old.objects.get? id with
      | none => rfl
      | some o =>
        cases o with
        | reference next => exact ih next (Object.below_reference.mp (closed.objects id _ ho).2)
        | _ => rfl
    · rw [chase, chase, hx, hy]

theorem Closed.pages_eq
    (types : ∀ id : ObjectId, id.number ≤ old.maxId → doc.typeOf? id = old.typeOf? id)
    (listed : ∀ id : ObjectId, id.number ≤ old.maxId → doc.pageKids id = old.pageKids id)
    (link : doc.catalogDict?.bind (·.get? "Pages") = old.catalogDict?.bind (·.get? "Pages")) :
    doc.pages = old.pagesWithin doc.objects.size := by
  refine pages_eq_of_kids (P := fun o => o.Below old.maxId)
    (fun id hid => types id (Object.below_reference.mp hid))
    (fun id hid => listed id (Object.below_reference.mp hid))
    (fun id _ => closed.pageKids_below id) link fun o ho => ?_
  obtain ⟨x, hx, ho⟩ := Option.bind_eq_some_iff.mp ho
  obtain ⟨id, _, hid⟩ := Option.bind_eq_some_iff.mp hx
  exact (closed.dict?_below hid).entry ho

end Same

end Document

end AccessiblePdf
