import AccessiblePdf.Outline.Build
import AccessiblePdf.Proofs.Draft
import AccessiblePdf.Proofs.OrderedMap
import AccessiblePdf.Proofs.Tree

/-!
Outlines as they are written. Entries stand in the document as items that refer to each other
(`LaidAll`): each to the item above it and to its neighbours, and to the first and the last of those
below it, which it counts. Writing puts items only under ids that were reserved for them
(`writeEntries_laid`), and the catalog comes to refer to the outline (`writeOutline_outlined`).
-/
namespace AccessiblePdf

/-! ## Items as they are written -/

/-- The entries by which the items of an outline are read. -/
def outlineKeys : List Bytes :=
  ["Title", "Parent", "Prev", "Next", "Dest", "A", "First", "Last", "Count"]

/-- A dictionary refers to the first and the last of some items and counts those below it, unless there
are none. -/
structure LinksTo (below : List ObjectId) (count : Nat) (x : Dict Object) : Prop where
  first : x.get? "First" = below.head?.map .reference
  last : x.get? "Last" = below.getLast?.map .reference
  count : x.get? "Count" = if below.isEmpty then none else some (.integer count)

/-- A dictionary has what is written of an entry below a parent and between its neighbours. -/
structure OutlineEntry.Written (entry : OutlineEntry) (parent : ObjectId)
    (previous next : Option ObjectId) (below : List ObjectId) (count : Nat) (x : Dict Object) :
    Prop where
  title : x.get? "Title" = some (TextString.object entry.title)
  parent : x.get? "Parent" = some (.reference parent)
  previous : x.get? "Prev" = previous.map .reference
  next : x.get? "Next" = next.map .reference
  destination : x.get? "Dest" = entry.page.map Edit.destination
  action : x.get? "A" = none
  links : LinksTo below count x

mutual

/-- An item and those below it stand in the document as they are written of a tree of entries; `ids` has
their ids. -/
def Laid (doc : Document) (parent : ObjectId) (previous next : Option ObjectId) :
    Tree ObjectId → Tree OutlineEntry → Prop
  | .node id ids, .node entry children =>
    (∃ x, doc.objects.get? id = some (.dictionary x) ∧ entry.Written parent previous next
      (ids.map Tree.value) (Tree.sizeAll children) x) ∧ LaidAll doc id none ids children

/-- Items stand in the document one after the other, as they are written of several trees. -/
def LaidAll (doc : Document) (parent : ObjectId) (previous : Option ObjectId) :
    List (Tree ObjectId) → List (Tree OutlineEntry) → Prop
  | [], [] => True
  | id :: ids, t :: ts => Laid doc parent previous (ids.head?.map Tree.value) id t ∧
      LaidAll doc parent (some id.value) ids ts
  | _, _ => False

end

/-! ## Items that are kept -/

section Kept

variable {doc doc' : Document} {x x' : Dict Object}

theorem LinksTo.of_same {below : List ObjectId} {count : Nat} (h : LinksTo below count x)
    (same : ∀ key ∈ outlineKeys, x'.get? key = x.get? key) : LinksTo below count x' where
  first := (same (utf8 "First") (by decide)).trans h.first
  last := (same (utf8 "Last") (by decide)).trans h.last
  count := (same (utf8 "Count") (by decide)).trans h.count

theorem OutlineEntry.Written.of_same {entry : OutlineEntry} {parent : ObjectId}
    {previous next : Option ObjectId} {below : List ObjectId} {count : Nat}
    (h : entry.Written parent previous next below count x)
    (same : ∀ key ∈ outlineKeys, x'.get? key = x.get? key) :
    entry.Written parent previous next below count x' where
  title := (same (utf8 "Title") (by decide)).trans h.title
  parent := (same (utf8 "Parent") (by decide)).trans h.parent
  previous := (same (utf8 "Prev") (by decide)).trans h.previous
  next := (same (utf8 "Next") (by decide)).trans h.next
  destination := (same (utf8 "Dest") (by decide)).trans h.destination
  action := (same (utf8 "A") (by decide)).trans h.action
  links := h.links.of_same same

/-- A dictionary in a place is kept but for entries that are not read. -/
def KeepsItem (doc doc' : Document) (id : ObjectId) : Prop :=
  ∀ x, doc.objects.get? id = some (.dictionary x) →
    ∃ x', doc'.objects.get? id = some (.dictionary x') ∧
      ∀ key ∈ outlineKeys, x'.get? key = x.get? key

theorem KeepsItem.of_same {id : ObjectId} (same : doc'.objects.get? id = doc.objects.get? id) :
    KeepsItem doc doc' id :=
  fun x hx => ⟨x, same.trans hx, fun _ _ => rfl⟩

mutual

theorem Laid.kept {parent : ObjectId} {previous next : Option ObjectId} :
    ∀ {ids : Tree ObjectId} {t : Tree OutlineEntry}, Laid doc parent previous next ids t →
      (∀ id ∈ ids.values, KeepsItem doc doc' id) → Laid doc' parent previous next ids t
  | .node id ids, .node entry children => by
    intro h keeps
    rw [Tree.values, List.forall_mem_cons] at keeps
    obtain ⟨⟨x, hx, hwritten⟩, hbelow⟩ := h
    obtain ⟨x', hx', same⟩ := keeps.1 x hx
    exact ⟨⟨x', hx', hwritten.of_same same⟩, LaidAll.kept hbelow keeps.2⟩

theorem LaidAll.kept {parent : ObjectId} {previous : Option ObjectId} :
    ∀ {ids : List (Tree ObjectId)} {ts : List (Tree OutlineEntry)},
      LaidAll doc parent previous ids ts →
      (∀ id ∈ Tree.valuesAll ids, KeepsItem doc doc' id) → LaidAll doc' parent previous ids ts
  | [], [] => fun _ _ => trivial
  | id :: ids, t :: ts => by
    intro h keeps
    rw [Tree.valuesAll] at keeps
    exact ⟨h.1.kept fun id hid => keeps id (List.mem_append_left _ hid),
      LaidAll.kept h.2 fun id hid => keeps id (List.mem_append_right _ hid)⟩
  | [], _ :: _ => fun h => h.elim
  | _ :: _, [] => fun h => h.elim

end

end Kept

/-! ## The dictionary of an item -/

namespace Edit

theorem linksTo_linkEntries (below : List ObjectId) (count : Nat) :
    LinksTo below count (.ofList (linkEntries below count)) := by
  cases below with
  | nil => exact ⟨rfl, rfl, rfl⟩
  | cons id ids =>
    have hentries : linkEntries (id :: ids) count = [(utf8 "First", .reference id),
        (utf8 "Last", .reference ((id :: ids).getLast (List.cons_ne_nil _ _))),
        (utf8 "Count", .integer count)] := by
      rw [linkEntries, List.head?_cons, List.getLast?_eq_some_getLast (List.cons_ne_nil _ _)]
    rw [hentries]
    refine ⟨rfl, ?_, rfl⟩
    rw [List.getLast?_eq_some_getLast (List.cons_ne_nil _ _)]
    rfl

theorem linksTo_append {below : List ObjectId} {count : Nat} {base : List (Bytes × Object)}
    (free : ∀ key ∈ (["First", "Last", "Count"] : List Bytes),
      (OrderedMap.ofList base).get? key = none) :
    LinksTo below count (.ofList (base ++ linkEntries below count)) := by
  have hlinks := linksTo_linkEntries below count
  have hget : ∀ key ∈ (["First", "Last", "Count"] : List Bytes),
      (OrderedMap.ofList (base ++ linkEntries below count)).get? key =
        (OrderedMap.ofList (linkEntries below count)).get? key := by
    intro key hkey
    rw [OrderedMap.get?_ofList_append, free key hkey, Option.or_none]
  exact ⟨(hget _ (by decide)).trans hlinks.first, (hget _ (by decide)).trans hlinks.last,
    (hget _ (by decide)).trans hlinks.count⟩

theorem get?_append_linkEntries {below : List ObjectId} {count : Nat} {key : Bytes}
    (hkey : key ∉ (["First", "Last", "Count"] : List Bytes)) (base : List (Bytes × Object)) :
    (OrderedMap.ofList (base ++ linkEntries below count)).get? key =
      (OrderedMap.ofList base).get? key := by
  rw [OrderedMap.get?_ofList_append]
  have hnone : (OrderedMap.ofList (linkEntries below count)).get? key = none := by
    simp only [List.mem_cons, List.not_mem_nil, or_false, not_or] at hkey
    unfold linkEntries
    split
    · simp only [OrderedMap.ofList, List.foldl_cons, List.foldl_nil, OrderedMap.get?_insert]
      rw [if_neg hkey.2.2, if_neg hkey.2.1, if_neg hkey.1]
      rfl
    · rfl
  rw [hnone, Option.none_or]

/-- What is written of an entry before its links. -/
def ownEntries (entry : OutlineEntry) (parent : ObjectId) (previous next : Option ObjectId) :
    List (Bytes × Object) :=
  [(utf8 "Title", TextString.object entry.title), (utf8 "Parent", .reference parent)] ++
    previous.toList.map (fun p => (utf8 "Prev", .reference p)) ++
    next.toList.map (fun n => (utf8 "Next", .reference n)) ++
    entry.page.toList.map (fun p => (utf8 "Dest", destination p))

theorem written_ofList (entry : OutlineEntry) (parent : ObjectId) (previous next : Option ObjectId)
    (below : List ObjectId) (count : Nat) : entry.Written parent previous next below count
      (.ofList (ownEntries entry parent previous next ++ linkEntries below count)) := by
  obtain ⟨title, page⟩ := entry
  refine ⟨?_, ?_, ?_, ?_, ?_, ?_, linksTo_append ?links⟩
  case links =>
    intro key hkey
    simp only [List.mem_cons, List.not_mem_nil, or_false] at hkey
    rcases hkey with rfl | rfl | rfl <;> cases previous <;> cases next <;> cases page <;> rfl
  all_goals
    rw [get?_append_linkEntries (by decide)]
    cases previous <;> cases next <;> cases page <;> rfl

/-! ## Writing items -/

/-- A document that has given out more ids. -/
def reserving (doc : Document) (n : Nat) : Document := { doc with maxId := doc.maxId + n }

theorem reserving_succ (doc : Document) (n : Nat) :
    reserving doc (n + 1) = reserving doc.reserve n :=
  congrArg (fun k => { doc with maxId := k }) (Nat.succ_add_eq_add_succ doc.maxId n).symm

theorem reserveMany_run (n : Nat) (d : Draft) : ∃ ids,
    (reserveMany n).run d = .ok ids { d with doc := reserving d.doc n } ∧ ids.length = n ∧
      d.doc.NewIds (reserving d.doc n) ids := by
  induction n generalizing d with
  | zero => exact ⟨[], rfl, rfl, .nil _ _⟩
  | succ n ih =>
    obtain ⟨ids, hrun, hlength, hnew⟩ := ih { d with doc := d.doc.reserve }
    have hfirst : d.doc.NewIds d.doc.reserve [d.doc.nextId] := .nextId (Nat.lt_succ_self _)
    refine ⟨d.doc.nextId :: ids, ?_, by rw [List.length_cons, hlength], ?_⟩
    · rw [reserveMany, run_bind (reserve_ok.mpr ⟨rfl, rfl⟩), run_bind hrun, reserving_succ]
      rfl
    · rw [reserving_succ]
      exact hfirst.append hnew (Nat.le_succ _) (Nat.le_refl _) (Nat.le_add_right _ _)

/-- What writing items leaves as it was: the objects that there were, but for those under the ids that
were reserved for items. -/
structure Wrote (tops : List ObjectId) (doc doc' : Document) : Prop where
  grown : doc.maxId ≤ doc'.maxId
  trailer : doc'.trailer = doc.trailer
  others : ∀ id, id.number ≤ doc.maxId → id ∉ tops → doc'.objects.get? id = doc.objects.get? id
  readable : ∀ id x, doc.dict? id = some x → ∃ x', doc'.dict? id = some x'

namespace Wrote

variable {tops tops₁ tops₂ : List ObjectId} {doc doc₁ doc' : Document}

theorem refl (doc : Document) : Wrote tops doc doc :=
  ⟨Nat.le_refl _, rfl, fun _ _ _ => rfl, fun _ x hx => ⟨x, hx⟩⟩

theorem trans (h : Wrote tops₁ doc doc₁) (h' : Wrote tops₂ doc₁ doc') (sub : tops₁ ⊆ tops)
    (sub' : ∀ id ∈ tops₂, id.number ≤ doc.maxId → id ∈ tops) : Wrote tops doc doc' where
  grown := Nat.le_trans h.grown h'.grown
  trailer := h'.trailer.trans h.trailer
  others := by
    intro id old other
    rw [h'.others id (Nat.le_trans old h.grown) fun hid => other (sub' id hid old),
      h.others id old fun hid => other (sub hid)]
  readable := by
    intro id x hx
    obtain ⟨x₁, hx₁⟩ := h.readable id x hx
    exact h'.readable id x₁ hx₁

theorem reserve (doc : Document) (n : Nat) : Wrote tops doc (reserving doc n) :=
  ⟨Nat.le_add_right _ _, rfl, fun _ _ _ => rfl, fun _ x hx => ⟨x, hx⟩⟩

/-- A chain of references to a dictionary ends at a dictionary when one comes in a place. -/
theorem chase_put {objects : OrderedMap ObjectId Object} {n : Nat} {id t : ObjectId}
    {x : Dict Object} (h : Document.chase objects n id = some t)
    (hx : objects.get? t = some (.dictionary x)) (top : ObjectId) (y : Dict Object) :
    ∃ t' x', Document.chase (objects.insert top (.dictionary y)) n id = some t' ∧
      (objects.insert top (.dictionary y)).get? t' = some (.dictionary x') := by
  have hself : ∀ n, Document.chase (objects.insert top (.dictionary y)) n top = some top := by
    intro n
    rw [Document.chase, OrderedMap.get?_insert_self]
  fun_induction Document.chase objects n id with
  | case1 => cases h
  | case2 => cases h
  | case3 id next hnext n ih =>
    rcases eq_or_ne id top with rfl | hid
    · exact ⟨id, y, hself _, OrderedMap.get?_insert_self _ _ _⟩
    · obtain ⟨t', x', ht', hx'⟩ := ih h
      refine ⟨t', x', ?_, hx'⟩
      rw [Document.chase, OrderedMap.get?_insert_of_ne _ hid, hnext]
      exact ht'
  | case4 n id o ho hdirect =>
    rcases eq_or_ne id top with rfl | hid
    · exact ⟨id, y, hself _, OrderedMap.get?_insert_self _ _ _⟩
    · obtain rfl := Option.some.inj h
      have hsame := (OrderedMap.get?_insert_of_ne objects hid (.dictionary y)).trans hx
      exact ⟨id, x, by rw [Document.chase, hsame], hsame⟩

theorem put (doc : Document) (top : ObjectId) (y : Dict Object) :
    Wrote [top] doc (doc.put top (.dictionary y)) where
  grown := Nat.le_refl _
  trailer := rfl
  others := fun id _ other =>
    OrderedMap.get?_insert_of_ne _ (fun heq => other (List.mem_singleton.mpr heq)) _
  readable := by
    intro id x hx
    obtain ⟨t, ht, hobject⟩ := Document.target?_of_dict? hx
    obtain ⟨t', x', ht', hx'⟩ := chase_put ht hobject top y
    have htarget : (doc.put top (.dictionary y)).target? id = some t' := ht'
    exact ⟨x', Document.dict?_of_get? ((Document.get?_eq_of_target? htarget).trans hx')⟩

end Wrote

mutual

/-- Writing an entry under a reserved id puts it there, and what is below it under new ids. -/
theorem writeEntry_laid (parent : ObjectId) (previous next : Option ObjectId) {top : ObjectId}
    {d : Draft} (reserved : top.number ≤ d.doc.maxId) : ∀ t : Tree OutlineEntry, ∃ d' ids,
      (writeEntry parent previous top next t).run d = .ok () d' ∧ Wrote [top] d.doc d'.doc ∧
        Laid d'.doc parent previous next (.node top ids) t ∧
        d.doc.NewIds d'.doc (Tree.valuesAll ids)
  | .node entry children => by
    obtain ⟨tops, hreserve, hlength, hnew⟩ := reserveMany_run children.length d
    obtain ⟨d₂, ids, hwrite, hwrote, rfl, hlaid, hbelow⟩ := writeEntries_laid top none
      { d with doc := reserving d.doc children.length } children tops hlength
      (fun id hid => (hnew.2 id hid).2) hnew.1
    have hvalues : d.doc.NewIds d₂.doc (Tree.valuesAll ids) :=
      (hnew.append hbelow (Nat.le_add_right _ _) (Nat.le_refl _) hwrote.grown).perm
        (Tree.perm_valuesAll ids)
    let x : Dict Object := .ofList (ownEntries entry parent previous next ++
      linkEntries (ids.map Tree.value) (Tree.sizeAll children))
    refine ⟨{ d₂ with doc := d₂.doc.put top (.dictionary x) }, ids, ?_, ?_,
      ⟨⟨x, OrderedMap.get?_insert_self _ _ _, written_ofList _ _ _ _ _ _⟩,
        hlaid.kept fun id hid => .of_same ?_⟩, hvalues⟩
    · rw [writeEntry, run_bind hreserve, run_bind hwrite]
      exact put_ok.mpr rfl
    · refine ((Wrote.reserve _ _).trans hwrote (List.Subset.refl _) fun id hid old => ?_).trans
        (Wrote.put _ _ _) (List.nil_subset _) fun id hid _ => hid
      exact absurd old (Nat.not_le.mpr (hnew.2 id hid).1)
    · refine OrderedMap.get?_insert_of_ne _ ?_ _
      rintro rfl
      exact absurd reserved (Nat.not_le.mpr (hvalues.2 _ hid).1)

/-- Writing entries under reserved ids puts them there, and what is below them under new ids. -/
theorem writeEntries_laid (parent : ObjectId) (previous : Option ObjectId) (d : Draft) :
    ∀ (ts : List (Tree OutlineEntry)) (tops : List ObjectId), tops.length = ts.length →
      (∀ top ∈ tops, top.number ≤ d.doc.maxId) → tops.Nodup → ∃ d' ids,
      (writeEntries parent previous ts tops).run d = .ok () d' ∧ Wrote tops d.doc d'.doc ∧
        ids.map Tree.value = tops ∧ LaidAll d'.doc parent previous ids ts ∧
        d.doc.NewIds d'.doc (ids.flatMap fun id => Tree.valuesAll id.children)
  | [], [] => fun _ _ _ =>
    ⟨d, [], rfl, .refl _, rfl, trivial, .nil _ _⟩
  | t :: ts, top :: tops => by
    intro hlength reserved nodup
    rw [List.forall_mem_cons] at reserved
    rw [List.nodup_cons] at nodup
    obtain ⟨d₁, below, hfirst, hwrote₁, hlaid₁, hnew₁⟩ :=
      writeEntry_laid parent previous tops.head? reserved.1 t
    obtain ⟨d', ids, hrest, hwrote, rfl, hlaid, hnew⟩ := writeEntries_laid parent (some top) d₁ ts tops
      (Nat.succ.inj hlength) (fun id hid => Nat.le_trans (reserved.2 id hid) hwrote₁.grown) nodup.2
    refine ⟨d', .node top below :: ids, ?_, ?_, rfl, ⟨?_, hlaid⟩, ?_⟩
    · rw [writeEntries, run_bind hfirst, hrest]
    · exact hwrote₁.trans hwrote (List.cons_subset_cons _ (List.nil_subset _)) fun id hid _ =>
        List.mem_cons_of_mem _ hid
    · rw [List.head?_map] at hlaid₁
      have hplace : ∀ id ∈ (Tree.node top below).values,
          id.number ≤ d₁.doc.maxId ∧ id ∉ ids.map Tree.value := by
        intro id hid
        rcases List.mem_cons.mp hid with rfl | hid
        · exact ⟨Nat.le_trans reserved.1 hwrote₁.grown, nodup.1⟩
        · have hbetween := hnew₁.2 id hid
          exact ⟨hbetween.2, fun h => absurd (reserved.2 id h) (Nat.not_le.mpr hbetween.1)⟩
      exact hlaid₁.kept fun id hid =>
        .of_same (hwrote.others id (hplace id hid).1 (hplace id hid).2)
    · exact hnew₁.append hnew hwrote₁.grown (Nat.le_refl _) hwrote.grown
  | [], _ :: _ => fun h => absurd h.symm (Nat.succ_ne_zero _).symm
  | _ :: _, [] => fun h => absurd h (Nat.succ_ne_zero _).symm

end

/-! ## The whole outline -/

/-- The catalog of a document that has an outline. -/
def withOutline (root : ObjectId) (x : Dict Object) : Dict Object :=
  (x.insert "Outlines" (.reference root)).insert "PageMode" (.name "UseOutlines")

end Edit

/-- The catalog refers to an outline with some entries; `ids` has the ids of its items. -/
structure Outlined (doc : Document) (root : ObjectId) (ids : List (Tree ObjectId))
    (entries : List (Tree OutlineEntry)) : Prop where
  catalog : ∃ x, doc.catalogDict? = some x ∧ x.get? "Outlines" = some (.reference root)
  links : ∃ y, doc.objects.get? root = some (.dictionary y) ∧
    LinksTo (ids.map Tree.value) (Tree.sizeAll entries) y
  items : LaidAll doc root none ids entries
  nodup : (root :: Tree.valuesAll ids).Nodup

namespace Edit

variable {d d' : Draft} {u : Unit} {entries : List (Tree OutlineEntry)}

/-- The outline is written before the catalog comes to refer to it. -/
theorem writeOutline_run {catalog : ObjectId}
    (hid : (d.doc.trailer.get? "Root").bind Object.reference? = some catalog)
    (entries : List (Tree OutlineEntry)) : ∃ root ids d₁,
      (writeOutline entries).run d = (modifyDict catalog (withOutline root)).run d₁ ∧
      Wrote [] d.doc d₁.doc ∧
      (∃ y, d₁.doc.objects.get? root = some (.dictionary y) ∧
        LinksTo (ids.map Tree.value) (Tree.sizeAll entries) y) ∧
      LaidAll d₁.doc root none ids entries ∧ (root :: Tree.valuesAll ids).Nodup := by
  have hfirst : d.doc.NewIds d.doc.reserve [d.doc.nextId] := .nextId (Nat.lt_succ_self _)
  obtain ⟨tops, hreserve, hlength, hnew⟩ :=
    reserveMany_run entries.length { d with doc := d.doc.reserve }
  obtain ⟨d₂, ids, hwrite, hwrote, rfl, hlaid, hbelow⟩ := writeEntries_laid d.doc.nextId none
    { d with doc := reserving d.doc.reserve entries.length } entries tops hlength
    (fun id hid => (hnew.2 id hid).2) hnew.1
  have hvalues : d.doc.reserve.NewIds d₂.doc (Tree.valuesAll ids) :=
    (hnew.append hbelow (Nat.le_add_right _ _) (Nat.le_refl _) hwrote.grown).perm
      (Tree.perm_valuesAll ids)
  have hall := hfirst.append hvalues (Nat.le_succ _) (Nat.le_refl _)
    (Nat.le_trans (Nat.le_add_right _ _) hwrote.grown)
  let y : Dict Object := .ofList ([(utf8 "Type", .name "Outlines")] ++
    linkEntries (ids.map Tree.value) (Tree.sizeAll entries))
  refine ⟨d.doc.nextId, ids, { d₂ with doc := d₂.doc.put d.doc.nextId (.dictionary y) }, ?_, ?_,
    ⟨y, OrderedMap.get?_insert_self _ _ _, linksTo_append (by decide)⟩,
    hlaid.kept fun id hid => .of_same ?_, hall.1⟩
  · rw [writeOutline, run_bind (catalogId_ok.mpr ⟨hid, rfl⟩), run_bind (reserve_ok.mpr ⟨rfl, rfl⟩),
      run_bind hreserve, run_bind hwrite]
    exact run_bind ((put_ok (u := ())).mpr rfl)
  · -- Everything is put under new ids.
    have hroot : Wrote [] d.doc d.doc.reserve := .reserve d.doc 1
    have htops : Wrote [] d.doc.reserve (reserving d.doc.reserve entries.length) :=
      .reserve _ entries.length
    have hreserved := hroot.trans htops (List.nil_subset []) fun id hid _ => hid
    refine (hreserved.trans hwrote (List.nil_subset _) fun id hid old => ?_).trans
      (Wrote.put _ _ y) (List.nil_subset _) fun id hid old => ?_
    · have hlate : d.doc.maxId + 1 < id.number := (hnew.2 id hid).1
      omega
    · obtain rfl := List.mem_singleton.mp hid
      exact absurd old (Nat.not_succ_le_self _)
  · refine OrderedMap.get?_insert_of_ne _ ?_ _
    rintro rfl
    exact (List.nodup_cons.mp hall.1).1 hid

theorem writeOutline_succeeds {x : Dict Object} (hx : d.doc.catalogDict? = some x)
    (entries : List (Tree OutlineEntry)) : ∃ d', (writeOutline entries).run d = .ok () d' := by
  obtain ⟨catalog, hid, hdict⟩ := Option.bind_eq_some_iff.mp hx
  obtain ⟨root, ids, d₁, hrun, hwrote, -⟩ := writeOutline_run hid entries
  obtain ⟨x', hx'⟩ := hwrote.readable catalog x hdict
  obtain ⟨t, ht, hobject⟩ := Document.target?_of_dict? hx'
  exact ⟨_, hrun.trans (modifyDict_ok.mpr ⟨t, x', ht, hobject, rfl⟩)⟩

/-- Afterwards the document has the outline. -/
theorem writeOutline_outlined (hrun : (writeOutline entries).run d = .ok u d') :
    ∃ root ids, Outlined d'.doc root ids entries := by
  obtain ⟨catalog, hid⟩ : ∃ catalog, (d.doc.trailer.get? "Root").bind Object.reference? =
      some catalog := by
    obtain ⟨catalog, _, hcatalog, -⟩ := bind_ok.mp hrun
    exact ⟨catalog, (catalogId_ok.mp hcatalog).1⟩
  obtain ⟨root, ids, d₁, hwrite, hwrote, ⟨y, hy, hlinks⟩, hlaid, nodup⟩ :=
    writeOutline_run hid entries
  rw [hwrite] at hrun
  obtain ⟨t, x, ht, hx, rfl⟩ := modifyDict_ok.mp hrun
  -- The catalog may be anywhere, but what it gets is not read of an item.
  have hkeeps : ∀ id, KeepsItem d₁.doc (d₁.doc.put t (.dictionary (withOutline root x))) id := by
    intro id z hz
    rw [Document.put, OrderedMap.get?_insert]
    split
    · next heq =>
      subst heq
      obtain rfl : x = z := Object.dictionary.inj (Option.some.inj (hx.symm.trans hz))
      refine ⟨_, rfl, fun key hkey => ?_⟩
      have hne : key ≠ utf8 "PageMode" ∧ key ≠ utf8 "Outlines" := by
        constructor
        · rintro rfl
          exact absurd hkey (by decide)
        · rintro rfl
          exact absurd hkey (by decide)
      rw [withOutline, OrderedMap.get?_insert_of_ne _ hne.1, OrderedMap.get?_insert_of_ne _ hne.2]
    · exact ⟨z, hz, fun _ _ => rfl⟩
  obtain ⟨y', hy', same⟩ := hkeeps root y hy
  refine ⟨root, ids, ⟨withOutline root x, ?_, ?_⟩, ⟨y', hy', hlinks.of_same same⟩,
    hlaid.kept fun id _ => hkeeps id, nodup⟩
  · have htrailer : (d₁.doc.trailer.get? "Root").bind Object.reference? = some catalog := by
      rw [hwrote.trailer, hid]
    rw [Document.catalogDict?]
    show ((d₁.doc.trailer.get? "Root").bind Object.reference?).bind _ = _
    rw [htrailer, Option.bind_some, Document.dict?_put hx, if_pos ht]
  · rw [withOutline, OrderedMap.get?_insert_of_ne _ (by decide), OrderedMap.get?_insert_self]

end Edit

end AccessiblePdf
