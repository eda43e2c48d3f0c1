import AccessiblePdf.Proofs.Document.Entry
import AccessiblePdf.Proofs.Outline.Writing
import AccessiblePdf.Proofs.Table

/-!
Outlines as a report reads them. Items that stand as they are written of trees of entries are met in the
order of the trees (`readOutline_laid`), as long as none of them has been met and there are not too
many; so a report on a document for which an outline has been written has that outline
(`report_writeOutline`).
-/
namespace AccessiblePdf

/-! ## Ids in order -/

namespace ObjectId

theorem compare_eq (a b : ObjectId) : compare a b = (compare a.number b.number).then
    (compare a.generation b.generation) := by
  cases a
  cases b
  simp [compare, instOrdObjectId.ord]

instance : Std.TransOrd ObjectId := by
  have hcompare : (compare : ObjectId → ObjectId → Ordering) =
      compareLex (compareOn number) (compareOn generation) := by
    funext a b
    exact compare_eq a b
  rw [Std.TransOrd, hcompare]
  infer_instance

instance : Std.LawfulEqOrd ObjectId where
  eq_of_compare := by
    intro a b h
    rw [compare_eq, Ordering.then_eq_eq, Std.LawfulEqOrd.compare_eq_iff_eq,
      Std.LawfulEqOrd.compare_eq_iff_eq] at h
    cases a
    cases b
    exact congrArg₂ mk h.1 h.2
  
end ObjectId

/-! ## The numbers of pages -/

namespace Document

/-- The number of a page: its place in the list of pages, counted from 1; of several places the last
one. -/
def IsNumber (doc : Document) (page : ObjectId) (n : Nat) : Prop :=
  ∃ i, n = i + 1 ∧ doc.pages[i]? = some page ∧ ∀ j, i < j → doc.pages[j]? ≠ some page

section Numbers

variable {page : ObjectId}

/-- The numbers that some pages get one after the other, over older ones. -/
def numbersFrom (pages : List ObjectId) (k : Nat) (t : Std.TreeMap ObjectId Nat) :
    Std.TreeMap ObjectId Nat :=
  (pages.zipIdx k).foldl (fun t e => t.insert e.1 e.2) t

theorem numbersFrom_of_notMem {pages : List ObjectId} (other : page ∉ pages) (k : Nat)
    (t : Std.TreeMap ObjectId Nat) : (numbersFrom pages k t)[page]? = t[page]? := by
  refine Table.getElem?_foldl_of_ne (fun e he heq => other ?_) t
  rw [← heq]
  exact List.fst_mem_of_mem_zipIdx he

theorem numbersFrom_of_mem {pages : List ObjectId} (mem : page ∈ pages) (k : Nat)
    (t : Std.TreeMap ObjectId Nat) : ∃ i, (numbersFrom pages k t)[page]? = some (i + k) ∧
      pages[i]? = some page ∧ ∀ j, i < j → pages[j]? ≠ some page := by
  induction pages generalizing k t with
  | nil => exact absurd mem List.not_mem_nil
  | cons p pages ih =>
    have hstep : numbersFrom (p :: pages) k t = numbersFrom pages (k + 1) (t.insert p k) := rfl
    by_cases hlater : page ∈ pages
    · obtain ⟨i, hnumber, hi, hlast⟩ := ih hlater (k + 1) (t.insert p k)
      refine ⟨i + 1, ?_, hi, fun j hj => ?_⟩
      · rw [hstep, hnumber, Nat.add_assoc, Nat.add_comm 1 k]
      · obtain ⟨j, rfl⟩ : ∃ j', j = j' + 1 := ⟨j - 1, by omega⟩
        exact hlast j (Nat.lt_of_succ_lt_succ hj)
    · obtain rfl : page = p := (List.mem_cons.mp mem).resolve_right hlater
      refine ⟨0, ?_, rfl, fun j hj hpage => ?_⟩
      · rw [hstep, numbersFrom_of_notMem hlater, Table.getElem?_insert, if_pos rfl, Nat.zero_add]
      · obtain ⟨j, rfl⟩ : ∃ j', j = j' + 1 := ⟨j - 1, by omega⟩
        exact hlater (List.mem_of_getElem? hpage)

variable {doc : Document}

theorem pageNumbers_of_mem (mem : page ∈ doc.pages) :
    ∃ n, doc.pageNumbers[page]? = some n ∧ doc.IsNumber page n := by
  obtain ⟨i, hnumber, hlast⟩ := numbersFrom_of_mem mem 1 ∅
  exact ⟨i + 1, hnumber, i, rfl, hlast⟩

theorem pageNumbers_of_notMem (other : page ∉ doc.pages) : doc.pageNumbers[page]? = none :=
  (numbersFrom_of_notMem other 1 ∅).trans Std.TreeMap.getElem?_emptyc

end Numbers

end Document

/-! ## Items that are read -/

/-- What is read of an item is what was written of an entry with some entries below it. -/
structure OutlineItem.Shows (item : OutlineItem) (doc : Document) (entry : OutlineEntry)
    (below : List (Tree OutlineEntry)) : Prop where
  title : item.title = entry.title
  page : ∀ p, entry.page = some p → p ∈ doc.pages → ∃ n, item.page = some n ∧ doc.IsNumber p n
  noPage : (∀ p, entry.page = some p → p ∉ doc.pages) → item.page = none
  expanded : item.expanded = !below.isEmpty

mutual

/-- What is read is a tree of entries, node for node and in the same order. -/
def Shows (doc : Document) : Tree OutlineItem → Tree OutlineEntry → Prop
  | .node item items, .node entry children =>
    item.Shows doc entry children ∧ ShowAll doc items children

/-- What is read are several trees of entries. -/
def ShowAll (doc : Document) : List (Tree OutlineItem) → List (Tree OutlineEntry) → Prop
  | [], [] => True
  | t :: ts, e :: es => Shows doc t e ∧ ShowAll doc ts es
  | _, _ => False

end

namespace Document

section Items

variable {c : OutlineContext} {x : Dict Object}

theorem OutlineContext.page_item {parent : ObjectId} {previous next : Option ObjectId}
    {below : List ObjectId} {count : Nat} {entry : OutlineEntry}
    (h : entry.Written parent previous next below count x) :
    (c.item x).page = entry.page.bind (c.pages[·]?) := by
  show (c.doc.destination? x).bind (c.doc.destinationPage? c.pages c.named) = _
  cases hpage : entry.page with
  | none =>
    have hdest : c.doc.value? x "Dest" = none := Document.value?_of_none (by rw [h.destination, hpage]; rfl)
    have haction : c.doc.entryDict? x "A" = none := by
      rw [Document.entryDict?, Document.value?_of_none h.action]
      rfl
    rw [Document.destination?, hdest]
    simp only [haction]
    rfl
  | some p =>
    have hdest : c.doc.value? x "Dest" = some (Edit.destination p) :=
      Document.value?_of_direct (by rw [h.destination, hpage]; rfl) rfl
    rw [Document.destination?, hdest]
    rfl

theorem OutlineContext.item_shows {parent top : ObjectId} {previous next : Option ObjectId}
    {ids : List (Tree ObjectId)} {children : List (Tree OutlineEntry)} {entry : OutlineEntry}
    (numbers : c.pages = c.doc.pageNumbers)
    (h : entry.Written parent previous next (ids.map Tree.value) (Tree.sizeAll children) x)
    (hbelow : LaidAll c.doc top none ids children) (few : Tree.sizeAll children ≤ maxOutlineItems) :
    (c.item x).Shows c.doc entry children where
  title := by
    have htitle : c.doc.entryText? x "Title" = some entry.title :=
      Document.entryText?_map (s := some entry.title) h.title
    show (c.doc.entryText? x "Title").getD "" = entry.title
    rw [htitle, Option.getD_some]
  page := by
    intro p hp mem
    obtain ⟨n, hn, hnumber⟩ := Document.pageNumbers_of_mem mem
    refine ⟨n, ?_, hnumber⟩
    rw [page_item h, hp, Option.bind_some, numbers, hn]
  noPage := by
    intro other
    rw [page_item h]
    cases hpage : entry.page with
    | none => rfl
    | some p => rw [Option.bind_some, numbers, Document.pageNumbers_of_notMem (other p hpage)]
  expanded := by
    unfold OutlineContext.item
    cases ids with
    | nil =>
      cases children with
      | nil =>
        have hcount : c.doc.entryNumber? x "Count" = none := by
          rw [entryNumber?, value?_of_none h.links.count]
          rfl
        simp only [hcount]
        rfl
      | cons t ts => exact hbelow.elim
    | cons id ids =>
      cases children with
      | nil => exact hbelow.elim
      | cons t ts =>
        have hsmall : Tree.sizeAll (t :: ts) < 0x20000000000000 :=
          Nat.lt_of_le_of_lt few (by decide)
        have hcount : c.doc.entryNumber? x "Count" = some (.whole (Tree.sizeAll (t :: ts))) := by
          rw [entryNumber?, value?_of_direct h.links.count rfl]
          show some (Number.ofInt (Tree.sizeAll (t :: ts))) = _
          rw [Number.ofInt, nearestDouble_eq_self (by rwa [Int.natAbs_natCast])]
        have hpos : 0 < Tree.sizeAll (t :: ts) := Tree.sizeAll_pos (List.cons_ne_nil t ts)
        simp only [hcount]
        exact decide_eq_true (Int.natCast_pos.mpr hpos)

/-! ## Meeting items -/

theorem contains_insert_iff {met : Std.TreeSet ObjectId} {id i : ObjectId} :
    (met.insert id).contains i = true ↔ i = id ∨ met.contains i = true := by
  rw [Std.TreeSet.contains_insert, Bool.or_eq_true, beq_iff_eq, Std.LawfulEqOrd.compare_eq_iff_eq,
    eq_comm]

theorem link?_eq {key : Bytes} {o : Option ObjectId} (h : x.get? key = o.map .reference) :
    link? x key = o := by
  rw [link?, h]
  cases o <;> rfl

/-- Items that stand one after the other are read with what is below them, in the order of their trees. -/
theorem readOutline_laid (numbers : c.pages = c.doc.pageNumbers) {parent : ObjectId}
    {previous : Option ObjectId} {ids : List (Tree ObjectId)} {ts : List (Tree OutlineEntry)}
    (hlaid : LaidAll c.doc parent previous ids ts) {n : Nat} (few : Tree.sizeAll ts ≤ n)
    (bound : n ≤ maxOutlineItems) {met : Std.TreeSet ObjectId}
    (nodup : (Tree.valuesAll ids).Nodup) (new : ∀ id ∈ Tree.valuesAll ids, met.contains id = false) :
    let run := readOutline c n met (ids.head?.map Tree.value)
    ShowAll c.doc run.items ts ∧ run.left + Tree.sizeAll ts = n ∧
      ∀ id, run.met.contains id = true ↔ met.contains id = true ∨ id ∈ Tree.valuesAll ids := by
  match ids, ts with
  | [], [] =>
    intro run
    have hrun : run = ⟨[], n, met, Nat.le_refl _⟩ := by
      show readOutline c n met none = _
      rw [readOutline]
    rw [hrun]
    exact ⟨trivial, rfl, fun id => by simp [Tree.valuesAll]⟩
  | .node id below :: ids, .node entry children :: ts =>
    intro run
    obtain ⟨⟨⟨x, hx, hwritten⟩, hbelow⟩, hrest⟩ := hlaid
    rw [Tree.sizeAll, Tree.size] at few ⊢
    obtain ⟨m, rfl⟩ : ∃ m, n = m + 1 := ⟨n - 1, by omega⟩
    rw [Tree.valuesAll, Tree.values, List.cons_append, List.nodup_cons, List.mem_append, not_or,
      List.nodup_append] at nodup
    rw [Tree.valuesAll, Tree.values, List.cons_append, List.forall_mem_cons] at new
    have hnew₁ : ∀ i ∈ Tree.valuesAll below, (met.insert id).contains i = false := by
      intro i hi
      refine Bool.eq_false_iff.mpr fun h => ?_
      rcases contains_insert_iff.mp h with rfl | h
      · exact nodup.1.1 hi
      · exact absurd h (Bool.eq_false_iff.mp (new.2 i (List.mem_append_left _ hi)))
    have hread₁ := readOutline_laid numbers hbelow (n := m) (by omega) (by omega) nodup.2.1 hnew₁
    rw [← (show link? x "First" = below.head?.map Tree.value by
      rw [link?_eq hwritten.links.first, List.head?_map])] at hread₁
    set run₁ := readOutline c m (met.insert id) (link? x "First") with hrun₁
    obtain ⟨hshow₁, hleft₁, hmet₁⟩ := hread₁
    have hnew₂ : ∀ i ∈ Tree.valuesAll ids, run₁.met.contains i = false := by
      intro i hi
      refine Bool.eq_false_iff.mpr fun h => ?_
      rcases (hmet₁ i).mp h with h | h
      · rcases contains_insert_iff.mp h with rfl | h
        · exact nodup.1.2 hi
        · exact absurd h (Bool.eq_false_iff.mp (new.2 i (List.mem_append_right _ hi)))
      · exact nodup.2.2.2 i h i hi rfl
    have hread₂ := readOutline_laid numbers hrest (n := run₁.left) (by omega)
      (Nat.le_trans run₁.left_le (by omega)) nodup.2.2.1 hnew₂
    rw [← link?_eq hwritten.next] at hread₂
    set run₂ := readOutline c run₁.left run₁.met (link? x "Next") with hrun₂
    obtain ⟨hshow₂, hleft₂, hmet₂⟩ := hread₂
    have hrun : run = ⟨.node (c.item x) run₁.items :: run₂.items, run₂.left, run₂.met,
        Nat.le_succ_of_le (Nat.le_trans run₂.left_le run₁.left_le)⟩ := by
      show readOutline c (m + 1) met (some id) = _
      have hdict : c.doc.dict? id = some x := dict?_of_get? (get?_of_direct hx rfl)
      rw [readOutline]
      simp only [new.1, Bool.false_eq_true, if_false, hdict]
      rfl
    rw [hrun]
    refine ⟨⟨⟨OutlineContext.item_shows numbers hwritten hbelow (by omega), hshow₁⟩, hshow₂⟩, ?_,
      fun i => ?_⟩
    · show run₂.left + (1 + Tree.sizeAll children + Tree.sizeAll ts) = m + 1
      omega
    · show run₂.met.contains i = true ↔ _
      rw [hmet₂ i, hmet₁ i, contains_insert_iff, Tree.valuesAll, Tree.values, List.cons_append,
        List.mem_cons, List.mem_append]
      tauto
  | [], _ :: _ => exact hlaid.elim
  | _ :: _, [] => exact hlaid.elim
termination_by sizeOf ts

theorem outline_outlined {doc : Document} {root : ObjectId} {ids : List (Tree ObjectId)}
    {entries : List (Tree OutlineEntry)} (h : Outlined doc root ids entries)
    (few : Tree.sizeAll entries ≤ maxOutlineItems) : ∃ x, doc.catalogDict? = some x ∧
      ShowAll doc (doc.outline x) entries := by
  obtain ⟨x, hx, hentry⟩ := h.catalog
  obtain ⟨y, hy, hlinks⟩ := h.links
  have hroot : doc.entryDict? x "Outlines" = some y :=
    entryDict?_reference hentry (dict?_of_get? (get?_of_direct hy rfl))
  let c : OutlineContext := ⟨doc, doc.pageNumbers, doc.namedDestinations x⟩
  have hnew : ∀ id ∈ Tree.valuesAll ids, (∅ : Std.TreeSet ObjectId).contains id = false :=
    fun _ _ => Std.TreeSet.contains_emptyc
  obtain ⟨hshow, -⟩ := readOutline_laid (c := c) rfl h.items few (Nat.le_refl _)
    (List.nodup_cons.mp h.nodup).2 hnew
  refine ⟨x, hx, ?_⟩
  have hfirst : link? y "First" = ids.head?.map Tree.value := by
    rw [link?_eq hlinks.first, List.head?_map]
  have houtline : doc.outline x = (readOutline c maxOutlineItems ∅ (link? y "First")).items := by
    rw [outline, hroot]
  rw [houtline, hfirst]
  exact hshow

end Items

end Document

theorem Outlined.count {doc : Document} {root : ObjectId} {ids : List (Tree ObjectId)}
    {entries : List (Tree OutlineEntry)} (h : Outlined doc root ids entries)
    (nonempty : 0 < Tree.sizeAll entries) : ∃ y, doc.objects.get? root = some (.dictionary y) ∧
      y.get? "Count" = some (.integer (Tree.sizeAll entries)) := by
  obtain ⟨y, hy, hlinks⟩ := h.links
  refine ⟨y, hy, hlinks.count.trans (if_neg ?_)⟩
  match ids, entries, h.items with
  | [], [], _ => exact absurd nonempty (Nat.lt_irrefl 0)
  | _ :: _, _ :: _, _ => exact Bool.false_ne_true

namespace Edit

variable {d : Draft}

/-- An outline of some entries can be written into a document with a catalog. Afterwards a report has
the entries, and the document has items that are linked and counted as the entries are. -/
theorem report_writeOutline {entries : List (Tree OutlineEntry)}
    (nonempty : 0 < Tree.sizeAll entries) (few : Tree.sizeAll entries ≤ Document.maxOutlineItems) :
    (∀ x, d.doc.catalogDict? = some x → ∃ d', (writeOutline entries).run d = .ok () d') ∧
    ∀ d', (writeOutline entries).run d = .ok () d' → ∀ o, ∃ r root ids y,
      d'.doc.report o = .ok r ∧ ShowAll d'.doc r.outline entries ∧
      Outlined d'.doc root ids entries ∧ d'.doc.objects.get? root = some (.dictionary y) ∧
      y.get? "Count" = some (.integer (Tree.sizeAll entries)) := by
  refine ⟨fun x hx => writeOutline_succeeds hx entries, fun d' hrun o => ?_⟩
  obtain ⟨root, ids, houtlined⟩ := writeOutline_outlined hrun
  obtain ⟨x, hx, hshow⟩ := Document.outline_outlined houtlined few
  obtain ⟨r, hr, houtline, -⟩ := Document.report_ok hx o
  obtain ⟨y, hy, hcount⟩ := houtlined.count nonempty
  exact ⟨r, root, ids, y, hr, by rw [houtline]; exact hshow, houtlined, hy, hcount⟩

/-- A document of one page. -/
def onePage : Document where
  version := "1.7"
  trailer := .ofList [(utf8 "Root", .reference ⟨1, 0⟩)]
  objects := .ofList [(⟨1, 0⟩, .ofEntries [(utf8 "Pages", .reference ⟨2, 0⟩)]),
    (⟨2, 0⟩, .ofEntries [(utf8 "Type", .name "Pages"), (utf8 "Kids", .array [.reference ⟨3, 0⟩])]),
    (⟨3, 0⟩, .ofEntries [(utf8 "Type", .name "Page")])]
  maxId := 3

/-- Chapters on the page, on no page, and on one that there is not. -/
def chapters : List (Tree OutlineEntry) :=
  [.node ⟨"Überblick", some ⟨3, 0⟩⟩ [.node ⟨"", none⟩ [.node ⟨"1.1.1", some ⟨3, 0⟩⟩ []],
    .node ⟨"1.2", some ⟨9, 0⟩⟩ []], .node ⟨"2", some ⟨3, 0⟩⟩ []]

/-- Chapters on three levels. -/
theorem report_writeOutline_chapters : 0 < Tree.sizeAll chapters ∧
    Tree.sizeAll chapters ≤ Document.maxOutlineItems ∧
    ∃ d', (writeOutline chapters).run { doc := onePage } = .ok () d' ∧ ∃ r root ids y,
      d'.doc.report {} = .ok r ∧ ShowAll d'.doc r.outline chapters ∧
      Outlined d'.doc root ids chapters ∧ d'.doc.objects.get? root = some (.dictionary y) ∧
      y.get? "Count" = some (.integer 5) := by
  have nonempty : 0 < Tree.sizeAll chapters := by decide
  have few : Tree.sizeAll chapters ≤ Document.maxOutlineItems := by decide
  obtain ⟨hrun, hreport⟩ := report_writeOutline (d := { doc := onePage }) nonempty few
  obtain ⟨d', hd'⟩ := hrun _ rfl
  exact ⟨nonempty, few, d', hd', hreport d' hd' {}⟩

end Edit

end AccessiblePdf
