import AccessiblePdf.Proofs.Document.Entry
import AccessiblePdf.Proofs.Structure.Rooting
import AccessiblePdf.Report.Basic

/-!
The structure tree as a report reads it back. Elements that stand as a tree declares them are read as
that tree (`readKid_mirrors`), as long as no id occurs twice and there are not too many levels. After a
tree has been built it stands below a root that lists nothing else (`applyTags_stands`), so that a
report has the tree as it was declared (`report_applyTags`).
-/
namespace AccessiblePdf

/-! ## Mirrors of declared trees -/

namespace TagTree

mutual

/-- The levels of a tree. -/
def levels : TagTree → Nat
  | .node _ children => levelsAll children + 1

/-- The levels of the deepest of several trees. -/
def levelsAll : List TagTree → Nat
  | [] => 0
  | t :: ts => max (levels t) (levelsAll ts)

end

end TagTree

/-- The facts about the element with an id are what its tag declares. -/
structure ElementFacts.Mirrors (f : ElementFacts) (id : ObjectId) (tag : Tag) : Prop where
  id : f.id = some id
  role : f.role = tag.role
  language : f.language = tag.language
  altText : f.altText = tag.altText
  actualText : f.actualText = tag.actualText

mutual

/-- What is read is a declared tree, node for node and in the same order; `ids` has the ids of its
elements. -/
def Mirrors : Tree ElementFacts → Tree ObjectId → TagTree → Prop
  | .node f fs, .node id ids, .node tag children => f.Mirrors id tag ∧ MirrorAll fs ids children

/-- What is read are several declared trees. -/
def MirrorAll : List (Tree ElementFacts) → List (Tree ObjectId) → List TagTree → Prop
  | [], [], [] => True
  | f :: fs, id :: ids, t :: ts => Mirrors f id t ∧ MirrorAll fs ids ts
  | _, _, _ => False

end

/-! ## Reading elements -/

namespace ElementContext

variable {c : ElementContext} {page : Option Nat}

/-- Reads one kid, behind trees that have been read. -/
def readKid (c : ElementContext) (levels : Nat) (page : Option Nat)
    (read : List (Tree ElementFacts) × List ObjectId) (kid : Object) :
    List (Tree ElementFacts) × List ObjectId :=
  let (trees, met) := read
  let id := kid.reference?
  if id.any met.contains then (trees, met)
  else
    let met := id.toList ++ met
    match (c.doc.resolve kid).dictionary? with
    | some d =>
      if d.contains "S" then
        let facts := c.facts page id d
        let (below, met) := readAll c levels facts.page met (c.elementKids facts.page d)
        (Tree.node facts below :: trees, met)
      else (trees, met)
    | none => (trees, met)

theorem readAll_succ (c : ElementContext) (levels : Nat) (page : Option Nat) (met : List ObjectId)
    (kids : List Object) : c.readAll (levels + 1) page met kids =
      ((kids.foldl (c.readKid levels page) ([], met)).1.reverse,
        (kids.foldl (c.readKid levels page) ([], met)).2) := rfl

theorem readKid_element {levels : Nat} {id : ObjectId} {x : Dict Object} {name : Object}
    {met : List ObjectId} (hx : c.doc.objects.get? id = some (.dictionary x))
    (hrole : x.get? "S" = some name) (new : id ∉ met) (trees : List (Tree ElementFacts)) :
    c.readKid levels page (trees, met) (.reference id) =
      (.node (c.facts page (some id) x)
        (c.readAll levels (c.facts page (some id) x).page (id :: met)
          (c.elementKids (c.facts page (some id) x).page x)).1 :: trees,
        (c.readAll levels (c.facts page (some id) x).page (id :: met)
          (c.elementKids (c.facts page (some id) x).page x)).2) := by
  have hmet : (Object.reference id).reference?.any met.contains = false := by
    rw [Object.reference?, Option.any_some, List.contains_eq_mem, decide_eq_false new]
  have hresolve : (c.doc.resolve (.reference id)).dictionary? = some x := by
    rw [Document.resolve, Document.get?_of_direct hx rfl]
    rfl
  have hcontains : x.contains "S" = true := by
    rw [OrderedMap.contains, hrole]
    rfl
  rw [readKid]
  simp only [hmet, Bool.false_eq_true, if_false, hresolve, hcontains, if_true]
  rfl

theorem facts_mirrors {tag : Tag} {parent : ObjectId} {x : Dict Object} (h : tag.Shown parent x)
    (page : Option Nat) (id : ObjectId) : (c.facts page (some id) x).Mirrors id tag where
  id := rfl
  role := by
    show (c.doc.entryName? x "S").getD "" = tag.role
    rw [Document.entryName?_utf8 h.role, Option.getD_some]
  language := Document.entryText?_map h.language
  altText := Document.entryText?_map h.altText
  actualText := Document.entryText?_map h.actualText

/-- All kids of an element as it was declared may be elements. -/
theorem elementKids_stand {parent : ObjectId} {ids : List (Tree ObjectId)} {ts : List TagTree}
    (h : StandAll c.doc parent ids ts) {x : Dict Object}
    (hkids : x.get? "K" = some (.array (kidReferences ids))) (page : Option Nat) :
    c.elementKids page x = kidReferences ids := by
  have hkind : ∀ {ids : List (Tree ObjectId)} {ts : List TagTree}, StandAll c.doc parent ids ts →
      ∀ o ∈ kidReferences ids, c.kid page o = .other := by
    intro ids
    induction ids with
    | nil => exact fun _ o ho => absurd ho List.not_mem_nil
    | cons id ids ih =>
      intro ts h o ho
      cases ts with
      | nil => exact h.elim
      | cons t ts =>
        rcases List.mem_cons.mp ho with rfl | ho
        · obtain ⟨id, below⟩ := id
          obtain ⟨tag, children⟩ := t
          obtain ⟨⟨x, hx, -, hshown, -⟩, -⟩ := h.1
          have hcontains : x.contains "S" = true := by
            rw [OrderedMap.contains, hshown.role]
            rfl
          have hresolve : c.doc.resolve (.reference id) = .dictionary x := by
            rw [Document.resolve, Document.get?_of_direct hx rfl]
            rfl
          show c.kid page (.reference id) = .other
          rw [kid, hresolve]
          simp only [hcontains, if_true]
        · exact ih h.2 o ho
  have hlist : Document.kidsOf x = kidReferences ids := by rw [Document.kidsOf, hkids]
  rw [elementKids, hlist]
  refine List.filter_eq_self.mpr fun o ho => ?_
  rw [hkind h o ho]

/-- Ids that have been met are those that had been met before and the ones of what has been read. -/
def MetWith (met met' ids : List ObjectId) : Prop := ∀ id, id ∈ met' ↔ id ∈ met ∨ id ∈ ids

mutual

/-- An element as it was declared is read as its tree. -/
theorem readKid_mirrors {parent : ObjectId} {levels : Nat} {met : List ObjectId} :
    ∀ {ids : Tree ObjectId} {t : TagTree}, Stands c.doc parent ids t → t.levels ≤ levels + 1 →
      ids.values.Nodup → (∀ id ∈ ids.values, id ∉ met) → ∀ page trees, ∃ tree met',
        c.readKid levels page (trees, met) (.reference ids.value) = (tree :: trees, met') ∧
          Mirrors tree ids t ∧ MetWith met met' ids.values
  | .node id ids, .node tag children => by
    intro h deep nodup new page trees
    obtain ⟨⟨x, hx, -, hshown, hkids⟩, hbelow⟩ := h
    rw [Tree.values, List.nodup_cons] at nodup
    rw [Tree.values, List.forall_mem_cons] at new
    have hread : c.readKid levels page (trees, met) (.reference id) = _ :=
      readKid_element hx hshown.role new.1 trees
    rw [elementKids_stand hbelow hkids] at hread
    have hnew : ∀ i ∈ Tree.valuesAll ids, i ∉ id :: met := by
      intro i hi hmem
      rcases List.mem_cons.mp hmem with rfl | hmem
      · exact nodup.1 hi
      · exact new.2 i hi hmem
    have hlevels : TagTree.levelsAll children ≤ levels := Nat.le_of_succ_le_succ deep
    have hforest : ∃ forest met', c.readAll levels (c.facts page (some id) x).page (id :: met)
        (kidReferences ids) = (forest, met') ∧ MirrorAll forest ids children ∧
          MetWith (id :: met) met' (Tree.valuesAll ids) := by
      cases levels with
      | zero =>
        obtain rfl : children = [] := by
          cases children with
          | nil => rfl
          | cons t ts =>
            obtain ⟨tag, ts⟩ := t
            simp [TagTree.levelsAll, TagTree.levels] at hlevels
        cases ids with
        | nil => exact ⟨[], id :: met, rfl, trivial, fun i => by simp [Tree.valuesAll]⟩
        | cons id ids => exact hbelow.elim
      | succ levels =>
        obtain ⟨forest, met', hfold, hmirror, hmet⟩ :=
          readKids_mirror hbelow hlevels nodup.2 hnew (c.facts page (some id) x).page []
        refine ⟨forest, met', ?_, hmirror, hmet⟩
        rw [readAll_succ, hfold, List.append_nil, List.reverse_reverse]
    obtain ⟨forest, met', hbelow', hmirror, hmet⟩ := hforest
    rw [hbelow'] at hread
    refine ⟨_, met', hread, ⟨facts_mirrors hshown page id, hmirror⟩, fun i => ?_⟩
    rw [hmet i, Tree.values, List.mem_cons, List.mem_cons]
    tauto

/-- Elements as they were declared are read as their trees. -/
theorem readKids_mirror {parent : ObjectId} {levels : Nat} {met : List ObjectId} :
    ∀ {ids : List (Tree ObjectId)} {ts : List TagTree}, StandAll c.doc parent ids ts →
      TagTree.levelsAll ts ≤ levels + 1 → (Tree.valuesAll ids).Nodup →
      (∀ id ∈ Tree.valuesAll ids, id ∉ met) → ∀ page trees, ∃ forest met',
        (kidReferences ids).foldl (c.readKid levels page) (trees, met) =
          (forest.reverse ++ trees, met') ∧
          MirrorAll forest ids ts ∧ MetWith met met' (Tree.valuesAll ids)
  | [], [] => fun _ _ _ _ _ trees => ⟨[], met, rfl, trivial, fun i => by simp [Tree.valuesAll]⟩
  | id :: ids, t :: ts => by
    intro h deep nodup new page trees
    rw [Tree.valuesAll, List.nodup_append] at nodup
    rw [Tree.valuesAll] at new
    rw [TagTree.levelsAll] at deep
    obtain ⟨tree, met₁, hfirst, hmirror, hmet₁⟩ := readKid_mirrors h.1
      (Nat.le_trans (Nat.le_max_left _ _) deep) nodup.1
      (fun i hi => new i (List.mem_append_left _ hi)) page trees
    have hnew : ∀ i ∈ Tree.valuesAll ids, i ∉ met₁ := by
      intro i hi hmem
      rcases (hmet₁ i).mp hmem with hmem | hmem
      · exact new i (List.mem_append_right _ hi) hmem
      · exact nodup.2.2 i hmem i hi rfl
    obtain ⟨forest, met', hrest, hmirrors, hmet'⟩ := readKids_mirror h.2
      (Nat.le_trans (Nat.le_max_right _ _) deep) nodup.2.1 hnew page (tree :: trees)
    refine ⟨tree :: forest, met', ?_, ⟨hmirror, hmirrors⟩, fun i => ?_⟩
    · rw [kidReferences, List.map_cons, List.foldl_cons, hfirst]
      rw [← kidReferences, hrest, List.reverse_cons, List.append_assoc, List.singleton_append]
    · rw [hmet' i, hmet₁ i, Tree.valuesAll, List.mem_append, or_assoc]
  | [], _ :: _ => fun h => h.elim
  | _ :: _, [] => fun h => h.elim

end

end ElementContext

/-! ## Reports -/

section Reports

variable {doc : Document} {root : ObjectId} {ids : Tree ObjectId} {t : TagTree}

/-- A report on a document in which a tree stands below the root has that tree alone. -/
theorem Rooted.report (h : Rooted doc root (kidReferences [ids])) (stands : Stands doc root ids t)
    (nodup : (root :: ids.values).Nodup) (deep : t.levels ≤ 256) (o : ReportOptions) :
    ∃ r facts tree, doc.report o = .ok r ∧ r.structureTree = some facts ∧
      facts.elements = [tree] ∧ Mirrors tree ids t := by
  obtain ⟨x, hx, -, hentry⟩ := h.entry.catalog
  obtain ⟨y, hy, -, hlist⟩ := h.list
  have hroot : doc.entryDict? x "StructTreeRoot" = some y :=
    Document.entryDict?_reference hentry (Document.dict?_of_get? (Document.get?_of_direct hy rfl))
  rw [List.nodup_cons] at nodup
  let c : ElementContext := ⟨doc, doc.roleMap y, doc.pageNumbers⟩
  have hnew : ∀ i ∈ Tree.valuesAll [ids], i ∉ [root] := by
    intro i hi hmem
    rw [Tree.valuesAll, Tree.valuesAll, List.append_nil] at hi
    rw [List.mem_singleton.mp hmem] at hi
    exact nodup.1 hi
  have hstands : StandAll doc root [ids] [t] := ⟨stands, trivial⟩
  have hlevels : TagTree.levelsAll [t] ≤ 256 + 1 := by
    rw [TagTree.levelsAll, TagTree.levelsAll]
    omega
  have hnodup : (Tree.valuesAll [ids]).Nodup := by
    rw [Tree.valuesAll, Tree.valuesAll, List.append_nil]
    exact nodup.2
  obtain ⟨forest, met, hread, hmirror, -⟩ :=
    c.readKids_mirror hstands hlevels hnodup hnew none []
  obtain ⟨tree, rfl⟩ : ∃ tree, forest = [tree] := by
    match forest, hmirror with
    | [tree], _ => exact ⟨tree, rfl⟩
  have htrees : doc.structureTrees (some root) y = [tree] := by
    have hkids : Document.kidsOf y = kidReferences [ids] := by rw [Document.kidsOf, hlist]
    rw [Document.structureTrees, hkids]
    show (c.readAll 257 none [root] (kidReferences [ids])).1 = [tree]
    rw [ElementContext.readAll_succ, hread]
    rfl
  obtain ⟨r, hr, -, hfacts⟩ := Document.report_ok hx o
  rw [hroot] at hfacts
  refine ⟨r, _, tree, hr, hfacts, ?_, hmirror.1⟩
  show doc.structureTrees ((x.get? "StructTreeRoot").bind Object.reference?) y = [tree]
  rw [hentry]
  exact htrees

end Reports

namespace Edit

variable {d d' : Draft} {u : Unit}

/-- After building a tree it stands below a root that lists its top alone. -/
theorem applyTags_stands {s : TagSection} (numbered : d.doc.Numbered)
    (distinct : ∀ x, d.doc.catalogDict? = some x → x.Distinct)
    (unrooted : s.stripExisting = true ∨
      ∀ x, d.doc.catalogDict? = some x → x.get? "StructTreeRoot" = none)
    (hrun : (applyTags s).run d = .ok u d') : ∃ (root : ObjectId) (ids : Tree ObjectId),
      Rooted d'.doc root (kidReferences [ids]) ∧ Stands d'.doc root ids s.root ∧
        (root :: ids.values).Nodup := by
  obtain ⟨_, d₀, hstripped, hrooted⟩ := applyTags_ok hrun
  have hbare : d₀.doc.Numbered ∧ ∀ x, d₀.doc.catalogDict? = some x →
      x.Distinct ∧ x.get? "StructTreeRoot" = none := by
    rcases hstripped with ⟨-, hstripped⟩ | ⟨hkept, rfl⟩
    · obtain ⟨numbered₀, hnone⟩ := stripTags_unrooted numbered distinct hstripped
      refine ⟨numbered₀, fun x hx => ?_⟩
      obtain ⟨x', hx', h⟩ := hnone.catalog
      obtain rfl := Option.some.inj (hx.symm.trans hx')
      exact h
    · have hnone := unrooted.resolve_left fun h => Bool.false_ne_true (hkept.symm.trans h)
      exact ⟨numbered, fun x hx => ⟨distinct x hx, hnone x hx⟩⟩
  obtain ⟨root, d₁, hroot, hrest⟩ := bind_ok.mp hrooted
  obtain ⟨element, d₂, hbuild, hrest⟩ := bind_ok.mp hrest
  obtain ⟨_, d₃, happend, hmarked⟩ := bind_ok.mp hrest
  obtain ⟨numbered₁, hrooted₁⟩ := ensureRoot_rooted hbare.1 hbare.2 hroot
  have hkids : (buildKids root root [s.root]).run d₁ = .ok () d₃ := by
    rw [buildKids]
    exact bind_ok.mpr ⟨element, d₂, hbuild, bind_ok.mpr ⟨(), d₃, happend, rfl⟩⟩
  obtain ⟨y, hy, distinct₁, hlist⟩ := hrooted₁.list
  obtain ⟨hspares, forest, hstands, hfresh, -, y', hy', hlist'⟩ :=
    buildKids_stand numbered₁ hy distinct₁ hlist [s.root] hkids
  obtain ⟨ids, rfl⟩ : ∃ ids, forest = [ids] := by
    match forest, hstands with
    | [ids], _ => exact ⟨ids, rfl⟩
  have hrooted₃ : Rooted d₃.doc root (kidReferences [ids]) := by
    refine ⟨hrooted₁.entry.spared hspares fun _ h => ?_, y', hy', ?_, hlist'⟩
    · rcases h with h | ⟨-, h⟩
      · exact absurd h (by decide)
      · exact absurd h (by decide)
    · obtain ⟨z, hz, distinct', -⟩ := hspares.entries root y hy distinct₁
      obtain rfl := Object.dictionary.inj (Option.some.inj (hz.symm.trans hy'))
      exact distinct'
  rw [Tree.valuesAll, Tree.valuesAll, List.append_nil] at hfresh
  have hsparing : Sparing OffTree (setMarked true) := .setMarked (by decide) (by decide) true
  have hmark := hsparing d₃ d' u hmarked hspares.numbered
  refine ⟨root, ids, hrooted₃.spared hmark, hstands.1.spared hmark fun _ _ key hkey h => h hkey,
    List.nodup_cons.mpr ⟨fun hmem => ?_, hfresh.1⟩⟩
  have hlow : root.number ≤ d₁.doc.maxId := numbered₁ root _ hy
  have hhigh := (hfresh.2 root hmem).1
  omega

/-- A report after building a tree has the tree as it was declared, and the elements stand as it was
declared: each below the one that lists it. -/
theorem report_applyTags {s : TagSection} (numbered : d.doc.Numbered)
    (distinct : ∀ x, d.doc.catalogDict? = some x → x.Distinct)
    (unrooted : s.stripExisting = true ∨
      ∀ x, d.doc.catalogDict? = some x → x.get? "StructTreeRoot" = none)
    (deep : s.root.levels ≤ 256) (hrun : (applyTags s).run d = .ok u d') (o : ReportOptions) :
    ∃ r facts tree root ids, d'.doc.report o = .ok r ∧ r.structureTree = some facts ∧
      facts.elements = [tree] ∧ Mirrors tree ids s.root ∧
      Rooted d'.doc root (kidReferences [ids]) ∧ Stands d'.doc root ids s.root ∧
      (root :: ids.values).Nodup := by
  obtain ⟨root, ids, hrooted, stands, nodup⟩ := applyTags_stands numbered distinct unrooted hrun
  obtain ⟨r, facts, tree, hreport, hfacts, helements, hmirrors⟩ :=
    hrooted.report stands nodup deep o
  exact ⟨r, facts, tree, root, ids, hreport, hfacts, helements, hmirrors, hrooted, stands, nodup⟩

/-- A document whose old structure tree has no elements. -/
def emptyTree : Document where
  version := "1.7"
  trailer := .ofList [(utf8 "Root", .reference ⟨1, 0⟩)]
  objects := .ofList [(⟨1, 0⟩, .ofEntries [(utf8 "StructTreeRoot", .reference ⟨2, 0⟩)]),
    (⟨2, 0⟩, .ofEntries [(utf8 "Type", .name "StructTreeRoot")])]
  maxId := 2

/-- A picture with a caption. -/
def captioned : TagSection where
  stripExisting := true
  root := .node { role := "Document", language := some "de" } [
    .node { role := "Figure", altText := some "Fähre" } [.node { role := "Caption" } []],
    .node { role := "P" } []]

/-- Three levels in the place of an empty tree. -/
theorem report_applyTags_captioned : emptyTree.Numbered ∧
    (∀ x, emptyTree.catalogDict? = some x → x.Distinct) ∧ captioned.root.levels ≤ 256 ∧
    ∃ d', (applyTags captioned).run { doc := emptyTree } = .ok () d' ∧
      ∃ r facts tree root ids, d'.doc.report {} = .ok r ∧ r.structureTree = some facts ∧
        facts.elements = [tree] ∧ Mirrors tree ids captioned.root ∧
        Rooted d'.doc root (kidReferences [ids]) ∧ Stands d'.doc root ids captioned.root ∧
        (root :: ids.values).Nodup := by
  have numbered : emptyTree.Numbered := by
    have hall : ∀ e ∈ emptyTree.objects.entries, e.1.number ≤ 2 := by decide
    exact fun id o ho => hall _ (OrderedMap.mem_of_get? ho)
  have distinct : ∀ x, emptyTree.catalogDict? = some x → x.Distinct := by
    intro x hx
    have hcatalog : emptyTree.catalogDict? =
        some (.ofList [(utf8 "StructTreeRoot", .reference ⟨2, 0⟩)]) := rfl
    rw [← Option.some.inj (hcatalog.symm.trans hx)]
    exact OrderedMap.distinct_ofList _
  have deep : captioned.root.levels ≤ 256 := by decide
  obtain ⟨d', hrun⟩ : ∃ d', (applyTags captioned).run { doc := emptyTree } = .ok () d' := ⟨_, rfl⟩
  exact ⟨numbered, distinct, deep, d', hrun,
    report_applyTags numbered distinct (Or.inl rfl) deep hrun {}⟩

end Edit

end AccessiblePdf
