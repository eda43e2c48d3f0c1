import AccessiblePdf.Proofs.Structure.NameTree
import AccessiblePdf.Proofs.Tree

/-!
The elements of a declared tree. They stand in the document as they were declared (`Stands`), each below
the element whose kids it is listed with. Building a tree raises it from new objects and touches nothing
else that is read of a structure tree (`buildTags_stands`); on the way the elements with declared ids are
registered in the order of the tree (`Edit.Registers`).
-/
namespace AccessiblePdf

/-! ## Elements as they were declared -/

/-- The entries by which a structure tree is read. -/
def treeKeys : List Bytes := ["S", "P", "K", "Lang", "Alt", "ActualText", "StructTreeRoot"]

/-- A key that does not matter for that. -/
def OffTree (key : Bytes) : Prop := key ∉ treeKeys

instance (key : Bytes) : Decidable (OffTree key) := inferInstanceAs (Decidable (key ∉ treeKeys))

/-- A dictionary has what a tag declares of an element below a parent. -/
structure Tag.Shown (tag : Tag) (parent : ObjectId) (x : Dict Object) : Prop where
  role : x.get? "S" = some (.name (utf8 tag.role))
  parent : x.get? "P" = some (.reference parent)
  language : x.get? "Lang" = tag.language.map TextString.object
  altText : x.get? "Alt" = tag.altText.map TextString.object
  actualText : x.get? "ActualText" = tag.actualText.map TextString.object

/-- The references to elements, each at the top of a tree. -/
def kidReferences (ids : List (Tree ObjectId)) : List Object := ids.map fun id => .reference id.value

mutual

/-- Elements stand below a parent as a tree declares them. -/
def Stands (doc : Document) (parent : ObjectId) : Tree ObjectId → TagTree → Prop
  | .node id ids, .node tag children =>
    (∃ x, doc.objects.get? id = some (.dictionary x) ∧ x.Distinct ∧ tag.Shown parent x ∧
      x.get? "K" = some (.array (kidReferences ids))) ∧ StandAll doc id ids children

/-- Elements stand below a parent as several trees declare them. -/
def StandAll (doc : Document) (parent : ObjectId) : List (Tree ObjectId) → List TagTree → Prop
  | [], [] => True
  | id :: ids, t :: ts => Stands doc parent id t ∧ StandAll doc parent ids ts
  | _, _ => False

end

mutual

/-- What a tree declares for the tree of element ids, in the order of its elements. -/
def idEntries : Tree ObjectId → TagTree → List (String × ObjectId)
  | .node id ids, .node tag children =>
    tag.elementId.toList.map (fun elementId => (elementId, id)) ++ idEntriesAll ids children

/-- What several trees declare for the tree of element ids. -/
def idEntriesAll : List (Tree ObjectId) → List TagTree → List (String × ObjectId)
  | id :: ids, t :: ts => idEntries id t ++ idEntriesAll ids ts
  | _, _ => []

end

section Spared

variable {touched : ObjectId → Bytes → Prop} {doc doc' : Document}

theorem Tag.Shown.of_same {tag : Tag} {parent : ObjectId} {x x' : Dict Object}
    (h : tag.Shown parent x) (same : ∀ key ∈ treeKeys, x'.get? key = x.get? key) :
    tag.Shown parent x' where
  role := (same (utf8 "S") (by decide)).trans h.role
  parent := (same (utf8 "P") (by decide)).trans h.parent
  language := (same (utf8 "Lang") (by decide)).trans h.language
  altText := (same (utf8 "Alt") (by decide)).trans h.altText
  actualText := (same (utf8 "ActualText") (by decide)).trans h.actualText

mutual

theorem Stands.spared (spares : doc.Spares touched doc') {parent : ObjectId} :
    ∀ {ids : Tree ObjectId} {t : TagTree}, Stands doc parent ids t →
      (∀ id ∈ ids.values, ∀ key ∈ treeKeys, ¬touched id key) → Stands doc' parent ids t
  | .node id ids, .node tag children => by
    intro h clear
    rw [Tree.values, List.forall_mem_cons] at clear
    obtain ⟨⟨x, hx, distinct, hshown, hkids⟩, hbelow⟩ := h
    obtain ⟨x', hx', distinct', hsame⟩ := spares.entries id x hx distinct
    have same : ∀ key ∈ treeKeys, x'.get? key = x.get? key := fun key hkey =>
      hsame key (clear.1 key hkey)
    exact ⟨⟨x', hx', distinct', hshown.of_same same, (same _ (by decide)).trans hkids⟩,
      StandAll.spared spares hbelow clear.2⟩

theorem StandAll.spared (spares : doc.Spares touched doc') {parent : ObjectId} :
    ∀ {ids : List (Tree ObjectId)} {ts : List TagTree}, StandAll doc parent ids ts →
      (∀ id ∈ Tree.valuesAll ids, ∀ key ∈ treeKeys, ¬touched id key) → StandAll doc' parent ids ts
  | [], [] => fun _ _ => trivial
  | id :: ids, t :: ts => by
    intro h clear
    rw [Tree.valuesAll] at clear
    exact ⟨h.1.spared spares fun id hid => clear id (List.mem_append_left _ hid),
      StandAll.spared spares h.2 fun id hid => clear id (List.mem_append_right _ hid)⟩
  | [], _ :: _ => fun h => h.elim
  | _ :: _, [] => fun h => h.elim

end

end Spared

/-! ## The dictionary of a new element -/

/-- A new element has what its tag declares, and no kids. -/
theorem Tag.shown_dict (tag : Tag) (parent : ObjectId) : (tag.dict parent).Distinct ∧
    tag.Shown parent (tag.dict parent) ∧ (tag.dict parent).get? "K" = some (.array []) := by
  unfold Tag.dict
  extract_lets put attributes
  have hput : ∀ (key k : Bytes) (o : Option Object) (d : Dict Object),
      (put k o d).get? key = if key = k then o.or (d.get? key) else d.get? key := by
    intro key k o d
    cases o with
    | none => simp [put]
    | some o => exact OrderedMap.get?_insert d k key o
  have hdistinct : ∀ (k : Bytes) (o : Option Object) (d : Dict Object), d.Distinct →
      (put k o d).Distinct := by
    intro k o d h
    cases o with
    | none => exact h
    | some o => exact h.insert k o
  have hnew : (Edit.newElement tag.role parent).Distinct := OrderedMap.distinct_ofList _
  refine ⟨?_, ⟨?_, ?_, ?_, ?_, ?_⟩, ?_⟩
  · exact hdistinct _ _ _ (hdistinct _ _ _ (hdistinct _ _ _ (hdistinct _ _ _ (hdistinct _ _ _ hnew))))
  · rw [hput, if_neg (by decide), hput, if_neg (by decide), hput, if_neg (by decide), hput,
      if_neg (by decide), hput, if_neg (by decide)]
    rfl
  · rw [hput, if_neg (by decide), hput, if_neg (by decide), hput, if_neg (by decide), hput,
      if_neg (by decide), hput, if_neg (by decide)]
    rfl
  · rw [hput, if_neg (by decide), hput, if_neg (by decide), hput, if_neg (by decide), hput,
      if_neg (by decide), hput, if_pos rfl]
    exact Option.or_none
  · rw [hput, if_neg (by decide), hput, if_neg (by decide), hput, if_neg (by decide), hput,
      if_pos rfl, hput, if_neg (by decide)]
    exact Option.or_none
  · rw [hput, if_neg (by decide), hput, if_neg (by decide), hput, if_pos rfl, hput,
      if_neg (by decide), hput, if_neg (by decide)]
    exact Option.or_none
  · rw [hput, if_neg (by decide), hput, if_neg (by decide), hput, if_neg (by decide), hput,
      if_neg (by decide), hput, if_neg (by decide)]
    rfl

/-! ## Raising a tree -/

namespace Edit

variable {root : ObjectId}

theorem sparing_registerElementId (root : ObjectId) (elementId : String) (element : ObjectId) :
    Sparing OffTree (registerElementId root elementId element) := by
  unfold registerElementId
  refine (Sparing.indirectDict (by decide) root).bind fun tree => ?_
  refine Sparing.doc.bind fun _ => (Sparing.dict tree).bind fun _ => Sparing.modifyDict ?_ tree
  have hkeys : OffTree "Kids" ∧ OffTree "Limits" ∧ OffTree "Names" := by decide
  exact (Mild.insert hkeys.2.2 fun _ => _).comp ((Mild.erase hkeys.2.1).comp (Mild.erase hkeys.1))

/-- The entries by which the tree of element ids is read. -/
def idKeys : List Bytes := ["IDTree", "Names", "Kids"]

/-- A key that does not matter for that. -/
def OffIds (key : Bytes) : Prop := key ∉ idKeys

instance (key : Bytes) : Decidable (OffIds key) := inferInstanceAs (Decidable (key ∉ idKeys))

/-- From one document to another elements are registered, one after the other, and nothing else is done
that matters for the tree of element ids. -/
inductive Registers (root : ObjectId) : Document → List (String × ObjectId) → Document → Prop where
  | done {doc doc' : Document} (h : doc.Steady (fun _ key => OffIds key) doc') :
      Registers root doc [] doc'
  | step {doc doc' : Document} {d d' : Draft} {entries : List (String × ObjectId)} {elementId : String}
      {element : ObjectId} {u : Unit} (h : doc.Steady (fun _ key => OffIds key) d.doc)
      (hrun : (registerElementId root elementId element).run d = .ok u d')
      (later : Registers root d'.doc entries doc') :
      Registers root doc ((elementId, element) :: entries) doc'

theorem Registers.trans {doc doc₁ doc' : Document} {entries more : List (String × ObjectId)}
    (h : Registers root doc entries doc₁) (h' : Registers root doc₁ more doc') :
    Registers root doc (entries ++ more) doc' := by
  induction h with
  | done hsteady =>
    cases h' with
    | done hsteady' => exact .done (hsteady.trans hsteady')
    | step hsteady' hrun later => exact .step (hsteady.trans hsteady') hrun later
  | step hsteady hrun _ ih => exact .step hsteady hrun (ih h')

/-- A new element is registered, and then gets its kids. -/
theorem buildTags_ok {parent element : ObjectId} {d d' : Draft} {tag : Tag} {children : List TagTree}
    (numbered : d.doc.Numbered)
    (hrun : (buildTags root parent (.node tag children)).run d = .ok element d') :
    element = d.doc.nextId ∧ ∃ d₁ u,
      (d.doc.add (.dictionary (tag.dict parent))).Spares (fun _ key => OffTree key) d₁.doc ∧
      Registers root (d.doc.add (.dictionary (tag.dict parent)))
        (tag.elementId.toList.map fun elementId => (elementId, element)) d₁.doc ∧
      (buildKids root element children).run d₁ = .ok u d' := by
  rw [buildTags, bind_ok] at hrun
  obtain ⟨element', d₁, hadd, hrest⟩ := hrun
  obtain ⟨rfl, rfl⟩ := add_ok.mp hadd
  have numbered₁ := numbered.add (.dictionary (tag.dict parent))
  -- Whether it is registered or not, the kids come to a document in which nothing that is read changed.
  have hfinish : ∀ d₂ : Draft,
      (d.doc.add (.dictionary (tag.dict parent))).Spares (fun _ key => OffTree key) d₂.doc →
      Registers root (d.doc.add (.dictionary (tag.dict parent)))
        (tag.elementId.toList.map fun elementId => (elementId, d.doc.nextId)) d₂.doc →
      (do
        buildKids root d.doc.nextId children
        return d.doc.nextId).run d₂ = .ok element d' →
      element = d.doc.nextId ∧ ∃ d₁ u,
        (d.doc.add (.dictionary (tag.dict parent))).Spares (fun _ key => OffTree key) d₁.doc ∧
        Registers root (d.doc.add (.dictionary (tag.dict parent)))
          (tag.elementId.toList.map fun elementId => (elementId, element)) d₁.doc ∧
        (buildKids root element children).run d₁ = .ok u d' := by
    intro d₂ hspares hregisters hrun
    obtain ⟨u, d₃, hkids, hreturn⟩ := bind_ok.mp hrun
    obtain ⟨rfl, rfl⟩ := pure_ok.mp hreturn
    exact ⟨rfl, d₂, u, hspares, hregisters, hkids⟩
  cases helementId : tag.elementId with
  | none =>
    rw [helementId] at hrest hfinish
    cases hname : tag.id with
    | none =>
      rw [hname] at hrest
      exact hfinish _ (.refl numbered₁) (.done (.refl numbered₁)) hrest
    | some name =>
      rw [hname] at hrest
      obtain ⟨_, d₂, hregister, hrun⟩ := bind_ok.mp hrest
      obtain rfl := register_ok.mp hregister
      exact hfinish _ (.refl numbered₁) (.done (.refl numbered₁)) hrun
  | some id =>
    rw [helementId] at hrest hfinish
    obtain ⟨_, d₂, hlisted, hrest⟩ := bind_ok.mp hrest
    have hspares := sparing_registerElementId _ _ _ _ _ _ hlisted numbered₁
    have hregisters := Registers.step (.refl numbered₁) hlisted (.done (.refl hspares.numbered))
    cases hname : tag.id with
    | none =>
      rw [hname] at hrest
      exact hfinish d₂ hspares hregisters hrest
    | some name =>
      rw [hname] at hrest
      obtain ⟨_, d₃, hregister, hrun⟩ := bind_ok.mp hrest
      obtain rfl := register_ok.mp hregister
      exact hfinish { d₂ with nodes := d₂.nodes.insert name d.doc.nextId } hspares hregisters hrun

theorem appendKid_ok {element kid : ObjectId} {d d' : Draft} {u : Unit} {x : Dict Object} {items : List Object}
    (hx : d.doc.objects.get? element = some (.dictionary x))
    (hitems : x.get? "K" = some (.array items))
    (hrun : (appendKid element (.reference kid)).run d = .ok u d') :
    d' = { d with doc := d.doc.put element (.dictionary
      (x.insert "K" (.array (items ++ [.reference kid])))) } := by
  obtain ⟨t, y, ht, hy, rfl⟩ := modifyDict_ok.mp hrun
  obtain rfl : element = t :=
    Option.some.inj ((Document.target?_of_direct hx rfl).symm.trans ht)
  obtain rfl : x = y := Object.dictionary.inj (Option.some.inj (hx.symm.trans hy))
  rw [hitems, kidsWith]

/-- What changes when an element gets kids: no entry that is read, apart from the list of kids. -/
def KidsOf (element : ObjectId) (t : ObjectId) (key : Bytes) : Prop :=
  OffTree key ∨ t = element ∧ key = utf8 "K"

mutual

/-- A tree is raised from new objects, and nothing else that is read is touched. -/
theorem buildTags_stands {parent element : ObjectId} {d d' : Draft} (numbered : d.doc.Numbered) :
    ∀ t : TagTree, (buildTags root parent t).run d = .ok element d' →
      d.doc.Spares (fun _ key => OffTree key) d'.doc ∧ ∃ ids : Tree ObjectId, ids.value = element ∧
        Stands d'.doc parent ids t ∧ d.doc.NewIds d'.doc ids.values ∧
        Registers root d.doc (idEntries ids t) d'.doc
  | .node tag children => by
    intro hrun
    obtain ⟨rfl, d₁, u, hspares₁, hregisters₁, hkids⟩ := buildTags_ok numbered hrun
    obtain ⟨hdistinct, hshown, hnokids⟩ := tag.shown_dict parent
    have hadd : d.doc.Spares (fun _ key => OffTree key) (d.doc.add (.dictionary (tag.dict parent))) :=
      Document.spares_add numbered _
    obtain ⟨x₁, hx₁, distinct₁, hsame₁⟩ := hspares₁.entries d.doc.nextId (tag.dict parent)
      (by rw [Document.objects_add, if_pos rfl]) hdistinct
    have hlist₁ : x₁.get? "K" = some (.array []) := (hsame₁ _ (by decide)).trans hnokids
    obtain ⟨hspares', ids, hstand, hfresh, hregisters', x', hx', hlist'⟩ :=
      buildKids_stand hspares₁.numbered hx₁ distinct₁ hlist₁ children hkids
    obtain ⟨y, hy, distinct', hsame'⟩ := hspares'.entries d.doc.nextId x₁ hx₁ distinct₁
    obtain rfl : y = x' := Object.dictionary.inj (Option.some.inj (hy.symm.trans hx'))
    have hshown' : tag.Shown parent y := by
      have same : ∀ key ∈ treeKeys, key ≠ utf8 "K" → y.get? key = (tag.dict parent).get? key := by
        intro key hkey hne
        rw [hsame' key fun h => h.elim (fun h => h hkey) fun h => hne h.2,
          hsame₁ key fun h => h hkey]
      exact ⟨(same _ (by decide) (by decide)).trans hshown.role,
        (same _ (by decide) (by decide)).trans hshown.parent,
        (same _ (by decide) (by decide)).trans hshown.language,
        (same _ (by decide) (by decide)).trans hshown.altText,
        (same _ (by decide) (by decide)).trans hshown.actualText⟩
    have hgrown : d.doc.maxId + 1 ≤ d₁.doc.maxId := hspares₁.grown
    refine ⟨?_, .node d.doc.nextId ids, rfl,
      ⟨⟨y, hx', distinct', hshown', by rw [hlist', List.nil_append]⟩, hstand⟩, ?_,
      (Registers.done (.add numbered _)).trans (hregisters₁.trans hregisters')⟩
    · refine (hadd.trans hspares₁).trans_new hspares' fun t o key ho h => ?_
      rcases h with h | ⟨rfl, -⟩
      · exact h
      · rw [numbered.unused] at ho
        cases ho
    · have htop : d.doc.NewIds (d.doc.add (.dictionary (tag.dict parent))) [d.doc.nextId] :=
        .nextId (Nat.lt_succ_self _)
      exact htop.append hfresh hadd.grown hspares₁.grown hspares'.grown

/-- Trees are raised below an element, which lists them behind the kids that it has. -/
theorem buildKids_stand {element : ObjectId} {d d' : Draft} {u : Unit} (numbered : d.doc.Numbered)
    {x : Dict Object} {items : List Object}
    (hx : d.doc.objects.get? element = some (.dictionary x)) (distinct : x.Distinct)
    (hitems : x.get? "K" = some (.array items)) :
    ∀ ts : List TagTree, (buildKids root element ts).run d = .ok u d' →
      d.doc.Spares (KidsOf element) d'.doc ∧ ∃ ids, StandAll d'.doc element ids ts ∧
        d.doc.NewIds d'.doc (Tree.valuesAll ids) ∧
        Registers root d.doc (idEntriesAll ids ts) d'.doc ∧ ∃ x', d'.doc.objects.get? element =
          some (.dictionary x') ∧ x'.get? "K" = some (.array (items ++ kidReferences ids))
  | [] => by
    intro hrun
    rw [buildKids] at hrun
    obtain ⟨-, rfl⟩ := pure_ok.mp hrun
    refine ⟨.refl numbered, [], trivial, .nil _ _, .done (.refl numbered), x, hx, ?_⟩
    rw [kidReferences, List.map_nil, List.append_nil, hitems]
  | child :: rest => by
    intro hrun
    rw [buildKids, bind_ok] at hrun
    obtain ⟨kid, d₁, hchild, hmore⟩ := hrun
    obtain ⟨_, d₂, happend, hrest⟩ := bind_ok.mp hmore
    obtain ⟨hspares₁, id, rfl, hstands₁, hfresh₁, hregisters₁⟩ := buildTags_stands numbered child hchild
    obtain ⟨x₁, hx₁, distinct₁, hsame₁⟩ := hspares₁.entries element x hx distinct
    have hitems₁ : x₁.get? "K" = some (.array items) := (hsame₁ _ (by decide)).trans hitems
    obtain rfl := appendKid_ok hx₁ hitems₁ happend
    have hspares₂ : d₁.doc.Spares (KidsOf element) (d₁.doc.put element (.dictionary
        (x₁.insert "K" (.array (items ++ [.reference id.value]))))) := by
      refine Document.spares_putDict hspares₁.numbered hx₁ fun h => ⟨h.insert _ _, fun key hkey => ?_⟩
      exact OrderedMap.get?_insert_of_ne _ (fun heq => hkey (Or.inr ⟨rfl, heq⟩)) _
    have hsteady₂ : d₁.doc.Steady (fun _ key => OffIds key) (d₁.doc.put element (.dictionary
        (x₁.insert "K" (.array (items ++ [.reference id.value]))))) :=
      .putDict hspares₁.numbered hx₁ (Mild.insert (by decide) (fun _ => _) x₁)
    obtain ⟨hspares₃, ids, hstand, hfresh, hregisters₃, x', hx', hlist⟩ := buildKids_stand hspares₂.numbered
      (OrderedMap.get?_insert_self _ _ _) (distinct₁.insert _ _) (OrderedMap.get?_insert_self _ _ _)
      rest hrest
    have hclear : ∀ i ∈ id.values, ∀ key ∈ treeKeys, ¬KidsOf element i key := by
      intro i hi key hkey h
      have hlow : element.number ≤ d.doc.maxId := numbered element _ hx
      have hhigh := (hfresh₁.2 i hi).1
      rcases h with h | ⟨rfl, -⟩
      · exact h hkey
      · omega
    have hlater := hspares₂.trans hspares₃
    refine ⟨(hspares₁.mono fun _ _ h => Or.inl h).trans hlater, id :: ids,
      ⟨hstands₁.spared hlater hclear, hstand⟩,
      hfresh₁.append hfresh hspares₁.grown hspares₂.grown hspares₃.grown,
      hregisters₁.trans ((Registers.done hsteady₂).trans hregisters₃), x', hx', ?_⟩
    rw [hlist, kidReferences, kidReferences, List.map_cons, List.append_assoc, List.singleton_append]

end

end Edit

end AccessiblePdf
