import AccessiblePdf.Proofs.Document.Appending
import AccessiblePdf.Remedy.Stage
import Std.Tactic.Do

/-!
Elements that are looked up by their declared ids. A draft knows an id when an element is registered
for it (`Draft.Knows`). Edits keep what is known, and their failures stay in a class of faults: only
those that look up an id or select a region ask whether the class has the faults of such steps
(`FaultClass.Finds`, `FaultClass.Selects`). One triple for each edit says so (`knows`, `finds`).
-/
open Std.Do

namespace AccessiblePdf

set_option mvcgen.warning false

/-- For each of some ids an element is registered. -/
def Draft.Knows (d : Draft) (ids : List String) : Prop :=
  ∀ id ∈ ids, ∃ element, d.nodes.get? id = some element

theorem Draft.Knows.mono {d : Draft} {ids ids' : List String} (h : d.Knows ids) (sub : ids' ⊆ ids) :
    d.Knows ids' :=
  fun id hid => h id (sub hid)

theorem Draft.knows_nil (d : Draft) : d.Knows [] :=
  fun _ h => absurd h List.not_mem_nil

/-- The id of the element that an edit looks up. -/
def AnnotationEdit.namedId? (a : AnnotationEdit) : Option String :=
  match AnnotationOp.ofName? a.op with
  | some .associate | some .createWidget => a.node
  | _ => none

/-! ## Classes of faults -/

/-- Not the fault of a look-up of an id that is not known. -/
def Fault.Known : Fault → Prop
  | .unknownNode _ => False
  | _ => True

theorem Fault.Known.ne {f : Fault} (h : f.Known) (id : String) : f ≠ .unknownNode id := by
  rintro rfl
  exact h

/-- Not the fault of a region that holds nothing. -/
def Fault.Resolved : Fault → Prop
  | .unresolvedRegion _ _ => False
  | _ => True

/-- A fault of its own kind, which depends neither on the ids that are known nor on regions that hold
nothing. -/
def Fault.Ordinary (f : Fault) : Prop := f.Known ∧ f.Resolved

/-- A class of faults to which all ordinary ones belong. -/
structure FaultClass where
  Has : Fault → Prop
  ordinary : ∀ f, f.Ordinary → Has f

namespace FaultClass

def known : FaultClass := ⟨Fault.Known, fun _ h => h.1⟩

def resolved : FaultClass := ⟨Fault.Resolved, fun _ h => h.2⟩

/-- A look-up of an id stays in the class: the id is known, or the class has the fault. -/
def Finds (c : FaultClass) (ids : List String) (id : String) : Prop :=
  id ∈ ids ∨ c.Has (.unknownNode id)

/-- A region that holds nothing stays in the class: it is passed over, or the class has the fault. -/
def Selects (c : FaultClass) (o : Options) : Prop :=
  o.lenient = true ∨ ∀ page region, c.Has (.unresolvedRegion page region)

theorem selects_known (o : Options) : known.Selects o :=
  Or.inr fun _ _ => trivial

theorem finds_resolved (ids : List String) (id : String) : resolved.Finds ids id :=
  Or.inr trivial

end FaultClass

namespace Edit

/-- Some ids are known. -/
abbrev knows (ids : List String) : Assertion (.except Fault (.arg Draft .pure)) :=
  fun d => ⌜d.Knows ids⌝

/-- Some ids are known afterwards, and a failure is one of a class. -/
abbrev finds {α : Type} (c : FaultClass) (ids : List String) :
    PostCond α (.except Fault (.arg Draft .pure)) :=
  post⟨fun _ d => ⌜d.Knows ids⌝, fun f _ => ⌜c.Has f⌝⟩

variable {c : FaultClass} {ids : List String}

theorem outcome_of_triple {α : Type} {e : Edit α} {ids' : List String}
    (h : ⦃knows ids⦄ e ⦃finds c ids'⦄) {d : Draft} (known : d.Knows ids) :
    (∀ a d', e.run d = .ok a d' → d'.Knows ids') ∧ ∀ f d', e.run d = .error f d' → c.Has f := by
  have hrun := h d known
  simp only [wp, PredTrans.apply] at hrun
  constructor
  · intro a d' hd'
    rw [hd'] at hrun
    exact hrun
  · intro f d' hd'
    rw [hd'] at hrun
    exact hrun

/-! ## What look-ups fail with -/

theorem ordinary_of_dict {doc : Document} {id : ObjectId} {f : Fault} (h : doc.dict id = .error f) :
    f.Ordinary := by
  rw [Document.dict] at h
  split at h
  · cases h
  · cases h
    exact ⟨trivial, trivial⟩

theorem ordinary_of_page {doc : Document} {number : Nat} {f : Fault}
    (h : doc.page number = .error f) : f.Ordinary := by
  rw [Document.page] at h
  split at h
  · cases h
  · cases h
    exact ⟨trivial, trivial⟩

theorem ordinary_of_joinStreams {doc : Document} {items : List Object} {f : Fault}
    (h : doc.joinStreams items = .error f) : f.Ordinary := by
  induction items with
  | nil => cases h
  | cons o items ih =>
    cases ho : doc.resolve o with
    | stream entries content =>
      rw [Document.joinStreams_stream ho] at h
      cases hrest : doc.joinStreams items with
      | ok rest =>
        rw [hrest] at h
        cases h
      | error f' =>
        rw [hrest] at h
        cases h
        exact ih hrest
    | null => exact ih (Document.joinStreams_null ho items ▸ h)
    | _ =>
      rw [Document.joinStreams, ho] at h
      cases h
      exact ⟨trivial, trivial⟩

theorem ordinary_of_readFrom {fuel n : Nat} {done : List Operation} {bs : Bytes} {f : Fault}
    (h : Operation.readFrom fuel done n bs = .error f) : f.Ordinary := by
  induction n generalizing done bs with
  | zero => cases h
  | succ n ih =>
    rw [Operation.readFrom] at h
    split at h
    · exact ih h
    · cases h
    · cases h
      exact ⟨trivial, trivial⟩

theorem ordinary_of_pageOperations {doc : Document} {page : ObjectId} {f : Fault}
    (h : doc.pageOperations page = .error f) : f.Ordinary := by
  cases hcontent : doc.pageContent page with
  | ok content =>
    rw [Document.pageOperations, hcontent] at h
    exact ordinary_of_readFrom h
  | error f' =>
    rw [Document.pageOperations, hcontent] at h
    cases h
    cases hx : doc.dict? page with
    | none =>
      have hdict : doc.dict page = .error .unreadable := by rw [Document.dict, hx]
      rw [Document.pageContent, hdict] at hcontent
      cases hcontent
      exact ⟨trivial, trivial⟩
    | some x =>
      rw [Document.pageContent_eq_joinStreams hx] at hcontent
      exact ordinary_of_joinStreams hcontent

theorem lift_spec {α : Type} {r : Except Fault α} (ordinary : ∀ f, r = .error f → f.Ordinary) :
    ⦃knows ids⦄ lift r ⦃finds c ids⦄ := by
  cases r with
  | ok a => mvcgen [lift]
  | error f =>
    mvcgen [lift]
    exact c.ordinary f (ordinary f rfl)

@[spec] theorem lift_dict_spec (doc : Document) (id : ObjectId) :
    ⦃knows ids⦄ lift (doc.dict id) ⦃finds c ids⦄ :=
  lift_spec fun _ h => ordinary_of_dict h

@[spec] theorem lift_page_spec (doc : Document) (number : Nat) :
    ⦃knows ids⦄ lift (doc.page number) ⦃finds c ids⦄ :=
  lift_spec fun _ h => ordinary_of_page h

@[spec] theorem lift_pageOperations_spec (doc : Document) (page : ObjectId) :
    ⦃knows ids⦄ lift (doc.pageOperations page) ⦃finds c ids⦄ :=
  lift_spec fun _ h => ordinary_of_pageOperations h

/-! ## Objects and pages -/

@[spec] theorem doc_spec : ⦃knows ids⦄ doc ⦃finds c ids⦄ := by
  mvcgen [doc]

@[spec] theorem setDoc_spec (doc : Document) : ⦃knows ids⦄ setDoc doc ⦃finds c ids⦄ := by
  mvcgen [setDoc]

@[spec] theorem dict_spec (id : ObjectId) : ⦃knows ids⦄ dict id ⦃finds c ids⦄ := by
  mvcgen [dict]

@[spec] theorem add_spec (o : Object) : ⦃knows ids⦄ add o ⦃finds c ids⦄ := by
  mvcgen [add]

@[spec] theorem reserve_spec : ⦃knows ids⦄ reserve ⦃finds c ids⦄ := by
  mvcgen [reserve]

@[spec] theorem put_spec (id : ObjectId) (o : Object) : ⦃knows ids⦄ put id o ⦃finds c ids⦄ := by
  mvcgen [put]

@[spec] theorem modifyDict_spec (id : ObjectId) (f : Dict Object → Dict Object) :
    ⦃knows ids⦄ modifyDict id f ⦃finds c ids⦄ := by
  mvcgen [modifyDict] with exact c.ordinary _ ⟨trivial, trivial⟩

@[spec] theorem setEntry_spec (id : ObjectId) (key : Bytes) (o : Object) :
    ⦃knows ids⦄ setEntry id key o ⦃finds c ids⦄ := by
  mvcgen [setEntry]

@[spec] theorem indirectDict_spec (owner : ObjectId) (key : Bytes) :
    ⦃knows ids⦄ indirectDict owner key ⦃finds c ids⦄ := by
  mvcgen [indirectDict]

@[spec] theorem modifyArray_spec (owner : ObjectId) (key : Bytes) (f : List Object → List Object) :
    ⦃knows ids⦄ modifyArray owner key f ⦃finds c ids⦄ := by
  mvcgen [modifyArray]

@[spec] theorem page_spec (number : Int) : ⦃knows ids⦄ page number ⦃finds c ids⦄ := by
  mvcgen [page] with exact c.ordinary _ ⟨trivial, trivial⟩

@[spec] theorem stream_spec (content : Bytes) : ⦃knows ids⦄ stream content ⦃finds c ids⦄ := by
  mvcgen [stream]

@[spec] theorem setOperations_spec (page : ObjectId) (ops : List Operation) :
    ⦃knows ids⦄ setOperations page ops ⦃finds c ids⦄ := by
  mvcgen [setOperations]

@[spec] theorem appendContent_spec (page : ObjectId) (content : Bytes) :
    ⦃knows ids⦄ appendContent page content ⦃finds c ids⦄ := by
  rw [appendContent_eq]
  mvcgen [appendBehind]

@[spec] theorem pageResources_spec (page : ObjectId) :
    ⦃knows ids⦄ pageResources page ⦃finds c ids⦄ := by
  mvcgen [pageResources]

@[spec] theorem catalogId_spec : ⦃knows ids⦄ catalogId ⦃finds c ids⦄ := by
  mvcgen [catalogId] with exact c.ordinary _ ⟨trivial, trivial⟩

@[spec] theorem modifyCatalog_spec (f : Dict Object → Dict Object) :
    ⦃knows ids⦄ modifyCatalog f ⦃finds c ids⦄ := by
  mvcgen [modifyCatalog]

@[spec] theorem modifyInfo_spec (f : Dict Object → Dict Object) :
    ⦃knows ids⦄ modifyInfo f ⦃finds c ids⦄ := by
  mvcgen [modifyInfo, infoId]

/-! ## Declared structure elements -/

@[spec] theorem register_spec (id : String) (element : ObjectId) :
    ⦃knows ids⦄ register id element ⦃finds c (id :: ids)⦄ := by
  mvcgen [register]
  rename_i known _
  intro id' h
  rcases List.mem_cons.mp h with rfl | h
  · exact ⟨element, OrderedMap.get?_insert_self _ _ _⟩
  · rw [OrderedMap.get?_insert]
    split
    · exact ⟨element, rfl⟩
    · exact known id' h

@[spec] theorem clearNodes_spec : ⦃knows ids⦄ clearNodes ⦃finds c []⦄ := by
  mvcgen [clearNodes]
  intro id h
  exact absurd h List.not_mem_nil

theorem node_spec {id : String} (found : c.Finds ids id) :
    ⦃knows ids⦄ node id ⦃finds c ids⦄ := by
  mvcgen [node]
  rename_i d hd hnone
  rcases found with known | hfault
  · obtain ⟨element, h⟩ := hd id known
    exact absurd (h.symm.trans hnone) (by simp)
  · exact hfault

/-! ## Metadata -/

@[spec] theorem setMarked_spec (marked : Bool) : ⦃knows ids⦄ setMarked marked ⦃finds c ids⦄ := by
  mvcgen [setMarked]

@[spec] theorem setPdfuaPart_spec (part : Int) (title : Option String) :
    ⦃knows ids⦄ setPdfuaPart part title ⦃finds c ids⦄ := by
  mvcgen [setPdfuaPart]

@[spec] theorem setTabOrder_spec (order : TabOrder) :
    ⦃knows ids⦄ setTabOrder order ⦃finds c ids⦄ := by
  mvcgen [setTabOrder] invariants
  · finds c ids
  with exact fun _ h => h

@[spec] theorem applyMetadata_spec (m : MetadataEdit) :
    ⦃knows ids⦄ applyMetadata m ⦃finds c ids⦄ := by
  mvcgen [applyMetadata]

/-! ## The structure tree -/

@[spec] theorem appendKid_spec (element : ObjectId) (kid : Object) :
    ⦃knows ids⦄ appendKid element kid ⦃finds c ids⦄ := by
  mvcgen [appendKid]

@[spec] theorem elementRole_spec (element : ObjectId) :
    ⦃knows ids⦄ elementRole element ⦃finds c ids⦄ := by
  mvcgen [elementRole] with exact c.ordinary _ ⟨trivial, trivial⟩

@[spec] theorem parentTree_spec (root : ObjectId) : ⦃knows ids⦄ parentTree root ⦃finds c ids⦄ := by
  mvcgen [parentTree]

@[spec] theorem ensureRoot_spec : ⦃knows ids⦄ ensureRoot ⦃finds c ids⦄ := by
  mvcgen [ensureRoot]

@[spec] theorem allocateKey_spec (root : ObjectId) : ⦃knows ids⦄ allocateKey root ⦃finds c ids⦄ := by
  mvcgen [allocateKey]

@[spec] theorem pageKey_spec (root page : ObjectId) : ⦃knows ids⦄ pageKey root page ⦃finds c ids⦄ := by
  mvcgen [pageKey]

@[spec] theorem setParent_spec (root : ObjectId) (key : Int) (value : Object) :
    ⦃knows ids⦄ setParent root key value ⦃finds c ids⦄ := by
  mvcgen [setParent]

@[spec] theorem checkMcid_spec (mcid : Int) : ⦃knows ids⦄ checkMcid mcid ⦃finds c ids⦄ := by
  mvcgen [checkMcid] with exact c.ordinary _ ⟨trivial, trivial⟩

@[spec] theorem setMcidParent_spec (root : ObjectId) (key mcid : Int) (element : ObjectId) :
    ⦃knows ids⦄ setMcidParent root key mcid element ⦃finds c ids⦄ := by
  mvcgen [setMcidParent]

@[spec] theorem registerElementId_spec (root : ObjectId) (elementId : String) (element : ObjectId) :
    ⦃knows ids⦄ registerElementId root elementId element ⦃finds c ids⦄ := by
  mvcgen [registerElementId]

@[spec] theorem stripAnnotations_spec (page : ObjectId) :
    ⦃knows ids⦄ stripAnnotations page ⦃finds c ids⦄ := by
  mvcgen [stripAnnotations] invariants
  · finds c ids
  with exact fun _ h => h

@[spec] theorem stripContent_spec (page : ObjectId) :
    ⦃knows ids⦄ stripContent page ⦃finds c ids⦄ := by
  mvcgen [stripContent]

theorem stripTags_spec : ⦃knows []⦄ stripTags ⦃finds c []⦄ := by
  mvcgen [stripTags] invariants
  · finds c []
  with exact fun _ h => h

/-! ## Building the tree -/

/-- The ids of elements. -/
def idsOf (tags : List Tag) : List String := tags.filterMap Tag.id

theorem idsOf_cons (tag : Tag) (tags : List Tag) :
    idsOf (tag :: tags) = tag.id.toList ++ idsOf tags := by
  cases h : tag.id <;> simp [idsOf, h]

theorem idsOf_append (tags more : List Tag) : idsOf (tags ++ more) = idsOf tags ++ idsOf more :=
  List.filterMap_append

mutual

/-- After a tree is built all its ids are known. -/
theorem buildTags_spec (root parent : ObjectId) (tree : TagTree) (ids : List String) :
    ⦃knows ids⦄ buildTags root parent tree ⦃finds c (idsOf tree.tags ++ ids)⦄ := by
  cases tree with
  | node tag children =>
    have hkids := fun element => buildKids_spec root element children (tag.id.toList ++ ids)
    have hall : ∀ d : Draft, d.Knows (idsOf (TagTree.tagsAll children) ++ (tag.id.toList ++ ids)) →
        d.Knows (idsOf (TagTree.node tag children).tags ++ ids) := by
      intro d h
      refine h.mono fun id hid => ?_
      rw [TagTree.tags, idsOf_cons] at hid
      grind
    cases hid : tag.id with
    | none =>
      simp only [hid, Option.toList_none, List.nil_append] at hkids hall
      simp only [buildTags, hid]
      mvcgen [hkids]
      all_goals exact hall _ (by assumption)
    | some id =>
      simp only [hid, Option.toList_some, List.singleton_append] at hkids hall
      simp only [buildTags, hid]
      mvcgen [hkids]
      all_goals exact hall _ (by assumption)

theorem buildKids_spec (root element : ObjectId) (trees : List TagTree) (ids : List String) :
    ⦃knows ids⦄ buildKids root element trees ⦃finds c (idsOf (TagTree.tagsAll trees) ++ ids)⦄ := by
  cases trees with
  | nil => mvcgen [buildKids]
  | cons tree trees =>
    have htree := buildTags_spec root element tree ids
    have happend := @appendKid_spec c (idsOf tree.tags ++ ids) element
    have htrees := buildKids_spec root element trees (idsOf tree.tags ++ ids)
    mvcgen [buildKids, htree, -appendKid_spec, happend, htrees]
    intro h
    refine h.mono fun id hid => ?_
    rw [TagTree.tagsAll, idsOf_append] at hid
    grind

end

theorem applyTags_spec (s : TagSection) :
    ⦃knows []⦄ applyTags s ⦃finds c (idsOf s.root.tags)⦄ := by
  have hbuild := fun root => @buildTags_spec c root root s.root []
  have happend := @appendKid_spec c (idsOf s.root.tags)
  have hmarked := @setMarked_spec c (idsOf s.root.tags)
  simp only [List.append_nil] at hbuild
  mvcgen [applyTags, stripTags_spec, hbuild, happend, hmarked]

/-! ## Regions -/

@[spec] theorem selectRegion_spec (o : Options) (number : Int) (declared : Option (Box Float)) :
    ⦃knows ids⦄ selectRegion o number declared ⦃finds c ids⦄ := by
  mvcgen [selectRegion]

theorem unresolved_spec {o : Options} (selects : c.Selects o) (page : Int) (region : Box Float) :
    ⦃knows ids⦄ unresolved o page region ⦃finds c ids⦄ := by
  mvcgen [unresolved]
  exact (selects.resolve_left ‹_›) _ _

@[spec] theorem addContentKid_spec (element page : ObjectId) (mcid : Int) :
    ⦃knows ids⦄ addContentKid element page mcid ⦃finds c ids⦄ := by
  mvcgen [addContentKid]

@[spec] theorem recordMcids_spec (root page element : ObjectId) (key : Int) (n : Nat) (mcid : Int) :
    ⦃knows ids⦄ recordMcids root page element key n mcid ⦃finds c ids⦄ := by
  induction n generalizing mcid with
  | zero => mvcgen [recordMcids]
  | succ n ih => mvcgen [recordMcids, ih]

theorem tagRegion_spec {o : Options} (selects : c.Selects o) (root : ObjectId) {r : TagRegion}
    (found : c.Finds ids r.node) : ⦃knows ids⦄ tagRegion o root r ⦃finds c ids⦄ := by
  have hnode := node_spec found
  have hunresolved := @unresolved_spec c ids o selects
  mvcgen [tagRegion, hnode, hunresolved] with exact c.ordinary _ ⟨trivial, trivial⟩

theorem applyRegions_spec {o : Options} (selects : c.Selects o) {regions : List TagRegion}
    (found : ∀ r ∈ regions, c.Finds ids r.node) :
    ⦃knows ids⦄ applyRegions o regions ⦃finds c ids⦄ := by
  have hregion := @tagRegion_spec c ids o selects
  mvcgen [applyRegions, hregion] invariants
  · finds c ids
  with first
    | exact fun _ h => h
    | exact found _ (by simp [*])

theorem markArtifact_spec {o : Options} (selects : c.Selects o) (r : ArtifactRegion) :
    ⦃knows ids⦄ markArtifact o r ⦃finds c ids⦄ := by
  have hunresolved := @unresolved_spec c ids o selects
  mvcgen [markArtifact, hunresolved]

theorem applyArtifacts_spec {o : Options} (selects : c.Selects o) (regions : List ArtifactRegion) :
    ⦃knows ids⦄ applyArtifacts o regions ⦃finds c ids⦄ := by
  have hregion := @markArtifact_spec c ids o selects
  mvcgen [applyArtifacts, hregion] invariants
  · finds c ids
  with exact fun _ h => h

/-! ## Annotations -/

@[spec] theorem annotationId_spec (number : Int) (page : ObjectId) (index : Option Int) :
    ⦃knows ids⦄ annotationId number page index ⦃finds c ids⦄ := by
  mvcgen [annotationId] with exact c.ordinary _ ⟨trivial, trivial⟩

@[spec] theorem fieldOf_spec (annot : ObjectId) : ⦃knows ids⦄ fieldOf annot ⦃finds c ids⦄ := by
  mvcgen [fieldOf]

@[spec] theorem annotationElement_spec (root annot : ObjectId) :
    ⦃knows ids⦄ annotationElement root annot ⦃finds c ids⦄ := by
  mvcgen [annotationElement]

theorem associate_spec (annot page : ObjectId) {declared : Option String}
    (found : ∀ id ∈ declared, c.Finds ids id) :
    ⦃knows ids⦄ associate annot page declared ⦃finds c ids⦄ := by
  cases declared with
  | none => mvcgen [associate]
  | some id =>
    have hnode := node_spec (found id rfl)
    mvcgen [associate, hnode]

@[spec] theorem formId_spec : ⦃knows ids⦄ formId ⦃finds c ids⦄ := by
  mvcgen [formId]

@[spec] theorem createWidget_spec (o : Options) (page : ObjectId) (a : AnnotationEdit) :
    ⦃knows ids⦄ createWidget o page a ⦃finds c ids⦄ := by
  mvcgen [createWidget] with exact c.ordinary _ ⟨trivial, trivial⟩

theorem annotate_spec (o : Options) {a : AnnotationEdit}
    (found : ∀ id ∈ a.namedId?, c.Finds ids id) :
    ⦃knows ids⦄ annotate o a ⦃finds c ids⦄ := by
  mvcgen [annotate, associate_spec]
  all_goals
    intro _ _
    simpa [AnnotationEdit.namedId?, *] using found

theorem applyAnnotations_spec (o : Options) {as : List AnnotationEdit}
    (found : ∀ a ∈ as, ∀ id ∈ a.namedId?, c.Finds ids id) :
    ⦃knows ids⦄ applyAnnotations o as ⦃finds c ids⦄ := by
  mvcgen [applyAnnotations, annotate_spec] invariants
  · finds c ids
  with first
    | exact fun _ h => h
    | exact found _ (by simp [*])

/-! ## Fonts -/

@[spec] theorem fontId_spec (page : ObjectId) (name : String) :
    ⦃knows ids⦄ fontId page name ⦃finds c ids⦄ := by
  mvcgen [fontId] with exact c.ordinary _ ⟨trivial, trivial⟩

@[spec] theorem isComposite_spec (font : ObjectId) : ⦃knows ids⦄ isComposite font ⦃finds c ids⦄ := by
  mvcgen [isComposite]

@[spec] theorem descriptorOwner_spec (font : ObjectId) :
    ⦃knows ids⦄ descriptorOwner font ⦃finds c ids⦄ := by
  mvcgen [descriptorOwner] with exact c.ordinary _ ⟨trivial, trivial⟩

@[spec] theorem hasDescriptor_spec (owner : ObjectId) :
    ⦃knows ids⦄ hasDescriptor owner ⦃finds c ids⦄ := by
  mvcgen [hasDescriptor]

@[spec] theorem descriptor_spec (owner : ObjectId) : ⦃knows ids⦄ descriptor owner ⦃finds c ids⦄ := by
  mvcgen [descriptor]

@[spec] theorem checkCodes_spec (f : FontEdit) (codes : List Nat) (limit : Nat) :
    ⦃knows ids⦄ checkCodes f codes limit ⦃finds c ids⦄ := by
  mvcgen [checkCodes] with exact c.ordinary _ ⟨trivial, trivial⟩

@[spec] theorem repairFont_spec (f : FontEdit) (font : ObjectId) (composite : Bool) (op : FontOp) :
    ⦃knows ids⦄ repairFont f font composite op ⦃finds c ids⦄ := by
  cases op with
  | writeCidSet => mvcgen [repairFont, writeCidSet]
  | writeCharSet => mvcgen [repairFont, writeCharSet]
  | setEncoding => mvcgen [repairFont, setEncoding]
  | setDifferences => mvcgen [repairFont, setDifferences]
  | writeToUnicode => mvcgen [repairFont, writeToUnicode]
  | setWidths => mvcgen [repairFont, setCompositeWidths, setSimpleWidths]
  | addDescriptor => mvcgen [repairFont]

theorem applyFont_spec (f : FontEdit) : ⦃knows ids⦄ applyFont f ⦃finds c ids⦄ := by
  mvcgen [applyFont]

@[spec] theorem applyFonts_spec (fs : List FontEdit) : ⦃knows ids⦄ applyFonts fs ⦃finds c ids⦄ := by
  have hfont := @applyFont_spec c ids
  mvcgen [applyFonts, hfont] invariants
  · finds c ids
  with exact fun _ h => h

/-! ## Text layers -/

@[spec] theorem layerFont_spec (fonts : LayerFonts) (font : Ocr.LayerFont) :
    ⦃knows ids⦄ layerFont fonts font ⦃finds c ids⦄ := by
  cases font with
  | latin => mvcgen [layerFont]
  | universal => mvcgen [layerFont, addUniversalFont]

@[spec] theorem addFontResource_spec (page font : ObjectId) (name : String) :
    ⦃knows ids⦄ addFontResource page font name ⦃finds c ids⦄ := by
  mvcgen [addFontResource]

@[spec] theorem wordsOperations_spec (page : ObjectId) (fonts : LayerFonts)
    (words : List (Box Float × Ocr.ShownWord)) :
    ⦃knows ids⦄ wordsOperations page fonts words ⦃finds c ids⦄ := by
  induction words generalizing fonts with
  | nil => mvcgen [wordsOperations]
  | cons word words ih => mvcgen [wordsOperations, ih]

@[spec] theorem addPageText_spec (o : Options) (fonts : LayerFonts) (p : OcrPage) :
    ⦃knows ids⦄ addPageText o fonts p ⦃finds c ids⦄ := by
  mvcgen [addPageText]

@[spec] theorem applyOcr_spec (o : Options) (pages : List OcrPage) :
    ⦃knows ids⦄ applyOcr o pages ⦃finds c ids⦄ := by
  have hpage := @addPageText_spec c ids o
  mvcgen [applyOcr, -addPageText_spec, hpage] invariants
  · finds c ids
  with exact fun _ h => h

/-! ## The outline -/

@[spec] theorem reserveMany_spec (n : Nat) : ⦃knows ids⦄ reserveMany n ⦃finds c ids⦄ := by
  induction n with
  | zero => mvcgen [reserveMany]
  | succ n ih => mvcgen [reserveMany, ih]

mutual

theorem writeEntry_spec (parent : ObjectId) (previous : Option ObjectId) (id : ObjectId)
    (next : Option ObjectId) (entry : Tree OutlineEntry) :
    ⦃knows ids⦄ writeEntry parent previous id next entry ⦃finds c ids⦄ := by
  cases entry with
  | node entry children =>
    have hchildren := fun l => writeEntries_spec id none children l
    mvcgen [writeEntry, hchildren]

theorem writeEntries_spec (parent : ObjectId) (previous : Option ObjectId)
    (entries : List (Tree OutlineEntry)) (l : List ObjectId) :
    ⦃knows ids⦄ writeEntries parent previous entries l ⦃finds c ids⦄ := by
  cases entries with
  | nil => mvcgen [writeEntries]
  | cons entry entries =>
    cases l with
    | nil => mvcgen [writeEntries]
    | cons id l =>
      have hentry := writeEntry_spec parent previous id l.head? entry
      have hentries := writeEntries_spec parent (some id) entries l
      mvcgen [writeEntries, hentry, hentries]

end

@[spec] theorem applyOutline_spec : ⦃knows ids⦄ applyOutline ⦃finds c ids⦄ := by
  mvcgen [applyOutline, writeOutline, writeEntries_spec]

@[spec] theorem applyStamp_spec (o : Options) : ⦃knows ids⦄ applyStamp o ⦃finds c ids⦄ := by
  mvcgen [applyStamp]

end Edit

end AccessiblePdf
