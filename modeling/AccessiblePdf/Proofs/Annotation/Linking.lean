import AccessiblePdf.Proofs.Annotation.Carrying

/-!
Annotations in a document with a structure tree. Changing the texts of annotations and adding form
fields leaves the structure tree as it is (`createWidget_quiet`); an annotation that is associated with an
element is listed by the element, and its key leads there (`Linked.associate`).
-/
open Std.Do

namespace AccessiblePdf

open Edit Watch

set_option mvcgen.warning false

/-- While annotations are edited, what a structure tree is made of and the declared elements stay. -/
def Watch.annotating (old : Document) (nodes : OrderedMap String ObjectId) : Watch where
  old := old
  watched := skeletonKeys
  banned := ["StructParents"]
  sub := by decide
  known := (· = nodes)

namespace Watch

variable {old : Document} {nodes : OrderedMap String ObjectId}

theorem free_annotating {key : Bytes} (h : Document.Free skeletonKeys ["StructParents"] key) :
    (Watch.annotating old nodes).Free key := h

theorem lacks_concat (id : ObjectId) (items : List Object)
    (lacks : ∀ o ∈ items, o.lacks parentKeys = true) :
    ∀ o ∈ items ++ [.reference id], o.lacks parentKeys = true := by
  intro o ho
  rcases List.mem_append.mp ho with ho | ho
  · exact lacks o ho
  · rw [List.mem_singleton.mp ho, Object.lacks_reference]

theorem lacks_set (i : Nat) (id : ObjectId) (items : List Object)
    (lacks : ∀ o ∈ items, o.lacks parentKeys = true) :
    ∀ o ∈ items.set i (.reference id), o.lacks parentKeys = true := by
  intro o ho
  rcases List.mem_or_eq_of_mem_set ho with ho | rfl
  · exact lacks o ho
  · exact Object.lacks_reference id

/-- An annotation that moves from the array of its page brings no key along. -/
@[scoped spec] theorem annotationId_quiet (number : Int) (page : ObjectId) (index : Option Int) :
    ⦃holds (.annotating old nodes)⦄ annotationId number page index
    ⦃held (.annotating old nodes)⦄ := by
  refine triple_of_run fun d id d' h hrun => ?_
  unfold annotationId at hrun
  extract_lets i at hrun
  rw [bind_ok] at hrun
  obtain ⟨doc, d₁, hdoc, hrun⟩ := hrun
  obtain ⟨rfl, rfl⟩ := doc_ok.mp hdoc
  rw [bind_ok] at hrun
  obtain ⟨x, d₂, hdict, hrun⟩ := hrun
  obtain ⟨hx, rfl⟩ := dict_ok.mp hdict
  split at hrun
  · split at hrun
    · obtain ⟨-, rfl⟩ := pure_ok.mp hrun
      exact h
    · exact (throw_ok.mp hrun).elim
  · next a hitem =>
    have hlacks := h.keeps.sound.item_lacks hx (by decide) (List.mem_of_getElem? hitem)
    have hkey : a.get? "StructParent" = none := Object.get?_of_lacks hlacks (by decide)
    have hmoved : ⦃holds (.annotating old nodes)⦄ (do
        let id ← add (.dictionary a)
        modifyArray page "Annots" fun items => items.set i (.reference id)
        return id : Edit ObjectId) ⦃held (.annotating old nodes)⦄ := by
      mvcgen
      · exact .of_lacks hlacks (Watch.annotating old nodes).sub
      · exact free_annotating (by decide)
      · exact lacks_set i _
    exact h.run hmoved hrun
  · exact (throw_ok.mp hrun).elim

@[scoped spec] theorem fieldOf_quiet (annot : ObjectId) :
    ⦃holds (.annotating old nodes)⦄ fieldOf annot ⦃held (.annotating old nodes)⦄ := by
  mvcgen [fieldOf]

theorem tame_fill {key : Bytes} {o : Object} (free : Document.Free skeletonKeys ["StructParents"] key)
    (moving : key ∈ movingKeys → o.lacks parentKeys = true) :
    Document.Tame skeletonKeys ["StructParents"] fun d =>
      if d.contains key then d else d.insert key o :=
  (Document.Tame.insert (o := fun _ => o) free fun hkey _ => moving hkey).ite

@[scoped spec] theorem formId_quiet :
    ⦃holds (.annotating old nodes)⦄ formId ⦃held (.annotating old nodes)⦄ := by
  mvcgen [formId]
  · exact free_annotating (by decide)
  · exact (tame_fill (by decide) (by decide)).comp
      ((tame_fill (by decide) (by decide)).comp (tame_fill (by decide) (by decide)))

theorem keys_widgetDict (a : AnnotationEdit) (page : ObjectId) (rect : Box Float) :
    ∀ key ∈ (widgetDict a page rect).keys, key ∉ parentKeys ∧ key ∉ movingKeys := by
  cases htooltip : a.tooltip with
  | none =>
    have hkeys : (widgetDict a page rect).keys =
        ["Type", "Subtype", "Rect", "FT", "T", "F", "P", "DA"] := by
      rw [widgetDict, htooltip]
      rfl
    rw [hkeys]
    decide
  | some t =>
    have hkeys : (widgetDict a page rect).keys =
        ["Type", "Subtype", "Rect", "FT", "T", "F", "P", "DA", "TU"] := by
      rw [widgetDict, htooltip]
      rfl
    rw [hkeys]
    decide

/-- Adding a form field leaves the structure tree alone. -/
@[scoped spec] theorem createWidget_quiet (o : Options) (page : ObjectId) (a : AnnotationEdit) :
    ⦃holds (.annotating old nodes)⦄ createWidget o page a ⦃held (.annotating old nodes)⦄ := by
  mvcgen [createWidget, doc]
  · exact .of_keys (Watch.annotating old nodes).sub (keys_widgetDict a page _)
  · exact OrderedMap.get?_of_not_mem_keys fun hmem =>
      absurd (by decide) (keys_widgetDict a page _ "StructParent" hmem).1
  · exact free_annotating (by decide)
  · exact lacks_concat _
  · exact free_annotating (by decide)
  · exact lacks_concat _

end Watch

/-! ## The parts of an association -/

/-- The element of an annotation: the declared one, or a new one. -/
def elementOf (root annot : ObjectId) : Option String → Edit ObjectId
  | some id => node id
  | none => annotationElement root annot

/-- The key of an annotation: the one that it has, or the next one. -/
def keyOf (root annot : ObjectId) : Edit Int := do
  match (← dict annot).get? "StructParent" with
  | some (.integer key) => return key
  | _ => allocateKey root

/-- The annotation gets the key, the key leads to the element, and the element lists the annotation. -/
def linkWith (root element annot page : ObjectId) (key : Int) : Edit Unit := do
  setEntry annot "StructParent" (.integer key)
  setParent root key (.reference element)
  appendKid element (Kid.object annot page annot).item

theorem associate_eq (annot page : ObjectId) (declared : Option String) :
    associate annot page declared = (do
      let root ← ensureRoot
      setMarked true
      let element ← elementOf root annot declared
      linkWith root element annot page (← keyOf root annot)) := by
  have hkey : ∀ root element, (do
      let x ← dict annot
      match x.get? "StructParent" with
      | some (.integer key) => linkWith root element annot page key
      | _ => do linkWith root element annot page (← allocateKey root)) =
      (do linkWith root element annot page (← keyOf root annot)) := by
    intro root element
    rw [keyOf, bind_assoc]
    refine bind_congr fun x => ?_
    split
    · rw [pure_bind]
    · rfl
  unfold associate
  refine bind_congr fun root => bind_congr fun _ => ?_
  cases declared with
  | some id => exact bind_congr fun element => hkey root element
  | none => exact bind_congr fun element => hkey root element

/-! ## Linked drafts -/

/-- The structure tree of a draft is as an account says that is in order; every declared element is
there, and fewer than so many keys are given out. -/
structure Linked (p : Places) (s : Skeleton) (n : Nat) (d : Draft) : Prop where
  carries : Carries p s d.doc
  agrees : s.Agrees
  nodes : ∀ name element, d.nodes.get? name = some element → s.Has element
  next : s.next ≤ n

namespace Linked

variable {p : Places} {s : Skeleton} {n : Nat} {d d' : Draft} {u : Unit}

theorem quiet {α : Type} {e : Edit α} {a : α} (h : Linked p s n d)
    (keeps : ⦃holds (.annotating d.doc d.nodes)⦄ e ⦃held (.annotating d.doc d.nodes)⦄)
    (hrun : e.run d = .ok a d') : Linked p s n d' := by
  obtain ⟨kept, hnodes⟩ := Watch.Holds.run ⟨.refl h.carries.sound, rfl⟩ keeps hrun
  refine ⟨h.carries.keeps kept, h.agrees, ?_, h.next⟩
  intro name element hnode
  rw [show d'.nodes = d.nodes from hnodes] at hnode
  exact h.nodes name element hnode

/-- The root is there already. -/
theorem ensureRoot {root : ObjectId} (h : Linked p s n d)
    (hrun : (Edit.ensureRoot).run d = .ok root d') : root = p.root ∧ Linked p s n d' := by
  unfold Edit.ensureRoot at hrun
  rw [bind_ok] at hrun
  obtain ⟨catalogId, d₁, hcatalog, hrun⟩ := hrun
  obtain ⟨hid, rfl⟩ := catalogId_ok.mp hcatalog
  obtain ⟨x, hx, -, -, hentry⟩ := h.carries.object .root
  obtain ⟨y, hy, htarget, hdict, hroot⟩ := h.carries.object .tree
  rw [bind_ok] at hrun
  obtain ⟨root', d₂, hindirect, hrun⟩ := hrun
  obtain ⟨rfl, rfl⟩ : root' = p.root ∧ d₂ = d₁ := by
    obtain ⟨x', hx', hrest⟩ := indirectDict_ok.mp hindirect
    obtain ⟨id, hid', hplace⟩ := h.carries.catalog
    obtain rfl : catalogId = id := Option.some.inj (hid.symm.trans hid')
    have hsame : d₁.doc.dict? catalogId = some x := by
      rw [Document.dict?, Document.get?_eq_of_target? hplace, hx]
      rfl
    obtain rfl : x = x' := Option.some.inj (hsame.symm.trans hx')
    rw [hentry _ _ .root, ownId?_reference, hdict, Option.isSome_some, if_pos rfl] at hrest
    exact hrest
  rw [bind_ok] at hrun
  obtain ⟨_, d₃, hmodify, hrun⟩ := hrun
  obtain ⟨t, z, ht, hz, rfl⟩ := modifyDict_ok.mp hmodify
  obtain rfl : p.root = t := Option.some.inj (htarget.symm.trans ht)
  obtain rfl : y = z := by simpa using hy.symm.trans hz
  have hkids : (y.insert "Type" (.name "StructTreeRoot")).contains "K" = true := by
    rw [OrderedMap.contains, OrderedMap.get?_insert_of_ne _ (by decide), hroot _ _ .tops]
    rfl
  simp only [hkids, if_true] at hrun
  have htame : Document.Tame skeletonKeys ["StructParents"] (·.insert "Type" (.name "StructTreeRoot")) :=
    .insert (o := fun _ => .name "StructTreeRoot") (by decide) fun _ _ => rfl
  have hrefl : d₂.doc.Keeps skeletonKeys ["StructParents"] d₂.doc := .refl h.carries.sound
  have hkept := hrefl.putDict hy
    (htame.sound y (h.carries.sound.objects _ _ hy)) (htame.same y) (htame.unkeyed y)
  have h' : Linked p s n { d₂ with
      doc := d₂.doc.put p.root (.dictionary (y.insert "Type" (.name "StructTreeRoot"))) } :=
    ⟨h.carries.keeps hkept, h.agrees, h.nodes, h.next⟩
  rw [bind_ok] at hrun
  obtain ⟨tree, d₃, hparent, hrun⟩ := hrun
  obtain ⟨-, rfl⟩ := h'.carries.parentTree hparent
  obtain ⟨rfl, rfl⟩ := pure_ok.mp hrun
  exact ⟨rfl, h'⟩

theorem documentElement_eq (h : Linked p s n d) : documentElement d.doc p.root = s.top := by
  obtain ⟨kids, hkids⟩ := h.agrees.top
  obtain ⟨x, -, -, hx, hroot⟩ := h.carries.object .tree
  obtain ⟨y, -, -, hy, -⟩ := h.carries.object (.kids hkids)
  rw [documentElement, hx, Option.bind_some, hroot _ _ .tops]
  show ((some s.top).filter fun id => (d.doc.dict? id).isSome).getD p.root = s.top
  rw [Option.filter_some, hy]
  rfl

/-- An annotation gets an element of its own. -/
theorem annotationElement {annot element : ObjectId} (h : Linked p s n d)
    (hrun : (Edit.annotationElement p.root annot).run d = .ok element d') :
    ∃ s', Linked p s' n d' ∧ s'.Has element := by
  unfold Edit.annotationElement at hrun
  rw [bind_ok] at hrun
  obtain ⟨doc, d₁, hdoc, hrun⟩ := hrun
  obtain ⟨rfl, rfl⟩ := doc_ok.mp hdoc
  rw [bind_ok] at hrun
  obtain ⟨x, d₂, hdict, hrun⟩ := hrun
  obtain ⟨-, rfl⟩ := dict_ok.mp hdict
  rw [bind_ok] at hrun
  obtain ⟨doc, d₃, hdoc, hrun⟩ := hrun
  obtain ⟨rfl, rfl⟩ := doc_ok.mp hdoc
  rw [h.documentElement_eq] at hrun
  rw [bind_ok] at hrun
  obtain ⟨element', d₄, hadd, hrun⟩ := hrun
  obtain ⟨hnew, doc₁, rfl, h₁⟩ := h.carries.newElement hadd
  rw [bind_ok] at hrun
  obtain ⟨_, d₅, happend, hrun⟩ := hrun
  obtain ⟨rfl, rfl⟩ := pure_ok.mp hrun
  have htop : (s.addElement element).Has s.top := Skeleton.has_addElement.mpr (Or.inl h.agrees.top)
  obtain ⟨doc₂, rfl, h₂⟩ := Carries.appendKid (d := { d₃ with doc := doc₁ }) h₁
    (.element element) htop (fun _ _ _ heq => absurd heq (by simp)) happend
  have hhas : ∀ y, ((s.addElement element).append s.top (.element element)).Has y ↔
      s.Has y ∨ y = element := fun y => Skeleton.has_append.trans Skeleton.has_addElement
  refine ⟨_, ⟨h₂, h.agrees.addElement h.agrees.top hnew, ?_, h.next⟩, (hhas element).mpr (Or.inr rfl)⟩
  exact fun name y hnode => (hhas y).mpr (Or.inl (h.nodes name y hnode))

theorem elementOf {annot element : ObjectId} {declared : Option String} (h : Linked p s n d)
    (hrun : (AccessiblePdf.elementOf p.root annot declared).run d = .ok element d') :
    ∃ s', Linked p s' n d' ∧ s'.Has element := by
  cases declared with
  | some id =>
    obtain ⟨hnode, rfl⟩ := node_ok hrun
    exact ⟨s, h, h.nodes id element hnode⟩
  | none => exact h.annotationElement hrun

/-- When an annotation has its key, that of no other object, it is known where the annotation is. -/
theorem keyOf {annot : ObjectId} {k : Int} (h : Linked p s n d) (small : n < 0x20000000000000)
    (hrun : (AccessiblePdf.keyOf p.root annot).run d = .ok k d') :
    ∃ home s', d'.doc.target? annot = some home ∧ Carries p s' d'.doc ∧
      (s'.setKey home k).Agrees ∧ s'.kids = s.kids ∧ d'.nodes = d.nodes ∧ s'.next ≤ n + 1 := by
  unfold AccessiblePdf.keyOf at hrun
  rw [bind_ok] at hrun
  obtain ⟨x, d₁, hdict, hrun⟩ := hrun
  obtain ⟨hx, rfl⟩ := dict_ok.mp hdict
  obtain ⟨home, hhome, -⟩ := Document.target?_of_dict? hx
  rw [h.carries.key_of_dict? hhome hx] at hrun
  cases hold : s.keys home with
  | some key =>
    rw [hold] at hrun
    obtain ⟨rfl, rfl⟩ := pure_ok.mp hrun
    have hsame : s.setKey home k = s := by
      rw [Skeleton.setKey, ← hold, Function.update_eq_self]
    exact ⟨home, s, hhome, h.carries, by rw [hsame]; exact h.agrees, rfl, rfl,
      Nat.le_succ_of_le h.next⟩
  | none =>
    rw [hold] at hrun
    obtain ⟨rfl, doc', rfl, htargets, h'⟩ :=
      h.carries.allocateKey h.agrees (Nat.lt_of_le_of_lt h.next small) hrun
    exact ⟨home, _, (htargets annot).trans hhome, h', h.agrees.giveKey hold, rfl, rfl,
      Nat.succ_le_succ h.next⟩

/-- An annotation is linked with an element. -/
theorem associate {annot page : ObjectId} {declared : Option String} (h : Linked p s n d)
    (small : n < 0x20000000000000)
    (hrun : (Edit.associate annot page declared).run d = .ok u d') :
    ∃ s', Linked p s' (n + 1) d' := by
  rw [associate_eq, bind_ok] at hrun
  obtain ⟨root, d₁, hroot, hrun⟩ := hrun
  obtain ⟨rfl, h₁⟩ := h.ensureRoot hroot
  rw [bind_ok] at hrun
  obtain ⟨_, d₂, hmarked, hrun⟩ := hrun
  have h₂ := h₁.quiet (setMarked_holds (free_annotating (by decide)) (free_annotating (by decide)) _)
    hmarked
  rw [bind_ok] at hrun
  obtain ⟨element, d₃, helement, hrun⟩ := hrun
  obtain ⟨s₃, h₃, hhas⟩ := h₂.elementOf helement
  rw [bind_ok] at hrun
  obtain ⟨k, d₄, hkey, hrun⟩ := hrun
  obtain ⟨home, s₄, hhome, h₄, hagrees, hkids, hnodes, hnext⟩ := h₃.keyOf small hkey
  unfold linkWith at hrun
  rw [bind_ok] at hrun
  obtain ⟨_, d₅, hset, hrun⟩ := hrun
  obtain ⟨doc₅, rfl, htargets₅, h₅⟩ := h₄.setKey hhome hset
  rw [bind_ok] at hrun
  obtain ⟨_, d₆, hparent, hrun⟩ := hrun
  obtain ⟨doc₆, rfl, htargets₆, h₆⟩ := Carries.setParent (d := { d₄ with doc := doc₅ }) h₅ hparent
  have hhas₄ : (s₄.setKey home k).Has element := by
    show ∃ kids, s₄.kids element = some kids
    rw [hkids]
    exact hhas
  obtain ⟨doc₇, rfl, h₇⟩ := Carries.appendKid (d := { d₄ with doc := doc₆ }) h₆
    (.object annot page home) hhas₄
    (by
      rintro target page' home' heq
      obtain ⟨rfl, -, rfl⟩ := Kid.object.inj heq
      exact (htargets₆ annot).trans ((htargets₅ annot).trans hhome)) hrun
  have hkeys : (s₄.setKey home k).keys home = some k := by rw [Skeleton.keys_setKey, if_pos rfl]
  refine ⟨_, h₇, hagrees.link hkeys hhas₄ (Nat.le_trans hnext small), ?_, hnext⟩
  intro name y hnode
  refine Skeleton.has_append.mpr ?_
  show ∃ kids, s₄.kids y = some kids
  rw [hkids]
  exact h₃.nodes name y (hnodes ▸ hnode)

theorem mono {m : Nat} (h : Linked p s n d) (hle : n ≤ m) : Linked p s m d :=
  ⟨h.carries, h.agrees, h.nodes, Nat.le_trans h.next hle⟩

/-- One operation gives out at most one key. -/
theorem annotate {o : Options} {a : AnnotationEdit} (h : Linked p s n d)
    (small : n < 0x20000000000000)
    (hrun : (Edit.annotate o a).run d = .ok u d') : ∃ s', Linked p s' (n + 1) d' := by
  unfold Edit.annotate at hrun
  rw [bind_ok] at hrun
  obtain ⟨page, d₁, hpageRun, hrun⟩ := hrun
  obtain ⟨-, rfl⟩ := page_ok hpageRun
  split at hrun
  · obtain ⟨-, rfl⟩ := pure_ok.mp hrun
    exact ⟨s, h.mono (Nat.le_succ n)⟩
  · -- The text of an annotation is set.
    rw [bind_ok] at hrun
    obtain ⟨annot, d₂, hannot, hrun⟩ := hrun
    have h₂ := h.quiet (annotationId_quiet _ _ _) hannot
    have h₃ := h₂.quiet (setEntry_holds annot (free_annotating (by decide))
      fun hmoving => absurd hmoving (by decide)) hrun
    exact ⟨s, h₃.mono (Nat.le_succ n)⟩
  · rw [bind_ok] at hrun
    obtain ⟨annot, d₂, hannot, hrun⟩ := hrun
    have h₂ := h.quiet (annotationId_quiet _ _ _) hannot
    rw [bind_ok] at hrun
    obtain ⟨field, d₃, hfield, hrun⟩ := hrun
    have h₃ := h₂.quiet (fieldOf_quiet annot) hfield
    have h₄ := h₃.quiet (setEntry_holds field (free_annotating (by decide))
      fun hmoving => absurd hmoving (by decide)) hrun
    exact ⟨s, h₄.mono (Nat.le_succ n)⟩
  · rw [bind_ok] at hrun
    obtain ⟨annot, d₂, hannot, hrun⟩ := hrun
    exact (h.quiet (annotationId_quiet _ _ _) hannot).associate small hrun
  · rw [bind_ok] at hrun
    obtain ⟨widget, d₂, hwidget, hrun⟩ := hrun
    have h₂ := h.quiet (createWidget_quiet o page a) hwidget
    split at hrun
    · exact h₂.associate small hrun
    · obtain ⟨-, rfl⟩ := pure_ok.mp hrun
      exact ⟨s, h₂.mono (Nat.le_succ n)⟩

theorem applyAnnotations {o : Options} {as : List AnnotationEdit} (h : Linked p s n d)
    (small : n + as.length ≤ 0x20000000000000)
    (hrun : (Edit.applyAnnotations o as).run d = .ok u d') :
    ∃ s', Linked p s' (n + as.length) d' := by
  unfold Edit.applyAnnotations at hrun
  rw [bind_ok] at hrun
  obtain ⟨v, d₁, hloop, hrun⟩ := hrun
  obtain ⟨-, rfl⟩ := pure_ok.mp hrun
  clear hrun
  induction as generalizing s n d with
  | nil =>
    obtain ⟨-, rfl⟩ := pure_ok.mp hloop
    exact ⟨s, h⟩
  | cons a as ih =>
    rw [List.length_cons] at small ⊢
    obtain ⟨d₂, ha, hrest⟩ := forIn_cons_ok.mp hloop
    obtain ⟨s₂, h₂⟩ := h.annotate (by omega) ha
    obtain ⟨s', h'⟩ := ih h₂ (by omega) hrest
    exact ⟨s', h'.mono (by omega)⟩

end Linked

end AccessiblePdf
