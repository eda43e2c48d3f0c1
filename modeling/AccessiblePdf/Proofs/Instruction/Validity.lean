import AccessiblePdf.Proofs.Instruction.Rules
import Mathlib.Data.List.Infix
import Mathlib.Data.List.Nodup

/-!
Validation decides the rules (`violations_exact`): it lists nothing exactly for the sets that keep
them. The elements of a tree are checked one after the other with the ids before them at hand, so an
id that is declared again is reported at each element that does so, and only there.
-/
namespace AccessiblePdf

/-! ## The elements of a tree -/

namespace TagTree

mutual

theorem map_snd_located (path : String) : ∀ tree : TagTree, (tree.located path).map Prod.snd = tree.tags
  | .node t cs => by rw [located, tags, List.map_cons, map_snd_locatedAll]

theorem map_snd_locatedAll (path : String) (i : Nat) :
    ∀ cs : List TagTree, (locatedAll path i cs).map Prod.snd = tagsAll cs
  | [] => rfl
  | c :: cs => by
    rw [locatedAll, tagsAll, List.map_append, map_snd_located, map_snd_locatedAll]

end

end TagTree

theorem Tag.Valid.declaredId? {t : Tag} (valid : t.Valid) : t.declaredId? = t.id := by
  cases h : t.id with
  | none => rw [Tag.declaredId?, h, Option.filter_none]
  | some id =>
    have hblank := Text.isEmptyOrBlank_eq_false.mpr (valid.id id h)
    rw [Tag.declaredId?, h, Option.filter_some, hblank]
    rfl

theorem idsOf_cons (t : Tag) (ts : List Tag) :
    Edit.idsOf (t :: ts) = t.id.toList ++ Edit.idsOf ts := by
  cases h : t.id <;> simp [Edit.idsOf, h]

/-- Elements that are checked one after the other keep the rules if each of them does and no id
comes twice, neither among them nor from before. -/
theorem tagsViolations_eq_nil {seen : List String} {located : List (String × Tag)} :
    tagsViolations seen located = [] ↔
      (∀ t ∈ located.map Prod.snd, t.Valid) ∧
        (Edit.idsOf (located.map Prod.snd)).Nodup ∧
          ∀ id ∈ Edit.idsOf (located.map Prod.snd), id ∉ seen := by
  induction located generalizing seen with
  | nil => simp [tagsViolations, Edit.idsOf]
  | cons e rest ih =>
    obtain ⟨path, t⟩ := e
    rw [tagsViolations, List.append_eq_nil_iff, Tag.violations_eq_nil, ih, List.map_cons,
      List.forall_mem_cons, idsOf_cons]
    by_cases valid : t.Valid
    · rw [valid.declaredId?]
      cases t.id <;> grind
    · simp [valid]

theorem InstructionSet.notBlank_of_mem_declaredIds {set : InstructionSet} :
    ∀ id ∈ set.declaredIds, Text.NotBlank id := by
  intro id h
  obtain ⟨t, -, hid⟩ := List.mem_filterMap.mp h
  exact Text.isEmptyOrBlank_eq_false.mp (by simpa using (Option.filter_eq_some_iff.mp hid).2)

/-! ## Ids that are declared again -/

/-- Whether a rule is that no id is declared again. -/
def Rule.isIdUnique : Rule → Bool
  | .idUnique _ => true
  | _ => false

/-- No violation reports an id that is declared again. -/
def Unrepeated (vs : List Violation) : Prop := ∀ v ∈ vs, ∀ id, v.rule ≠ .idUnique id

@[simp] theorem unrepeated_nil : Unrepeated [] := fun _ h => absurd h List.not_mem_nil

@[simp] theorem unrepeated_cons {v : Violation} {vs : List Violation} :
    Unrepeated (v :: vs) ↔ (∀ id, v.rule ≠ .idUnique id) ∧ Unrepeated vs := List.forall_mem_cons

@[simp] theorem unrepeated_append {vs ws : List Violation} :
    Unrepeated (vs ++ ws) ↔ Unrepeated vs ∧ Unrepeated ws := List.forall_mem_append

@[simp] theorem unrepeated_unless {rule : Rule} {field : String} {holds : Bool}
    (h : ∀ id, rule ≠ .idUnique id) : Unrepeated (rule.unless field holds) := by
  cases holds <;> simp [Rule.unless, h]

@[simp] theorem unrepeated_ifGiven {α : Type} {f : α → List Violation} {o : Option α}
    (h : ∀ a, Unrepeated (f a)) : Unrepeated (ifGiven f o) := by
  cases o <;> simp [ifGiven, h]

@[simp] theorem unrepeated_requiredAt {α : Type} {field : String} {f : α → List Violation}
    {o : Option α} (h : ∀ a, Unrepeated (f a)) : Unrepeated (requiredAt field f o) := by
  cases o <;> simp [requiredAt, h]

@[simp] theorem unrepeated_eachItem {α : Type} {path : String} {f : String → α → List Violation}
    {i : Nat} {as : List α} (h : ∀ path a, Unrepeated (f path a)) :
    Unrepeated (eachItem path f i as) := by
  induction as generalizing i with
  | nil => simp [eachItem]
  | cons a as ih => simp [eachItem, h, ih]

@[simp] theorem unrepeated_box (field : String) (b : Box Float) : Unrepeated (b.violations field) := by
  simp [Box.violations]

theorem unrepeated_version (v : Option String) : Unrepeated (versionViolations v) := by
  cases v <;> simp [versionViolations]

@[simp] theorem unrepeated_language (field s : String) : Unrepeated (languageViolations field s) := by
  simp [languageViolations]

theorem unrepeated_metadata (m : MetadataEdit) : Unrepeated m.violations := by
  simp [MetadataEdit.violations]

theorem unrepeated_region (ids : List String) (path : String) (r : TagRegion) :
    Unrepeated (r.violations ids path) := by
  rw [TagRegion.violations]
  split <;> simp [pageViolations, boxRequired]

theorem unrepeated_artifact (path : String) (r : ArtifactRegion) : Unrepeated (r.violations path) := by
  simp [ArtifactRegion.violations, pageViolations, boxRequired]

theorem unrepeated_annotation (ids : List String) (path : String) (a : AnnotationEdit) :
    Unrepeated (a.violations ids path) := by
  rw [AnnotationEdit.violations]
  split
  · simp
  · next op _ =>
    cases op <;> simp [pageViolations, AnnotationEdit.indexViolations,
      AnnotationEdit.widgetViolations, AnnotationEdit.nodeViolations, boxRequired]

theorem unrepeated_codes {α : Type} (field : String) (limit : Nat) (limitText : String)
    (t : CodeTable α) : Unrepeated (FontEdit.codeViolations field limit limitText t) := by
  rw [FontEdit.codeViolations]
  split <;> simp

theorem unrepeated_font (path : String) (f : FontEdit) : Unrepeated (f.violations path) := by
  rw [FontEdit.violations]
  split
  · simp
  · next op _ =>
    cases op <;> simp [pageViolations, FontEdit.payloadViolations, unrepeated_codes]

@[simp] theorem unrepeated_word (path : String) (w : OcrWord) : Unrepeated (w.violations path) := by
  simp [OcrWord.violations, boxRequired]

theorem unrepeated_page (path : String) (p : OcrPage) : Unrepeated (p.violations path) := by
  simp [OcrPage.violations, pageViolations]

@[simp] theorem unrepeated_attribute (path : String) (a : TagAttribute) :
    Unrepeated (a.violations path) := by
  simp [TagAttribute.violations]

theorem unrepeated_role (field role : String) : Unrepeated (roleViolations field role) := by
  rw [roleViolations]
  split <;> simp

theorem filter_of_unrepeated {vs : List Violation} (h : Unrepeated vs) :
    vs.filter (·.rule.isIdUnique) = [] := by
  rw [List.filter_eq_nil_iff]
  intro v hv
  cases hrule : v.rule with
  | idUnique id => exact absurd hrule (h v hv id)
  | _ => simp [Rule.isIdUnique]

/-- The report that an element, whose path is given, declares an id again. -/
def repeatReport (r : String × String) : Violation := ⟨r.1 ++ ".id", .idUnique r.2⟩

/-- The elements, each with its path, that declare an id which one of the elements before them or
the texts `seen` have. -/
def repeats (seen : List String) (located : List (String × Tag)) : List (String × String) :=
  (located.inits.zip located).filterMap fun (before, path, t) =>
    (t.declaredId?.filter (before.filterMap (·.2.declaredId?) ++ seen).contains).map (path, ·)

theorem repeats_cons (seen : List String) (path : String) (t : Tag) (rest : List (String × Tag)) :
    repeats seen ((path, t) :: rest) =
      ((t.declaredId?.filter seen.contains).map (path, ·)).toList ++
        repeats (t.declaredId?.toList ++ seen) rest := by
  have hseen (before : List (String × Tag)) :
      (((path, t) :: before).filterMap (·.2.declaredId?) ++ seen).contains =
        (before.filterMap (·.2.declaredId?) ++ (t.declaredId?.toList ++ seen)).contains := by
    funext id
    rw [Bool.eq_iff_iff, List.contains_iff_mem, List.contains_iff_mem]
    cases h : t.declaredId? <;> simp [h, or_left_comm]
  have hrest : ((rest.inits.map ((path, t) :: ·)).zip rest).filterMap (fun (before, path, t) =>
        (t.declaredId?.filter (before.filterMap (·.2.declaredId?) ++ seen).contains).map (path, ·)) =
      repeats (t.declaredId?.toList ++ seen) rest := by
    rw [List.zip_map_left, List.filterMap_map]
    exact List.filterMap_congr fun e _ => by simp only [Function.comp, Prod.map, hseen, id]
  rw [repeats, List.inits_cons, List.zip_cons_cons, ← hrest]
  cases h : t.declaredId?.filter seen.contains <;> simp [h]

theorem filter_violations (seen : List String) (path : String) (t : Tag) :
    (t.violations seen path).filter (·.rule.isIdUnique) =
      ((t.declaredId?.filter seen.contains).map (path, ·)).toList.map repeatReport := by
  obtain ⟨rest, heq, hrest⟩ : ∃ rest, t.violations seen path =
      ifGiven (idViolations seen (path ++ ".id")) t.id ++ rest ∧ Unrepeated rest := by
    refine ⟨_, (by simp only [Tag.violations, List.append_assoc]; rfl), ?_⟩
    simp [unrepeated_role]
  rw [heq, List.filter_append, filter_of_unrepeated hrest, List.append_nil, Tag.declaredId?]
  cases t.id with
  | none => rfl
  | some id =>
    rw [ifGiven, idViolations, Option.filter_some]
    cases Text.isEmptyOrBlank id with
    | true => simp [Rule.isIdUnique]
    | false =>
      by_cases h : id ∈ seen <;>
        simp [Rule.unless, Rule.isIdUnique, repeatReport, Option.filter_some, h]

/-- Of elements that are checked one after the other, those report that they declare an id again
that do. -/
theorem filter_tagsViolations (seen : List String) (located : List (String × Tag)) :
    (tagsViolations seen located).filter (·.rule.isIdUnique) =
      (repeats seen located).map repeatReport := by
  induction located generalizing seen with
  | nil => rfl
  | cons e rest ih =>
    obtain ⟨path, t⟩ := e
    rw [tagsViolations, List.filter_append, filter_violations, ih, repeats_cons, List.map_append]

namespace InstructionSet

/-- The elements of a set, each with its path, that declare an id which an element before them
declares. -/
def repeats (set : InstructionSet) : List (String × String) :=
  match set.tags with
  | some tags => AccessiblePdf.repeats [] (tags.root.located tagsPath)
  | none => []

theorem metadata_eq_nil {m : Option MetadataEdit} :
    ifGiven MetadataEdit.violations m = [] ↔ ∀ m' ∈ m, m'.Valid := by
  simp only [ifGiven_eq_nil, MetadataEdit.violations_eq_nil]

theorem tags_eq_nil {set : InstructionSet} :
    ifGiven TagSection.violations set.tags = [] ↔
      (∀ t ∈ set.allTags, t.Valid) ∧ (Edit.idsOf set.allTags).Nodup := by
  cases h : set.tags with
  | none => simp [ifGiven, allTags, h, Edit.idsOf]
  | some tags =>
    simp [ifGiven, allTags, h, TagSection.violations, tagsViolations_eq_nil,
      TagTree.map_snd_located]

theorem declaredIds_eq {set : InstructionSet} (valid : ∀ t ∈ set.allTags, t.Valid) :
    set.declaredIds = Edit.idsOf set.allTags :=
  List.filterMap_congr fun t ht => (valid t ht).declaredId?

theorem violations_eq_nil {set : InstructionSet} : set.violations = [] ↔ set.Valid := by
  have hids := set.notBlank_of_mem_declaredIds
  simp only [violations, List.append_eq_nil_iff, versionViolations_eq_nil, metadata_eq_nil,
    tags_eq_nil, eachItem_eq_nil (TagRegion.violations_eq_nil hids),
    eachItem_eq_nil ArtifactRegion.violations_eq_nil,
    eachItem_eq_nil (AnnotationEdit.violations_eq_nil set.declaredIds),
    eachItem_eq_nil FontEdit.violations_eq_nil, eachItem_eq_nil OcrPage.violations_eq_nil]
  constructor
  · intro h
    obtain ⟨⟨⟨⟨⟨⟨⟨version, metadata⟩, tags, distinct⟩, regions⟩, artifacts⟩, annotations⟩, fonts⟩,
      ocr⟩ := h
    rw [declaredIds_eq tags] at regions annotations
    exact ⟨version, metadata, tags, distinct, regions, artifacts, annotations, fonts, ocr⟩
  · intro v
    rw [declaredIds_eq v.tags]
    exact ⟨⟨⟨⟨⟨⟨⟨v.version, v.metadata⟩, v.tags, v.distinct⟩, v.regions⟩, v.artifacts⟩,
      v.annotations⟩, v.fonts⟩, v.ocr⟩

theorem filter_violations (set : InstructionSet) :
    set.violations.filter (·.rule.isIdUnique) = set.repeats.map repeatReport := by
  have htags : set.violations.filter (·.rule.isIdUnique) =
      (ifGiven TagSection.violations set.tags).filter (·.rule.isIdUnique) := by
    simp [violations, filter_of_unrepeated, unrepeated_version, unrepeated_metadata,
      unrepeated_region, unrepeated_artifact, unrepeated_annotation, unrepeated_font,
      unrepeated_page]
  rw [htags, repeats]
  cases set.tags with
  | none => rfl
  | some tags => exact filter_tagsViolations [] _

/-- Validation lists nothing exactly for the sets that keep the rules. Among what it lists otherwise
there is one report for each element that declares an id again, in the order of the tree, and no other
report of that kind. -/
theorem violations_exact (set : InstructionSet) :
    (set.violations = [] ↔ set.Valid) ∧
      set.violations.filter (·.rule.isIdUnique) = set.repeats.map repeatReport :=
  ⟨violations_eq_nil, filter_violations set⟩

/-- The id of a heading that a paragraph further down has as well; the blank ids are none. -/
example :
    let tree : TagTree := .node { role := "Document" }
      [.node { id := some "a", role := "H1" } [.node { id := some " ", role := "Span" } []],
        .node { id := some " ", role := "Sect" } [.node { id := some "a", role := "P" } []]]
    repeats { tags := some ⟨false, tree⟩ } = [("structure.children[1].children[0]", "a")] := by
  decide

end InstructionSet

end AccessiblePdf
