import AccessiblePdf.Instruction.Validate
import AccessiblePdf.Proofs.Structure.Registered

/-!
References from one section of an instruction set to another. Regions and annotation edits name
structure elements; in a set that breaks no rule each of them is declared (`mem_declaredIds`), and
then it is registered before it is looked up, whatever the document is (`stages_resolve`).
-/
open Std.Do

namespace AccessiblePdf

set_option mvcgen.warning false

/-! ## What validation says -/

theorem Rule.unless_eq_nil {rule : Rule} {field : String} {holds : Bool} :
    rule.unless field holds = [] ↔ holds = true := by
  cases holds <;> simp [Rule.unless]

theorem exists_path_of_eachItem {α : Type} {path : String} {f : String → α → List Violation}
    {i : Nat} {as : List α} (none : eachItem path f i as = []) {a : α} (ha : a ∈ as) :
    ∃ path', f path' a = [] := by
  induction as generalizing i with
  | nil => exact absurd ha List.not_mem_nil
  | cons a' as ih =>
    rw [eachItem, List.append_eq_nil_iff] at none
    rcases List.mem_cons.mp ha with rfl | ha
    · exact ⟨_, none.1⟩
    · exact ih none.2 ha

theorem TagRegion.node_mem {ids : List String} {path : String} {r : TagRegion}
    (none : r.violations ids path = []) : r.node ∈ ids := by
  rw [TagRegion.violations, List.append_eq_nil_iff, List.append_eq_nil_iff] at none
  have hnode := none.1.1
  split at hnode
  · exact absurd hnode (by simp)
  · simpa using Rule.unless_eq_nil.mp hnode

theorem AnnotationEdit.node_mem {ids : List String} {path : String} {a : AnnotationEdit}
    (none : a.nodeViolations ids path = []) : ∀ id ∈ a.node, id ∈ ids := by
  intro id hid
  rw [nodeViolations, Option.mem_def.mp hid] at none
  simpa using Rule.unless_eq_nil.mp none

theorem AnnotationEdit.namedId?_mem {ids : List String} {path : String} {a : AnnotationEdit}
    (none : a.violations ids path = []) : ∀ id ∈ a.namedId?, id ∈ ids := by
  intro id hid
  rw [violations] at none
  rw [namedId?] at hid
  cases hop : AnnotationOp.ofName? a.op with
  | none => simp [hop] at hid
  | some op =>
    simp only [hop, List.append_eq_nil_iff] at none hid
    cases op with
    | associate => exact node_mem (List.append_eq_nil_iff.mp none.2).2 id hid
    | createWidget => exact node_mem (List.append_eq_nil_iff.mp none.2).2 id hid
    | _ => simp at hid

namespace InstructionSet

/-- The ids of the structure elements that regions and annotation edits name. -/
def namedIds (set : InstructionSet) : List String :=
  set.regions.map (·.node) ++ set.annotations.filterMap AnnotationEdit.namedId?

/-- In a set that breaks no rule every id that is named is declared. -/
theorem mem_declaredIds {set : InstructionSet} (valid : set.violations = []) {id : String}
    (named : id ∈ set.namedIds) : id ∈ set.declaredIds := by
  simp only [violations, List.append_eq_nil_iff] at valid
  obtain ⟨⟨⟨⟨⟨_, hregions⟩, _⟩, hannotations⟩, _⟩, _⟩ := valid
  rcases List.mem_append.mp named with h | h
  · obtain ⟨r, hr, rfl⟩ := List.mem_map.mp h
    obtain ⟨path, hpath⟩ := exists_path_of_eachItem hregions hr
    exact TagRegion.node_mem hpath
  · obtain ⟨a, ha, hid⟩ := List.mem_filterMap.mp h
    obtain ⟨path, hpath⟩ := exists_path_of_eachItem hannotations ha
    exact AnnotationEdit.namedId?_mem hpath id hid

theorem declaredIds_subset (set : InstructionSet) : set.declaredIds ⊆ Edit.idsOf set.allTags := by
  intro id h
  obtain ⟨tag, htag, hid⟩ := List.mem_filterMap.mp h
  exact List.mem_filterMap.mpr ⟨tag, htag, (Option.filter_eq_some_iff.mp hid).1⟩

end InstructionSet

namespace Edit

variable {set : InstructionSet} {c : FaultClass} {ids : List String}

/-! ## Stages -/

theorem metadata_spec (o : Options) (set : InstructionSet) :
    ⦃knows ids⦄ stage o set .metadata ⦃finds c ids⦄ := by
  cases h : set.metadata <;> simp only [stage, h, Option.forM] <;> mvcgen

theorem tags_spec (o : Options) (set : InstructionSet) :
    ⦃knows []⦄ stage o set .tags ⦃finds c (idsOf set.allTags)⦄ := by
  cases h : set.tags with
  | none =>
    simp only [stage, h, InstructionSet.allTags, Option.forM]
    mvcgen
  | some tags =>
    simp only [stage, h, InstructionSet.allTags, Option.forM]
    exact applyTags_spec tags

/-- Every other stage keeps what is known, and looks up nothing else. -/
theorem stage_spec {o : Options} (selects : c.Selects o)
    (found : ∀ id ∈ set.namedIds, c.Finds ids id) {s : Stage} (other : s ≠ .tags) :
    ⦃knows ids⦄ stage o set s ⦃finds c ids⦄ := by
  have hregions : ∀ r ∈ set.regions, c.Finds ids r.node := fun r hr =>
    found _ (List.mem_append_left _ (List.mem_map.mpr ⟨r, hr, rfl⟩))
  have hannotations : ∀ a ∈ set.annotations, ∀ id ∈ a.namedId?, c.Finds ids id :=
    fun a ha id hid => found _ (List.mem_append_right _ (List.mem_filterMap.mpr ⟨a, ha, hid⟩))
  cases s with
  | tags => exact absurd rfl other
  | metadata => exact metadata_spec o set
  | regions =>
    have happly := applyRegions_spec selects hregions
    mvcgen [stage, happly]
  | artifacts =>
    have happly := @applyArtifacts_spec c ids o selects
    mvcgen [stage, happly]
  | annotations =>
    have happly := applyAnnotations_spec o hannotations
    mvcgen [stage, happly]
  | fonts => mvcgen [stage]
  | textLayers => mvcgen [stage]
  | outline => mvcgen [stage]
  | stamp => mvcgen [stage]

theorem forM_stage_spec {o : Options} (selects : c.Selects o)
    (found : ∀ id ∈ set.namedIds, c.Finds ids id) {ss : List Stage} (others : .tags ∉ ss) :
    ⦃knows ids⦄ ss.forM (stage o set) ⦃finds c ids⦄ := by
  induction ss with
  | nil => mvcgen [List.forM]
  | cons s ss ih =>
    have hstage := stage_spec selects found (show s ≠ .tags by grind)
    have hstages := ih (by grind)
    simp only [List.forM]
    mvcgen [hstage, hstages]

theorem stages_spec (o : Options) (known : ∀ id ∈ set.namedIds, id ∈ idsOf set.allTags)
    {ss : List Stage} (others : .tags ∉ ss) :
    ⦃knows []⦄ stages o set (.metadata :: .tags :: ss) ⦃finds .known (idsOf set.allTags)⦄ := by
  have hmetadata := @metadata_spec .known [] o set
  have htags := @tags_spec .known o set
  have hothers := forM_stage_spec (FaultClass.selects_known o) (fun id h => .inl (known id h)) others
  simp only [stages, List.forM]
  mvcgen [hmetadata, htags, hothers]

theorem run_of_triple {α : Type} {e : Edit α} {ids' : List String}
    (h : ⦃knows ids⦄ e ⦃finds .known ids'⦄) {d : Draft} (known : d.Knows ids) :
    (∀ a d', e.run d = .ok a d' → d'.Knows ids') ∧ ∀ f d', e.run d = .error f d' → f.Known :=
  outcome_of_triple h known

/-- In a set that breaks no rule references resolve: no run of all stages fails for an element that
is not known, and after the stage for the tags every element that is named is registered, up to
whatever stage the run comes. -/
theorem stages_resolve (valid : set.violations = []) (o : Options) (d : Draft) :
    (∀ id d', (stages o set Stage.standard).run d ≠ .error (.unknownNode id) d') ∧
      ∀ done rest, Stage.standard = done ++ rest → .tags ∈ done →
        ∀ d', (stages o set done).run d = .ok () d' →
          ∀ id ∈ set.namedIds, ∃ element, d'.nodes.get? id = some element := by
  have known : ∀ id ∈ set.namedIds, id ∈ idsOf set.allTags := fun id hid =>
    set.declaredIds_subset (InstructionSet.mem_declaredIds valid hid)
  constructor
  · intro id d' hrun
    have htriple := stages_spec o known (show Stage.tags ∉ Stage.standard.drop 2 by decide)
    exact (run_of_triple htriple d.knows_nil).2 _ d' hrun |>.ne id rfl
  · intro done rest hdone htags d' hrun
    obtain ⟨ss, rfl, hss⟩ : ∃ ss, done = .metadata :: .tags :: ss ∧ Stage.tags ∉ ss := by
      match done, hdone with
      | [.metadata], _ => simp at htags
      | .metadata :: .tags :: ss, h =>
        refine ⟨ss, rfl, fun hmem => ?_⟩
        have : Stage.tags ∈ Stage.standard.drop 2 := by
          rw [h]
          simp [hmem]
        exact absurd this (by decide)
    have hknows := (run_of_triple (stages_spec o known hss) d.knows_nil).1 () d' hrun
    exact fun id hid => hknows id (known id hid)

/-- A tree of one element that a region and two annotations name. -/
theorem stages_resolve_paragraph :
    let tree : TagTree := .node { id := some "p", role := "P" } []
    let box : Box Float := ⟨72, 700, 200, 20⟩
    let set : InstructionSet :=
      { version := some "1.0"
        tags := some ⟨true, tree⟩
        regions := [⟨"p", 1, some box⟩]
        annotations := [{ op := "associate", page := 1, index := some 0, node := some "p" },
          { op := "create_widget", page := 1, node := some "p", rect := some box,
            fieldName := some "n", fieldType := some "Tx" }] }
    set.violations = [] ∧ set.namedIds = ["p", "p", "p"] ∧ ∀ (o : Options) (d : Draft),
      (∀ id d', (stages o set Stage.standard).run d ≠ .error (.unknownNode id) d') ∧
        ∀ done rest, Stage.standard = done ++ rest → .tags ∈ done →
          ∀ d', (stages o set done).run d = .ok () d' →
            ∀ id ∈ set.namedIds, ∃ element, d'.nodes.get? id = some element := by
  intro tree box set
  have valid : set.violations = [] := by decide
  exact ⟨valid, rfl, stages_resolve valid⟩

end Edit

end AccessiblePdf
