import AccessiblePdf.Proofs.Instruction.References
import AccessiblePdf.Proofs.Structure.Agreement

/-!
Regions that hold nothing. A strict run fails at the first of them and a lenient one passes over it:
step by step the strict edit does what the lenient one does, unless it fails for such a region
(`Edit.Stricter`). So whatever a strict run of the stages gives, a lenient one gives as well, and a
lenient one never fails for a region (`stages_lenient`).
-/
open Std.Do

namespace AccessiblePdf

set_option mvcgen.warning false

/-- The same options, with or without passing over regions that hold nothing. -/
def Options.withLenient (o : Options) (lenient : Bool) : Options := { o with lenient := lenient }

namespace Edit

variable {α β : Type}

/-! ## A strict edit and a lenient one -/

/-- An edit does what another one does, or fails for a region that holds nothing. -/
def Stricter (strict lenient : Edit α) : Prop :=
  ∀ d, strict.run d = lenient.run d ∨
    ∃ page region d', strict.run d = .error (.unresolvedRegion page region) d'

namespace Stricter

theorem refl (e : Edit α) : Stricter e e :=
  fun _ => Or.inl rfl

theorem bind {strict lenient : Edit α} {strict' lenient' : α → Edit β}
    (first : Stricter strict lenient) (next : ∀ a, Stricter (strict' a) (lenient' a)) :
    Stricter (strict >>= strict') (lenient >>= lenient') := by
  intro d
  rw [EStateM.run_bind, EStateM.run_bind]
  rcases first d with h | h
  · rw [h]
    cases lenient.run d with
    | ok a d₁ => exact next a d₁
    | error f d₁ => exact Or.inl rfl
  · obtain ⟨page, region, d', h⟩ := h
    rw [h]
    exact Or.inr ⟨page, region, d', rfl⟩

theorem ite {p : Prop} [Decidable p] {strict lenient strict' lenient' : Edit α}
    (h : Stricter strict lenient) (h' : Stricter strict' lenient') :
    Stricter (if p then strict else strict') (if p then lenient else lenient') := by
  split
  · exact h
  · exact h'

theorem forIn {strict lenient : α → Edit Unit} (h : ∀ a, Stricter (strict a) (lenient a))
    (as : List α) :
    Stricter
      (forIn as PUnit.unit fun a _ => do
        strict a
        pure (ForInStep.yield PUnit.unit))
      (forIn as PUnit.unit fun a _ => do
        lenient a
        pure (ForInStep.yield PUnit.unit)) := by
  induction as with
  | nil => exact refl _
  | cons a as ih =>
    rw [List.forIn_cons, List.forIn_cons]
    apply bind
    · exact bind (h a) fun _ => refl _
    · intro step
      cases step with
      | done b => exact refl _
      | yield b => exact ih

theorem forM {strict lenient : α → Edit PUnit} (h : ∀ a, Stricter (strict a) (lenient a))
    (as : List α) : Stricter (as.forM strict) (as.forM lenient) := by
  induction as with
  | nil => exact refl _
  | cons a as ih => exact bind (h a) fun _ => ih

end Stricter

variable (o : Options)

/-! ## The steps that select a region -/

theorem unresolved_stricter (page : Int) (region : Box Float) :
    Stricter (unresolved (o.withLenient false) page region)
      (unresolved (o.withLenient true) page region) :=
  fun d => Or.inr ⟨page.toNat, region, d, rfl⟩

theorem tagRegion_stricter (root : ObjectId) (r : TagRegion) :
    Stricter (tagRegion (o.withLenient false) root r) (tagRegion (o.withLenient true) root r) := by
  apply Stricter.bind (.refl (node r.node))
  intro element
  apply Stricter.bind (.refl (elementRole element))
  intro role
  apply Stricter.bind (.refl (selectRegion o r.page r.box))
  intro s
  exact .ite (unresolved_stricter o r.page (s.target.getD s.pageBox)) (.refl _)

theorem applyRegions_stricter (regions : List TagRegion) :
    Stricter (applyRegions (o.withLenient false) regions)
      (applyRegions (o.withLenient true) regions) := by
  apply Stricter.bind (.refl ensureRoot)
  intro root
  apply Stricter.bind (.forIn (tagRegion_stricter o root) regions)
  intro _
  exact .refl (setMarked true)

theorem markArtifact_stricter (r : ArtifactRegion) :
    Stricter (markArtifact (o.withLenient false) r) (markArtifact (o.withLenient true) r) := by
  apply Stricter.bind (.refl (selectRegion o r.page r.box))
  intro s
  exact .ite (unresolved_stricter o r.page (s.target.getD s.pageBox)) (.refl _)

theorem applyArtifacts_stricter (regions : List ArtifactRegion) :
    Stricter (applyArtifacts (o.withLenient false) regions)
      (applyArtifacts (o.withLenient true) regions) := by
  apply Stricter.bind (.forIn (markArtifact_stricter o) regions)
  intro _
  exact .refl _

/-! ## Stages -/

variable (set : InstructionSet)

theorem stage_stricter (s : Stage) :
    Stricter (stage (o.withLenient false) set s) (stage (o.withLenient true) set s) := by
  cases s with
  | regions => exact .ite (.refl _) (applyRegions_stricter o set.regions)
  | artifacts => exact .ite (.refl _) (applyArtifacts_stricter o set.artifacts)
  | _ => exact .refl _

theorem stages_stricter (ss : List Stage) :
    Stricter (stages (o.withLenient false) set ss) (stages (o.withLenient true) set ss) := by
  apply Stricter.bind (.refl _)
  intro _
  exact .forM (stage_stricter o set) ss

theorem forM_stage_resolved (ss : List Stage) :
    ⦃knows []⦄ ss.forM (stage (o.withLenient true) set) ⦃finds .resolved []⦄ := by
  have selects : FaultClass.resolved.Selects (o.withLenient true) := Or.inl rfl
  have hstage : ∀ s, ⦃knows []⦄ stage (o.withLenient true) set s ⦃finds .resolved []⦄ := by
    intro s
    by_cases hs : s = .tags
    · have htags := @tags_spec .resolved (o.withLenient true) set
      rw [hs]
      mvcgen [htags]
      exact fun _ => Draft.knows_nil _
    · exact stage_spec selects (fun id _ => FaultClass.finds_resolved [] id) hs
  induction ss with
  | nil => mvcgen [List.forM]
  | cons s ss ih =>
    simp only [List.forM]
    mvcgen [hstage, ih]

/-- Whatever stages a strict run carries out, a lenient run carries out with the same outcome; a
lenient run does not fail for a region that holds nothing, and that is the only fault for which a
strict run stops before a lenient one. -/
theorem stages_lenient (o : Options) (set : InstructionSet) (ss : List Stage) (d : Draft) :
    let strict := stages (o.withLenient false) set ss
    let lenient := stages (o.withLenient true) set ss
    (∀ d', strict.run d = .ok () d' → lenient.run d = .ok () d') ∧
      (∀ page region d', lenient.run d ≠ .error (.unresolvedRegion page region) d') ∧
      (strict.run d = lenient.run d ∨
        ∃ page region d', strict.run d = .error (.unresolvedRegion page region) d') := by
  intro strict lenient
  have h : strict.run d = lenient.run d ∨
      ∃ page region d', strict.run d = .error (.unresolvedRegion page region) d' :=
    stages_stricter o set ss d
  refine ⟨?_, ?_, h⟩
  · intro d' hstrict
    rcases h with h | h
    · rw [← h, hstrict]
    · obtain ⟨page, region, d₁, h⟩ := h
      rw [h] at hstrict
      cases hstrict
  · intro page region d' hlenient
    have hresolved := forM_stage_resolved o set ss
    exact (outcome_of_triple hresolved (Draft.knows_nil _)).2 _ d' hlenient

/-- A page that paints a path is bound to a paragraph. -/
theorem stages_lenient_firstPage :
    let set : InstructionSet :=
      { version := some "1.0", tags := some paragraph, regions := [firstPage] }
    let o : Options := { compress := false }
    let d : Draft := { doc := twoPages ⟨4, 0⟩, compress := false }
    ∃ d', (stages (o.withLenient false) set Stage.standard).run d = .ok () d' ∧
      (stages (o.withLenient true) set Stage.standard).run d = .ok () d' := by
  intro set o d
  have hstamp : ∃ d', (applyStamp (o.withLenient false)).run (withContent ⟨4, 0⟩) = .ok () d' :=
    ⟨_, rfl⟩
  obtain ⟨d', hstamp⟩ := hstamp
  have htags : (stage (o.withLenient false) set .tags).run d = .ok () (withParagraph ⟨4, 0⟩) :=
    applyTags_paragraph ⟨4, 0⟩
  have hregions : (stage (o.withLenient false) set .regions).run (withParagraph ⟨4, 0⟩) =
      .ok () (withContent ⟨4, 0⟩) :=
    applyRegions_firstPage ⟨4, 0⟩
  have strict : (stages (o.withLenient false) set Stage.standard).run d = .ok () d' := by
    refine bind_ok.mpr ⟨(), d, rfl, bind_ok.mpr ⟨(), d, rfl, bind_ok.mpr ⟨(), _, htags, ?_⟩⟩⟩
    refine bind_ok.mpr ⟨(), _, hregions, bind_ok.mpr ⟨(), _, rfl, bind_ok.mpr ⟨(), _, rfl, ?_⟩⟩⟩
    refine bind_ok.mpr ⟨(), _, rfl, bind_ok.mpr ⟨(), _, rfl, bind_ok.mpr ⟨(), _, rfl, ?_⟩⟩⟩
    exact bind_ok.mpr ⟨(), d', hstamp, rfl⟩
  exact ⟨d', strict, (stages_lenient o set Stage.standard d).1 d' strict⟩

end Edit

end AccessiblePdf
