import AccessiblePdf.Proofs.Content.Spans

/-!
The level of a span: the marked-content sequences open at its first operation. In tidy content the
same ones are open wherever the span draws and behind its last operation (`Level`), and none of them
tags anything, so brackets around the span nest with what is there.
-/
namespace AccessiblePdf.Marking

open ScanState

/-- What must not stand inside a path: brackets and other operators that draw. -/
def breaksPath (c : Command) : Bool := c.isBracket || c.draws

/-- Content whose marked-content sequences are properly nested and whose paths hold nothing else. -/
structure Tidy (ops : List Operation) : Prop where
  balanced : Operation.Balanced ops
  free : Operation.PathsFree breaksPath ops

theorem breaksPath_of_constructs (c : Command) (h : c.constructs = true) :
    breaksPath c = false := by
  cases c <;> first | rfl | exact absurd h (by simp [Command.constructs])

theorem breaksPath_of_draws (c : Command) (h : c.draws = true) : breaksPath c = true := by
  rw [breaksPath, h, Bool.or_true]

theorem breaksPath_of_isBracket (c : Command) (h : c.isBracket = true) : breaksPath c = true := by
  rw [breaksPath, h, Bool.true_or]

theorem not_isBracket_of_draws {c : Command} (h : c.draws = true) : c.isBracket = false := by
  cases c <;> first | rfl | exact absurd h (by simp [Command.draws])

/-- The sequences open where an operation is read. -/
abbrev openAt (r : ContentResources) (ops : List Operation) (k : Nat) : List MarkedSequence :=
  (before r ops k).marks.sequences

/-- The level of a span. -/
structure Level (r : ContentResources) (ops : List Operation) (s : Span)
    (level : List MarkedSequence) : Prop where
  first : openAt r ops s.first = level
  within : ∀ k, s.first ≤ k → k ≤ s.last + 1 → level <:+ openAt r ops k
  drawn : ∀ k d, s.first ≤ k → k ≤ s.last → drawnAt r ops k = some d → openAt r ops k = level
  behind : openAt r ops (s.last + 1) = level
  last_draws : ∀ op, ops[s.last]? = some op → op.command.draws = true

section Groups

variable {r : ContentResources} {ops : List Operation}

theorem scope_of_continues {a b : Drawn} (h : continues a b = true) :
    b.marks.scope = a.marks.scope := by
  simp only [continues, Bool.and_eq_true, beq_iff_eq] at h
  exact h.2

theorem scope_drawnAt {k : Nat} {d : Drawn} (h : drawnAt r ops k = some d) :
    d.marks.scope = (before r ops k).marks.marks.scope := by
  obtain ⟨_, _, _, _, _, _, hmarks, _⟩ := drawnAt_spec h
  rw [hmarks]

theorem openAt_succ_of_drawnAt {k : Nat} {d : Drawn} (h : drawnAt r ops k = some d) :
    openAt r ops (k + 1) = openAt r ops k := by
  obtain ⟨op, hop, hdraws, _⟩ := drawnAt_spec h
  rw [openAt, marks_succ hop, MarkStack.step_of_not_bracket r _ (not_isBracket_of_draws hdraws)]

theorem openAt_start (free : Operation.PathsFree breaksPath ops) {k l : Nat} {d : Drawn}
    (h : drawnAt r ops k = some d) (hl : d.start ≤ l) (hlk : l ≤ k) :
    openAt r ops l = openAt r ops d.start := by
  obtain ⟨op, hop, _⟩ := drawnAt_spec h
  refine sequences_eq_of_no_brackets hl fun j op' h1 h2 hop' => ?_
  have hfree := (free_of_drawnAt breaksPath_of_constructs free hop h).2 j op' h1 (by omega) hop'
  simp only [breaksPath, Bool.or_eq_false_iff] at hfree
  exact hfree.1

/-- The operators of a group are drawn at one level. -/
theorem level_of_continued {p q : Nat} {a : Drawn} (hpq : p ≤ q)
    (ha : (PageScan.ofOperations r ops).operators[p]? = some a)
    (continued : ∀ k, p ≤ k → k < q → ∃ b c, (PageScan.ofOperations r ops).operators[k]? = some b ∧
      (PageScan.ofOperations r ops).operators[k + 1]? = some c ∧ continues b c = true) :
    ∃ b, (PageScan.ofOperations r ops).operators[q]? = some b ∧ a.index ≤ b.index ∧
      openAt r ops b.index = openAt r ops a.index ∧
      ∀ l, a.index ≤ l → l ≤ b.index → openAt r ops a.index <:+ openAt r ops l := by
  induction hpq with
  | refl =>
    refine ⟨a, ha, Nat.le_refl _, rfl, fun l h1 h2 => ?_⟩
    obtain rfl := Nat.le_antisymm h1 h2
    exact List.suffix_rfl
  | @step q hpq ih =>
    obtain ⟨b, hb, hab, hlevel, hsuffix⟩ := ih fun k h1 h2 => continued k h1 (Nat.lt_succ_of_lt h2)
    obtain ⟨b', c, hb', hc, hcontinues⟩ := continued q hpq (Nat.lt_succ_self q)
    obtain rfl : b = b' := Option.some.inj (hb.symm.trans hb')
    have hbc := getElem?_lt_of_pairwise (pairwise_operators r ops) (Nat.lt_succ_self q) hb hc
    have hscope := scope_of_continues hcontinues
    rw [scope_drawnAt (mem_operators.mp (List.mem_of_getElem? hb)),
      scope_drawnAt (mem_operators.mp (List.mem_of_getElem? hc))] at hscope
    refine ⟨c, hc, by omega, ?_, fun l h1 h2 => ?_⟩
    · rw [openAt, (stack_of_scope (Nat.le_of_lt hbc) (Nat.le_refl _) hscope).1]
      exact hlevel
    · rcases Nat.le_total l b.index with h | h
      · exact hsuffix l h1 h
      · rw [← hlevel]
        exact (stack_of_scope h h2 hscope).2

/-- The span of a group has a level. -/
theorem Covers.level (free : Operation.PathsFree breaksPath ops) {g : Nat × Nat} {s : Span}
    {a : Drawn} (h : Covers (PageScan.ofOperations r ops).operators g s)
    (ha : (PageScan.ofOperations r ops).operators[g.1]? = some a) :
    Level r ops s (openAt r ops a.index) := by
  obtain ⟨a', ha', hfirst⟩ := h.first
  obtain rfl : a = a' := Option.some.inj (ha.symm.trans ha')
  obtain ⟨b, hb, hab, hlevel, hsuffix⟩ := level_of_continued h.le ha h.continued
  obtain ⟨b', hb', hlast⟩ := h.last
  obtain rfl : b = b' := Option.some.inj (hb.symm.trans hb')
  have hdrawn := mem_operators.mp (List.mem_of_getElem? ha)
  have hdrawn' := mem_operators.mp (List.mem_of_getElem? hb)
  have hstart : ∀ l, s.first ≤ l → l ≤ a.index → openAt r ops l = openAt r ops a.index := by
    intro l h1 h2
    rw [hfirst] at h1
    rw [openAt_start free hdrawn h1 h2, openAt_start free hdrawn (start_le hdrawn) (Nat.le_refl _)]
  have hbehind : openAt r ops (s.last + 1) = openAt r ops a.index := by
    rw [hlast, openAt_succ_of_drawnAt hdrawn', hlevel]
  refine ⟨hstart _ (Nat.le_refl _) (by rw [hfirst]; exact start_le hdrawn), ?_, ?_, hbehind, ?_⟩
  · intro k h1 h2
    rcases Nat.le_total k a.index with h3 | h3
    · simp only [hstart k h1 h3, List.suffix_rfl]
    · rcases Nat.lt_or_eq_of_le h2 with h4 | rfl
      · exact hsuffix k h3 (by omega)
      · simp only [hbehind, List.suffix_rfl]
  · intro k d h1 h2 hd
    obtain ⟨q, hq⟩ := List.getElem?_of_mem (mem_operators.mpr (by rw [index_drawnAt hd]; exact hd))
    have hk := index_drawnAt hd
    have hlow : g.1 ≤ q := by
      by_contra hlt
      have := index_lt_start breaksPath_of_constructs breaksPath_of_draws free (by omega) hq ha
      omega
    have hhigh : q ≤ g.2 := by
      by_contra hlt
      have := getElem?_lt_of_pairwise (pairwise_operators r ops) (by omega) hb hq
      omega
    obtain ⟨d', hd', _, hlevel', _⟩ := level_of_continued hlow ha
      fun k h1 h2 => h.continued k h1 (by omega)
    obtain rfl : d = d' := Option.some.inj (hq.symm.trans hd')
    rw [← hk, hlevel']
  · intro op hop
    obtain ⟨op', hop', hdraws, _⟩ := drawnAt_spec hdrawn'
    rw [hlast] at hop
    rw [Option.some.inj (hop.symm.trans hop')]
    exact hdraws

end Groups

/-! ## Spans of a selection -/

/-- Sequences none of which tags content. -/
structure Untagged (level : List MarkedSequence) : Prop where
  mcid : level.findSome? (·.mcid) = none
  artifact : level.any (·.artifact) = false

section Selections

variable {r : ContentResources} {ops : List Operation} {m : Matching Float}
  {target : Option (Box Float)}

/-- What is selected lies in a span. -/
theorem span_of_selected (free : Operation.PathsFree breaksPath ops) {p : Nat} {d : Drawn}
    (hp : p ∈ select m (PageScan.ofOperations r ops) target)
    (hd : (PageScan.ofOperations r ops).operators[p]? = some d) :
    ∃ (n : Nat) (s : Span), (spans (PageScan.ofOperations r ops)
        (select m (PageScan.ofOperations r ops) target))[n]? = some s ∧
      s.first ≤ d.start ∧ d.index ≤ s.last := by
  obtain ⟨gs, hgs, hflat⟩ := spans_groups (valid_select m (PageScan.ofOperations r ops) target)
  rw [← hflat, List.mem_flatMap] at hp
  obtain ⟨g, hg, hp⟩ := hp
  rw [mem_positionsOf] at hp
  obtain ⟨s, hs, hcovers⟩ := exists_of_mem_forall₂ hgs.flip hg
  obtain ⟨n, hn⟩ := List.getElem?_of_mem hs
  obtain ⟨a, ha, hfirst⟩ := hcovers.first
  obtain ⟨b, hb, hlast⟩ := hcovers.last
  refine ⟨n, s, hn, ?_, ?_⟩
  · rw [hfirst]
    rcases Nat.lt_or_eq_of_le hp.1 with h | rfl
    · have h1 := index_lt_start breaksPath_of_constructs breaksPath_of_draws free h ha hd
      have h2 := start_le (mem_operators.mp (List.mem_of_getElem? ha))
      omega
    · rw [Option.some.inj (ha.symm.trans hd)]
  · rw [hlast]
    rcases Nat.lt_or_eq_of_le hp.2 with h | rfl
    · exact Nat.le_of_lt (getElem?_lt_of_pairwise (pairwise_operators r ops) h hd hb)
    · rw [Option.some.inj (hb.symm.trans hd)]

theorem selected_of_span (free : Operation.PathsFree breaksPath ops) {p : Nat} {s : Span}
    {d : Drawn} (hs : s ∈ spans (PageScan.ofOperations r ops)
      (select m (PageScan.ofOperations r ops) target))
    (hd : (PageScan.ofOperations r ops).operators[p]? = some d)
    (hfirst : s.first ≤ d.index) (hlast : d.index ≤ s.last) :
    p ∈ select m (PageScan.ofOperations r ops) target := by
  obtain ⟨gs, hgs, hflat⟩ := spans_groups (valid_select m (PageScan.ofOperations r ops) target)
  obtain ⟨g, hg, hcovers⟩ := exists_of_mem_forall₂ hgs hs
  obtain ⟨a, ha, hfirst'⟩ := hcovers.first
  obtain ⟨b, hb, hlast'⟩ := hcovers.last
  rw [← hflat, List.mem_flatMap]
  refine ⟨g, hg, mem_positionsOf.mpr ⟨?_, ?_⟩⟩
  · by_contra h
    have := index_lt_start breaksPath_of_constructs breaksPath_of_draws free (by omega) hd ha
    omega
  · by_contra h
    have := getElem?_lt_of_pairwise (pairwise_operators r ops) (by omega) hb hd
    omega

theorem exists_level (free : Operation.PathsFree breaksPath ops) {s : Span}
    (hs : s ∈ spans (PageScan.ofOperations r ops)
      (select m (PageScan.ofOperations r ops) target)) :
    ∃ level, Level r ops s level ∧ Untagged level := by
  obtain ⟨gs, hgs, hflat⟩ := spans_groups (valid_select m (PageScan.ofOperations r ops) target)
  obtain ⟨g, hg, hcovers⟩ := exists_of_mem_forall₂ hgs hs
  obtain ⟨a, ha, _⟩ := hcovers.first
  refine ⟨_, hcovers.level free ha, ?_⟩
  have hp : g.1 ∈ select m (PageScan.ofOperations r ops) target := by
    rw [← hflat, List.mem_flatMap]
    exact ⟨g, hg, mem_positionsOf.mpr ⟨Nat.le_refl _, hcovers.le⟩⟩
  obtain ⟨a', ha', huntagged⟩ := untagged_of_mem_select hp
  obtain rfl : a = a' := Option.some.inj (ha.symm.trans ha')
  obtain ⟨_, _, _, _, _, _, hmarks, _⟩ := drawnAt_spec (mem_operators.mp (List.mem_of_getElem? ha))
  rw [hmarks, Marks.isTagged, Bool.or_eq_false_iff] at huntagged
  exact ⟨by simpa [MarkStack.marks] using huntagged.1, huntagged.2⟩

theorem breaks_at_first (free : Operation.PathsFree breaksPath ops) {s : Span}
    (hs : s ∈ spans (PageScan.ofOperations r ops)
      (select m (PageScan.ofOperations r ops) target)) :
    Operation.path? breaksPath (ops.take s.first) = some .absent ∨
      ∀ op, ops[s.first]? = some op → op.command.draws = true ∧ op.command.paints = false := by
  obtain ⟨gs, hgs, -⟩ := spans_groups (valid_select m (PageScan.ofOperations r ops) target)
  obtain ⟨g, _, hcovers⟩ := exists_of_mem_forall₂ hgs hs
  obtain ⟨a, ha, hfirst⟩ := hcovers.first
  have hdrawn := mem_operators.mp (List.mem_of_getElem? ha)
  obtain ⟨op, hop, hdraws, _⟩ := drawnAt_spec hdrawn
  rw [hfirst]
  rcases (free_of_drawnAt breaksPath_of_constructs free hop hdrawn).1 with ⟨hstart, hpaints⟩ | h
  · refine Or.inr fun op' hop' => ?_
    rw [hstart] at hop'
    rw [Option.some.inj (hop'.symm.trans hop)]
    exact ⟨hdraws, hpaints⟩
  · exact Or.inl h

end Selections

end AccessiblePdf.Marking
