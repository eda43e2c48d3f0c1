import AccessiblePdf.Proofs.Content.Scan

/-!
What well-formed content is, and what a scan of it may rely on. Content is `Balanced` when every end
of a marked-content sequence ends an open one, and `PathsFree` of some operations when none of them
stands between the first step of a path and the operation that paints it. The scanner's stack then
has one sequence for each open one (`length_sequences`), a painted path has none of these operations
inside (`free_of_drawnAt`), and two places with one innermost sequence have the whole stack in
common, at all places between too (`stack_of_scope`).
-/
namespace AccessiblePdf

namespace Command

/-- The number of open marked-content sequences after a command; none when it ends one that is not
open. -/
def depthAfter? (depth : Nat) : Command → Option Nat
  | .beginMarked _ _ => some (depth + 1)
  | .endMarked => if depth = 0 then none else some (depth - 1)
  | _ => some depth

end Command

/-- The path under construction: there is none, nothing unwanted came up since its first step, or
something did. -/
inductive PathState where
  | absent
  | free
  | crossed
deriving DecidableEq, Repr

namespace PathState

/-- The path after a command; none when one with something unwanted in it is painted. -/
def after? (unwanted : Command → Bool) (s : PathState) (c : Command) : Option PathState :=
  match c with
  | .paint _ => if s = crossed then none else some absent
  | .endPath => some absent
  | c =>
    if s = absent then some (if c.constructs then free else absent)
    else some (if unwanted c then crossed else s)

theorem after?_eq (unwanted : Command → Bool) (s : PathState) (c : Command) :
    s.after? unwanted c =
      if c.paints ∧ s = crossed then none
      else if c.endsPath then some absent
      else if s = absent then some (if c.constructs then free else absent)
      else some (if unwanted c then crossed else s) := by
  cases c <;> simp [after?, Command.paints, Command.endsPath]

end PathState

namespace Operation

/-- The number of marked-content sequences that operations leave open. -/
def depth? (ops : List Operation) : Option Nat :=
  ops.foldlM (fun depth op => op.command.depthAfter? depth) 0

/-- Every end of a marked-content sequence ends one that is open. -/
def Balanced (ops : List Operation) : Prop := (depth? ops).isSome

/-- The path that operations leave under construction. -/
def path? (unwanted : Command → Bool) (ops : List Operation) : Option PathState :=
  ops.foldlM (fun s op => s.after? unwanted op.command) .absent

/-- Nothing unwanted stands between the first step of a path and the operation that paints it. -/
def PathsFree (unwanted : Command → Bool) (ops : List Operation) : Prop :=
  (path? unwanted ops).isSome

instance (ops : List Operation) : Decidable (Balanced ops) := by unfold Balanced; infer_instance

instance (unwanted : Command → Bool) (ops : List Operation) :
    Decidable (PathsFree unwanted ops) := by
  unfold PathsFree; infer_instance

theorem depth?_concat (ops : List Operation) (op : Operation) :
    depth? (ops ++ [op]) = (depth? ops).bind fun depth => op.command.depthAfter? depth := by
  rw [depth?, List.foldlM_append]
  simp [depth?]

theorem path?_concat (unwanted : Command → Bool) (ops : List Operation) (op : Operation) :
    path? unwanted (ops ++ [op]) =
      (path? unwanted ops).bind fun s => s.after? unwanted op.command := by
  rw [path?, List.foldlM_append]
  simp [path?]

theorem Balanced.take {ops : List Operation} (h : Balanced ops) (k : Nat) :
    Balanced (ops.take k) := by
  rw [Balanced, depth?, ← List.take_append_drop k ops, List.foldlM_append] at h
  rw [Balanced, depth?]
  cases hk : (ops.take k).foldlM (fun depth op => op.command.depthAfter? depth) 0 with
  | none => rw [hk] at h; exact h
  | some n => rfl

theorem PathsFree.take {unwanted : Command → Bool} {ops : List Operation}
    (h : PathsFree unwanted ops) (k : Nat) : PathsFree unwanted (ops.take k) := by
  rw [PathsFree, path?, ← List.take_append_drop k ops, List.foldlM_append] at h
  rw [PathsFree, path?]
  cases hk : (ops.take k).foldlM (fun s op => PathState.after? unwanted s op.command) .absent with
  | none => rw [hk] at h; exact h
  | some s => rfl

end Operation

/-! ## The stack of open sequences -/

namespace MarkStack

/-- Sequences inside others were opened later. -/
structure Ordered (s : MarkStack) : Prop where
  descending : s.sequences.Pairwise fun a b => b.ordinal < a.ordinal
  below_count : ∀ q ∈ s.sequences, q.ordinal < s.count

theorem Ordered.step {s : MarkStack} (h : s.Ordered) (r : ContentResources) (c : Command) :
    (s.step r c).Ordered := by
  cases c with
  | beginMarked tag properties =>
    refine ⟨List.pairwise_cons.mpr ⟨h.below_count, h.descending⟩, ?_⟩
    intro q hq
    rcases List.mem_cons.mp hq with rfl | hq
    · exact Nat.lt_succ_self s.count
    · exact Nat.lt_succ_of_lt (h.below_count q hq)
  | endMarked =>
    refine ⟨h.descending.sublist (List.drop_sublist 1 _), ?_⟩
    intro q hq
    exact h.below_count q (List.mem_of_mem_drop hq)
  | _ => exact h

theorem step_of_not_bracket (r : ContentResources) (s : MarkStack) {c : Command}
    (h : c.isBracket = false) : s.step r c = s := by
  cases c with
  | beginMarked tag properties => exact absurd h.symm Bool.false_ne_true
  | endMarked => exact absurd h.symm Bool.false_ne_true
  | _ => rfl

/-- A command leaves the sequences below some place as they are or ends the innermost of them; what
stands above is new. -/
theorem split_step (r : ContentResources) (s : MarkStack) (c : Command)
    {above below : List MarkedSequence} {n : Nat} (h : s.sequences = above ++ below)
    (new : ∀ q ∈ above, n ≤ q.ordinal) (hn : n ≤ s.count) :
    ∃ above' below', (s.step r c).sequences = above' ++ below' ∧ below' <:+ below ∧
      (∀ q ∈ above', n ≤ q.ordinal) ∧ n ≤ (s.step r c).count := by
  cases c with
  | beginMarked tag properties =>
    refine ⟨⟨s.count, properties.bind (ContentResources.mcid? r.doc r.entries),
      tag == artifactTag⟩ :: above, below, by simp [MarkStack.step, h], List.suffix_rfl, ?_,
      Nat.le_succ_of_le hn⟩
    intro q hq
    rcases List.mem_cons.mp hq with rfl | hq
    · exact hn
    · exact new q hq
  | endMarked =>
    cases above with
    | nil =>
      exact ⟨[], below.drop 1, by simp [MarkStack.step, h], List.drop_suffix 1 below, by simp, hn⟩
    | cons q above =>
      refine ⟨above, below, by simp [MarkStack.step, h], List.suffix_rfl, ?_, hn⟩
      intro q' hq'
      exact new q' (List.mem_cons_of_mem q hq')
  | _ => exact ⟨above, below, h, List.suffix_rfl, new, hn⟩

end MarkStack

namespace ScanState

variable {r : ContentResources} {ops : List Operation} {k : Nat} {op : Operation} {d : Drawn}

theorem marks_succ (h : ops[k]? = some op) :
    (before r ops (k + 1)).marks = (before r ops k).marks.step r op.command := by
  rw [before_succ h]
  rfl

theorem ordered_before (r : ContentResources) (ops : List Operation) (k : Nat) :
    (before r ops k).marks.Ordered := by
  induction k with
  | zero => exact ⟨List.Pairwise.nil, fun q hq => absurd hq (by simp [before, run])⟩
  | succ k ih =>
    cases h : ops[k]? with
    | none => rw [before_succ_of_none h]; exact ih
    | some op => rw [marks_succ h]; exact ih.step r op.command

/-- The stack holds one sequence for each that is open. -/
theorem length_sequences (r : ContentResources) (ops : List Operation) (k n : Nat)
    (h : Operation.depth? (ops.take k) = some n) :
    (before r ops k).marks.sequences.length = n := by
  induction k generalizing n with
  | zero =>
    simp only [List.take_zero, Operation.depth?, List.foldlM_nil] at h
    simpa [before, run] using h
  | succ k ih =>
    cases hop : ops[k]? with
    | none =>
      have hk : ops.length ≤ k := List.getElem?_eq_none_iff.mp hop
      rw [before_succ_of_none hop]
      refine ih n ?_
      rw [List.take_of_length_le hk]
      rwa [List.take_of_length_le (by omega)] at h
    | some op =>
      rw [take_succ_of_getElem? hop, Operation.depth?_concat, Option.bind_eq_some_iff] at h
      obtain ⟨m, hm, hn⟩ := h
      have ih := ih m hm
      rw [marks_succ hop]
      cases hc : op.command with
      | beginMarked tag properties =>
        simp [hc, Command.depthAfter?] at hn
        simp [MarkStack.step, ih, hn]
      | endMarked =>
        simp [hc, Command.depthAfter?] at hn
        simp [MarkStack.step, ih, hn]
      | _ =>
        simp [hc, Command.depthAfter?] at hn
        simpa [MarkStack.step, hn] using ih

theorem sequences_ne_nil (balanced : Operation.Balanced ops) (h : ops[k]? = some op)
    (ends : op.command = .endMarked) : (before r ops k).marks.sequences ≠ [] := by
  have hk := balanced.take (k + 1)
  rw [Operation.Balanced, take_succ_of_getElem? h, Operation.depth?_concat] at hk
  cases hm : Operation.depth? (ops.take k) with
  | none => rw [hm] at hk; simp at hk
  | some n =>
    rw [hm, ends] at hk
    have hn : n ≠ 0 := by
      rintro rfl
      simp [Command.depthAfter?] at hk
    have hlen := length_sequences r ops k n hm
    intro hnil
    rw [hnil] at hlen
    exact hn hlen.symm

/-- From one place to a later one, the sequences below are ended or kept, and those above are
new. -/
theorem split_between {j : Nat} (hjk : j ≤ k) {above below : List MarkedSequence} {n : Nat}
    (h : (before r ops j).marks.sequences = above ++ below) (new : ∀ q ∈ above, n ≤ q.ordinal)
    (hn : n ≤ (before r ops j).marks.count) :
    ∃ above' below', (before r ops k).marks.sequences = above' ++ below' ∧ below' <:+ below ∧
      (∀ q ∈ above', n ≤ q.ordinal) ∧ n ≤ (before r ops k).marks.count := by
  induction hjk with
  | refl => exact ⟨above, below, h, List.suffix_rfl, new, hn⟩
  | @step k _ ih =>
    cases hop : ops[k]? with
    | none => rw [before_succ_of_none hop]; exact ih
    | some op =>
      obtain ⟨above', below', h', hsuffix, new', hn'⟩ := ih
      obtain ⟨above'', below'', h'', hsuffix', new'', hn''⟩ :=
        MarkStack.split_step r _ op.command h' new' hn'
      rw [marks_succ hop]
      exact ⟨above'', below'', h'', hsuffix'.trans hsuffix, new'', hn''⟩

/-- A suffix of a stack with the innermost sequence of the stack is the whole of it. -/
theorem eq_of_suffix_of_head {stack above below : List MarkedSequence} {n : Nat}
    (descending : stack.Pairwise fun a b => b.ordinal < a.ordinal)
    (old : ∀ q ∈ stack, q.ordinal < n) (new : ∀ q ∈ above, n ≤ q.ordinal)
    (suffix : below <:+ stack)
    (same : (above ++ below).head?.map (·.ordinal) = stack.head?.map (·.ordinal)) :
    above = [] ∧ below = stack := by
  cases stack with
  | nil =>
    have hnil : above ++ below = [] := by
      rw [← List.head?_eq_none_iff]
      simpa using same
    rw [List.append_eq_nil_iff] at hnil
    exact hnil
  | cons b rest =>
    cases above with
    | cons a above =>
      have hab : a.ordinal = b.ordinal := by simpa using same
      have h1 := new a List.mem_cons_self
      have h2 := old b List.mem_cons_self
      omega
    | nil =>
      refine ⟨rfl, ?_⟩
      rcases List.suffix_cons_iff.mp suffix with h | h
      · exact h
      · cases below with
        | nil => simp at same
        | cons c below =>
          have hcb : c.ordinal = b.ordinal := by simpa using same
          have hc := (List.pairwise_cons.mp descending).1 c (h.mem List.mem_cons_self)
          omega

/-- Between two places with the same innermost sequence no sequence is ended that was open at the
first: a sequence that ends is never opened again under its number. -/
theorem stack_of_scope {j l : Nat} (hjl : j ≤ l) (hlk : l ≤ k)
    (same : (before r ops k).marks.marks.scope = (before r ops j).marks.marks.scope) :
    (before r ops k).marks.sequences = (before r ops j).marks.sequences ∧
      (before r ops j).marks.sequences <:+ (before r ops l).marks.sequences := by
  have hordered := ordered_before r ops j
  obtain ⟨above, below, hl, hbelow, new, hcount⟩ :=
    split_between hjl (List.nil_append (before r ops j).marks.sequences).symm
      (fun q hq => absurd hq (by simp)) (Nat.le_refl _)
  obtain ⟨above', below', hk, hbelow', new', -⟩ := split_between hlk hl new hcount
  simp only [MarkStack.marks] at same
  rw [hk] at same
  obtain ⟨habove, hstack⟩ := eq_of_suffix_of_head hordered.descending hordered.below_count new'
    (hbelow'.trans hbelow) same
  have hhalf : below = (before r ops j).marks.sequences := by
    refine hbelow.eq_of_length_le ?_
    rw [← hstack]
    exact hbelow'.length_le
  refine ⟨by rw [hk, habove, hstack, List.nil_append], ?_⟩
  rw [hl, hhalf]
  exact List.suffix_append _ _

/-! ## Paths -/

/-- What the path state says of the scanner's path: where it starts, and that it holds nothing
unwanted as long as it is free. -/
structure PathInvariant (r : ContentResources) (unwanted : Command → Bool) (ops : List Operation)
    (k : Nat) (s : PathState) : Prop where
  absent : s = .absent → (before r ops k).pathStart = none
  present : s ≠ .absent → ∃ i, (before r ops k).pathStart = some i ∧
    Operation.path? unwanted (ops.take i) = some .absent ∧
    (s = .free → ∀ j op, i ≤ j → j < k → ops[j]? = some op → unwanted op.command = false)

theorem PathInvariant.step {unwanted : Command → Bool} {s₀ s : PathState}
    (steps : ∀ c : Command, c.constructs = true → unwanted c = false) (hop : ops[k]? = some op)
    (hs₀ : Operation.path? unwanted (ops.take k) = some s₀)
    (hinv : PathInvariant r unwanted ops k s₀) (hs : s₀.after? unwanted op.command = some s) :
    PathInvariant r unwanted ops (k + 1) s := by
  have hstart : (before r ops (k + 1)).pathStart =
      if op.command.endsPath then none
      else if op.command.constructs then (before r ops k).pathStart <|> some k
      else (before r ops k).pathStart := by
    rw [before_succ hop, ← pathStartAfter_eq]
    rfl
  rw [PathState.after?_eq] at hs
  by_cases hends : op.command.endsPath = true
  · obtain rfl : PathState.absent = s := by
      simp only [hends, if_true] at hs
      split at hs
      · exact absurd hs (by simp)
      · exact Option.some.inj hs
    exact ⟨fun _ => by rw [hstart, if_pos hends], fun hs => absurd rfl hs⟩
  have hpaints : op.command.paints = false := by
    cases hc : op.command <;> simp_all [Command.paints, Command.endsPath]
  simp only [hpaints, hends, Bool.false_eq_true, false_and, if_false] at hs hstart
  by_cases habsent : s₀ = .absent
  · -- The path starts here, or there is still none.
    have hnone := hinv.absent habsent
    rw [if_pos habsent] at hs
    by_cases hc : op.command.constructs = true
    · obtain rfl : PathState.free = s := by simpa [hc] using hs
      refine ⟨fun hs => absurd hs (by simp), fun _ => ⟨k, ?_, ?_, ?_⟩⟩
      · rw [hstart, if_pos hc, hnone]
        rfl
      · rw [hs₀, habsent]
      · intro _ j op' hkj hjk hop'
        obtain rfl : k = j := by omega
        obtain rfl : op = op' := Option.some.inj (hop.symm.trans hop')
        exact steps _ hc
    · obtain rfl : PathState.absent = s := by simpa [hc] using hs
      exact ⟨fun _ => by rw [hstart, if_neg hc, hnone], fun hs => absurd rfl hs⟩
  · -- The path goes on, free as long as nothing unwanted comes up.
    obtain ⟨i, hi, hi₀, hfree⟩ := hinv.present habsent
    rw [if_neg habsent] at hs
    have hs' : (if unwanted op.command = true then PathState.crossed else s₀) = s :=
      Option.some.inj hs
    have hstart' : (before r ops (k + 1)).pathStart = some i := by
      rw [hstart, hi]
      split <;> rfl
    refine ⟨fun ha => ?_, fun _ => ⟨i, hstart', hi₀, ?_⟩⟩
    · rw [← hs'] at ha
      split at ha
      · exact absurd ha (by simp)
      · exact absurd ha habsent
    · intro hf j op' hij hjk hop'
      rw [← hs'] at hf
      split at hf
      · exact absurd hf (by simp)
      · next hwanted =>
        by_cases hj : j = k
        · subst hj
          obtain rfl : op = op' := Option.some.inj (hop.symm.trans hop')
          simpa using hwanted
        · exact hfree hf j op' hij (by omega) hop'

theorem pathInvariant {unwanted : Command → Bool}
    (steps : ∀ c : Command, c.constructs = true → unwanted c = false) (k : Nat) (s : PathState)
    (h : Operation.path? unwanted (ops.take k) = some s) : PathInvariant r unwanted ops k s := by
  induction k generalizing s with
  | zero =>
    obtain rfl : PathState.absent = s := by simpa [Operation.path?] using h
    exact ⟨fun _ => rfl, fun hs => absurd rfl hs⟩
  | succ k ih =>
    cases hop : ops[k]? with
    | none =>
      have hk : ops.length ≤ k := List.getElem?_eq_none_iff.mp hop
      have htake : ops.take (k + 1) = ops.take k := by
        rw [List.take_of_length_le hk, List.take_of_length_le (by omega)]
      rw [htake] at h
      obtain ⟨habsent, hpresent⟩ := ih s h
      rw [← before_succ_of_none hop] at habsent hpresent
      refine ⟨habsent, fun hs => ?_⟩
      obtain ⟨i, hi, hstart, hfree⟩ := hpresent hs
      refine ⟨i, hi, hstart, fun hf j op hij hj hop' => hfree hf j op hij ?_ hop'⟩
      have hj' := (List.getElem?_eq_some_iff.mp hop').1
      omega
    | some op =>
      rw [take_succ_of_getElem? hop, Operation.path?_concat, Option.bind_eq_some_iff] at h
      obtain ⟨s₀, hs₀, hs⟩ := h
      exact (ih s₀ hs₀).step steps hop hs₀ hs

/-- A painted path has nothing unwanted between its first step and the operation that paints it, and
no path was under construction before; everything else starts where it is drawn. -/
theorem free_of_drawnAt {unwanted : Command → Bool}
    (steps : ∀ c : Command, c.constructs = true → unwanted c = false)
    (free : Operation.PathsFree unwanted ops) (hop : ops[k]? = some op)
    (h : drawnAt r ops k = some d) :
    (d.start = k ∧ op.command.paints = false ∨
        Operation.path? unwanted (ops.take d.start) = some .absent) ∧
      ∀ j op, d.start ≤ j → j < k → ops[j]? = some op → unwanted op.command = false := by
  obtain ⟨op', hop', _, _, _, _, _, hstart⟩ := drawnAt_spec h
  obtain rfl : op = op' := Option.some.inj (hop.symm.trans hop')
  rw [startOf_eq] at hstart
  by_cases hp : op.command.paints = true
  · rw [if_pos hp] at hstart
    have hk := free.take (k + 1)
    rw [Operation.PathsFree, take_succ_of_getElem? hop, Operation.path?_concat] at hk
    cases hs : Operation.path? unwanted (ops.take k) with
    | none => rw [hs] at hk; simp at hk
    | some s =>
      have hinv := pathInvariant (r := r) steps k s hs
      rw [hs, Option.bind_some, PathState.after?_eq] at hk
      have hcrossed : s ≠ .crossed := by
        intro hc
        simp [hp, hc] at hk
      by_cases habsent : s = .absent
      · rw [hinv.absent habsent, Option.getD_none] at hstart
        rw [hstart]
        exact ⟨Or.inr (by rw [hs, habsent]), fun j op' h1 h2 => absurd h1 (Nat.not_le_of_lt h2)⟩
      · obtain ⟨i, hi, hi₀, hfree⟩ := hinv.present habsent
        rw [hi, Option.getD_some] at hstart
        rw [hstart]
        refine ⟨Or.inr hi₀, hfree ?_⟩
        cases s <;> simp_all
  · rw [if_neg hp] at hstart
    rw [hstart]
    exact ⟨Or.inl ⟨rfl, by simpa using hp⟩, fun j op' h1 h2 => absurd h1 (Nat.not_le_of_lt h2)⟩

theorem sequences_eq_of_no_brackets {i : Nat} (hik : i ≤ k)
    (h : ∀ j op, i ≤ j → j < k → ops[j]? = some op → op.command.isBracket = false) :
    (before r ops k).marks.sequences = (before r ops i).marks.sequences := by
  induction hik with
  | refl => rfl
  | @step k hik ih =>
    rw [← ih fun j op h1 h2 => h j op h1 (Nat.lt_succ_of_lt h2)]
    cases hop : ops[k]? with
    | none => rw [before_succ_of_none hop]
    | some op =>
      rw [marks_succ hop, MarkStack.step_of_not_bracket r _
        (h k op hik (Nat.lt_succ_self k) hop)]

end ScanState

end AccessiblePdf
