import AccessiblePdf.Proofs.Content.Retagging

/-!
Content whose MCIDs are numbered from 0 on. Bracketing the spans of a selection, with the next MCIDs,
keeps content numbered (`NumberedTo.wrap`) and its paths free of what they were free of
(`pathsFree_wrap`), whether its brackets are balanced or not.
-/
namespace AccessiblePdf.Marking

/-! ## Paths -/

theorem isBracket_mcidOpener (role : String) (first : Int) (n : Nat) :
    (mcidOpener role first n).command.isBracket = true := rfl

theorem foldlM_neutral {σ α : Type} {f : σ → α → Option σ} {items : List α}
    (neutral : ∀ a ∈ items, ∀ s, f s a = some s) (s : σ) : items.foldlM f s = some s := by
  induction items with
  | nil => rfl
  | cons a items ih =>
    rw [List.forall_mem_cons] at neutral
    rw [List.foldlM_cons, neutral.1 s]
    exact ih neutral.2

/-- A reader that passes over brackets reads what it would read without them. -/
theorem foldlM_insertBrackets {σ : Type} {f : σ → Operation → Option σ}
    (hclose : ∀ s, f s close = some s) (ops : List Operation) :
    ∀ (i : Nat) (openers : List (Nat × Operation)) (ends : List Nat) (s : σ),
      (∀ e ∈ openers, ∀ s, f s e.2 = some s) →
        (insertBrackets i openers ends ops).foldlM f s = ops.foldlM f s := by
  induction ops with
  | nil =>
    intro i openers ends s _
    rfl
  | cons op ops ih =>
    intro i openers ends s hopeners
    have hhere : ∀ a ∈ (openers.takeWhile (·.1 == i)).map (·.2), ∀ s, f s a = some s := by
      intro a ha
      obtain ⟨e, he, rfl⟩ := List.mem_map.mp ha
      exact hopeners e ((List.takeWhile_sublist _).subset he)
    have hclosing : ∀ a ∈ (ends.takeWhile (· == i)).map (fun _ => close), ∀ s,
        f s a = some s := by
      intro a ha
      obtain ⟨_, _, rfl⟩ := List.mem_map.mp ha
      exact hclose
    rw [insertBrackets]
    simp only [List.foldlM_append, List.append_assoc, List.cons_append, List.foldlM_cons]
    rw [foldlM_neutral hhere]
    show (f s op >>= fun s' => _) = f s op >>= fun s' => ops.foldlM f s'
    congr 1
    funext s'
    rw [foldlM_neutral hclosing]
    exact ih _ _ _ s' fun e he => hopeners e (List.mem_of_mem_drop he)

/-- Bracketing keeps paths free of operators that are no brackets. -/
theorem pathsFree_wrap {unwanted : Command → Bool} {ops : List Operation}
    (brackets : ∀ c : Command, c.isBracket = true → unwanted c = false)
    (free : Operation.PathsFree unwanted ops) (ss : List Span) (role : String) (first : Int) :
    Operation.PathsFree unwanted (wrap ops ss (mcidOpener role first)) := by
  have hneutral : ∀ (op : Operation), op.command.isBracket = true → ∀ s : PathState,
      s.after? unwanted op.command = some s := by
    intro op hop s
    have hunwanted := brackets op.command hop
    cases hc : op.command with
    | beginMarked tag properties =>
      rw [hc] at hunwanted
      cases s <;> simp [PathState.after?, Command.constructs, hunwanted]
    | endMarked =>
      rw [hc] at hunwanted
      cases s <;> simp [PathState.after?, Command.constructs, hunwanted]
    | _ =>
      rw [hc] at hop
      exact absurd hop (by simp [Command.isBracket, Command.opensMarked, Command.closesMarked])
  have hsame : Operation.path? unwanted (wrap ops ss (mcidOpener role first)) =
      Operation.path? unwanted ops := by
    refine foldlM_insertBrackets (hneutral close rfl) ops 0 _ _ _ ?_
    intro e he
    rw [openersFrom_eq] at he
    obtain ⟨⟨_, n⟩, _, rfl⟩ := List.mem_map.mp he
    exact hneutral _ (isBracket_mcidOpener role first n)
  rw [Operation.PathsFree, hsame]
  exact free

/-! ## MCIDs -/

/-- The MCIDs that operations open are all numbers below `n`; those that come from spans do so
whatever the resources are. -/
structure NumberedTo (r : ContentResources) (ops : List Operation) (n : Nat) : Prop where
  opened : ∀ op ∈ ops, PageScan.openedMcid? r op = none ∨
    ∃ role first i, op = mcidOpener role first i
  mem : ∀ m : Int, m ∈ ops.filterMap (PageScan.openedMcid? r) ↔ 0 ≤ m ∧ m < n

namespace NumberedTo

variable {r r' : ContentResources} {ops : List Operation} {n : Nat} {first : Int}

theorem zero (none : ∀ op ∈ ops, PageScan.openedMcid? r op = none) : NumberedTo r ops 0 := by
  refine ⟨fun op hop => Or.inl (none op hop), fun m => ?_⟩
  rw [List.filterMap_eq_nil_iff.mpr none]
  simp

theorem opened_eq (h : NumberedTo r ops n)
    (fewer : ∀ op m, PageScan.openedMcid? r' op = some m → PageScan.openedMcid? r op = some m) :
    ∀ op ∈ ops, PageScan.openedMcid? r' op = PageScan.openedMcid? r op := by
  intro op hop
  rcases h.opened op hop with hnone | ⟨role, first, i, rfl⟩
  · rw [hnone]
    cases hm : PageScan.openedMcid? r' op with
    | none => rfl
    | some m => exact absurd ((fewer op m hm).symm.trans hnone) (by simp)
  · rfl

theorem mem_mcids (h : NumberedTo r ops n)
    (fewer : ∀ op m, PageScan.openedMcid? r' op = some m → PageScan.openedMcid? r op = some m)
    {m : Int} : m ∈ (PageScan.ofOperations r' ops).mcids ↔ 0 ≤ m ∧ m < n := by
  rw [ScanState.mem_mcids, List.filterMap_congr (h.opened_eq fewer)]
  exact h.mem m

/-- The next MCID is the number of those that there are. -/
theorem next (h : NumberedTo r ops n)
    (fewer : ∀ op m, PageScan.openedMcid? r' op = some m → PageScan.openedMcid? r op = some m)
    (hnext : (PageScan.ofOperations r' ops).nextMcid? = some first) : first = n := by
  have hmcids : (PageScan.ofOperations r' ops).mcids =
      (List.range n).map fun i : Nat => (i : Int) := by
    refine (ScanState.pairwise_mcids r' ops).eq_of_mem_iff ?_ fun m => ?_
    · refine List.pairwise_map.mpr (List.pairwise_lt_range.imp ?_)
      intro a b hab
      omega
    · rw [h.mem_mcids fewer, List.mem_map]
      constructor
      · rintro ⟨hm, hlt⟩
        exact ⟨m.toNat, List.mem_range.mpr (by omega), by omega⟩
      · rintro ⟨i, hi, rfl⟩
        have := List.mem_range.mp hi
        omega
  rw [PageScan.nextMcid?, hmcids] at hnext
  cases n with
  | zero =>
    rw [List.range_zero, List.map_nil, List.getLast?_nil, Option.some_inj] at hnext
    exact hnext.symm
  | succ n =>
    rw [List.range_succ, List.map_append, List.map_singleton, List.getLast?_concat] at hnext
    have hfirst : max ((n : Int) + 1) 0 = first := by
      by_cases hmax : (n : Int) < maxInt64
      · simpa [hmax] using hnext
      · simp [hmax] at hnext
    omega

/-- Spans that are bracketed with the next MCIDs go on with the numbers. -/
theorem wrap (h : NumberedTo r ops n) {ss : List Span} (sorted : Sorted ss)
    (within : Within ops.length ss) (role : String) :
    NumberedTo r (wrap ops ss (mcidOpener role n)) (n + ss.length) := by
  have hmatched := (matched_iff_sorted (mcidOpener role n) within).mpr sorted
  refine ⟨fun op hop => ?_, fun m => ?_⟩
  · rcases hmatched.mem.mp hop with hop | ⟨i, _, rfl⟩ | ⟨_, rfl⟩
    · exact h.opened op hop
    · exact Or.inr ⟨role, n, i, rfl⟩
    · exact Or.inl rfl
  · rw [← ScanState.mem_mcids, mem_mcids_wrap sorted within, ScanState.mem_mcids, h.mem m]
    constructor
    · rintro (⟨hm, hlt⟩ | ⟨i, hi, rfl⟩) <;> omega
    · rintro ⟨hm, hlt⟩
      by_cases hn : m < n
      · exact Or.inl ⟨hm, hn⟩
      · exact Or.inr ⟨(m - n).toNat, by omega, by omega⟩

end NumberedTo

end AccessiblePdf.Marking
