import AccessiblePdf.Font.Encoding
import AccessiblePdf.Number
import Mathlib.Data.List.Pairwise
import Std.Data.TreeMap.Lemmas

/-!
Runs of consecutive numbers. Runs stand for what they were made of (`entries_ofList`), and between the runs
of a sorted list numbers are missing (`pairwise_ofList`). So the runs of a table are all its stretches of
consecutive codes that go on in neither direction, each of them once (`mem_ofList_iff`).
-/
namespace AccessiblePdf.Runs

variable {α : Type} {l : List (Nat × α)} {run run' : Nat × List α} {runs : List (Nat × List α)}

/-! ## Lists -/

theorem ofList_cons (n : Nat) (a : α) (l : List (Nat × α)) :
    (∃ as more, ofList l = (n + 1, as) :: more ∧ ofList ((n, a) :: l) = (n, a :: as) :: more) ∨
      ((∀ run ∈ (ofList l).head?, run.1 ≠ n + 1) ∧ ofList ((n, a) :: l) = (n, [a]) :: ofList l) := by
  rw [ofList]
  cases ofList l with
  | nil => exact Or.inr ⟨by simp, rfl⟩
  | cons run more =>
    obtain ⟨first, as⟩ := run
    by_cases h : first = n + 1
    · subst h
      exact Or.inl ⟨as, more, rfl, if_pos rfl⟩
    · refine Or.inr ⟨fun run hrun => ?_, if_neg h⟩
      cases hrun
      exact h

/-- The numbered values that runs stand for. -/
def entries (runs : List (Nat × List α)) : List (Nat × α) :=
  runs.flatMap fun run => (run.2.zipIdx run.1).map fun e => (e.2, e.1)

theorem entries_cons (first : Nat) (a : α) (as : List α) (runs : List (Nat × List α)) :
    entries ((first, a :: as) :: runs) = (first, a) :: entries ((first + 1, as) :: runs) := by
  rw [entries, entries, List.flatMap_cons, List.flatMap_cons, List.zipIdx_cons, List.map_cons,
    List.cons_append]

theorem mem_entries {code : Nat} {a : α} :
    (code, a) ∈ entries runs ↔ ∃ run ∈ runs, ∃ i, code = run.1 + i ∧ run.2[i]? = some a := by
  simp only [entries, List.mem_flatMap, List.mem_map, Prod.exists, Prod.mk.injEq,
    List.mk_mem_zipIdx_iff_le_and_getElem?_sub]
  constructor
  · rintro ⟨first, as, hrun, a, code, ⟨hle, hat⟩, rfl, rfl⟩
    exact ⟨first, as, hrun, code - first, by omega, hat⟩
  · rintro ⟨first, as, hrun, i, rfl, hat⟩
    exact ⟨first, as, hrun, a, first + i, ⟨by omega, by rwa [Nat.add_sub_cancel_left]⟩, rfl, rfl⟩

/-- Runs stand for what they were made of. -/
theorem entries_ofList (l : List (Nat × α)) : entries (ofList l) = l := by
  induction l with
  | nil => rfl
  | cons e l ih =>
    obtain ⟨as, more, hl, hcons⟩ | ⟨-, hcons⟩ := ofList_cons e.1 e.2 l
    · rw [hcons, entries_cons, ← hl, ih]
    · rw [hcons, entries_cons]
      exact congrArg (e :: ·) ih

theorem ne_nil_of_mem_ofList (h : run ∈ ofList l) : run.2 ≠ [] := by
  induction l generalizing run with
  | nil => cases h
  | cons e l ih =>
    obtain ⟨as, more, hl, hcons⟩ | ⟨-, hcons⟩ := ofList_cons e.1 e.2 l
    · rw [hcons] at h
      rcases List.mem_cons.mp h with rfl | h
      · exact List.cons_ne_nil _ _
      · exact ih (hl ▸ List.mem_cons_of_mem _ h)
    · rw [hcons] at h
      rcases List.mem_cons.mp h with rfl | h
      · exact List.cons_ne_nil _ _
      · exact ih h

theorem mem_of_mem_ofList (h : run ∈ ofList l) {i : Nat} {a : α} (hat : run.2[i]? = some a) :
    (run.1 + i, a) ∈ l := by
  rw [← entries_ofList l]
  exact mem_entries.mpr ⟨run, h, i, rfl, hat⟩

theorem le_of_mem_ofList {limit : Nat} (below : ∀ e ∈ l, e.1 < limit) (h : run ∈ ofList l) :
    run.1 < limit ∧ run.1 + run.2.length ≤ limit := by
  have hpos := List.length_pos_iff.mpr (ne_nil_of_mem_ofList h)
  have hfirst := below _ (mem_of_mem_ofList h (List.getElem?_eq_getElem hpos))
  have hlast := below _ (mem_of_mem_ofList h (List.getElem?_eq_getElem (Nat.sub_lt hpos Nat.one_pos)))
  exact ⟨hfirst, by omega⟩

/-- Between two runs of a sorted list a number is missing. -/
theorem pairwise_ofList (sorted : l.Pairwise fun a b => a.1 < b.1) :
    (ofList l).Pairwise fun run run' => run.1 + run.2.length < run'.1 := by
  induction l with
  | nil => exact List.Pairwise.nil
  | cons e l ih =>
    rw [List.pairwise_cons] at sorted
    have hpairs := ih sorted.2
    obtain ⟨as, more, hl, hcons⟩ | ⟨hhead, hcons⟩ := ofList_cons e.1 e.2 l
    · rw [hl, List.pairwise_cons] at hpairs
      rw [hcons, List.pairwise_cons]
      refine ⟨fun run hrun => ?_, hpairs.2⟩
      have hgap := hpairs.1 run hrun
      simp only [List.length_cons] at hgap ⊢
      omega
    · rw [hcons, List.pairwise_cons]
      refine ⟨fun run hrun => ?_, hpairs⟩
      have habove : ∀ run ∈ ofList l, e.1 < run.1 := fun run hrun =>
        sorted.1 _ (mem_of_mem_ofList hrun
          (List.getElem?_eq_getElem (List.length_pos_iff.mpr (ne_nil_of_mem_ofList hrun))))
      have hafter := habove run hrun
      -- The first run behind does not continue the number, and the others start later.
      suffices e.1 + 1 < run.1 by simpa
      cases hruns : ofList l with
      | nil =>
        rw [hruns] at hrun
        cases hrun
      | cons first more =>
        rw [hruns] at hrun hhead hpairs habove
        have hfirst := habove first List.mem_cons_self
        rcases List.mem_cons.mp hrun with rfl | hrun
        · have := hhead run rfl
          omega
        · have := (List.pairwise_cons.mp hpairs).1 run hrun
          omega

/-! ## Tables -/

variable {t : CodeTable α}

/-- A stretch of consecutive codes with their values, which goes on in neither direction. -/
structure IsRun (t : CodeTable α) (run : Nat × List α) : Prop where
  nonempty : run.2 ≠ []
  filled : ∀ i < run.2.length, t[run.1 + i]? = run.2[i]?
  starts : ∀ code, code + 1 = run.1 → t[code]? = none
  ends : t[run.1 + run.2.length]? = none

theorem IsRun.eq_zero (h : IsRun t run) (h' : IsRun t run') {i : Nat} (hi : i < run.2.length)
    (hfirst : run'.1 = run.1 + i) : i = 0 := by
  cases i with
  | zero => rfl
  | succ i =>
    have hnone := h'.starts (run.1 + i) hfirst.symm
    rw [h.filled i (by omega), List.getElem?_eq_getElem (by omega)] at hnone
    cases hnone

theorem IsRun.length_le (h : IsRun t run) (h' : IsRun t run') (hfirst : run'.1 = run.1) :
    run.2.length ≤ run'.2.length := by
  by_contra hlt
  have hnone := h'.ends
  rw [hfirst, h.filled _ (by omega), List.getElem?_eq_getElem (by omega)] at hnone
  cases hnone

theorem IsRun.eq_of_first (h : IsRun t run) (h' : IsRun t run') (hfirst : run'.1 = run.1) : run' = run := by
  have hlength : run'.2.length = run.2.length :=
    Nat.le_antisymm (h'.length_le h hfirst.symm) (h.length_le h' hfirst)
  refine Prod.ext hfirst (List.ext_getElem? fun i => ?_)
  by_cases hi : i < run.2.length
  · rw [← h.filled i hi, ← h'.filled i (by omega), hfirst]
  · rw [List.getElem?_eq_none (by omega), List.getElem?_eq_none (by omega)]

theorem pairwise_toList (t : CodeTable α) : t.toList.Pairwise fun a b => a.1 < b.1 :=
  Std.TreeMap.ordered_keys_toList.imp Nat.compare_eq_lt.mp

theorem separate_of_mem_ofList (h : run ∈ ofList t.toList) (h' : run' ∈ ofList t.toList) (hne : run ≠ run') :
    run.1 + run.2.length < run'.1 ∨ run'.1 + run'.2.length < run.1 := by
  let Separate (r s : Nat × List α) : Prop := r.1 + r.2.length < s.1 ∨ s.1 + s.2.length < r.1
  have hpairs : (ofList t.toList).Pairwise Separate := (pairwise_ofList (pairwise_toList t)).imp Or.inl
  have : Std.Symm Separate := ⟨fun _ _ => Or.symm⟩
  exact hpairs.forall h h' hne

theorem exists_mem_ofList {code : Nat} {a : α} (h : t[code]? = some a) :
    ∃ run ∈ ofList t.toList, ∃ i, code = run.1 + i ∧ run.2[i]? = some a := by
  rw [← Std.TreeMap.mem_toList_iff_getElem?_eq_some, ← entries_ofList t.toList] at h
  exact mem_entries.mp h

theorem isRun_of_mem_ofList (h : run ∈ ofList t.toList) : IsRun t run := by
  have hnonempty := List.length_pos_iff.mpr (ne_nil_of_mem_ofList h)
  have hplace : ∀ code a, t[code]? = some a → run.1 ≤ code ∧ code < run.1 + run.2.length ∨
      code + 1 < run.1 ∨ run.1 + run.2.length < code := by
    intro code a hcode
    obtain ⟨other, hother, i, rfl, hat⟩ := exists_mem_ofList hcode
    have hi := (List.getElem?_eq_some_iff.mp hat).1
    by_cases hsame : other = run
    · subst hsame
      exact Or.inl ⟨by omega, by omega⟩
    · rcases separate_of_mem_ofList hother h hsame with hbefore | hbehind
      · exact Or.inr (Or.inl (by omega))
      · exact Or.inr (Or.inr (by omega))
  refine ⟨ne_nil_of_mem_ofList h, fun i hi => ?_, fun code hcode => ?_, ?_⟩
  · rw [List.getElem?_eq_getElem hi]
    exact Std.TreeMap.mem_toList_iff_getElem?_eq_some.mp
      (mem_of_mem_ofList h (List.getElem?_eq_getElem hi))
  · refine Option.eq_none_iff_forall_ne_some.mpr fun a ha => ?_
    have := hplace code a ha
    omega
  · refine Option.eq_none_iff_forall_ne_some.mpr fun a ha => ?_
    have := hplace _ a ha
    omega

/-- The runs of a table are its maximal stretches of consecutive codes. -/
theorem mem_ofList_iff : run ∈ ofList t.toList ↔ IsRun t run := by
  refine ⟨isRun_of_mem_ofList, fun h => ?_⟩
  have hpos := List.length_pos_iff.mpr h.nonempty
  have hfirst : t[run.1]? = some run.2[0] := (h.filled 0 hpos).trans (List.getElem?_eq_getElem hpos)
  obtain ⟨other, hother, i, hi, hat⟩ := exists_mem_ofList hfirst
  have hotherRun := isRun_of_mem_ofList hother
  have hzero := hotherRun.eq_zero h (List.getElem?_eq_some_iff.mp hat).1 hi
  rwa [hotherRun.eq_of_first h (by omega)]

end AccessiblePdf.Runs
