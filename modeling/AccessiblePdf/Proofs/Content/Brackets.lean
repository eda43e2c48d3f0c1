import AccessiblePdf.Content.Marking
import Mathlib.Data.List.Count
import Mathlib.Data.List.Range
import Mathlib.Data.List.Sigma
import Mathlib.Data.List.TakeWhile

/-!
Where `Marking.wrap` puts the brackets of spans. Openers are taken in the order of the spans, ends in
the order of the operations, so an opener that is behind a later one is never reached, nor are those
after it: only the spans of `inOrder` are opened. `wrap_eq_layout` says where the brackets stand,
and `matched_iff_sorted` that all of them stand there just when the spans start in order.
-/
namespace AccessiblePdf.Marking

/-- A place in a bracketed list of operations: what opens a span, an operation that was there before,
or what ends a span, each by its number. -/
inductive Piece where
  | opener (n : Nat)
  | kept (i : Nat)
  | closer (n : Nat)
deriving DecidableEq, Repr

namespace Piece

/-- The number of the span that is opened. -/
def opener? : Piece → Option Nat
  | .opener n => some n
  | _ => none

/-- The number of an operation that was there before. -/
def kept? : Piece → Option Nat
  | .kept i => some i
  | _ => none

/-- The number of the span that is ended. -/
def closer? : Piece → Option Nat
  | .closer n => some n
  | _ => none

/-- The operation that stands in a place. -/
def operation? (ops : List Operation) (opener : Nat → Operation) : Piece → Option Operation
  | .opener n => some (opener n)
  | .kept i => ops[i]?
  | .closer _ => some close

end Piece

/-- Pieces that bracket spans of `size` operations, the spans of `opened` in front and those of `ended`
behind. Without the brackets the operations are what they were; every span is bracketed once, right
before its first operation and right behind its last one, where nothing but other openers or other
ends comes between. -/
structure Bracketing (size : Nat) (opened ended : List Span) (pieces : List Piece) : Prop where
  erased : pieces.filterMap Piece.kept? = List.range size
  opened_once : (pieces.filterMap Piece.opener?).Perm (List.range opened.length)
  ended_once : (pieces.filterMap Piece.closer?).Perm (List.range ended.length)
  opened : ∀ n s, opened[n]? = some s → ∃ before between after,
    pieces = before ++ .opener n :: (between ++ .kept s.first :: after) ∧
      ∀ p ∈ between, (p.opener?).isSome
  ended : ∀ n s, ended[n]? = some s → ∃ before between after,
    pieces = before ++ .kept s.last :: (between ++ .closer n :: after) ∧
      ∀ p ∈ between, (p.closer?).isSome

/-- Operations with brackets, the spans of `opened` in front and those of `ended` behind. -/
def Bracketed (ops : List Operation) (opened ended : List Span) (opener : Nat → Operation)
    (out : List Operation) : Prop :=
  ∃ pieces, Bracketing ops.length opened ended pieces ∧
    out = pieces.filterMap (Piece.operation? ops opener)

/-- Operations with every span bracketed by its opener and an end. -/
def Matched (ops : List Operation) (ss : List Span) (opener : Nat → Operation)
    (out : List Operation) : Prop := Bracketed ops ss ss opener out

/-- Spans that start in order. -/
def Sorted (ss : List Span) : Prop := ss.Pairwise fun a b => a.first ≤ b.first

instance (ss : List Span) : Decidable (Sorted ss) := by
  unfold Sorted; infer_instance

/-- Spans that lie one behind the other. -/
structure Apart (ss : List Span) : Prop where
  le : ∀ s ∈ ss, s.first ≤ s.last
  pairwise : ss.Pairwise fun a b => a.last < b.first

theorem Apart.sorted {ss : List Span} (h : Apart ss) : Sorted ss := by
  apply h.pairwise.imp_of_mem
  intro a b ha _ hab
  have := h.le a ha
  omega

/-! ## The layout of brackets -/

/-- The numbers of the spans that have an operation as one of their two bounds. -/
def numbersAt (bound : Span → Nat) (ss : List Span) (i : Nat) : List Nat :=
  (ss.zipIdx.filter fun e => bound e.1 == i).map (·.2)

/-- An operation with the brackets around it. -/
def block (opened ended : List Span) (i : Nat) : List Piece :=
  (numbersAt (·.first) opened i).map .opener ++
    .kept i :: (numbersAt (·.last) ended i).map .closer

/-- All operations with the brackets around them. -/
def layout (size : Nat) (opened ended : List Span) : List Piece :=
  (List.range size).flatMap (block opened ended)

/-- The spans up to the first that starts before the one in front of it. -/
def inOrder : List Span → List Span
  | [] => []
  | [s] => [s]
  | s :: t :: ss => if s.first ≤ t.first then s :: inOrder (t :: ss) else [s]

/-! ## Sorted lists of keys -/

theorem takeWhile_eq_filter {α : Type} (key : α → Nat) (i : Nat) (l : List α)
    (sorted : l.Pairwise fun a b => key a ≤ key b) (low : ∀ a ∈ l, i ≤ key a) :
    (l.takeWhile fun a => key a == i) = l.filter fun a => key a == i := by
  induction l with
  | nil => rfl
  | cons a l ih =>
    rw [List.pairwise_cons] at sorted
    have ih := ih sorted.2 fun b hb => low b (List.mem_cons_of_mem a hb)
    by_cases h : key a = i
    · simp [h, ih]
    · have above : ∀ b ∈ l, (key b == i) = false := by
        intro b hb
        have h1 := sorted.1 b hb
        have h2 := low a List.mem_cons_self
        exact beq_false_of_ne (by omega)
      simp [h]
      intro b hb
      simpa using above b hb

theorem drop_takeWhile_eq_filter {α : Type} (key : α → Nat) (i : Nat) (l : List α)
    (sorted : l.Pairwise fun a b => key a ≤ key b) (low : ∀ a ∈ l, i ≤ key a) :
    l.drop (l.takeWhile fun a => key a == i).length = l.filter fun a => key a != i := by
  induction l with
  | nil => rfl
  | cons a l ih =>
    rw [List.pairwise_cons] at sorted
    have ih := ih sorted.2 fun b hb => low b (List.mem_cons_of_mem a hb)
    by_cases h : key a = i
    · simp [h, ih]
    · have above : ∀ b ∈ l, key b ≠ i := by
        intro b hb
        have h1 := sorted.1 b hb
        have h2 := low a List.mem_cons_self
        omega
      have kept : l.filter (fun b => key b != i) = l :=
        List.filter_eq_self.mpr fun b hb => by simpa using above b hb
      simp [h, kept]

/-! ## Spans in order -/

theorem inOrder_cons (s : Span) (ss : List Span) : ∃ rest, inOrder (s :: ss) = s :: rest := by
  cases ss with
  | nil => exact ⟨[], rfl⟩
  | cons t ss =>
    rw [inOrder]
    split
    · exact ⟨inOrder (t :: ss), rfl⟩
    · exact ⟨[], rfl⟩

theorem inOrder_prefix_self (ss : List Span) : inOrder ss <+: ss := by
  fun_induction inOrder ss with
  | case1 => exact List.prefix_rfl
  | case2 s => exact List.prefix_rfl
  | case3 s t ss h ih => exact List.prefix_cons_inj s |>.mpr ih
  | case4 s t ss h => exact ⟨t :: ss, rfl⟩

theorem sorted_inOrder (ss : List Span) : Sorted (inOrder ss) := by
  fun_induction inOrder ss with
  | case1 => exact List.Pairwise.nil
  | case2 s => exact List.pairwise_singleton _ s
  | case3 s t ss h ih =>
    refine List.pairwise_cons.mpr ⟨fun u hu => ?_, ih⟩
    obtain ⟨rest, hrest⟩ := inOrder_cons t ss
    rw [hrest] at ih hu
    rcases List.mem_cons.mp hu with rfl | hu
    · exact h
    · exact Nat.le_trans h ((List.pairwise_cons.mp ih).1 u hu)
  | case4 s t ss h => exact List.pairwise_singleton _ s

theorem inOrder_of_sorted {ss : List Span} (sorted : Sorted ss) : inOrder ss = ss := by
  fun_induction inOrder ss with
  | case1 => rfl
  | case2 s => rfl
  | case3 s t ss h ih => rw [ih (List.pairwise_cons.mp sorted).2]
  | case4 s t ss h =>
    exact absurd ((List.pairwise_cons.mp sorted).1 t List.mem_cons_self) h

/-! ## Openers that are not reached -/

theorem insertBrackets_of_passed (ops : List Operation) (openers : List (Nat × Operation)) :
    ∀ (i : Nat) (ends : List Nat), (∀ o ∈ openers.head?, o.1 < i) →
      insertBrackets i openers ends ops = insertBrackets i [] ends ops := by
  induction ops with
  | nil => exact fun _ _ _ => rfl
  | cons op ops ih =>
    intro i ends passed
    have hnone : (openers.takeWhile fun o => o.1 == i) = [] := by
      cases openers with
      | nil => rfl
      | cons o openers =>
        have := passed o rfl
        exact List.takeWhile_cons_of_neg (by simp; omega)
    simp only [insertBrackets, hnone, List.length_nil, List.drop_zero, List.takeWhile_nil]
    rw [ih (i + 1) _ fun o ho => Nat.lt_succ_of_lt (passed o ho)]

theorem insertBrackets_here (i : Nat) (opener : Operation) (openers : List (Nat × Operation))
    (ends : List Nat) (op : Operation) (ops : List Operation) :
    insertBrackets i ((i, opener) :: openers) ends (op :: ops) =
      opener :: insertBrackets i openers ends (op :: ops) := by
  simp [insertBrackets]

theorem insertBrackets_later {i : Nat} {openers : List (Nat × Operation)}
    (h : ∀ o ∈ openers.head?, o.1 ≠ i) (ends : List Nat) (op : Operation)
    (ops : List Operation) :
    insertBrackets i openers ends (op :: ops) =
      op :: ((ends.takeWhile (· == i)).map fun _ => close) ++
        insertBrackets (i + 1) openers (ends.drop (ends.takeWhile (· == i)).length) ops := by
  have hnone : (openers.takeWhile fun o => o.1 == i) = [] := by
    cases openers with
    | nil => rfl
    | cons o openers =>
      have := h o rfl
      exact List.takeWhile_cons_of_neg (by simpa using this)
  simp only [insertBrackets, hnone, List.length_nil, List.drop_zero]
  rfl

/-- Only openers of spans that start in order are written. -/
theorem insertBrackets_inOrder (opener : Nat → Operation) (ops : List Operation) :
    ∀ (i n : Nat) (ss : List Span) (ends : List Nat), (∀ s ∈ ss.head?, i ≤ s.first) →
      insertBrackets i (openersFrom opener n ss) ends ops =
        insertBrackets i (openersFrom opener n (inOrder ss)) ends ops := by
  induction ops with
  | nil => exact fun _ _ _ _ _ => rfl
  | cons op ops ih =>
    intro i n ss ends
    induction ss generalizing n with
    | nil => exact fun _ => rfl
    | cons s ss ihs =>
      intro hlow
      obtain ⟨rest, hrest⟩ := inOrder_cons s ss
      by_cases hs : s.first = i
      · cases ss with
        | nil => rfl
        | cons t ss =>
          rw [inOrder]
          simp only [openersFrom, hs]
          rw [insertBrackets_here]
          split
          · next hst =>
            have ihs := ihs (n + 1) fun u hu => by
              rw [List.head?_cons, Option.mem_def, Option.some_inj] at hu
              rw [← hu]
              omega
            rw [openersFrom] at ihs
            rw [openersFrom, hs, insertBrackets_here, ihs]
          · next hst =>
            have hpassed := insertBrackets_of_passed (op :: ops)
              ((t.first, opener (n + 1)) :: openersFrom opener (n + 2) ss) i ends
              fun o ho => by
                rw [List.head?_cons, Option.mem_def, Option.some_inj] at ho
                rw [← ho]
                show t.first < i
                omega
            rw [hpassed, openersFrom, openersFrom, hs, insertBrackets_here]
      · have hlater : i + 1 ≤ s.first := by
          have := hlow s rfl
          omega
        have hnext := ih (i + 1) n (s :: ss) (ends.drop (ends.takeWhile (· == i)).length)
          fun u hu => by
            rw [List.head?_cons, Option.mem_def, Option.some_inj] at hu
            rw [← hu]
            exact hlater
        rw [hrest] at hnext ⊢
        rw [insertBrackets_later (by simp [openersFrom, hs]), hnext,
          insertBrackets_later (by simp [openersFrom, hs])]

/-! ## Where brackets stand -/

theorem openersFrom_eq (opener : Nat → Operation) (n : Nat) (ss : List Span) :
    openersFrom opener n ss = (ss.zipIdx n).map fun e => (e.1.first, opener e.2) := by
  induction ss generalizing n with
  | nil => rfl
  | cons s ss ih => rw [openersFrom, ih, List.zipIdx_cons, List.map_cons]

/-- What is inserted around the operations from `i` on, while no key lies behind. -/
theorem insertBrackets_eq (ops : List Operation) (k : Nat) :
    ∀ (i : Nat) (openers : List (Nat × Operation)) (ends : List Nat), ops.length = i + k →
      (openers.Pairwise fun a b => a.1 ≤ b.1) → (∀ o ∈ openers, i ≤ o.1) →
      (ends.Pairwise fun a b => a ≤ b) → (∀ e ∈ ends, i ≤ e) →
      insertBrackets i openers ends (ops.drop i) =
        (List.range' i k).flatMap fun j => (openers.filter (·.1 == j)).map (·.2) ++
          (ops[j]?.toList ++ (ends.filter (· == j)).map fun _ => close) := by
  induction k with
  | zero =>
    intro i openers ends hk _ _ _ _
    rw [List.drop_of_length_le (by omega)]
    rfl
  | succ k ih =>
    intro i openers ends hk ho hol he hel
    have hi : i < ops.length := by omega
    have hrest := ih (i + 1) (openers.filter (·.1 != i)) (ends.filter (· != i)) (by omega)
      (ho.filter _)
      (by
        intro o h
        rw [List.mem_filter] at h
        have h1 := hol o h.1
        have h2 : o.1 ≠ i := by simpa using h.2
        omega)
      (he.filter _)
      (by
        intro e h
        rw [List.mem_filter] at h
        have h1 := hel e h.1
        have h2 : e ≠ i := by simpa using h.2
        omega)
    rw [List.drop_eq_getElem_cons hi]
    simp only [insertBrackets]
    rw [takeWhile_eq_filter (fun o : Nat × Operation => o.1) i openers ho hol,
      takeWhile_eq_filter (fun e : Nat => e) i ends he hel]
    have hod := drop_takeWhile_eq_filter (fun o : Nat × Operation => o.1) i openers ho hol
    have hed := drop_takeWhile_eq_filter (fun e : Nat => e) i ends he hel
    rw [takeWhile_eq_filter (fun o : Nat × Operation => o.1) i openers ho hol] at hod
    rw [takeWhile_eq_filter (fun e : Nat => e) i ends he hel] at hed
    rw [hod, hed, hrest, List.range'_succ, List.flatMap_cons, List.getElem?_eq_getElem hi]
    simp only [Option.toList_some, List.append_assoc, List.cons_append, List.nil_append]
    congr 3
    -- Keys at `i` are gone, so what is left at later places is what was there.
    apply List.flatMap_congr
    intro j hj
    have hji : i < j := by rw [List.mem_range'_1] at hj; omega
    have later : ∀ a : Nat, (a == j && a != i) = (a == j) := by
      intro a
      by_cases h : a = j
      · subst h; simp; omega
      · simp [h]
    simp only [List.filter_filter, later]

theorem openersFrom_filter (opener : Nat → Operation) (ss : List Span) (j : Nat) :
    ((openersFrom opener 0 ss).filter (·.1 == j)).map (·.2) =
      (numbersAt (·.first) ss j).map opener := by
  rw [openersFrom_eq, numbersAt, List.filter_map, List.map_map, List.map_map]
  rfl

theorem length_numbersAt (bound : Span → Nat) (ss : List Span) (j : Nat) :
    (numbersAt bound ss j).length = (ss.map bound).count j := by
  rw [numbersAt, List.length_map, ← List.countP_eq_length_filter, List.count, List.countP_map]
  conv_rhs => rw [← List.zipIdx_map_fst 0 ss, List.countP_map]
  rfl

theorem rendered_block (ops : List Operation) (opened ended : List Span)
    (opener : Nat → Operation) (j : Nat) :
    (block opened ended j).filterMap (Piece.operation? ops opener) =
      (numbersAt (·.first) opened j).map opener ++
        (ops[j]?.toList ++ List.replicate (numbersAt (·.last) ended j).length close) := by
  have hopen : Piece.operation? ops opener ∘ Piece.opener = some ∘ opener := rfl
  have hclose : Piece.operation? ops opener ∘ Piece.closer = some ∘ fun _ => close := rfl
  rw [block, List.filterMap_append, List.filterMap_map, hopen, List.filterMap_eq_map,
    List.filterMap_cons, List.filterMap_map, hclose, List.filterMap_eq_map, List.map_const',
    Piece.operation?]
  cases ops[j]? <;> rfl

theorem sorted_openersFrom {ss : List Span} (opener : Nat → Operation) (sorted : Sorted ss) :
    (openersFrom opener 0 ss).Pairwise fun a b => a.1 ≤ b.1 := by
  rw [openersFrom_eq, List.pairwise_map]
  have hss : (ss.zipIdx.map (·.1)).Pairwise fun a b => a.first ≤ b.first := by
    rw [List.zipIdx_map_fst]; exact sorted
  rw [List.pairwise_map] at hss
  exact hss

theorem sorted_ends (ss : List Span) :
    ((ss.map (·.last)).mergeSort (· ≤ ·)).Pairwise fun a b => a ≤ b := by
  have h : ((ss.map (·.last)).mergeSort (· ≤ ·)).Pairwise fun a b => decide (a ≤ b) = true :=
    List.pairwise_mergeSort (fun a b c h1 h2 => by simp at h1 h2 ⊢; omega)
      (fun a b => by simp; omega) _
  exact h.imp fun h => of_decide_eq_true h

/-- The openers that are reached stand right before their first operations, and all ends right behind
their last ones. -/
theorem wrap_eq_layout (ops : List Operation) (ss : List Span) (opener : Nat → Operation) :
    wrap ops ss opener =
      (layout ops.length (inOrder ss) ss).filterMap (Piece.operation? ops opener) := by
  have h := insertBrackets_eq ops ops.length 0 _ _ (by omega)
    (sorted_openersFrom opener (sorted_inOrder ss)) (fun _ _ => Nat.zero_le _) (sorted_ends ss)
    (fun _ _ => Nat.zero_le _)
  rw [List.drop_zero] at h
  rw [wrap, insertBrackets_inOrder opener ops 0 0 ss _ (fun _ _ => Nat.zero_le _), h, layout,
    List.filterMap_flatMap, List.range_eq_range']
  apply List.flatMap_congr
  intro j _
  rw [rendered_block, openersFrom_filter, List.filter_beq, (List.mergeSort_perm _ _).count_eq,
    List.map_replicate, length_numbersAt]

/-! ## Brackets of all spans that end where there are operations -/

/-- Bounds of spans that have their operations among the first `size`. -/
def Within (size : Nat) (ss : List Span) : Prop := ∀ s ∈ ss, s.first < size ∧ s.last < size

theorem mem_numbersAt {bound : Span → Nat} {ss : List Span} {i n : Nat} :
    n ∈ numbersAt bound ss i ↔ ∃ s, ss[n]? = some s ∧ bound s = i := by
  simp only [numbersAt, List.mem_map, List.mem_filter, List.mem_zipIdx_iff_getElem?, beq_iff_eq]
  constructor
  · intro h
    obtain ⟨⟨s, m⟩, ⟨hs, hi⟩, rfl⟩ := h
    exact ⟨s, hs, hi⟩
  · intro hx
    obtain ⟨s, hs, hi⟩ := hx
    exact ⟨(s, n), ⟨hs, hi⟩, rfl⟩

theorem nodup_numbersAt (bound : Span → Nat) (ss : List Span) (i : Nat) :
    (numbersAt bound ss i).Nodup :=
  (List.nodup_zipIdx_map_snd ss).sublist (List.filter_sublist.map _)

theorem perm_numbersAt (bound : Span → Nat) {size : Nat} {ss : List Span}
    (within : ∀ s ∈ ss, bound s < size) :
    ((List.range size).flatMap (numbersAt bound ss)).Perm (List.range ss.length) := by
  have hnodup : ((List.range size).flatMap (numbersAt bound ss)).Nodup := by
    rw [List.nodup_flatMap]
    refine ⟨fun i _ => nodup_numbersAt bound ss i, ?_⟩
    apply List.nodup_range.imp
    intro i j hij n hi hj
    obtain ⟨s, hs, rfl⟩ := mem_numbersAt.mp hi
    obtain ⟨s', hs', rfl⟩ := mem_numbersAt.mp hj
    rw [hs, Option.some_inj] at hs'
    exact hij (congrArg bound hs')
  rw [List.perm_ext_iff_of_nodup hnodup List.nodup_range]
  intro n
  simp only [List.mem_flatMap, List.mem_range, mem_numbersAt]
  constructor
  · intro h
    obtain ⟨_, _, s, hs, _⟩ := h
    exact (List.getElem?_eq_some_iff.mp hs).1
  · intro hn
    exact ⟨bound ss[n], within _ (List.getElem_mem hn), ss[n], List.getElem?_eq_getElem hn, rfl⟩

theorem layout_split (opened ended : List Span) {i size : Nat} (h : i < size) :
    ∃ before after, layout size opened ended = before ++ (block opened ended i ++ after) := by
  obtain ⟨before, after, hr⟩ := List.append_of_mem (List.mem_range.mpr h)
  refine ⟨before.flatMap (block opened ended), after.flatMap (block opened ended), ?_⟩
  rw [layout, hr, List.flatMap_append, List.flatMap_cons]

theorem bracketing_layout {size : Nat} {opened ended : List Span} (front : Within size opened)
    (back : Within size ended) : Bracketing size opened ended (layout size opened ended) where
  erased := by
    have hblock : ∀ i, (block opened ended i).filterMap Piece.kept? = [i] := by
      intro i
      simp [block, Piece.kept?, List.filterMap_map, Function.comp_def]
    rw [layout, List.filterMap_flatMap]
    simp [hblock, List.flatMap_singleton']
  opened_once := by
    have hblock : ∀ i, (block opened ended i).filterMap Piece.opener? =
        numbersAt (·.first) opened i := by
      intro i
      simp [block, Piece.opener?, List.filterMap_cons, List.filterMap_map, Function.comp_def]
    rw [layout, List.filterMap_flatMap]
    simp only [hblock]
    exact perm_numbersAt _ fun s hs => (front s hs).1
  ended_once := by
    have hblock : ∀ i, (block opened ended i).filterMap Piece.closer? =
        numbersAt (·.last) ended i := by
      intro i
      simp [block, Piece.closer?, List.filterMap_cons, List.filterMap_map, Function.comp_def]
    rw [layout, List.filterMap_flatMap]
    simp only [hblock]
    exact perm_numbersAt _ fun s hs => (back s hs).2
  opened := by
    intro n s hs
    obtain ⟨before, after, hl⟩ :=
      layout_split opened ended (front s (List.mem_of_getElem? hs)).1
    obtain ⟨ns, ms, hn⟩ := List.append_of_mem (mem_numbersAt.mpr ⟨s, hs, rfl⟩)
    refine ⟨before ++ ns.map .opener, ms.map .opener,
      (numbersAt (·.last) ended s.first).map .closer ++ after, ?_, ?_⟩
    · rw [hl, block, hn]
      simp
    · intro p hp
      obtain ⟨m, _, rfl⟩ := List.mem_map.mp hp
      rfl
  ended := by
    intro n s hs
    obtain ⟨before, after, hl⟩ :=
      layout_split opened ended (back s (List.mem_of_getElem? hs)).2
    obtain ⟨ns, ms, hn⟩ := List.append_of_mem (mem_numbersAt.mpr ⟨s, hs, rfl⟩)
    refine ⟨before ++ (numbersAt (·.first) opened s.last).map .opener, ns.map .closer,
      ms.map .closer ++ after, ?_, ?_⟩
    · rw [hl, block, hn]
      simp
    · intro p hp
      obtain ⟨m, _, rfl⟩ := List.mem_map.mp hp
      rfl

theorem bracketed_wrap {ops : List Operation} {ss : List Span} (opener : Nat → Operation)
    (within : Within ops.length ss) :
    Bracketed ops (inOrder ss) ss opener (wrap ops ss opener) :=
  ⟨layout ops.length (inOrder ss) ss,
    bracketing_layout (fun s hs => within s ((inOrder_prefix_self ss).mem hs)) within,
    wrap_eq_layout ops ss opener⟩

/-! ## Brackets that get lost -/

theorem Bracketing.length_eq {size : Nat} {opened ended : List Span} {pieces : List Piece}
    (h : Bracketing size opened ended pieces) :
    pieces.length = size + opened.length + ended.length := by
  have hsplit : ∀ ps : List Piece, ps.length = (ps.filterMap Piece.kept?).length +
      (ps.filterMap Piece.opener?).length + (ps.filterMap Piece.closer?).length := by
    intro ps
    induction ps with
    | nil => rfl
    | cons p ps ih =>
      rw [List.length_cons, ih]
      cases p <;> simp [List.filterMap_cons, Piece.kept?, Piece.opener?, Piece.closer?] <;> omega
  rw [hsplit, h.erased, h.opened_once.length_eq, h.ended_once.length_eq, List.length_range,
    List.length_range, List.length_range]

theorem Bracketed.length_eq {ops : List Operation} {opened ended : List Span}
    {opener : Nat → Operation} {out : List Operation} (h : Bracketed ops opened ended opener out) :
    out.length = ops.length + opened.length + ended.length := by
  obtain ⟨pieces, hb, rfl⟩ := h
  rw [← hb.length_eq]
  refine List.filterMap_length_eq_length.mpr ?_
  intro p hp
  cases p with
  | opener n => rfl
  | closer n => rfl
  | kept i =>
    have hi : i ∈ pieces.filterMap Piece.kept? := List.mem_filterMap.mpr ⟨.kept i, hp, rfl⟩
    rw [hb.erased, List.mem_range] at hi
    simpa [Piece.operation?] using hi

/-- What bracketed operations consist of. -/
theorem Bracketed.mem {ops : List Operation} {opened ended : List Span}
    {opener : Nat → Operation} {out : List Operation} (h : Bracketed ops opened ended opener out)
    {op : Operation} : op ∈ out ↔
      op ∈ ops ∨ (∃ n < opened.length, op = opener n) ∨ (ended ≠ [] ∧ op = close) := by
  obtain ⟨pieces, hb, rfl⟩ := h
  have hkept : ∀ i, Piece.kept i ∈ pieces ↔ i < ops.length := by
    intro i
    rw [← List.mem_range, ← hb.erased, List.mem_filterMap]
    constructor
    · exact fun h => ⟨_, h, rfl⟩
    · rintro ⟨p, hp, h⟩
      cases p <;> simp only [Piece.kept?, Option.some_inj, reduceCtorEq] at h
      rwa [← h]
  have hopener : ∀ n, Piece.opener n ∈ pieces ↔ n < opened.length := by
    intro n
    rw [← List.mem_range, ← hb.opened_once.mem_iff, List.mem_filterMap]
    constructor
    · exact fun h => ⟨_, h, rfl⟩
    · rintro ⟨p, hp, h⟩
      cases p <;> simp only [Piece.opener?, Option.some_inj, reduceCtorEq] at h
      rwa [← h]
  have hcloser : ∀ n, Piece.closer n ∈ pieces ↔ n < ended.length := by
    intro n
    rw [← List.mem_range, ← hb.ended_once.mem_iff, List.mem_filterMap]
    constructor
    · exact fun h => ⟨_, h, rfl⟩
    · rintro ⟨p, hp, h⟩
      cases p <;> simp only [Piece.closer?, Option.some_inj, reduceCtorEq] at h
      rwa [← h]
  rw [List.mem_filterMap]
  constructor
  · rintro ⟨p, hp, hop⟩
    cases p with
    | opener n => exact Or.inr (Or.inl ⟨n, (hopener n).mp hp, (Option.some.inj hop).symm⟩)
    | kept i => exact Or.inl (List.mem_of_getElem? hop)
    | closer n =>
      have hn := (hcloser n).mp hp
      exact Or.inr (Or.inr ⟨List.ne_nil_of_length_pos (by omega), (Option.some.inj hop).symm⟩)
  · rintro (hop | ⟨n, hn, rfl⟩ | ⟨hne, rfl⟩)
    · obtain ⟨i, hi⟩ := List.getElem?_of_mem hop
      exact ⟨.kept i, (hkept i).mpr (List.getElem?_eq_some_iff.mp hi).1, hi⟩
    · exact ⟨.opener n, (hopener n).mpr hn, rfl⟩
    · exact ⟨.closer 0, (hcloser 0).mpr (List.length_pos_iff.mpr hne), rfl⟩

/-- Spans of some operations get all their brackets just when they start in order. -/
theorem matched_iff_sorted {ops : List Operation} {ss : List Span} (opener : Nat → Operation)
    (within : Within ops.length ss) :
    Matched ops ss opener (wrap ops ss opener) ↔ Sorted ss := by
  have hwrap := bracketed_wrap opener within
  constructor
  · intro h
    have hall : (inOrder ss).length = ss.length := by
      have h1 := hwrap.length_eq
      have h2 := Bracketed.length_eq h
      omega
    rw [← (inOrder_prefix_self ss).eq_of_length hall]
    exact sorted_inOrder ss
  · intro h
    rw [inOrder_of_sorted h] at hwrap
    exact hwrap

/-! ## Bracketing operation by operation -/

theorem Apart.unique {ss : List Span} (h : Apart ss) {n m k : Nat} {s t : Span}
    (hs : ss[n]? = some s) (ht : ss[m]? = some t) (hsk : s.first ≤ k ∧ k ≤ s.last)
    (htk : t.first ≤ k ∧ k ≤ t.last) : n = m := by
  obtain ⟨hn, rfl⟩ := List.getElem?_eq_some_iff.mp hs
  obtain ⟨hm, rfl⟩ := List.getElem?_eq_some_iff.mp ht
  have hpairs := List.pairwise_iff_getElem.mp h.pairwise
  rcases Nat.lt_trichotomy n m with hlt | heq | hgt
  · have := hpairs n m hn hm hlt
    omega
  · exact heq
  · have := hpairs m n hm hn hgt
    omega

/-- Spans that lie apart have an operation as a bound at most once. -/
theorem numbersAt_cases (bound : Span → Nat) {ss : List Span} (h : Apart ss)
    (inside : ∀ s ∈ ss, s.first ≤ bound s ∧ bound s ≤ s.last) (k : Nat) :
    (numbersAt bound ss k = [] ∧ ∀ s ∈ ss, bound s ≠ k) ∨
      ∃ n s, numbersAt bound ss k = [n] ∧ ss[n]? = some s ∧ bound s = k := by
  cases hn : numbersAt bound ss k with
  | nil =>
    refine Or.inl ⟨rfl, fun s hs hk => ?_⟩
    obtain ⟨n, hs⟩ := List.getElem?_of_mem hs
    have hmem := mem_numbersAt.mpr ⟨s, hs, hk⟩
    rw [hn] at hmem
    exact absurd hmem (by simp)
  | cons n ns =>
    obtain ⟨s, hs, hk⟩ := mem_numbersAt.mp (hn ▸ List.mem_cons_self : n ∈ numbersAt bound ss k)
    have hnodup := nodup_numbersAt bound ss k
    rw [hn, List.nodup_cons] at hnodup
    cases ns with
    | nil => exact Or.inr ⟨n, s, rfl, hs, hk⟩
    | cons m ms =>
      obtain ⟨t, ht, hk'⟩ := mem_numbersAt.mp
        (hn ▸ List.mem_cons_of_mem n List.mem_cons_self : m ∈ numbersAt bound ss k)
      have hsk := inside s (List.mem_of_getElem? hs)
      have htk := inside t (List.mem_of_getElem? ht)
      rw [hk] at hsk
      rw [hk'] at htk
      obtain rfl := h.unique hs ht hsk htk
      exact absurd List.mem_cons_self hnodup.1

theorem layout_succ (k : Nat) (opened ended : List Span) :
    layout (k + 1) opened ended = layout k opened ended ++ block opened ended k := by
  rw [layout, List.range_succ, List.flatMap_append]
  simp [layout]

theorem closers_of_inside {ss : List Span} (apart : Apart ss) {n k : Nat} {s : Span}
    (hs : ss[n]? = some s) (hsk : s.first ≤ k ∧ k ≤ s.last) :
    numbersAt (·.last) ss k = if s.last = k then [n] else [] := by
  rcases numbersAt_cases (·.last) apart (fun t ht => ⟨apart.le t ht, Nat.le_refl _⟩) k with
    ⟨hnil, hne⟩ | ⟨m, t, hm, ht, rfl⟩
  · rw [hnil, if_neg (hne s (List.mem_of_getElem? hs))]
  · obtain rfl := apart.unique hs ht hsk
      ⟨apart.le t (List.mem_of_getElem? ht), Nat.le_refl _⟩
    rw [hs] at ht
    rw [hm, Option.some.inj ht, if_pos rfl]

/-- A walk along the operations that writes the brackets of spans on its way: a property of the span
that is open, of the number of operations read, and of what is written so far, with every step of the
walk keeping it. -/
structure Walk (ops : List Operation) (ss : List Span) (opener : Nat → Operation)
    (motive : Option Nat → Nat → List Operation → Prop) : Prop where
  start : motive none 0 []
  opens : ∀ n s out, ss[n]? = some s → motive none s.first out →
    motive (some n) s.first (out ++ [opener n])
  outside : ∀ k op out, ops[k]? = some op → (∀ s ∈ ss, ¬(s.first ≤ k ∧ k ≤ s.last)) →
    motive none k out → motive none (k + 1) (out ++ [op])
  inside : ∀ n s k op out, ss[n]? = some s → s.first ≤ k ∧ k ≤ s.last → ops[k]? = some op →
    motive (some n) k out → motive (some n) (k + 1) (out ++ [op])
  closes : ∀ n s out, ss[n]? = some s → motive (some n) (s.last + 1) out →
    motive none (s.last + 1) (out ++ [close])

/-- The span that is open before an operation, which is not its first one. -/
def OpenBefore (ss : List Span) (k : Nat) : Option Nat → Prop
  | none => ∀ s ∈ ss, ¬(s.first < k ∧ k ≤ s.last)
  | some n => ∃ s, ss[n]? = some s ∧ s.first < k ∧ k ≤ s.last

namespace Walk

variable {ops : List Operation} {ss : List Span} {opener : Nat → Operation}
  {motive : Option Nat → Nat → List Operation → Prop}

theorem read (walk : Walk ops ss opener motive) (apart : Apart ss) {n k : Nat} {s : Span}
    {op : Operation} {out : List Operation} (hop : ops[k]? = some op) (hs : ss[n]? = some s)
    (hsk : s.first ≤ k ∧ k ≤ s.last) (h : motive (some n) k out) :
    ∃ o, motive o (k + 1)
        (out ++ op :: List.replicate (numbersAt (·.last) ss k).length close) ∧
      OpenBefore ss (k + 1) o := by
  have hread := walk.inside n s k op out hs hsk hop h
  rw [closers_of_inside apart hs hsk]
  by_cases hlast : s.last = k
  · subst hlast
    refine ⟨none, ?_, fun t ht hlt => ?_⟩
    · simpa using walk.closes n s _ hs hread
    · obtain ⟨m, ht⟩ := List.getElem?_of_mem ht
      obtain rfl := apart.unique hs ht hsk ⟨by omega, by omega⟩
      rw [hs] at ht
      rw [← Option.some.inj ht] at hlt
      omega
  · refine ⟨some n, ?_, s, hs, by omega, by omega⟩
    simpa [hlast] using hread

theorem step (walk : Walk ops ss opener motive) (apart : Apart ss) {k : Nat} {op : Operation}
    {o : Option Nat} {out : List Operation} (hop : ops[k]? = some op) (hopen : OpenBefore ss k o)
    (h : motive o k out) :
    ∃ o, motive o (k + 1)
        (out ++ (block ss ss k).filterMap (Piece.operation? ops opener)) ∧
      OpenBefore ss (k + 1) o := by
  rw [rendered_block, hop, Option.toList_some]
  rcases numbersAt_cases (·.first) apart (fun t ht => ⟨Nat.le_refl _, apart.le t ht⟩) k with
    ⟨hnil, hne⟩ | ⟨n, s, hn, hs, rfl⟩
  · rw [hnil]
    cases o with
    | some n =>
      obtain ⟨s, hs, hlt, hle⟩ := hopen
      exact walk.read apart hop hs ⟨by omega, hle⟩ h
    | none =>
      have hout : ∀ s ∈ ss, ¬(s.first ≤ k ∧ k ≤ s.last) := by
        intro s hs hsk
        have := hne s hs
        exact hopen s hs ⟨by omega, hsk.2⟩
      have hlast : numbersAt (·.last) ss k = [] := by
        rw [List.eq_nil_iff_forall_not_mem]
        intro n hn
        obtain ⟨s, hs, rfl⟩ := mem_numbersAt.mp hn
        exact hout s (List.mem_of_getElem? hs)
          ⟨apart.le s (List.mem_of_getElem? hs), Nat.le_refl _⟩
      refine ⟨none, ?_, fun s hs hlt => hout s hs ⟨by omega, by omega⟩⟩
      simpa [hlast] using walk.outside k op out hop hout h
  · -- A span that starts here finds no other one open.
    have hsk := And.intro (Nat.le_refl s.first) (apart.le s (List.mem_of_getElem? hs))
    obtain rfl : o = none := by
      cases o with
      | none => rfl
      | some m =>
        obtain ⟨t, ht, hlt, hle⟩ := hopen
        obtain rfl := apart.unique hs ht hsk ⟨by omega, hle⟩
        rw [hs] at ht
        rw [Option.some.inj ht] at hlt
        exact absurd hlt (Nat.lt_irrefl _)
    rw [hn]
    simpa using walk.read apart hop hs hsk (walk.opens n s out hs h)

/-- The walk ends with all operations read, no span open, and all brackets written. -/
theorem wrap (walk : Walk ops ss opener motive) (apart : Apart ss)
    (within : Within ops.length ss) : motive none ops.length (Marking.wrap ops ss opener) := by
  have hwalk : ∀ k ≤ ops.length, ∃ o,
      motive o k ((layout k ss ss).filterMap (Piece.operation? ops opener)) ∧
        OpenBefore ss k o := by
    intro k
    induction k with
    | zero => exact fun _ => ⟨none, walk.start, fun s _ h => absurd h.1 (Nat.not_lt_zero _)⟩
    | succ k ih =>
      intro hk
      obtain ⟨o, hmotive, hopen⟩ := ih (Nat.le_of_succ_le hk)
      rw [layout_succ, List.filterMap_append]
      exact walk.step apart (List.getElem?_eq_getElem hk) hopen hmotive
  obtain ⟨o, hmotive, hopen⟩ := hwalk ops.length (Nat.le_refl _)
  rw [wrap_eq_layout ops ss opener, inOrder_of_sorted apart.sorted]
  cases o with
  | none => exact hmotive
  | some n =>
    obtain ⟨s, hs, _, hle⟩ := hopen
    have := (within s (List.mem_of_getElem? hs)).2
    omega

end Walk

end AccessiblePdf.Marking
