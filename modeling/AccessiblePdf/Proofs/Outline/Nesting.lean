import AccessiblePdf.Proofs.Tree
import Mathlib.Data.List.TakeWhile

/-!
How values with levels become trees. Entering them one after the other keeps what the open trees will
become (`Nesting.closeWhile_settle`, `Nesting.enter_settle`), so they become the trees in which below each
value stand the deeper ones that follow it (`Nesting.trees_eq_nest`). These have the values in the order of
the list, and each value stands below the last one before it that has a smaller level, or at the top if
there is none (`Nesting.trees_below_nearest`).
-/
namespace AccessiblePdf

namespace Tree

variable {α : Type}

/-- Values by level as trees: below the first one, the deeper ones that follow it. -/
def nest : List (Nat × α) → List (Tree α)
  | [] => []
  | (level, a) :: rest =>
    node a (nest (rest.takeWhile fun e => level < e.1)) ::
      nest (rest.dropWhile fun e => level < e.1)
termination_by entries => entries.length
decreasing_by
  · exact Nat.lt_succ_of_le (List.takeWhile_sublist _).length_le
  · exact Nat.lt_succ_of_le (List.dropWhile_sublist _).length_le

end Tree

/-! ## The open trees -/

namespace Nesting

open Tree

variable {α : Type}

/-- What open trees become, the innermost first, when some trees are closed in it and then values come. -/
def settle : List (Nat × Tree α) → List (Tree α) → List (Nat × α) → List (Tree α)
  | [], closed, entries => closed ++ nest entries
  | (level, t) :: outer, closed, entries =>
    settle outer [node t.value (t.children ++ closed ++ nest (entries.takeWhile fun e => level < e.1))]
      (entries.dropWhile fun e => level < e.1)

theorem takeWhile_dropWhile_of_lt {outer level : Nat} (h : outer < level) (entries : List (Nat × α)) :
    (entries.takeWhile fun e => outer < e.1).takeWhile (fun e => level < e.1) =
        entries.takeWhile (fun e => level < e.1) ∧
      (entries.takeWhile fun e => outer < e.1).dropWhile (fun e => level < e.1) =
        (entries.dropWhile fun e => level < e.1).takeWhile (fun e => outer < e.1) ∧
      (entries.dropWhile fun e => level < e.1).dropWhile (fun e => outer < e.1) =
        entries.dropWhile fun e => outer < e.1 := by
  induction entries with
  | nil => exact ⟨rfl, rfl, rfl⟩
  | cons e entries ih =>
    by_cases hlevel : level < e.1
    · have houter : outer < e.1 := Nat.lt_trans h hlevel
      simp [hlevel, houter, ih]
    · by_cases houter : outer < e.1 <;> simp [hlevel, houter]

/-- Closing the innermost tree does not change what the open trees become, unless the values that come go
on below it. -/
theorem close_settle (n : Nesting α) {entries : List (Nat × α)}
    (done : ∀ e ∈ n.opened.head?, entries.takeWhile (fun x => e.1 < x.1) = []) :
    n.close.roots ++ settle n.close.opened [] entries = n.roots ++ settle n.opened [] entries := by
  have hdrop : ∀ {level : Nat}, entries.takeWhile (fun x => level < x.1) = [] →
      entries.dropWhile (fun x => level < x.1) = entries := by
    intro level h
    have happend := List.takeWhile_append_dropWhile (p := fun x : Nat × α => level < x.1) (l := entries)
    rwa [h, List.nil_append] at happend
  obtain ⟨_ | ⟨⟨level, t⟩, _ | ⟨⟨outer, parent⟩, opened⟩⟩, roots, rising⟩ := n
  · rfl
  · have hnil := done _ rfl
    have htree : node t.value t.children = t := by cases t; rfl
    simp only [close, settle, hnil, hdrop hnil, nest, List.append_nil, htree, List.nil_append,
      List.append_assoc]
  · have hnil := done _ rfl
    have htree : node t.value t.children = t := by cases t; rfl
    simp only [close, settle, hnil, hdrop hnil, nest, List.append_nil, htree]
    rfl

theorem closeWhile_settle {p : Nat → Bool} {entries : List (Nat × α)}
    (done : ∀ level, p level = true → entries.takeWhile (fun x => level < x.1) = [])
    (n : Nesting α) : (n.closeWhile p).roots ++ settle (n.closeWhile p).opened [] entries =
      n.roots ++ settle n.opened [] entries := by
  fun_induction closeWhile p n with
  | case1 n h ih =>
    rw [ih]
    refine close_settle n fun e he => done e.1 ?_
    rw [Option.mem_def.mp he] at h
    exact h
  | case2 => rfl

/-- Entering the next value does not change what the open trees become. -/
theorem enter_settle (n : Nesting α) (e : Nat × α) (entries : List (Nat × α)) :
    (n.enter e).roots ++ settle (n.enter e).opened [] entries =
      n.roots ++ settle n.opened [] (e :: entries) := by
  obtain ⟨level, a⟩ := e
  have hdone : ∀ l, decide (level ≤ l) = true →
      ((level, a) :: entries).takeWhile (fun x => l < x.1) = [] := by
    intro l hl
    rw [List.takeWhile_cons_of_neg (by simpa using hl)]
  rw [← closeWhile_settle hdone n]
  have hlt := closeWhile_lt level n
  simp only [enter]
  congr 1
  generalize (n.closeWhile (level ≤ ·)).opened = opened at hlt
  cases opened with
  | nil => simp [settle, nest, value, children]
  | cons inner outer =>
    obtain ⟨l, t⟩ := inner
    have hl : l < level := hlt _ List.mem_cons_self
    have htakes : ((level, a) :: entries).takeWhile (fun x => l < x.1) =
        (level, a) :: entries.takeWhile fun x => l < x.1 :=
      List.takeWhile_cons_of_pos (by simpa using hl)
    have hdrops : ((level, a) :: entries).dropWhile (fun x => l < x.1) =
        entries.dropWhile fun x => l < x.1 :=
      List.dropWhile_cons_of_pos (by simpa using hl)
    have hvalue : (node a ([] : List (Tree α))).value = a := rfl
    have hchildren : (node a ([] : List (Tree α))).children = [] := rfl
    obtain ⟨hbelow, hbetween, hbehind⟩ := takeWhile_dropWhile_of_lt hl entries
    simp only [settle, htakes, hdrops, nest, hvalue, hchildren, hbelow, hbetween, hbehind,
      List.nil_append, List.append_nil, List.append_assoc, List.singleton_append]

theorem trees_eq_nest (entries : List (Nat × α)) : trees entries = nest entries := by
  have hrun : ∀ n : Nesting α, (entries.foldl enter n).roots ++
      settle (entries.foldl enter n).opened [] [] = n.roots ++ settle n.opened [] entries := by
    induction entries with
    | nil => exact fun n => rfl
    | cons e entries ih => exact fun n => (ih (n.enter e)).trans (enter_settle n e entries)
  set last := entries.foldl enter empty
  have hclosed : (last.closeWhile fun _ => true).opened = [] := by
    have hstops := closeWhile_stops (fun _ => true) last
    cases h : (last.closeWhile fun _ => true).opened with
    | nil => rfl
    | cons => simp [h] at hstops
  have hend : (last.closeWhile fun _ => true).roots ++ settle (last.closeWhile fun _ => true).opened [] [] =
      last.roots ++ settle last.opened [] [] := closeWhile_settle (fun _ _ => rfl) last
  rw [hclosed, hrun, settle, nest, List.append_nil, List.append_nil] at hend
  exact hend.trans (by simp [settle, empty])

end Nesting

namespace Tree

variable {α : Type}

/-! ## The values -/

theorem valuesAll_nest (entries : List (Nat × α)) :
    valuesAll (nest entries) = entries.map (·.2) := by
  fun_induction nest entries with
  | case1 => rfl
  | case2 level a rest hbelow hafter =>
    rw [valuesAll, values, hbelow, hafter, List.cons_append, ← List.map_append,
      List.takeWhile_append_dropWhile, List.map_cons]

theorem sizeAll_nest (entries : List (Nat × α)) : sizeAll (nest entries) = entries.length := by
  rw [← length_valuesAll, valuesAll_nest, List.length_map]

/-! ## The places of parents -/

mutual

/-- The places of the values above those of a tree, in the order of `values`. The tree starts at a
place, below the value at another place or below none. -/
def parents (above : Option Nat) (place : Nat) : Tree α → List (Option Nat)
  | node _ ts => above :: parentsAll (some place) (place + 1) ts

/-- The places of the values above those of several trees. -/
def parentsAll (above : Option Nat) (place : Nat) : List (Tree α) → List (Option Nat)
  | [] => []
  | t :: ts => parents above place t ++ parentsAll above (place + size t) ts

end

/-- The last place where a level is smaller than another one. -/
def lastBelow (level : Nat) : List Nat → Option Nat
  | [] => none
  | l :: ls => ((lastBelow level ls).map (· + 1)).or (if l < level then some 0 else none)

theorem lastBelow_eq_none {level : Nat} {levels : List Nat} :
    lastBelow level levels = none ↔ ∀ l ∈ levels, level ≤ l := by
  induction levels with
  | nil => exact ⟨fun _ _ h => absurd h List.not_mem_nil, fun _ => rfl⟩
  | cons l ls ih =>
    rw [lastBelow, Option.or_eq_none_iff, Option.map_eq_none_iff, ih, List.forall_mem_cons, and_comm,
      ite_eq_right_iff, ← Nat.not_lt]
    simp

/-- There the level is smaller, and behind it none is. -/
theorem lastBelow_eq_some {level i : Nat} {levels : List Nat} :
    lastBelow level levels = some i ↔ ∃ front l back, levels = front ++ l :: back ∧
      front.length = i ∧ l < level ∧ ∀ x ∈ back, level ≤ x := by
  induction levels generalizing i with
  | nil => simp [lastBelow]
  | cons l ls ih =>
    rw [lastBelow, Option.or_eq_some_iff, Option.map_eq_some_iff, Option.map_eq_none_iff,
      lastBelow_eq_none]
    constructor
    · rintro (⟨j, hj, rfl⟩ | ⟨hls, hl⟩)
      · obtain ⟨front, l', back, rfl, rfl, hlast⟩ := ih.mp hj
        exact ⟨l :: front, l', back, rfl, rfl, hlast⟩
      · split at hl
        · next hlt => exact ⟨[], l, ls, rfl, Option.some.inj hl, hlt, hls⟩
        · exact absurd hl (by simp)
    · rintro ⟨front, l', back, heq, rfl, hlt, hback⟩
      cases front with
      | nil =>
        obtain ⟨rfl, rfl⟩ := List.cons.inj heq
        exact Or.inr ⟨hback, if_pos hlt⟩
      | cons x front =>
        obtain ⟨rfl, rfl⟩ := List.cons.inj heq
        exact Or.inl ⟨front.length, ih.mpr ⟨front, l', back, rfl, rfl, hlt, hback⟩, rfl⟩

theorem lastBelow_append (level : Nat) (as bs : List Nat) : lastBelow level (as ++ bs) =
    ((lastBelow level bs).map (· + as.length)).or (lastBelow level as) := by
  induction as with
  | nil => simp [lastBelow]
  | cons a as ih =>
    rw [List.cons_append, lastBelow, ih, lastBelow, ← Option.or_assoc, List.length_cons]
    cases lastBelow level bs <;> simp [Nat.add_assoc]

/-! ## The nearest smaller level -/

/-- For each level, behind some that came before, the last place of a smaller one before it. -/
def nearest (before : List Nat) : List Nat → List (Option Nat)
  | [] => []
  | l :: ls => lastBelow l before :: nearest (before ++ [l]) ls

theorem nearest_append (before as bs : List Nat) :
    nearest before (as ++ bs) = nearest before as ++ nearest (before ++ as) bs := by
  induction as generalizing before with
  | nil => rw [List.append_nil]; rfl
  | cons a as ih =>
    rw [List.cons_append, nearest, nearest, ih, List.append_assoc]
    rfl

theorem nearest_eq_mapIdx (before levels : List Nat) : nearest before levels =
    levels.mapIdx fun i l => lastBelow l (before ++ levels.take i) := by
  induction levels generalizing before with
  | nil => rfl
  | cons l ls ih =>
    rw [nearest, ih, List.mapIdx_cons, List.take_zero, List.append_nil]
    simp only [List.take_succ_cons, List.append_assoc, List.singleton_append]

theorem head?_dropWhile_le {level : Nat} {rest : List (Nat × α)} {e : Nat × α}
    (h : (rest.dropWhile fun e => level < e.1).head? = some e) : e.1 ≤ level := by
  have hnot := List.head?_dropWhile_not (fun e : Nat × α => decide (level < e.1)) rest
  rw [h] at hnot
  simpa using hnot

/-- Trees behind some levels, below the value at a place. It is the place for each value that is not
deeper than the first one; the deeper ones find theirs among the trees themselves. -/
theorem parentsAll_nest (entries : List (Nat × α)) {before : List Nat} {above : Option Nat}
    (h : ∀ e ∈ entries, (∀ first, entries.head? = some first → e.1 ≤ first.1) →
      lastBelow e.1 before = above) :
    parentsAll above before.length (nest entries) = nearest before (entries.map (·.1)) := by
  fun_induction nest entries generalizing before above with
  | case1 => rfl
  | case2 level a rest ihbelow ihafter =>
    set below := rest.takeWhile fun e => level < e.1 with hbelow
    set after := rest.dropWhile fun e => level < e.1 with hafter
    have hrest : rest = below ++ after := List.takeWhile_append_dropWhile.symm
    have hfirst : lastBelow level before = above :=
      h (level, a) List.mem_cons_self fun first hf => by rw [← Option.some.inj hf]
    have hdeeper : ∀ e ∈ below, level < e.1 := by
      intro e he
      simpa using List.mem_takeWhile_imp he
    have hkids : parentsAll (some before.length) (before ++ [level]).length (nest below) =
        nearest (before ++ [level]) (below.map (·.1)) := by
      refine ihbelow fun e he _ => ?_
      rw [lastBelow_append, lastBelow, if_pos (hdeeper e he)]
      simp [lastBelow]
    have hbeside : parentsAll above (before ++ level :: below.map (·.1)).length (nest after) =
        nearest (before ++ level :: below.map (·.1)) (after.map (·.1)) := by
      refine ihafter fun e he hshallow => ?_
      have hlevel : e.1 ≤ level := by
        obtain ⟨first, hf⟩ : ∃ first, after.head? = some first :=
          Option.ne_none_iff_exists'.mp fun hnil => by
            rw [List.head?_eq_none_iff.mp hnil] at he
            exact absurd he List.not_mem_nil
        exact Nat.le_trans (hshallow first hf) (head?_dropWhile_le hf)
      have hnone : lastBelow e.1 (level :: below.map (·.1)) = none := by
        refine lastBelow_eq_none.mpr (List.forall_mem_cons.mpr ⟨hlevel, fun l hl => ?_⟩)
        obtain ⟨e', he', rfl⟩ := List.mem_map.mp hl
        exact Nat.le_trans hlevel (Nat.le_of_lt (hdeeper e' he'))
      rw [lastBelow_append, hnone, Option.map_none, Option.none_or]
      refine h e (List.mem_cons_of_mem _ ?_) fun first hf => ?_
      · rw [hrest]
        exact List.mem_append_right _ he
      · rw [← Option.some.inj hf]
        exact hlevel
    have hplace : before.length + size (node a (nest below)) =
        (before ++ level :: below.map (·.1)).length := by
      rw [size, sizeAll_nest, List.length_append, List.length_cons, List.length_map]
      omega
    rw [List.length_append, List.length_singleton] at hkids
    rw [parentsAll, parents, hkids, hplace, hbeside, List.map_cons, nearest, hfirst, hrest,
      List.map_append, nearest_append, List.append_assoc]
    rfl

end Tree

/-- The trees of values with levels have the values in the order of the list, and each value stands below
the last one before it with a smaller level, or at the top if no level before it is smaller. -/
theorem Nesting.trees_below_nearest {α : Type} (entries : List (Nat × α)) :
    Tree.valuesAll (trees entries) = entries.map (·.2) ∧
      Tree.parentsAll none 0 (trees entries) = (entries.map (·.1)).mapIdx fun i level =>
        Tree.lastBelow level ((entries.map (·.1)).take i) := by
  rw [trees_eq_nest]
  refine ⟨Tree.valuesAll_nest entries, ?_⟩
  have h : Tree.parentsAll none ([] : List Nat).length (Tree.nest entries) =
      Tree.nearest [] (entries.map (·.1)) := Tree.parentsAll_nest entries fun _ _ _ => rfl
  rw [Tree.nearest_eq_mapIdx] at h
  exact h

/-- A level is left out and taken up later. -/
example : Tree.parentsAll none 0
    (Nesting.trees [(1, 'a'), (3, 'b'), (2, 'c'), (4, 'd'), (2, 'e'), (1, 'f')]) =
      [none, some 0, some 0, some 2, some 0, none] := by cbv

end AccessiblePdf
