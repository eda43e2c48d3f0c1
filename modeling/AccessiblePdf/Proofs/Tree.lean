import AccessiblePdf.Tree
import Mathlib.Data.List.Perm.Basic

/-!
The values of trees, parents before their children.
-/
namespace AccessiblePdf.Tree

variable {α : Type}

theorem size_pos (t : Tree α) : 0 < size t := by
  obtain ⟨a, below⟩ := t
  rw [size]
  exact Nat.lt_of_lt_of_le Nat.one_pos (Nat.le_add_right _ _)

theorem sizeAll_pos {ts : List (Tree α)} (h : ts ≠ []) : 0 < sizeAll ts := by
  cases ts with
  | nil => exact absurd rfl h
  | cons t ts =>
    rw [sizeAll]
    exact Nat.lt_of_lt_of_le t.size_pos (Nat.le_add_right _ _)

mutual

/-- The values of a tree. -/
def values : Tree α → List α
  | node a ts => a :: valuesAll ts

/-- The values of several trees. -/
def valuesAll : List (Tree α) → List α
  | [] => []
  | t :: ts => values t ++ valuesAll ts

end

theorem length_valuesAll (ts : List (Tree α)) : (valuesAll ts).length = sizeAll ts := by
  match ts with
  | [] => rfl
  | node a below :: ts =>
    rw [valuesAll, values, sizeAll, size, List.length_append, List.length_cons,
      length_valuesAll below, length_valuesAll ts, Nat.add_comm 1]
termination_by sizeOf ts

theorem valuesAll_append (ts us : List (Tree α)) :
    valuesAll (ts ++ us) = valuesAll ts ++ valuesAll us := by
  induction ts with
  | nil => rfl
  | cons t ts ih => rw [List.cons_append, valuesAll, valuesAll, ih, List.append_assoc]

theorem sizeAll_append (ts us : List (Tree α)) : sizeAll (ts ++ us) = sizeAll ts + sizeAll us := by
  simp only [← length_valuesAll, valuesAll_append, List.length_append]

theorem mem_valuesAll {a : α} {ts : List (Tree α)} :
    a ∈ valuesAll ts ↔ ∃ t ∈ ts, a ∈ values t := by
  induction ts with
  | nil => simp [valuesAll]
  | cons t ts ih => simp [valuesAll, ih]

theorem perm_valuesAll (ts : List (Tree α)) :
    (valuesAll ts).Perm (ts.map value ++ ts.flatMap fun t => valuesAll t.children) := by
  induction ts with
  | nil => exact .nil
  | cons t ts ih =>
    obtain ⟨a, below⟩ := t
    rw [valuesAll, values, List.map_cons, List.flatMap_cons, List.cons_append, List.cons_append]
    refine .cons a ?_
    rw [← List.append_assoc]
    refine (ih.append_left _).trans ?_
    rw [← List.append_assoc]
    exact (List.perm_append_comm).append_right _

end AccessiblePdf.Tree
