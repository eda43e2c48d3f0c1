/-!
Trees whose nodes carry values, and how a list of values with levels is built into trees. The values come
one after the other, and those that may still get something below them are open (`Nesting`).
-/
namespace AccessiblePdf

inductive Tree (α : Type) where
  | node (value : α) (children : List (Tree α))

namespace Tree

variable {α : Type}

def value : Tree α → α
  | node a _ => a

def children : Tree α → List (Tree α)
  | node _ ts => ts

mutual

/-- The number of nodes of a tree. -/
def size : Tree α → Nat
  | node _ ts => 1 + sizeAll ts

/-- The number of nodes of several trees. -/
def sizeAll : List (Tree α) → Nat
  | [] => 0
  | t :: ts => size t + sizeAll ts

end

/-- Puts a tree behind the children of another one. -/
def adopt (t child : Tree α) : Tree α := node t.value (t.children ++ [child])

end Tree

/-- Trees that are being built: the open ones with their levels, the innermost first, each deeper than the
next, and the trees that are complete. -/
structure Nesting (α : Type) where
  opened : List (Nat × Tree α)
  roots : List (Tree α)
  rising : opened.Pairwise fun inner outer => outer.1 < inner.1

namespace Nesting

variable {α : Type}

def empty : Nesting α := ⟨[], [], .nil⟩

/-- Closes the innermost open tree, which goes below the next one, or to the roots. -/
def close : Nesting α → Nesting α
  | ⟨[], roots, _⟩ => ⟨[], roots, .nil⟩
  | ⟨[(_, t)], roots, _⟩ => ⟨[], roots ++ [t], .nil⟩
  | ⟨(_, t) :: (level, parent) :: outer, roots, rising⟩ =>
    ⟨(level, parent.adopt t) :: outer, roots,
      List.pairwise_cons.mpr (List.pairwise_cons.mp (List.pairwise_cons.mp rising).2)⟩

theorem length_close (n : Nesting α) : n.close.opened.length = n.opened.length - 1 := by
  obtain ⟨_ | ⟨_, _ | _⟩, roots, rising⟩ := n <;> rfl

/-- Closes open trees as long as the level of the innermost one is to be closed. -/
def closeWhile (p : Nat → Bool) (n : Nesting α) : Nesting α :=
  if n.opened.head?.any (p ·.1) then n.close.closeWhile p else n
termination_by n.opened.length
decreasing_by
  next h =>
    rw [length_close]
    refine Nat.sub_lt (List.length_pos_iff.mpr fun hnil => ?_) Nat.one_pos
    simp [hnil] at h

theorem closeWhile_stops (p : Nat → Bool) (n : Nesting α) :
    (n.closeWhile p).opened.head?.any (p ·.1) = false := by
  fun_induction closeWhile p n with
  | case1 n h ih => exact ih
  | case2 n h => simpa using h

theorem closeWhile_lt (level : Nat) (n : Nesting α) :
    ∀ e ∈ (n.closeWhile (level ≤ ·)).opened, e.1 < level := by
  have hhead := closeWhile_stops (level ≤ ·) n
  have hrising := (n.closeWhile (level ≤ ·)).rising
  cases h : (n.closeWhile (level ≤ ·)).opened with
  | nil => exact fun e he => absurd he List.not_mem_nil
  | cons inner outer =>
    rw [h] at hhead hrising
    have hinner : inner.1 < level := by simpa using hhead
    exact List.forall_mem_cons.mpr
      ⟨hinner, fun e he => Nat.lt_trans ((List.pairwise_cons.mp hrising).1 e he) hinner⟩

/-- Opens a tree on a level, with nothing below it yet. -/
def enter (n : Nesting α) (e : Nat × α) : Nesting α :=
  let around := n.closeWhile (e.1 ≤ ·)
  ⟨(e.1, .node e.2 []) :: around.opened, around.roots,
    List.pairwise_cons.mpr ⟨closeWhile_lt e.1 n, around.rising⟩⟩

/-- The trees of values with levels. -/
def trees (entries : List (Nat × α)) : List (Tree α) :=
  ((entries.foldl enter empty).closeWhile fun _ => true).roots

end Nesting

end AccessiblePdf
