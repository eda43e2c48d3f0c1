import Mathlib.Data.List.Basic

/-!
Computations with checked arithmetic. They give a value where a condition on their input holds, and nothing
elsewhere (`Gives`); the condition of a computation is made up of the conditions of its steps.
-/
namespace AccessiblePdf

/-- A computation that gives a value where a condition holds, and nothing elsewhere. -/
structure Gives {α : Type} (x : Option α) (p : Prop) (a : α) : Prop where
  some : p → x = some a
  none : ¬p → x = none

namespace Gives

variable {α β : Type} {x : Option α} {p q : Prop} {a : α}

theorem eq_some_iff (h : Gives x p a) : x = Option.some a ↔ p := by
  refine ⟨fun hx => ?_, h.some⟩
  by_contra hp
  rw [h.none hp] at hx
  cases hx

theorem eq_none_iff (h : Gives x p a) : x = Option.none ↔ ¬p := by
  refine ⟨fun hx hp => ?_, h.none⟩
  rw [h.some hp] at hx
  cases hx

theorem congr (h : Gives x p a) (hpq : p ↔ q) : Gives x q a where
  some hq := h.some (hpq.mpr hq)
  none hq := h.none (mt hpq.mp hq)

theorem value {b : α} (h : Gives x p a) (hab : p → a = b) : Gives x p b where
  some hp := by rw [h.some hp, hab hp]
  none hp := h.none hp

theorem of_eq (h : x = Option.some a) : Gives x True a where
  some _ := h
  none hp := (hp trivial).elim

theorem bind {f : α → Option β} {b : β} (hx : Gives x p a) (hf : p → Gives (f a) q b) :
    Gives (x >>= f) (p ∧ q) b where
  some hpq := by
    rw [hx.some hpq.1]
    exact (hf hpq.1).some hpq.2
  none hpq := by
    by_cases hp : p
    · rw [hx.some hp]
      exact (hf hp).none fun hq => hpq ⟨hp, hq⟩
    · rw [hx.none hp]
      rfl

theorem ite {c : Prop} [Decidable c] {y : Option α} {b : α} (hx : Gives x p a) (hy : Gives y q b) :
    Gives (if c then x else y) ((c → p) ∧ (¬c → q)) (if c then a else b) := by
  by_cases hc : c
  · rw [if_pos hc, if_pos hc]
    exact hx.congr (by simp [hc])
  · rw [if_neg hc, if_neg hc]
    exact hy.congr (by simp [hc])

theorem map (f : α → β) (hx : Gives x p a) : Gives (x >>= fun a => pure (f a)) p (f a) where
  some hp := by
    rw [hx.some hp]
    rfl
  none hp := by
    rw [hx.none hp]
    rfl

theorem mapM {f : α → Option β} {g : α → β} {p : α → Prop} {l : List α}
    (h : ∀ a ∈ l, Gives (f a) (p a) (g a)) : Gives (l.mapM f) (∀ a ∈ l, p a) (l.map g) := by
  induction l with
  | nil => exact (of_eq rfl).congr (by simp)
  | cons a l ih =>
    rw [List.forall_mem_cons] at h
    rw [List.mapM_cons, List.map_cons]
    exact (h.1.bind fun _ => (ih h.2).map (g a :: ·)).congr (List.forall_mem_cons.symm)

end Gives

end AccessiblePdf
