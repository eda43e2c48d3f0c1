import AccessiblePdf.Geometry.Box
import Mathlib.Algebra.Order.Field.Rat
import Mathlib.Order.MinMax
import Mathlib.Tactic.Linarith

/-!
Boxes with rational coordinates. A box contains the box around some points just when it contains the
points (`contains_around`), and a box with sides contains another just when it contains all its points
(`contains_iff_forall`).
-/
namespace AccessiblePdf

/-! ## Extremes -/

theorem least_eq_min (a b : ℚ) : least a b = min a b := by
  rw [least, if_pos le_rfl, min_comm, min_def]

theorem greatest_eq_max (a b : ℚ) : greatest a b = max a b := by
  rw [greatest, if_pos le_rfl, max_def]

theorem clamp_of_mem {low high a : ℚ} (hlow : low ≤ a) (hhigh : a ≤ high) : clamp low high a = a := by
  rw [clamp, if_pos hlow, if_pos hhigh]

theorem clamp_mem {low high : ℚ} (h : low ≤ high) (a : ℚ) :
    low ≤ clamp low high a ∧ clamp low high a ≤ high := by
  rw [clamp]
  split
  · next hlow =>
    split
    · next hhigh => exact ⟨hlow, hhigh⟩
    · exact ⟨h, le_rfl⟩
  · next hlow =>
    rw [if_pos (le_of_not_ge hlow)]
    exact ⟨le_rfl, h⟩

namespace Box

/-- The sides of a box are not negative. -/
structure Sized (b : Box ℚ) : Prop where
  width : 0 ≤ b.width
  height : 0 ≤ b.height

variable {b c : Box ℚ} {x y : ℚ}

theorem Sized.le_right (h : b.Sized) : b.x ≤ b.right := le_add_of_nonneg_right h.width

theorem Sized.le_top (h : b.Sized) : b.y ≤ b.top := le_add_of_nonneg_right h.height

theorem containsPoint_iff :
    b.containsPoint x y = true ↔ (b.x ≤ x ∧ x ≤ b.right) ∧ (b.y ≤ y ∧ y ≤ b.top) := by
  simp only [containsPoint, Bool.and_eq_true, decide_eq_true_eq, and_assoc]

theorem contains_iff :
    b.contains c = true ↔ (b.x ≤ c.x ∧ b.y ≤ c.y) ∧ (c.right ≤ b.right ∧ c.top ≤ b.top) := by
  simp only [contains, Bool.and_eq_true, decide_eq_true_eq, and_assoc]

theorem contains_self (b : Box ℚ) : b.contains b = true :=
  contains_iff.mpr ⟨⟨le_rfl, le_rfl⟩, le_rfl, le_rfl⟩

theorem containsPoint_of_contains (h : b.contains c = true) (hc : c.containsPoint x y = true) :
    b.containsPoint x y = true := by
  obtain ⟨⟨hx, hy⟩, hright, htop⟩ := contains_iff.mp h
  obtain ⟨⟨hx₁, hx₂⟩, hy₁, hy₂⟩ := containsPoint_iff.mp hc
  exact containsPoint_iff.mpr ⟨⟨hx.trans hx₁, hx₂.trans hright⟩, hy.trans hy₁, hy₂.trans htop⟩

/-- A box lies in another just when its points do. -/
theorem contains_iff_forall (sized : c.Sized) : b.contains c = true ↔
    ∀ x y, c.containsPoint x y = true → b.containsPoint x y = true := by
  refine ⟨fun h x y => containsPoint_of_contains h, fun h => ?_⟩
  have hlow : c.containsPoint c.x c.y = true :=
    containsPoint_iff.mpr ⟨⟨le_rfl, sized.le_right⟩, le_rfl, sized.le_top⟩
  have hhigh : c.containsPoint c.right c.top = true :=
    containsPoint_iff.mpr ⟨⟨sized.le_right, le_rfl⟩, sized.le_top, le_rfl⟩
  obtain ⟨⟨hx, -⟩, hy, -⟩ := containsPoint_iff.mp (h _ _ hlow)
  obtain ⟨⟨-, hright⟩, -, htop⟩ := containsPoint_iff.mp (h _ _ hhigh)
  exact contains_iff.mpr ⟨⟨hx, hy⟩, hright, htop⟩

/-! ## The box around points -/

theorem ofCorners_of_le {x₀ y₀ x₁ y₁ : ℚ} (hx : x₀ ≤ x₁) (hy : y₀ ≤ y₁) :
    ofCorners x₀ y₀ x₁ y₁ = ⟨x₀, y₀, x₁ - x₀, y₁ - y₀⟩ := by
  simp only [ofCorners, if_pos hx, if_pos hy]

/-- The lower left corner of the box around points. -/
def lowest (p : ℚ × ℚ) (ps : List (ℚ × ℚ)) : ℚ × ℚ :=
  ps.foldl (fun a q => (least a.1 q.1, least a.2 q.2)) p

/-- The upper right corner of the box around points. -/
def highest (p : ℚ × ℚ) (ps : List (ℚ × ℚ)) : ℚ × ℚ :=
  ps.foldl (fun a q => (greatest a.1 q.1, greatest a.2 q.2)) p

theorem le_lowest {p : ℚ × ℚ} {ps : List (ℚ × ℚ)} :
    x ≤ (lowest p ps).1 ∧ y ≤ (lowest p ps).2 ↔ ∀ q ∈ p :: ps, x ≤ q.1 ∧ y ≤ q.2 := by
  induction ps generalizing p with
  | nil => simp [lowest]
  | cons q ps ih =>
    have hfold : lowest p (q :: ps) = lowest (min p.1 q.1, min p.2 q.2) ps := by
      rw [lowest, List.foldl_cons, least_eq_min, least_eq_min, lowest]
    rw [hfold, ih]
    simp only [List.forall_mem_cons, le_min_iff]
    tauto

theorem highest_le {p : ℚ × ℚ} {ps : List (ℚ × ℚ)} :
    (highest p ps).1 ≤ x ∧ (highest p ps).2 ≤ y ↔ ∀ q ∈ p :: ps, q.1 ≤ x ∧ q.2 ≤ y := by
  induction ps generalizing p with
  | nil => simp [highest]
  | cons q ps ih =>
    have hfold : highest p (q :: ps) = highest (max p.1 q.1, max p.2 q.2) ps := by
      rw [highest, List.foldl_cons, greatest_eq_max, greatest_eq_max, highest]
    rw [hfold, ih]
    simp only [List.forall_mem_cons, max_le_iff]
    tauto

/-- The box around points is in just those boxes that have all the points. -/
theorem contains_around {p : ℚ × ℚ} {ps : List (ℚ × ℚ)} : b.contains (around p ps) = true ↔
    ∀ q ∈ p :: ps, b.containsPoint q.1 q.2 = true := by
  obtain ⟨hlow₁, hlow₂⟩ := le_lowest.mp ⟨le_rfl, le_rfl⟩ p List.mem_cons_self
  obtain ⟨hhigh₁, hhigh₂⟩ := highest_le.mp ⟨le_rfl, le_rfl⟩ p List.mem_cons_self
  have hbox : around p ps = ⟨(lowest p ps).1, (lowest p ps).2,
      (highest p ps).1 - (lowest p ps).1, (highest p ps).2 - (lowest p ps).2⟩ :=
    ofCorners_of_le (hlow₁.trans hhigh₁) (hlow₂.trans hhigh₂)
  rw [hbox, contains_iff]
  simp only [right, top, add_sub_cancel]
  rw [le_lowest, highest_le, ← forall₂_and]
  simp only [containsPoint_iff, right, top]
  exact forall₂_congr fun q _ => by tauto

end Box

end AccessiblePdf
