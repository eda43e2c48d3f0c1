import AccessiblePdf.Geometry.Matrix
import AccessiblePdf.Proofs.Geometry.Box
import Mathlib.Tactic.Ring

/-!
Affine maps with rational coefficients. A product maps a point as its factors do one after the other
(`transformPoint_multiply`), and the image of a box is in just those boxes that have the images of all
its points (`contains_transformBox`).
-/
namespace AccessiblePdf.Matrix

variable {m n : Matrix ℚ} {b c : Box ℚ} {x y : ℚ}

theorem transformPoint_multiply (m n : Matrix ℚ) (x y : ℚ) : (m.multiply n).transformPoint x y =
    n.transformPoint (m.transformPoint x y).1 (m.transformPoint x y).2 := by
  simp only [transformPoint, multiply, Prod.mk.injEq]
  constructor <;> ring

/-! ## Images of boxes -/

theorem exists_end_ge {low high : ℚ} (hlow : low ≤ x) (hhigh : x ≤ high) (k : ℚ) :
    ∃ e, (e = low ∨ e = high) ∧ k * x ≤ k * e := by
  rcases le_total 0 k with hk | hk
  · exact ⟨high, .inr rfl, mul_le_mul_of_nonneg_left hhigh hk⟩
  · exact ⟨low, .inl rfl, mul_le_mul_of_nonpos_left hlow hk⟩

theorem exists_end_le {low high : ℚ} (hlow : low ≤ x) (hhigh : x ≤ high) (k : ℚ) :
    ∃ e, (e = low ∨ e = high) ∧ k * e ≤ k * x := by
  obtain ⟨e, he, hle⟩ := exists_end_ge hlow hhigh (-k)
  exact ⟨e, he, by linarith⟩

/-- The corners of a box. -/
def Corner (b : Box ℚ) (x y : ℚ) : Prop := (x = b.x ∨ x = b.right) ∧ (y = b.y ∨ y = b.top)

theorem exists_corners (inside : b.containsPoint x y = true) (k l : ℚ) :
    (∃ u v, Corner b u v ∧ k * u + l * v ≤ k * x + l * y) ∧
      ∃ u v, Corner b u v ∧ k * x + l * y ≤ k * u + l * v := by
  obtain ⟨⟨hx₁, hx₂⟩, hy₁, hy₂⟩ := Box.containsPoint_iff.mp inside
  obtain ⟨u₁, hu₁, hlex⟩ := exists_end_le hx₁ hx₂ k
  obtain ⟨v₁, hv₁, hley⟩ := exists_end_le hy₁ hy₂ l
  obtain ⟨u₂, hu₂, hgex⟩ := exists_end_ge hx₁ hx₂ k
  obtain ⟨v₂, hv₂, hgey⟩ := exists_end_ge hy₁ hy₂ l
  exact ⟨⟨u₁, v₁, ⟨hu₁, hv₁⟩, add_le_add hlex hley⟩, u₂, v₂, ⟨hu₂, hv₂⟩, add_le_add hgex hgey⟩

theorem containsPoint_of_corners (corners : ∀ u v, Corner b u v →
      c.containsPoint (m.transformPoint u v).1 (m.transformPoint u v).2 = true)
    (inside : b.containsPoint x y = true) :
    c.containsPoint (m.transformPoint x y).1 (m.transformPoint x y).2 = true := by
  simp only [transformPoint, Box.containsPoint_iff] at corners ⊢
  obtain ⟨⟨u₁, v₁, h₁, hleft⟩, u₂, v₂, h₂, hright⟩ := exists_corners inside m.a m.c
  obtain ⟨⟨u₃, v₃, h₃, hbottom⟩, u₄, v₄, h₄, htop⟩ := exists_corners inside m.b m.d
  have hleft' := (corners u₁ v₁ h₁).1.1
  have hright' := (corners u₂ v₂ h₂).1.2
  have hbottom' := (corners u₃ v₃ h₃).2.1
  have htop' := (corners u₄ v₄ h₄).2.2
  exact ⟨⟨by linarith, by linarith⟩, by linarith, by linarith⟩

theorem contains_transformBox_corners : c.contains (m.transformBox b) = true ↔
    ∀ u v, Corner b u v →
      c.containsPoint (m.transformPoint u v).1 (m.transformPoint u v).2 = true := by
  rw [transformBox, Box.contains_around]
  simp only [List.forall_mem_cons, List.not_mem_nil, false_imp_iff, implies_true, and_true]
  constructor
  · rintro ⟨h₁, h₂, h₃, h₄⟩ u v ⟨rfl | rfl, rfl | rfl⟩
    · exact h₁
    · exact h₃
    · exact h₂
    · exact h₄
  · intro h
    exact ⟨h _ _ ⟨.inl rfl, .inl rfl⟩, h _ _ ⟨.inr rfl, .inl rfl⟩, h _ _ ⟨.inl rfl, .inr rfl⟩,
      h _ _ ⟨.inr rfl, .inr rfl⟩⟩

/-- The image of a box is in just those boxes that have the images of all points. -/
theorem contains_transformBox (sized : b.Sized) : c.contains (m.transformBox b) = true ↔
    ∀ x y, b.containsPoint x y = true →
      c.containsPoint (m.transformPoint x y).1 (m.transformPoint x y).2 = true := by
  rw [contains_transformBox_corners]
  constructor
  · exact fun h x y => containsPoint_of_corners h
  · intro h u v hcorner
    refine h u v (Box.containsPoint_iff.mpr ?_)
    obtain ⟨rfl | rfl, rfl | rfl⟩ := hcorner
    · exact ⟨⟨le_rfl, sized.le_right⟩, le_rfl, sized.le_top⟩
    · exact ⟨⟨le_rfl, sized.le_right⟩, sized.le_top, le_rfl⟩
    · exact ⟨⟨sized.le_right, le_rfl⟩, le_rfl, sized.le_top⟩
    · exact ⟨⟨sized.le_right, le_rfl⟩, sized.le_top, le_rfl⟩

/-- A product maps every point as its factors do one after the other. The image of a box has the images
of all points of the box, and every box that has them contains it. -/
theorem transformBox_tight (m n : Matrix ℚ) {b : Box ℚ} (sized : b.Sized) :
    (∀ x y, (m.multiply n).transformPoint x y =
      n.transformPoint (m.transformPoint x y).1 (m.transformPoint x y).2) ∧
    (∀ x y, b.containsPoint x y = true → (m.transformBox b).containsPoint (m.transformPoint x y).1
      (m.transformPoint x y).2 = true) ∧
    ∀ c : Box ℚ, (∀ x y, b.containsPoint x y = true →
        c.containsPoint (m.transformPoint x y).1 (m.transformPoint x y).2 = true) →
      c.contains (m.transformBox b) = true :=
  ⟨transformPoint_multiply m n, (contains_transformBox sized).mp (Box.contains_self _),
    fun _ h => (contains_transformBox sized).mpr h⟩

/-- A quarter turn with a mirroring, and then a shear: the image of the box from `(1, 2)` to `(4, 4)` is
the one from `(2, 1)` to `(4, 4)`, and no smaller box has the images of its points. -/
theorem transformBox_tight_turned :
    let m : Matrix ℚ := ⟨0, 1, 1, 0, 0, 0⟩
    let n : Matrix ℚ := ⟨1, 0, 1 / 2, 1, 0, 0⟩
    let b : Box ℚ := ⟨1, 2, 3, 2⟩
    b.Sized ∧ (m.multiply n).transformPoint 1 2 = n.transformPoint 2 1 ∧
      m.transformBox b = ⟨2, 1, 2, 3⟩ ∧ (m.transformBox b).containsPoint 3 2 = true ∧
      ∀ c : Box ℚ, (∀ x y, b.containsPoint x y = true →
          c.containsPoint (m.transformPoint x y).1 (m.transformPoint x y).2 = true) →
        c.contains ⟨2, 1, 2, 3⟩ = true := by
  intro m n b
  have sized : b.Sized := ⟨by decide +kernel, by decide +kernel⟩
  obtain ⟨hproduct, hinside, hleast⟩ := transformBox_tight m n sized
  have hpoint : m.transformPoint 2 3 = (3, 2) := by decide +kernel
  have hstart : m.transformPoint 1 2 = (2, 1) := by decide +kernel
  have hbox : m.transformBox b = ⟨2, 1, 2, 3⟩ := by decide +kernel
  have himage := hinside 2 3 (by decide +kernel)
  have hturned := hproduct 1 2
  rw [hpoint] at himage
  rw [hstart] at hturned
  rw [hbox] at hleast
  exact ⟨sized, hturned, hbox, himage, hleast⟩

end AccessiblePdf.Matrix
