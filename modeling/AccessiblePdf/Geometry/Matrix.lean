import AccessiblePdf.Geometry.Box

/-!
Affine maps of the plane, written `[a b c d e f]` as PDF writes them: a point `(x, y)` goes to
`(a x + c y + e, b x + d y + f)`.
-/
namespace AccessiblePdf

variable {α : Type} [Add α] [Sub α] [Mul α] [LE α] [DecidableLE α] [OfNat α 0] [OfNat α 1]

structure Matrix (α : Type) where
  a : α
  b : α
  c : α
  d : α
  e : α
  f : α
deriving DecidableEq, BEq, Repr

namespace Matrix

def identity : Matrix α := ⟨1, 0, 0, 1, 0, 0⟩

/-- Moves by `tx` to the right and `ty` up. -/
def shift (tx ty : α) : Matrix α := ⟨1, 0, 0, 1, tx, ty⟩

/-- First `m`, then `n`. -/
def multiply (m n : Matrix α) : Matrix α where
  a := m.a * n.a + m.b * n.c
  b := m.a * n.b + m.b * n.d
  c := m.c * n.a + m.d * n.c
  d := m.c * n.b + m.d * n.d
  e := m.e * n.a + m.f * n.c + n.e
  f := m.e * n.b + m.f * n.d + n.f

def transformPoint (m : Matrix α) (x y : α) : α × α :=
  (m.a * x + m.c * y + m.e, m.b * x + m.d * y + m.f)

/-- The smallest box around the images of the four corners. -/
def transformBox (m : Matrix α) (b : Box α) : Box α :=
  Box.around (m.transformPoint b.x b.y)
    [m.transformPoint b.right b.y, m.transformPoint b.x b.top, m.transformPoint b.right b.top]

/-- How much the map stretches the vertical direction. -/
def verticalScale (m : Matrix Float) : Float := (m.c * m.c + m.d * m.d).sqrt

end Matrix

end AccessiblePdf
