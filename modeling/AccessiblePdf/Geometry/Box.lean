/-!
Rectangles in user space. Coordinates are any numbers with an order: floating point when the library
runs, exact rationals when it is reasoned about.
-/
namespace AccessiblePdf

variable {α : Type} [Add α] [Sub α] [Mul α] [LE α] [DecidableLE α] [OfNat α 0] [OfNat α 2]

/-! ## Extremes -/

/-- The smaller of two numbers, the second of equal ones; one that is not comparable with itself is
passed over. -/
def least (a b : α) : α := if a ≤ a then (if b ≤ a then b else a) else b

/-- The larger of two numbers, the second of equal ones; one that is not comparable with itself is
passed over. -/
def greatest (a b : α) : α := if a ≤ a then (if a ≤ b then b else a) else b

/-- The nearest number between two bounds. -/
def clamp (low high a : α) : α :=
  if low ≤ a then (if a ≤ high then a else high) else if a ≤ low then low else a

/-! ## Boxes -/

/-- An axis-aligned rectangle: its lower left corner and its size. -/
structure Box (α : Type) where
  x : α
  y : α
  width : α
  height : α
deriving DecidableEq, BEq, Repr

namespace Box

/-- The box between two opposite corners, given in any order. -/
def ofCorners (x₀ y₀ x₁ y₁ : α) : Box α :=
  let left := if x₀ ≤ x₁ then x₀ else x₁
  let right := if x₀ ≤ x₁ then x₁ else x₀
  let bottom := if y₀ ≤ y₁ then y₀ else y₁
  let top := if y₀ ≤ y₁ then y₁ else y₀
  ⟨left, bottom, right - left, top - bottom⟩

/-- The box of a first point and further ones. -/
def around (p : α × α) (ps : List (α × α)) : Box α :=
  let low := ps.foldl (fun a q => (least a.1 q.1, least a.2 q.2)) p
  let high := ps.foldl (fun a q => (greatest a.1 q.1, greatest a.2 q.2)) p
  ofCorners low.1 low.2 high.1 high.2

/-- The smallest box that covers all points, if there is a point. -/
def ofPoints? : List (α × α) → Option (Box α)
  | [] => none
  | p :: ps => some (around p ps)

def right (b : Box α) : α := b.x + b.width

def top (b : Box α) : α := b.y + b.height

/-- The area; a negative side counts as zero. -/
def area (b : Box α) : α := greatest b.width 0 * greatest b.height 0

/-- Grows by a margin on every side. -/
def expand (b : Box α) (margin : α) : Box α :=
  ⟨b.x - margin, b.y - margin, b.width + 2 * margin, b.height + 2 * margin⟩

/-- Whether another box lies inside, edges included. -/
def contains (b c : Box α) : Bool :=
  b.x ≤ c.x && b.y ≤ c.y && c.right ≤ b.right && c.top ≤ b.top

/-- Whether a point lies inside, edges included. -/
def containsPoint (b : Box α) (x y : α) : Bool :=
  b.x ≤ x && x ≤ b.right && b.y ≤ y && y ≤ b.top

/-- The common part of two boxes; boxes that only touch have one. -/
def intersection? [LT α] [DecidableLT α] (b c : Box α) : Option (Box α) :=
  let left := greatest b.x c.x
  let bottom := greatest b.y c.y
  let right := least b.right c.right
  let top := least b.top c.top
  if right < left ∨ top < bottom then none else some (ofCorners left bottom right top)

/-- The smallest box that covers both. -/
def union (b c : Box α) : Box α :=
  ofCorners (least b.x c.x) (least b.y c.y) (greatest b.right c.right) (greatest b.top c.top)

/-- The order of a PDF rectangle: lower left corner, then upper right corner. -/
def corners (b : Box α) : List α := [b.x, b.y, b.right, b.top]

end Box

end AccessiblePdf
