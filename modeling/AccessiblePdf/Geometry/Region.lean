import AccessiblePdf.Geometry.Box

/-!
Which items on a page a declared region means. Items inside the region, grown by a tolerance, are
meant; when there are none, the one that the region covers best, if it covers enough of it.
-/
namespace AccessiblePdf

variable {α : Type} [Add α] [Sub α] [Mul α] [Div α] [LE α] [DecidableLE α] [LT α] [DecidableLT α]
  [OfNat α 0] [OfNat α 1] [OfNat α 2]

/-- The corner of the page from which declared boxes are measured. -/
inductive Origin where
  | bottomLeft
  | topLeft
deriving DecidableEq, Repr

/-- How regions are matched. -/
structure Matching (α : Type) where
  /-- How far the region is grown before items are tested for lying inside. -/
  tolerance : α
  /-- The least share of an item that a region must cover to be taken for it. -/
  minOverlap : α
  origin : Origin
deriving Repr

namespace Matching

def default : Matching Float := ⟨2.0, 0.1, .bottomLeft⟩

/-- A negative tolerance counts as none. -/
def withTolerance (m : Matching α) (t : α) : Matching α := { m with tolerance := greatest t 0 }

/-- The threshold is a share, between 0 and 1. -/
def withMinOverlap (m : Matching α) (r : α) : Matching α := { m with minOverlap := clamp 0 1 r }

def withOrigin (m : Matching α) (o : Origin) : Matching α := { m with origin := o }

/-- A declared box in the user space of a page with the given box. -/
def toUserSpace (m : Matching α) (declared page : Box α) : Box α :=
  match m.origin with
  | .bottomLeft => ⟨page.x + declared.x, page.y + declared.y, declared.width, declared.height⟩
  | .topLeft =>
    ⟨page.x + declared.x, page.top - declared.y - declared.height, declared.width, declared.height⟩

end Matching

/-- The share of an item that a target covers. An item whose area is at most `hairline` counts as
covered as soon as it touches the target. -/
def overlapRatioAbove (hairline : α) (item target : Box α) : α :=
  match item.intersection? target with
  | none => 0
  | some common => if item.area ≤ hairline then 1 else clamp 0 1 (common.area / item.area)

/-- The distance from 1 to the next double. -/
def machineEpsilon : Float := Float.ofBits 0x3CB0000000000000

/-- The share of an item that a target covers; hairlines count as covered when touched. -/
def overlapRatio (item target : Box Float) : Float := overlapRatioAbove machineEpsilon item target

/-- Indices of the items that satisfy a test, from `start` on, in order. -/
def indicesFrom {β : Type} (p : β → Bool) : Nat → List β → List Nat
  | _, [] => []
  | i, b :: bs => if p b then i :: indicesFrom p (i + 1) bs else indicesFrom p (i + 1) bs

/-- Indices of the items inside the region grown by the tolerance. -/
def Matching.contained (m : Matching α) (items : List (Option (Box α))) (target : Box α) :
    List Nat :=
  indicesFrom (fun item => item.any (target.expand m.tolerance).contains) 0 items

/-- The better of the best item so far and the next one; the earlier wins a tie. -/
def Matching.better (m : Matching α) (ratio : Box α → α) (best : Option (Nat × α)) (i : Nat)
    (item : Option (Box α)) : Option (Nat × α) :=
  match item with
  | none => best
  | some box =>
    let r := ratio box
    if r < m.minOverlap ∨ r ≤ 0 then best
    else match best with
      | some (_, b) => if r ≤ b then best else some (i, r)
      | none => some (i, r)

/-- The item with the largest sufficient share, from index `i` on. -/
def Matching.bestFrom (m : Matching α) (ratio : Box α → α) :
    Option (Nat × α) → Nat → List (Option (Box α)) → Option (Nat × α)
  | best, _, [] => best
  | best, i, item :: items => m.bestFrom ratio (m.better ratio best i item) (i + 1) items

/-- Indices of the items that a region means, in order. -/
def Matching.resolveAbove (m : Matching α) (hairline : α) (items : List (Option (Box α)))
    (target : Box α) : List Nat :=
  match m.contained items target with
  | [] => ((m.bestFrom (overlapRatioAbove hairline · target) none 0 items).map (·.1)).toList
  | inside => inside

/-- Indices of the items that a region means, in order. -/
def Matching.resolve (m : Matching Float) (items : List (Option (Box Float))) (target : Box Float) :
    List Nat :=
  m.resolveAbove machineEpsilon items target

end AccessiblePdf
