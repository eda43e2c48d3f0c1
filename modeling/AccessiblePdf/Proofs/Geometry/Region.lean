import AccessiblePdf.Geometry.Region
import AccessiblePdf.Proofs.Geometry.Box
import Mathlib.Algebra.Order.Group.Abs
import Mathlib.Tactic.Ring

/-!
What a region means among items on a page (`resolveAbove_means`). Items inside the region grown by the
tolerance are found by their corners (`contains_expand`). When there are none, a step of the search keeps
the first of the best items so far (`Finds.better`), and so a whole search gives the first of the best
(`finds_bestFrom`). The share of an item that a region covers is what the two have in common, in
parts of the item (`overlapRatioAbove_eq_share`).
-/
namespace AccessiblePdf

/-! ## Indices -/

section Indices

variable {β : Type} {p : β → Bool} {items : List β} {j start : Nat}

theorem mem_indicesFrom : j ∈ indicesFrom p start items ↔
    ∃ i b, j = start + i ∧ items[i]? = some b ∧ p b = true := by
  induction items generalizing start with
  | nil => simp [indicesFrom]
  | cons x items ih =>
    have hlater : j ∈ indicesFrom p (start + 1) items ↔
        ∃ i b, j = start + (i + 1) ∧ (x :: items)[i + 1]? = some b ∧ p b = true := by
      rw [ih]
      refine exists_congr fun i => exists_congr fun b => ?_
      rw [List.getElem?_cons_succ, Nat.add_right_comm, Nat.add_assoc]
    rw [indicesFrom]
    split
    · next hx =>
      rw [List.mem_cons, hlater]
      constructor
      · rintro (rfl | ⟨i, b, h⟩)
        · exact ⟨0, x, rfl, rfl, hx⟩
        · exact ⟨i + 1, b, h⟩
      · rintro ⟨i, b, rfl, hb, hp⟩
        cases i with
        | zero => exact .inl rfl
        | succ i => exact .inr ⟨i, b, rfl, hb, hp⟩
    · next hx =>
      rw [hlater]
      constructor
      · rintro ⟨i, b, h⟩
        exact ⟨i + 1, b, h⟩
      · rintro ⟨i, b, rfl, hb, hp⟩
        cases i with
        | zero =>
          obtain rfl : x = b := Option.some.inj hb
          exact absurd hp hx
        | succ i => exact ⟨i, b, rfl, hb, hp⟩

theorem pairwise_indicesFrom (p : β → Bool) (items : List β) (start : Nat) :
    (indicesFrom p start items).Pairwise (· < ·) := by
  induction items generalizing start with
  | nil => exact List.Pairwise.nil
  | cons x items ih =>
    rw [indicesFrom]
    split
    · refine List.pairwise_cons.mpr ⟨fun j hj => ?_, ih (start + 1)⟩
      obtain ⟨i, b, rfl, -⟩ := mem_indicesFrom.mp hj
      omega
    · exact ih (start + 1)

end Indices

namespace Matching

section Numbers

variable {α : Type} [Add α] [Sub α] [Mul α] [LE α] [DecidableLE α] [OfNat α 2] {m : Matching α}
  {items : List (Option (Box α))} {target : Box α} {i : Nat}

theorem mem_contained : i ∈ m.contained items target ↔
    ∃ b, items[i]? = some (some b) ∧ (target.expand m.tolerance).contains b = true := by
  rw [contained, mem_indicesFrom]
  constructor
  · rintro ⟨i, item, rfl, hitem, hinside⟩
    rw [Nat.zero_add]
    cases item with
    | none => exact absurd hinside Bool.false_ne_true
    | some b => exact ⟨b, hitem, hinside⟩
  · rintro ⟨b, hb, hinside⟩
    exact ⟨i, some b, (Nat.zero_add i).symm, hb, hinside⟩

variable [Div α] [LT α] [DecidableLT α] [OfNat α 0] [OfNat α 1] {hairline : α}

theorem resolveAbove_of_mem (h : i ∈ m.contained items target) :
    m.resolveAbove hairline items target = m.contained items target := by
  rw [resolveAbove]
  split
  · next hnone =>
    rw [hnone] at h
    exact absurd h List.not_mem_nil
  · rfl

theorem pairwise_resolveAbove (m : Matching α) (hairline : α) (items : List (Option (Box α)))
    (target : Box α) : (m.resolveAbove hairline items target).Pairwise (· < ·) := by
  rw [resolveAbove]
  split
  · cases m.bestFrom (overlapRatioAbove hairline · target) none 0 items <;> simp
  · exact pairwise_indicesFrom _ _ 0

end Numbers

end Matching

/-! ## Regions that are grown -/

namespace Box

variable {b item target : Box ℚ} {distance x y : ℚ}

/-- A point is within a distance of a box, along both axes. -/
def Near (b : Box ℚ) (distance x y : ℚ) : Prop :=
  ∃ u v, b.containsPoint u v = true ∧ |x - u| ≤ distance ∧ |y - v| ≤ distance

/-- All points of an item are within a distance of a target. -/
def Within (item target : Box ℚ) (distance : ℚ) : Prop :=
  ∀ x y, item.containsPoint x y = true → target.Near distance x y

theorem exists_near_iff {low high : ℚ} (h : low ≤ high) (nonneg : 0 ≤ distance) :
    (∃ u, (low ≤ u ∧ u ≤ high) ∧ |x - u| ≤ distance) ↔ low - distance ≤ x ∧ x ≤ high + distance := by
  constructor
  · rintro ⟨u, ⟨hlow, hhigh⟩, hnear⟩
    rw [abs_le] at hnear
    constructor <;> linarith
  · rintro ⟨hlow, hhigh⟩
    refine ⟨clamp low high x, clamp_mem h x, abs_le.mpr ?_⟩
    rw [clamp]
    split
    · split
      · constructor <;> linarith
      · constructor <;> linarith
    · next hx =>
      rw [if_pos (le_of_not_ge hx)]
      constructor <;> linarith

theorem containsPoint_expand (sized : b.Sized) (nonneg : 0 ≤ distance) :
    (b.expand distance).containsPoint x y = true ↔ b.Near distance x y := by
  have hright : (b.expand distance).right = b.right + distance := by
    simp only [right, expand]
    ring
  have htop : (b.expand distance).top = b.top + distance := by
    simp only [top, expand]
    ring
  rw [containsPoint_iff, hright, htop]
  show (b.x - distance ≤ x ∧ _) ∧ b.y - distance ≤ y ∧ _ ↔ _
  rw [← exists_near_iff sized.le_right nonneg, ← exists_near_iff sized.le_top nonneg]
  simp only [Near, containsPoint_iff]
  constructor
  · rintro ⟨⟨u, hu, hx⟩, v, hv, hy⟩
    exact ⟨u, v, ⟨hu, hv⟩, hx, hy⟩
  · rintro ⟨u, v, ⟨hu, hv⟩, hx, hy⟩
    exact ⟨⟨u, hu, hx⟩, v, hv, hy⟩

/-- An item lies in a grown box just when all its points are near the box. -/
theorem contains_expand (sized : item.Sized) (htarget : target.Sized) (nonneg : 0 ≤ distance) :
    (target.expand distance).contains item = true ↔ item.Within target distance := by
  rw [contains_iff_forall sized]
  simp only [containsPoint_expand htarget nonneg]
  rfl

/-! ## Shares -/

/-- The width of what two boxes have in common, negative if there is a gap. -/
def commonWidth (b c : Box ℚ) : ℚ := min b.right c.right - max b.x c.x

def commonHeight (b c : Box ℚ) : ℚ := min b.top c.top - max b.y c.y

/-- The share of an item that a target covers. An item whose area is at most `hairline` is covered
when it is touched. -/
def share (hairline : ℚ) (item target : Box ℚ) : ℚ :=
  if item.commonWidth target < 0 ∨ item.commonHeight target < 0 then 0
  else if item.width * item.height ≤ hairline then 1
  else item.commonWidth target * item.commonHeight target / (item.width * item.height)

theorem commonWidth_le (b c : Box ℚ) : b.commonWidth c ≤ b.width := by
  have hleft := le_max_left b.x c.x
  have hright := min_le_left b.right c.right
  rw [commonWidth]
  simp only [right] at hright ⊢
  linarith

theorem commonHeight_le (b c : Box ℚ) : b.commonHeight c ≤ b.height := by
  have hbottom := le_max_left b.y c.y
  have htop := min_le_left b.top c.top
  rw [commonHeight]
  simp only [top] at htop ⊢
  linarith

theorem Sized.area_eq (h : b.Sized) : b.area = b.width * b.height := by
  rw [area, greatest_eq_max, greatest_eq_max, max_eq_left h.width, max_eq_left h.height]

theorem intersection?_eq (b c : Box ℚ) : b.intersection? c =
    if b.commonWidth c < 0 ∨ b.commonHeight c < 0 then none
    else some ⟨max b.x c.x, max b.y c.y, b.commonWidth c, b.commonHeight c⟩ := by
  simp only [intersection?, greatest_eq_max, least_eq_min, commonWidth, commonHeight, sub_neg]
  split
  · rfl
  · next h =>
    rw [not_or, not_lt, not_lt] at h
    rw [ofCorners_of_le h.1 h.2]

end Box

section Shares

variable {hairline : ℚ} {item target : Box ℚ}

theorem overlapRatioAbove_mem (hairline : ℚ) (item target : Box ℚ) :
    0 ≤ overlapRatioAbove hairline item target ∧ overlapRatioAbove hairline item target ≤ 1 := by
  rw [overlapRatioAbove]
  split
  · exact ⟨le_rfl, zero_le_one⟩
  · split
    · exact ⟨zero_le_one, le_rfl⟩
    · exact clamp_mem zero_le_one _

/-- Nothing has more in common with an item than the item itself, so that the bounds of the share do
not matter. -/
theorem overlapRatioAbove_eq_share (sized : item.Sized) :
    overlapRatioAbove hairline item target = item.share hairline target := by
  rw [overlapRatioAbove, Box.intersection?_eq, Box.share, sized.area_eq]
  by_cases hgap : item.commonWidth target < 0 ∨ item.commonHeight target < 0
  · rw [if_pos hgap, if_pos hgap]
  · rw [if_neg hgap, if_neg hgap]
    rw [not_or, not_lt, not_lt] at hgap
    obtain ⟨hwidth, hheight⟩ := hgap
    have hcommon : (Box.mk (max item.x target.x) (max item.y target.y) (item.commonWidth target)
        (item.commonHeight target)).Sized := ⟨hwidth, hheight⟩
    have hle : item.commonWidth target * item.commonHeight target ≤ item.width * item.height :=
      mul_le_mul (item.commonWidth_le target) (item.commonHeight_le target) hheight sized.width
    have harea : 0 ≤ item.width * item.height := mul_nonneg sized.width sized.height
    simp only [hcommon.area_eq]
    rw [clamp_of_mem (div_nonneg (mul_nonneg hwidth hheight) harea) (div_le_one_of_le₀ hle harea)]

end Shares

/-! ## The best item -/

namespace Matching

variable {m : Matching ℚ} {ratio : Box ℚ → ℚ} {front items : List (Option (Box ℚ))}
  {item : Option (Box ℚ)} {box : Box ℚ} {i : Nat} {r s : ℚ}

/-- A share that is enough for an item to be taken. -/
def Suffices (m : Matching ℚ) (r : ℚ) : Prop := 0 < r ∧ m.minOverlap ≤ r

theorem not_suffices : ¬m.Suffices r ↔ r < m.minOverlap ∨ r ≤ 0 := by
  rw [Suffices, not_and_or, not_lt, not_le, or_comm]

theorem Suffices.lt (h : m.Suffices r) (h' : ¬m.Suffices s) : s < r := by
  rcases not_suffices.mp h' with hs | hs
  · exact hs.trans_le h.2
  · exact hs.trans_lt h.1

/-- The first of the items with the largest share, which is enough. -/
structure FirstBest (m : Matching ℚ) (ratio : Box ℚ → ℚ) (items : List (Option (Box ℚ))) (i : Nat)
    (r : ℚ) : Prop where
  item : ∃ b, items[i]? = some (some b) ∧ ratio b = r
  enough : m.Suffices r
  largest : ∀ (j : Nat) b, items[j]? = some (some b) → ratio b ≤ r
  first : ∀ j b, j < i → items[j]? = some (some b) → ratio b < r

/-- What a search for the best item finds, if there is one with a share that is enough. -/
def Finds (m : Matching ℚ) (ratio : Box ℚ → ℚ) (items : List (Option (Box ℚ))) :
    Option (Nat × ℚ) → Prop
  | none => ∀ (j : Nat) b, items[j]? = some (some b) → ¬m.Suffices (ratio b)
  | some (i, r) => m.FirstBest ratio items i r

theorem getElem?_concat {j : Nat} : (front ++ [item])[j]? = some (some box) ↔
    front[j]? = some (some box) ∨ j = front.length ∧ item = some box := by
  rcases lt_trichotomy j front.length with hj | rfl | hj
  · rw [List.getElem?_append_left hj]
    simp [hj.ne]
  · simp
  · have hlength : (front ++ [item]).length ≤ j := by
      rw [List.length_append]
      exact hj
    rw [List.getElem?_eq_none hlength, List.getElem?_eq_none hj.le]
    simp [hj.ne']

theorem FirstBest.concat (h : m.FirstBest ratio front i r)
    (worse : ∀ b, item = some b → ratio b ≤ r) : m.FirstBest ratio (front ++ [item]) i r where
  item := by
    obtain ⟨b, hb, hr⟩ := h.item
    exact ⟨b, getElem?_concat.mpr (.inl hb), hr⟩
  enough := h.enough
  largest := by
    intro j b hb
    rcases getElem?_concat.mp hb with hb | ⟨-, hb⟩
    · exact h.largest j b hb
    · exact worse b hb
  first := by
    intro j b hj hb
    rcases getElem?_concat.mp hb with hb | ⟨rfl, -⟩
    · exact h.first j b hj hb
    · obtain ⟨c, hc, -⟩ := h.item
      exact absurd (List.getElem?_eq_some_iff.mp hc).1 (by omega)

theorem firstBest_last (enough : m.Suffices (ratio box))
    (better : ∀ (j : Nat) b, front[j]? = some (some b) → ratio b < ratio box) :
    m.FirstBest ratio (front ++ [some box]) front.length (ratio box) where
  item := ⟨box, getElem?_concat.mpr (.inr ⟨rfl, rfl⟩), rfl⟩
  enough := enough
  largest := by
    intro j b hb
    rcases getElem?_concat.mp hb with hb | ⟨-, hb⟩
    · exact (better j b hb).le
    · rw [Option.some.inj hb]
  first := by
    intro j b hj hb
    rcases getElem?_concat.mp hb with hb | ⟨rfl, -⟩
    · exact better j b hb
    · exact absurd hj (lt_irrefl _)

theorem Finds.concat {best : Option (Nat × ℚ)} (h : m.Finds ratio front best)
    (poor : ∀ b, item = some b → ¬m.Suffices (ratio b)) : m.Finds ratio (front ++ [item]) best := by
  cases best with
  | none =>
    refine fun j b hb => ?_
    rcases getElem?_concat.mp hb with hb | ⟨-, hb⟩
    · exact h j b hb
    · exact poor b hb
  | some best => exact FirstBest.concat h fun b hb => ((FirstBest.enough h).lt (poor b hb)).le

/-- One more item is looked at. -/
theorem Finds.better {best : Option (Nat × ℚ)} (h : m.Finds ratio front best)
    (item : Option (Box ℚ)) :
    m.Finds ratio (front ++ [item]) (m.better ratio best front.length item) := by
  cases item with
  | none => exact h.concat fun b hb => absurd hb (by simp)
  | some box =>
    simp only [Matching.better]
    split
    · next hpoor =>
      refine h.concat fun b hb => ?_
      rw [← Option.some.inj hb]
      exact not_suffices.mpr hpoor
    · next henough =>
      rw [← not_suffices, not_not] at henough
      cases best with
      | none => exact firstBest_last henough fun j b hb => henough.lt (h j b hb)
      | some best =>
        have hbest : m.FirstBest ratio front best.1 best.2 := h
        show m.Finds ratio (front ++ [some box])
          (if ratio box ≤ best.2 then some best else some (front.length, ratio box))
        split
        · next hle =>
          refine FirstBest.concat hbest fun b hb => ?_
          rwa [← Option.some.inj hb]
        · next hgt =>
          exact firstBest_last henough fun j b hb =>
            (hbest.largest j b hb).trans_lt (lt_of_not_ge hgt)

theorem Finds.bestFrom {best : Option (Nat × ℚ)} (h : m.Finds ratio front best)
    (items : List (Option (Box ℚ))) :
    m.Finds ratio (front ++ items) (m.bestFrom ratio best front.length items) := by
  induction items generalizing front best with
  | nil => rwa [List.append_nil]
  | cons item items ih =>
    have hnext := ih (h.better item)
    rwa [List.length_append, List.append_assoc] at hnext

/-- A search from the first item on. -/
theorem finds_bestFrom (m : Matching ℚ) (ratio : Box ℚ → ℚ) (items : List (Option (Box ℚ))) :
    m.Finds ratio items (m.bestFrom ratio none 0 items) := by
  have hnone : m.Finds ratio [] none := fun _ _ h => absurd h (by simp)
  exact hnone.bestFrom items

/-! ## What a region means -/

/-- The items that a region means: all that are inside, and if there are none, the first of those that it
covers best. -/
structure Means (m : Matching ℚ) (ratio : Box ℚ → ℚ) (items : List (Option (Box ℚ)))
    (target : Box ℚ) (found : List Nat) : Prop where
  increasing : found.Pairwise (· < ·)
  boxed : ∀ i ∈ found, ∃ b, items[i]? = some (some b)
  inside : (∃ b, some b ∈ items ∧ b.Within target m.tolerance) →
    ∀ i, i ∈ found ↔ ∃ b, items[i]? = some (some b) ∧ b.Within target m.tolerance
  best : (¬∃ b, some b ∈ items ∧ b.Within target m.tolerance) →
    (∃ i r, found = [i] ∧ m.FirstBest ratio items i r) ∨
      found = [] ∧ ∀ b, some b ∈ items → ¬m.Suffices (ratio b)

variable {target : Box ℚ} {hairline : ℚ}

theorem mem_contained_iff (tolerance : 0 ≤ m.tolerance) (sized : ∀ b, some b ∈ items → b.Sized)
    (htarget : target.Sized) : i ∈ m.contained items target ↔
      ∃ b, items[i]? = some (some b) ∧ b.Within target m.tolerance := by
  rw [mem_contained]
  refine exists_congr fun b => and_congr_right fun hb => ?_
  exact Box.contains_expand (sized b (List.mem_of_getElem? hb)) htarget tolerance

theorem resolveAbove_of_not_mem (none : ∀ i, i ∉ m.contained items target) :
    (∃ i r, m.resolveAbove hairline items target = [i] ∧
      m.FirstBest (overlapRatioAbove hairline · target) items i r) ∨
    m.resolveAbove hairline items target = [] ∧
      ∀ b, some b ∈ items → ¬m.Suffices (overlapRatioAbove hairline b target) := by
  have hfound := finds_bestFrom m (overlapRatioAbove hairline · target) items
  rw [resolveAbove, List.eq_nil_iff_forall_not_mem.mpr none]
  cases hbest : m.bestFrom (overlapRatioAbove hairline · target) Option.none 0 items with
  | none =>
    rw [hbest] at hfound
    refine .inr ⟨rfl, fun b hb => ?_⟩
    obtain ⟨j, hj⟩ := List.mem_iff_getElem?.mp hb
    exact hfound j b hj
  | some best =>
    rw [hbest] at hfound
    exact .inl ⟨best.1, best.2, rfl, hfound⟩

theorem boxed_of_mem_resolveAbove (h : i ∈ m.resolveAbove hairline items target) :
    ∃ b, items[i]? = some (some b) := by
  by_cases hinside : ∃ j, j ∈ m.contained items target
  · obtain ⟨j, hj⟩ := hinside
    rw [resolveAbove_of_mem hj, mem_contained] at h
    obtain ⟨b, hb, -⟩ := h
    exact ⟨b, hb⟩
  · have hcases : (∃ j r, m.resolveAbove hairline items target = [j] ∧
        m.FirstBest (overlapRatioAbove hairline · target) items j r) ∨ _ :=
      resolveAbove_of_not_mem (not_exists.mp hinside)
    rcases hcases with ⟨j, r, hfound, hbest⟩ | ⟨hfound, -⟩
    · rw [hfound, List.mem_singleton] at h
      obtain ⟨b, hb, -⟩ := hbest.item
      exact ⟨b, by rw [h]; exact hb⟩
    · rw [hfound] at h
      exact absurd h List.not_mem_nil

/-- Among items with sides that are not negative what a region means is found, for every tolerance that is
not negative and every threshold. Every share is between 0 and 1, and it is what an item has in common with
the region in parts of the item. -/
theorem resolveAbove_means (hairline : ℚ) (tolerance : 0 ≤ m.tolerance)
    (sized : ∀ b, some b ∈ items → b.Sized) (htarget : target.Sized) :
    m.Means (overlapRatioAbove hairline · target) items target
      (m.resolveAbove hairline items target) ∧
    ∀ item : Box ℚ, (0 ≤ overlapRatioAbove hairline item target ∧
        overlapRatioAbove hairline item target ≤ 1) ∧
      (item.Sized → overlapRatioAbove hairline item target = item.share hairline target) := by
  refine ⟨⟨pairwise_resolveAbove m hairline items target, fun i => boxed_of_mem_resolveAbove, ?_, ?_⟩,
    fun item => ⟨overlapRatioAbove_mem hairline item target, overlapRatioAbove_eq_share⟩⟩
  · rintro ⟨b, hb, hwithin⟩ i
    obtain ⟨j, hj⟩ := List.mem_iff_getElem?.mp hb
    have hmem := (mem_contained_iff tolerance sized htarget).mpr ⟨b, hj, hwithin⟩
    rw [resolveAbove_of_mem hmem, mem_contained_iff tolerance sized htarget]
  · intro hnone
    refine resolveAbove_of_not_mem fun i hi => hnone ?_
    obtain ⟨b, hb, hwithin⟩ := (mem_contained_iff tolerance sized htarget).mp hi
    exact ⟨b, List.mem_of_getElem? hb, hwithin⟩

/-- A region that covers half of either of two items, and has none inside, means the first of them. -/
theorem resolveAbove_means_halves :
    let m : Matching ℚ := ⟨2, 1 / 10, .bottomLeft⟩
    let items : List (Option (Box ℚ)) := [none, some ⟨0, 0, 10, 10⟩, some ⟨20, 0, 10, 10⟩]
    let target : Box ℚ := ⟨5, 0, 20, 10⟩
    (0 ≤ m.tolerance ∧ (∀ b, some b ∈ items → b.Sized) ∧ target.Sized) ∧
      m.resolveAbove 0 items target = [1] ∧
      m.Means (overlapRatioAbove 0 · target) items target [1] ∧
      overlapRatioAbove 0 ⟨0, 0, 10, 10⟩ target = 1 / 2 := by
  intro m items target
  have tolerance : 0 ≤ m.tolerance := by decide +kernel
  have sized : ∀ b, some b ∈ items → b.Sized := by
    intro b hb
    simp only [items, List.mem_cons, List.not_mem_nil, or_false, Option.some.injEq] at hb
    obtain hb | rfl | rfl := hb
    · exact absurd hb (by simp)
    · exact ⟨by decide +kernel, by decide +kernel⟩
    · exact ⟨by decide +kernel, by decide +kernel⟩
  have htarget : target.Sized := ⟨by decide +kernel, by decide +kernel⟩
  have hfound : m.resolveAbove 0 items target = [1] := by decide +kernel
  obtain ⟨hmeans, hshare⟩ := resolveAbove_means 0 tolerance sized htarget
  rw [hfound] at hmeans
  refine ⟨⟨tolerance, sized, htarget⟩, hfound, hmeans, ?_⟩
  rw [(hshare _).2 ⟨by decide +kernel, by decide +kernel⟩]
  decide +kernel

end Matching

end AccessiblePdf
