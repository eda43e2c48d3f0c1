import AccessiblePdf.Outline.Heading
import AccessiblePdf.Proofs.Document.Lookup
import AccessiblePdf.Proofs.OrderedMap

/-!
The order in which headings are found. `DepthFirst` is the depth-first walk below some nodes that marks a
node when it enters it and passes over those that are marked; every such walk has one result
(`DepthFirst.unique`) and enters no node twice (`DepthFirst.nodup`). The search with a list of pending
elements is this walk (`headingsFrom_walk`), whatever loops there are and however often an element is
pending, so the headings are those of the walk below the root (`headings_depthFirst`).
-/
namespace AccessiblePdf

/-! ## Walks with marks -/

/-- The walk below some nodes, one after the other and each with what is below it: the nodes that it
enters, in order. A node that is marked is passed over, and one that is entered is marked from then on. -/
inductive DepthFirst {α : Type} (kids : α → List α) : List α → List α → List α → Prop where
  | done (marked : List α) : DepthFirst kids marked [] []
  | skip {marked rest order : List α} {a : α} (met : a ∈ marked)
      (beside : DepthFirst kids marked rest order) : DepthFirst kids marked (a :: rest) order
  | enter {marked rest below after : List α} {a : α} (new : a ∉ marked)
      (inside : DepthFirst kids (a :: marked) (kids a) below)
      (beside : DepthFirst kids (below ++ a :: marked) rest after) :
      DepthFirst kids marked (a :: rest) (a :: (below ++ after))

namespace DepthFirst

variable {α : Type} {kids : α → List α} {marked marked' as bs order order' : List α}

/-- The marks alone decide where a walk goes. -/
theorem unique (h : DepthFirst kids marked as order) (h' : DepthFirst kids marked as order') :
    order' = order := by
  induction h generalizing order' with
  | done marked =>
    cases h'
    rfl
  | skip met beside ih =>
    cases h' with
    | skip _ beside' => exact ih beside'
    | enter new _ _ => exact absurd met new
  | enter new inside beside ihinside ihbeside =>
    cases h' with
    | skip met _ => exact absurd met new
    | enter _ inside' beside' =>
      obtain rfl := ihinside inside'
      rw [ihbeside beside']

/-- No node is entered twice, and none that was marked before. -/
theorem nodup (h : DepthFirst kids marked as order) : order.Nodup ∧ ∀ a ∈ order, a ∉ marked := by
  induction h with
  | done marked => exact ⟨List.nodup_nil, fun a ha => absurd ha List.not_mem_nil⟩
  | skip met beside ih => exact ih
  | @enter marked rest below after a new inside beside ihinside ihbeside =>
    have hafter : ∀ b ∈ after, b ∉ below ∧ b ≠ a ∧ b ∉ marked := by
      intro b hb
      have hnew := ihbeside.2 b hb
      rw [List.mem_append, List.mem_cons, not_or, not_or] at hnew
      exact hnew
    have hbelow : ∀ b ∈ below, b ≠ a ∧ b ∉ marked := by
      intro b hb
      have hnew := ihinside.2 b hb
      rw [List.mem_cons, not_or] at hnew
      exact hnew
    refine ⟨List.nodup_cons.mpr ⟨fun ha => ?_, List.nodup_append.mpr ⟨ihinside.1, ihbeside.1, ?_⟩⟩, ?_⟩
    · rcases List.mem_append.mp ha with ha | ha
      · exact (hbelow a ha).1 rfl
      · exact (hafter a ha).2.1 rfl
    · rintro b hb _ hb' rfl
      exact (hafter b hb').1 hb
    · intro b hb
      rcases List.mem_cons.mp hb with rfl | hb
      · exact new
      · rcases List.mem_append.mp hb with hb | hb
        · exact (hbelow b hb).2
        · exact (hafter b hb).2.2

theorem congr (h : DepthFirst kids marked as order) (same : ∀ a, a ∈ marked' ↔ a ∈ marked) :
    DepthFirst kids marked' as order := by
  induction h generalizing marked' with
  | done marked => exact done marked'
  | skip met beside ih => exact skip ((same _).mpr met) (ih same)
  | enter new inside beside ihinside ihbeside =>
    refine enter (fun ha => new ((same _).mp ha)) (ihinside fun b => ?_) (ihbeside fun b => ?_)
    · rw [List.mem_cons, List.mem_cons, same]
    · rw [List.mem_append, List.mem_append, List.mem_cons, List.mem_cons, same]

/-- A walk below two lists of nodes is a walk below the first one and then one below the second. -/
theorem exists_of_append (h : DepthFirst kids marked (as ++ bs) order) : ∃ first second,
    order = first ++ second ∧ DepthFirst kids marked as first ∧
      DepthFirst kids (first ++ marked) bs second := by
  generalize hboth : as ++ bs = both at h
  induction h generalizing as with
  | done marked =>
    obtain ⟨rfl, rfl⟩ := List.append_eq_nil_iff.mp hboth
    exact ⟨[], [], rfl, done marked, done marked⟩
  | @skip marked rest order a met beside ih =>
    cases as with
    | nil =>
      obtain rfl : bs = a :: rest := hboth
      exact ⟨[], order, rfl, done marked, skip met beside⟩
    | cons a' as =>
      obtain ⟨rfl, hrest⟩ := List.cons.inj hboth
      obtain ⟨first, second, heq, hfirst, hsecond⟩ := ih hrest
      exact ⟨first, second, heq, skip met hfirst, hsecond⟩
  | @enter marked rest below after a new inside beside ihinside ihbeside =>
    cases as with
    | nil =>
      obtain rfl : bs = a :: rest := hboth
      exact ⟨[], _, rfl, done marked, enter new inside beside⟩
    | cons a' as =>
      obtain ⟨rfl, hrest⟩ := List.cons.inj hboth
      obtain ⟨first, second, heq, hfirst, hsecond⟩ := ihbeside hrest
      refine ⟨a' :: (below ++ first), second, ?_, enter new inside hfirst, hsecond.congr fun b => ?_⟩
      · rw [heq, List.cons_append, List.append_assoc]
      · simp only [List.cons_append, List.mem_cons, List.mem_append]
        tauto

end DepthFirst

namespace Document

variable {doc : Document} {map : Std.TreeMap String String}

/-! ## The search -/

theorem mem_keys_of_elementKids {element kid : ObjectId} (h : kid ∈ doc.elementKids element) :
    kid ∈ doc.objects.keys := by
  obtain ⟨-, hrole⟩ := List.mem_filter.mp h
  obtain ⟨x, hx, -⟩ := (Option.any_eq_true _ _).mp hrole
  by_contra hnone
  obtain ⟨t, ht, -⟩ := target?_of_dict? hx
  rw [target?, chase, OrderedMap.get?_of_not_mem_keys hnone] at ht
  exact absurd ht (by simp)

/-- The search among pending elements is the walk below them, when the elements that are left are those
without a mark. -/
theorem headingsFrom_walk {unvisited pending marked : List ObjectId} (nodup : unvisited.Nodup)
    (left : ∀ id ∈ doc.objects.keys, id ∈ unvisited ↔ id ∉ marked)
    (known : ∀ id ∈ pending, id ∈ doc.objects.keys) : ∃ order,
      DepthFirst doc.elementKids marked pending order ∧
        doc.headingsFrom map unvisited pending = order.filterMap (doc.heading? map) := by
  fun_induction headingsFrom doc map unvisited pending generalizing marked with
  | case1 => exact ⟨[], .done marked, rfl⟩
  | case2 unvisited element pending hmem ih =>
    rw [List.forall_mem_cons] at known
    have hnew : element ∉ marked := (left element known.1).mp hmem
    have hleft : ∀ id ∈ doc.objects.keys,
        id ∈ unvisited.erase element ↔ id ∉ element :: marked := by
      intro id hid
      rw [nodup.mem_erase_iff, List.mem_cons, not_or, left id hid]
    have hknown : ∀ id ∈ doc.elementKids element ++ pending, id ∈ doc.objects.keys := by
      intro id hid
      rcases List.mem_append.mp hid with hid | hid
      · exact mem_keys_of_elementKids hid
      · exact known.2 id hid
    obtain ⟨order, hwalk, hfound⟩ := ih (nodup.erase element) hleft hknown
    obtain ⟨below, after, rfl, hbelow, hafter⟩ := hwalk.exists_of_append
    refine ⟨element :: (below ++ after), .enter hnew hbelow hafter, ?_⟩
    rw [hfound]
    cases hheading : doc.heading? map element with
    | none => rw [List.filterMap_cons_none hheading]; rfl
    | some h => rw [List.filterMap_cons_some hheading]; rfl
  | case3 unvisited element pending hmem ih =>
    rw [List.forall_mem_cons] at known
    obtain ⟨order, hwalk, hfound⟩ := ih nodup left known.2
    have hmet : element ∈ marked := by
      by_contra hnew
      exact hmem ((left element known.1).mpr hnew)
    exact ⟨order, .skip hmet hwalk, hfound⟩

theorem element_of_heading? {element : ObjectId} {h : Heading}
    (hh : doc.heading? map element = some h) : h.element = element := by
  obtain ⟨x, -, hx⟩ := Option.bind_eq_some_iff.mp hh
  obtain ⟨role, -, hrole⟩ := Option.bind_eq_some_iff.mp hx
  obtain ⟨level, -, hlevel⟩ := Option.bind_eq_some_iff.mp hrole
  obtain rfl := Option.some.inj hlevel
  rfl

/-- The headings are those of the elements that the walk below the root enters, in its order; the root is
marked from the start. There is exactly one such walk, and no element gives two headings. -/
theorem headings_depthFirst (distinct : doc.objects.Distinct) (root : ObjectId) :
    ∃ order, (∀ order', DepthFirst doc.elementKids [root] (doc.elementKids root) order' ↔
        order' = order) ∧
      doc.headings root =
        order.filterMap (doc.heading? (doc.roleMap ((doc.dict? root).getD ∅))) ∧
      order.Nodup ∧ root ∉ order ∧ ((doc.headings root).map (·.element)).Nodup := by
  have hleft : ∀ id ∈ doc.objects.keys, id ∈ doc.objects.keys.erase root ↔ id ∉ [root] := by
    intro id hid
    rw [List.Nodup.mem_erase_iff distinct, List.mem_singleton]
    exact and_iff_left hid
  obtain ⟨order, hwalk, hfound⟩ := headingsFrom_walk (List.Nodup.erase root distinct) hleft
    fun _ hid => mem_keys_of_elementKids hid
  obtain ⟨hnodup, hnew⟩ := hwalk.nodup
  have hheadings : doc.headings root =
      order.filterMap (doc.heading? (doc.roleMap ((doc.dict? root).getD ∅))) := hfound
  refine ⟨order, fun order' => ⟨hwalk.unique, fun h => h ▸ hwalk⟩, hheadings, hnodup,
    fun h => hnew root h (List.mem_singleton_self root), ?_⟩
  rw [hheadings, List.map_filterMap]
  refine hnodup.filterMap fun a b id ha hb => ?_
  obtain ⟨h, hh, rfl⟩ := Option.map_eq_some_iff.mp ha
  obtain ⟨h', hh', heq⟩ := Option.map_eq_some_iff.mp hb
  rw [← element_of_heading? hh, ← heq, element_of_heading? hh']

/-- Two headings that list each other, the root and themselves, and are listed twice. -/
def loopedHeadings : Document where
  version := "1.7"
  trailer := .empty
  objects := .ofList [
    (⟨1, 0⟩, .ofEntries [(utf8 "K", .array [.reference ⟨2, 0⟩, .reference ⟨9, 0⟩, .reference ⟨3, 0⟩])]),
    (⟨2, 0⟩, .ofEntries [(utf8 "S", .name "H1"), (utf8 "K", .array [.reference ⟨3, 0⟩, .integer 0])]),
    (⟨3, 0⟩, .ofEntries [(utf8 "S", .name "H2"), (utf8 "K", .array [.reference ⟨3, 0⟩,
      .reference ⟨2, 0⟩, .reference ⟨4, 0⟩, .reference ⟨1, 0⟩])]),
    (⟨4, 0⟩, .ofEntries [(utf8 "K", .reference ⟨2, 0⟩)])]
  maxId := 4

/-- Both are found once, the one that is listed first before the other. -/
theorem headings_depthFirst_looped : loopedHeadings.objects.Distinct ∧
    loopedHeadings.headings ⟨1, 0⟩ =
      [{ level := 1, role := "H1", element := ⟨2, 0⟩, page := none },
        { level := 2, role := "H2", element := ⟨3, 0⟩, page := none }] := by
  have distinct : loopedHeadings.objects.Distinct := by decide
  obtain ⟨order, hwalk, hfound, -⟩ := headings_depthFirst distinct ⟨1, 0⟩
  have hbelow : DepthFirst loopedHeadings.elementKids [⟨3, 0⟩, ⟨2, 0⟩, ⟨1, 0⟩]
      (loopedHeadings.elementKids ⟨3, 0⟩) [] := by
    rw [show loopedHeadings.elementKids ⟨3, 0⟩ = [⟨3, 0⟩, ⟨2, 0⟩] from rfl]
    exact .skip (by decide) (.skip (by decide) (.done _))
  have hinside : DepthFirst loopedHeadings.elementKids [⟨2, 0⟩, ⟨1, 0⟩]
      (loopedHeadings.elementKids ⟨2, 0⟩) [⟨3, 0⟩] := by
    rw [show loopedHeadings.elementKids ⟨2, 0⟩ = [⟨3, 0⟩] from rfl]
    exact .enter (by decide) hbelow (.done _)
  have hlisted : DepthFirst loopedHeadings.elementKids [⟨1, 0⟩]
      (loopedHeadings.elementKids ⟨1, 0⟩) [⟨2, 0⟩, ⟨3, 0⟩] := by
    rw [show loopedHeadings.elementKids ⟨1, 0⟩ = [⟨2, 0⟩, ⟨3, 0⟩] from rfl]
    exact .enter (by decide) hinside (.skip (by decide) (.done _))
  have hheadings : loopedHeadings.headings ⟨1, 0⟩ = [⟨2, 0⟩, ⟨3, 0⟩].filterMap (loopedHeadings.heading?
      (loopedHeadings.roleMap ((loopedHeadings.dict? ⟨1, 0⟩).getD ∅))) := by
    rw [hfound, (hwalk _).mp hlisted]
  refine ⟨distinct, hheadings.trans ?_⟩
  with_unfolding_all rfl

end Document

end AccessiblePdf
