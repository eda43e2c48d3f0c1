import AccessiblePdf.Content.Scan
import Mathlib.Data.List.Basic

/-!
A scan seen from the operations. `ScanState.before` is the state in which an operation is read and
`ScanState.drawnAt` what it draws; a page scan lists the latter in order (`operators_eq`). The other
half of the module is about paths: in operations where nothing of some kind stands between the start
of a path and its painting (`PathsFree`), the scan finds nothing of that kind there either.
-/
namespace AccessiblePdf

namespace Command

def opensMarked : Command → Bool
  | .beginMarked _ _ => true
  | _ => false

def closesMarked : Command → Bool
  | .endMarked => true
  | _ => false

/-- Opens or ends a marked-content sequence. -/
def isBracket (c : Command) : Bool := c.opensMarked || c.closesMarked

/-- Adds to the path under construction. -/
def constructs : Command → Bool
  | .lineTo _ | .curve _ _ | .rectangle _ => true
  | _ => false

def paints : Command → Bool
  | .paint _ => true
  | _ => false

/-- Ends the path under construction, painted or not. -/
def endsPath : Command → Bool
  | .paint _ | .endPath => true
  | _ => false

/-- Shows text, or draws an image, a form or a path. -/
def draws : Command → Bool
  | .showText _ | .nextLineShow _ | .spacedShow _ _ _ | .drawObject _ | .inlineImage | .paint _ =>
    true
  | _ => false

end Command

/-! ## What an operation draws -/

theorem Pen.isSome_step (r : ContentResources) (p : Pen) (c : Command) :
    (p.step r c).2.isSome = c.draws := by
  cases c with
  | restore =>
    rcases p with ⟨_, saved, _, _, _, _, _⟩
    cases saved <;> rfl
  | transform m => cases m <;> rfl
  | textMatrix m => cases m <;> rfl
  | lineTo q => cases q <;> rfl
  | rectangle coordinates =>
    match coordinates with
    | [] | [_] | [_, _] | [_, _, _] | [_, _, _, _] | _ :: _ :: _ :: _ :: _ :: _ => rfl
  | _ => rfl

theorem Pen.step_of_isBracket (r : ContentResources) (p : Pen) {c : Command}
    (h : c.isBracket = true) : p.step r c = (p, none) := by
  cases c with
  | beginMarked tag properties => rfl
  | endMarked => rfl
  | _ => exact absurd h Bool.false_ne_true

namespace ScanState

variable (r : ContentResources)

theorem run_append (s : ScanState) (i : Nat) (a b : List Operation) :
    run r s i (a ++ b) =
      ((run r (run r s i a).1 (i + a.length) b).1,
        (run r s i a).2 ++ (run r (run r s i a).1 (i + a.length) b).2) := by
  induction a generalizing s i with
  | nil => rfl
  | cons op a ih =>
    simp only [List.cons_append, run, ih, List.length_cons, List.append_assoc]
    rw [show i + 1 + a.length = i + (a.length + 1) by omega]

theorem run_concat (s : ScanState) (i : Nat) (a : List Operation) (op : Operation) :
    run r s i (a ++ [op]) =
      (((run r s i a).1.step r (i + a.length) op).1,
        (run r s i a).2 ++ ((run r s i a).1.step r (i + a.length) op).2.toList) := by
  rw [run_append]
  simp [run]

/-- The state in which operation `k` is read. -/
def before (ops : List Operation) (k : Nat) : ScanState := (run r {} 0 (ops.take k)).1

/-- What operation `k` draws. -/
def drawnAt (ops : List Operation) (k : Nat) : Option Drawn :=
  ops[k]?.bind fun op => ((before r ops k).step r k op).2

variable {r} {ops : List Operation} {k : Nat} {op : Operation} {d : Drawn}

theorem take_succ_of_getElem? (h : ops[k]? = some op) : ops.take (k + 1) = ops.take k ++ [op] := by
  rw [List.take_add_one, h]
  rfl

theorem length_take_of_getElem? (h : ops[k]? = some op) : (ops.take k).length = k := by
  have hk := (List.getElem?_eq_some_iff.mp h).1
  rw [List.length_take]
  omega

theorem before_succ (h : ops[k]? = some op) :
    before r ops (k + 1) = ((before r ops k).step r k op).1 := by
  rw [before, take_succ_of_getElem? h, run_concat, length_take_of_getElem? h, Nat.zero_add]
  rfl

theorem before_append (h : k ≤ ops.length) (more : List Operation) :
    before r (ops ++ more) k = before r ops k := by
  rw [before, before, List.take_append_of_le_length h]

theorem before_length (r : ContentResources) (ops : List Operation) :
    before r ops ops.length = (run r {} 0 ops).1 := by
  rw [before, List.take_length]

theorem before_succ_of_none (h : ops[k]? = none) : before r ops (k + 1) = before r ops k := by
  have hk : ops.length ≤ k := List.getElem?_eq_none_iff.mp h
  rw [before, before, List.take_of_length_le hk, List.take_of_length_le (by omega)]

theorem run_take (r : ContentResources) (ops : List Operation) (k : Nat) :
    (run r {} 0 (ops.take k)).2 = (List.range k).filterMap (drawnAt r ops) := by
  induction k with
  | zero => rfl
  | succ k ih =>
    rw [List.range_succ, List.filterMap_append, ← ih]
    cases h : ops[k]? with
    | none =>
      have hk : ops.length ≤ k := List.getElem?_eq_none_iff.mp h
      rw [List.take_of_length_le (by omega), List.take_of_length_le hk]
      simp [drawnAt, h]
    | some op =>
      rw [take_succ_of_getElem? h, run_concat, length_take_of_getElem? h, Nat.zero_add]
      simp only [drawnAt, List.filterMap_cons, List.filterMap_nil, h, Option.bind_some, before]
      cases ((run r {} 0 (ops.take k)).1.step r k op).2 <;> rfl

theorem operators_eq (r : ContentResources) (ops : List Operation) :
    (PageScan.ofOperations r ops).operators = (List.range ops.length).filterMap (drawnAt r ops) := by
  rw [← run_take, List.take_length]
  rfl

theorem drawnAt_spec (h : drawnAt r ops k = some d) :
    ∃ op, ops[k]? = some op ∧ op.command.draws = true ∧ d.index = k ∧ d.operator = op.operator ∧
      ((before r ops k).pen.step r op.command).2 = some d.figure ∧
      d.marks = (before r ops k).marks.marks ∧
      d.start = startOf (before r ops k).pathStart k op.command := by
  obtain ⟨op, hop, hd⟩ := Option.bind_eq_some_iff.mp h
  simp only [step, Option.map_eq_some_iff] at hd
  obtain ⟨figure, hfigure, rfl⟩ := hd
  refine ⟨op, hop, ?_, rfl, rfl, hfigure, rfl, rfl⟩
  rw [← Pen.isSome_step r (before r ops k).pen, hfigure]
  rfl

theorem index_drawnAt (h : drawnAt r ops k = some d) : d.index = k := by
  obtain ⟨_, _, _, hindex, _⟩ := drawnAt_spec h
  exact hindex

theorem drawnAt_lt (h : drawnAt r ops k = some d) : k < ops.length := by
  obtain ⟨_, hop, _⟩ := drawnAt_spec h
  exact (List.getElem?_eq_some_iff.mp hop).1

theorem mem_operators : d ∈ (PageScan.ofOperations r ops).operators ↔
    drawnAt r ops d.index = some d := by
  rw [operators_eq, List.mem_filterMap]
  constructor
  · rintro ⟨k, _, hk⟩
    rw [index_drawnAt hk, hk]
  · intro h
    exact ⟨d.index, List.mem_range.mpr (drawnAt_lt h), h⟩

theorem pairwise_operators (r : ContentResources) (ops : List Operation) :
    (PageScan.ofOperations r ops).operators.Pairwise fun a b => a.index < b.index := by
  rw [operators_eq, List.pairwise_filterMap]
  refine List.pairwise_lt_range.imp fun {i j} hij => ?_
  intro a ha b hb
  rw [index_drawnAt ha, index_drawnAt hb]
  exact hij

/-! ## Content IDs -/

theorem mem_mcids {r : ContentResources} {ops : List Operation} {m : Int} :
    m ∈ (PageScan.ofOperations r ops).mcids ↔ m ∈ ops.filterMap (PageScan.openedMcid? r) := by
  rw [PageScan.ofOperations, Std.TreeSet.mem_toList, Std.TreeSet.mem_ofList,
    List.contains_iff_mem]

theorem pairwise_mcids (r : ContentResources) (ops : List Operation) :
    (PageScan.ofOperations r ops).mcids.Pairwise (· < ·) := by
  refine Std.TreeSet.ordered_toList.imp fun {a b} hab => ?_
  exact Int.compare_eq_lt.mp hab

/-- The next content ID is above all that a page has. -/
theorem lt_nextMcid {r : ContentResources} {ops : List Operation} {first m : Int}
    (next : (PageScan.ofOperations r ops).nextMcid? = some first)
    (h : m ∈ (PageScan.ofOperations r ops).mcids) : m < first := by
  have hsorted := pairwise_mcids r ops
  rw [PageScan.nextMcid?] at next
  generalize (PageScan.ofOperations r ops).mcids = ms at hsorted next h
  cases hlast : ms.getLast? with
  | none =>
    rw [List.getLast?_eq_none_iff.mp hlast] at h
    exact absurd h List.not_mem_nil
  | some top =>
    obtain ⟨below, hbelow⟩ := List.getLast?_eq_some_iff.mp hlast
    have hm : m ≤ top := by
      rw [hbelow, List.pairwise_append] at hsorted
      rw [hbelow, List.mem_append, List.mem_singleton] at h
      rcases h with h | rfl
      · exact Int.le_of_lt (hsorted.2.2 m h top (List.mem_singleton_self top))
      · exact Int.le_refl m
    rw [hlast] at next
    have hfirst : max (top + 1) 0 = first := by
      by_cases hmax : top < maxInt64
      · simpa [hmax] using next
      · simp [hmax] at next
    omega

/-! ## Resources -/

theorem font_ofDict (doc : Document) (entries : Dict Object) (ops : List Operation)
    (name : Bytes) :
    (ContentResources.ofDict doc entries ops).font name =
      ContentResources.loadFont doc entries name := by
  simp only [ContentResources.ofDict]
  generalize ContentResources.fontNames ops = names
  induction names with
  | nil => rfl
  | cons n names ih =>
    rw [List.map_cons, List.lookup_cons]
    by_cases h : name = n
    · subst h
      simp
    · rw [beq_false_of_ne h]
      exact ih

theorem ofDict_eq (doc : Document) (entries : Dict Object) (ops ops' : List Operation) :
    ContentResources.ofDict doc entries ops = ContentResources.ofDict doc entries ops' := by
  have h : (ContentResources.ofDict doc entries ops).font =
      (ContentResources.ofDict doc entries ops').font := by
    funext name
    rw [font_ofDict, font_ofDict]
  exact congrArg (ContentResources.mk doc entries) h

/-! ## Where a path starts -/

theorem pathStartAfter_eq (start : Option Nat) (i : Nat) (c : Command) :
    pathStartAfter start i c =
      if c.endsPath then none else if c.constructs then start <|> some i else start := by
  cases c <;> rfl

theorem startOf_eq (start : Option Nat) (i : Nat) (c : Command) :
    startOf start i c = if c.paints then start.getD i else i := by
  cases c <;> rfl

theorem pathStart_le (r : ContentResources) (ops : List Operation) :
    ∀ k i, (before r ops k).pathStart = some i → i < k := by
  intro k
  induction k with
  | zero => intro i h; simp [before, run] at h
  | succ k ih =>
    intro i h
    cases hop : ops[k]? with
    | none =>
      rw [before_succ_of_none hop] at h
      exact Nat.lt_succ_of_lt (ih i h)
    | some op =>
      rw [before_succ hop] at h
      simp only [step, pathStartAfter_eq] at h
      cases hs : (before r ops k).pathStart with
      | some j =>
        have hj := ih j hs
        rw [hs] at h
        split at h <;> simp at h
        omega
      | none =>
        rw [hs] at h
        split at h <;> simp at h
        omega

theorem start_le (h : drawnAt r ops k = some d) : d.start ≤ k := by
  obtain ⟨op, _, _, _, _, _, _, hstart⟩ := drawnAt_spec h
  rw [hstart, startOf_eq]
  split
  · cases hs : (before r ops k).pathStart with
    | none => simp
    | some i => simpa using Nat.le_of_lt (pathStart_le r ops k i hs)
  · exact Nat.le_refl k

end ScanState

end AccessiblePdf
