import AccessiblePdf.Proofs.Content.Restoring
import Mathlib.Data.List.Induction

/-!
Content in brackets of its own with other content behind it. The restore behind the first content gives
the state that the last save left open found (`graphics_behind`), which need not be the save in front of
it: content may restore that one itself, or leave a save of its own open. What stands behind starts with
a new state, whatever else the content does, just when the save in front is the last one open
(`starts_clean_iff`).
-/
namespace AccessiblePdf

namespace Command

section Held

variable {α β : Type}

/-- What is held for the saved states, latest first, after a command that holds `x` for a state that it
saves. -/
def hold (x : α) (held : List α) : Command → List α
  | .save => if held.length < maxSavedStates then x :: held else held
  | .restore => held.tail
  | _ => held

theorem hold_of_not_nests {c : Command} (h : c.nests = false) (x : α) (held : List α) :
    c.hold x held = held := by
  cases c <;> first | rfl | exact absurd h (by simp [nests])

theorem map_hold (f : α → β) (x : α) (held : List α) (c : Command) :
    (c.hold x held).map f = c.hold (f x) (held.map f) := by
  cases c with
  | save =>
    simp only [hold, List.length_map]
    split <;> rfl
  | restore => exact List.map_tail
  | _ => rfl

theorem mem_hold {x y : α} {held : List α} {c : Command} (h : y ∈ c.hold x held) :
    y = x ∨ y ∈ held := by
  cases c with
  | save =>
    simp only [hold] at h
    split at h
    · exact List.mem_cons.mp h
    · exact Or.inr h
  | restore => exact Or.inr (List.mem_of_mem_tail h)
  | _ => exact Or.inr h

end Held

/-- Which saved states are not the first one of all, after some commands. -/
def holdLater (held : List Bool) (cs : List Command) : List Bool :=
  cs.foldl (fun held c => c.hold true held) held

theorem holdLater_filter (held : List Bool) (cs : List Command) :
    holdLater held (cs.filter nests) = holdLater held cs := by
  induction cs generalizing held with
  | nil => rfl
  | cons c cs ih =>
    cases h : c.nests with
    | true =>
      rw [List.filter_cons_of_pos h]
      exact ih _
    | false =>
      rw [List.filter_cons_of_neg (by simp [h]), ih]
      show holdLater held cs = holdLater (c.hold true held) cs
      rw [hold_of_not_nests h]

theorem hold_savedAfter {n m : Nat} {c : Command} (h : c.savedAfter? n = some m) :
    c.hold true (List.replicate n true ++ [false]) = List.replicate m true ++ [false] := by
  cases c with
  | save =>
    simp only [savedAfter?, Option.ite_none_right_eq_some, Option.some.injEq] at h
    obtain ⟨hroom, rfl⟩ := h
    have hlength : (List.replicate n true ++ [false]).length < maxSavedStates := by
      rw [List.length_append, List.length_replicate]
      exact hroom
    rw [hold, if_pos hlength]
    rfl
  | restore =>
    cases n with
    | zero => exact absurd h (by simp [savedAfter?])
    | succ n =>
      obtain rfl := Option.some.inj h
      rfl
  | _ =>
    obtain rfl := Option.some.inj h
    rfl

theorem holdLater_savedAfter {n m : Nat} {cs : List Command}
    (h : cs.foldlM (fun n c => c.savedAfter? n) n = some m) :
    holdLater (List.replicate n true ++ [false]) cs = List.replicate m true ++ [false] := by
  induction cs generalizing n with
  | nil =>
    obtain rfl := Option.some.inj h
    rfl
  | cons c cs ih =>
    rw [List.foldlM_cons] at h
    obtain ⟨k, hk, h⟩ := Option.bind_eq_some_iff.mp h
    calc holdLater (List.replicate n true ++ [false]) (c :: cs)
        = holdLater (List.replicate k true ++ [false]) cs := by rw [← hold_savedAfter hk]; rfl
      _ = List.replicate m true ++ [false] := ih h

end Command

namespace Pen

variable {r : ContentResources} {p : Pen}

theorem saved_step (r : ContentResources) (p : Pen) (c : Command) :
    (p.step r c).1.saved = c.hold p.graphics p.saved := by
  cases c with
  | save =>
    rw [step, Command.hold]
    split <;> rfl
  | restore =>
    rw [step, Command.hold]
    split
    · next g rest h => rw [h, List.tail_cons]
    · next h => rw [h, List.tail_nil]
  | _ => exact step_saved (by simp) (by simp)

theorem graphics_restore (r : ContentResources) (p : Pen) :
    (p.step r .restore).1.graphics = p.saved.head?.getD p.graphics := by
  rw [step]
  split
  · next g rest h => rw [h, List.head?_cons, Option.getD_some]
  · next h => rw [h, List.head?_nil, Option.getD_none]

end Pen

/-! ## Open saves -/

namespace Operation

variable {ops ops' : List Operation}

/-- The places of the saves that are open behind operations, latest first. -/
def openSaves (ops : List Operation) : List Nat :=
  ops.zipIdx.foldl (fun saves e => e.1.command.hold e.2 saves) []

theorem openSaves_concat (ops : List Operation) (op : Operation) :
    openSaves (ops ++ [op]) = op.command.hold ops.length (openSaves ops) := by
  rw [openSaves, List.zipIdx_append, List.foldl_append, Nat.zero_add]
  rfl

theorem lt_of_mem_openSaves {i : Nat} (h : i ∈ openSaves ops) : i < ops.length := by
  induction ops using List.reverseRecOn with
  | nil => exact absurd h List.not_mem_nil
  | append_singleton ops op ih =>
    rw [openSaves_concat] at h
    rw [List.length_append, List.length_singleton]
    rcases Command.mem_hold h with rfl | h
    · exact Nat.lt_succ_self _
    · exact Nat.lt_succ_of_lt (ih h)

/-- A save in front of some content. -/
def withSave (ops : List Operation) : List Operation := ⟨"q", []⟩ :: ops

/-- The save in front of some content is the last one that is open behind it. -/
def Isolated (ops : List Operation) : Prop := (openSaves (withSave ops)).head? = some 0

instance (ops : List Operation) : Decidable (Isolated ops) := by
  unfold Isolated
  infer_instance

theorem map_openSaves (ops : List Operation) :
    (openSaves (withSave ops)).map (· != 0) = Command.holdLater [false] (ops.map command) := by
  have hfold : ∀ (ops : List Operation) (k : Nat) (saves : List Nat),
      ((ops.zipIdx (k + 1)).foldl (fun saves e => e.1.command.hold e.2 saves) saves).map (· != 0) =
        Command.holdLater (saves.map (· != 0)) (ops.map command) := by
    intro ops
    induction ops with
    | nil => exact fun _ _ => rfl
    | cons op ops ih =>
      intro k saves
      have hlater : (k + 1 != 0) = true := rfl
      rw [List.zipIdx_cons, List.foldl_cons, ih (k + 1), Command.map_hold, hlater]
      rfl
  exact hfold ops 0 [0]

theorem isolated_iff : Isolated ops ↔
    (Command.holdLater [false] (ops.map command)).head? = some false := by
  rw [Isolated, ← map_openSaves, List.head?_map]
  cases (openSaves (withSave ops)).head? with
  | none => simp
  | some i => simp

theorem isolated_congr (same : nests ops' = nests ops) : Isolated ops' ↔ Isolated ops := by
  rw [isolated_iff, isolated_iff, ← Command.holdLater_filter, ← nests, same, nests,
    Command.holdLater_filter]

theorem SavesPaired.isolated (paired : SavesPaired ops) (shallow : nesting ops < maxSavedStates) :
    Isolated ops := by
  have hheld := Command.holdLater_savedAfter (Command.savedAfter?_eq_open? paired shallow)
  rw [List.replicate_zero, List.nil_append] at hheld
  rw [isolated_iff, hheld]
  rfl

/-- Content with some colour chosen before each operation and at the end. -/
def recolored (color : Operation) (ops : List Operation) : List Operation :=
  (ops.flatMap fun op => [color, op]) ++ [color]

theorem nests_recolored {color : Operation} (h : color.command.nests = false)
    (ops : List Operation) : nests (recolored color ops) = nests ops := by
  have hcolor : nests [color] = [] := by
    rw [nests, List.map_singleton, List.filter_cons_of_neg (by simp [h])]
    rfl
  have hflat : nests (ops.flatMap fun op => [color, op]) = nests ops := by
    induction ops with
    | nil => rfl
    | cons op ops ih =>
      simp only [nests, List.flatMap_cons, List.map_append, List.filter_append] at ih ⊢
      simp only [List.map_cons, List.map_nil, List.filter_cons, h, Bool.false_eq_true, if_false, ih]
      split <;> rfl
  rw [recolored]
  rw [nests, List.map_append, List.filter_append, ← nests, ← nests, hflat, hcolor, List.append_nil]

end Operation

/-! ## The state behind the brackets -/

namespace ScanState

open Operation

variable {r : ContentResources} {ops : List Operation}

theorem saved_eq (r : ContentResources) (ops : List Operation) :
    (run r {} 0 ops).1.pen.saved =
      (openSaves ops).map fun i => (before r ops i).pen.graphics := by
  induction ops using List.reverseRecOn with
  | nil => rfl
  | append_singleton ops op ih =>
    have hlater : ∀ i ∈ openSaves ops,
        (before r (ops ++ [op]) i).pen.graphics = (before r ops i).pen.graphics := fun i hi => by
      rw [before_append (Nat.le_of_lt (lt_of_mem_openSaves hi))]
    have hnow : (before r (ops ++ [op]) ops.length).pen.graphics = (run r {} 0 ops).1.pen.graphics := by
      rw [before_append (Nat.le_refl _), before_length]
    calc (run r {} 0 (ops ++ [op])).1.pen.saved
        = op.command.hold (run r {} 0 ops).1.pen.graphics (run r {} 0 ops).1.pen.saved := by
          rw [run_concat]
          exact Pen.saved_step r _ op.command
      _ = (openSaves (ops ++ [op])).map fun i => (before r (ops ++ [op]) i).pen.graphics := by
          rw [openSaves_concat, Command.map_hold, hnow, List.map_congr_left hlater, ih]

theorem behind_eq (r : ContentResources) (ops appended : List Operation) :
    (before r (bracketed ops ++ appended) (ops.length + 2)).pen.graphics =
      (run r {} 0 (withSave ops)).1.pen.saved.head?.getD
        (run r {} 0 (withSave ops)).1.pen.graphics := by
  have hlength : ops.length + 2 = (bracketed ops).length := by simp [bracketed]
  have hbracketed : bracketed ops = withSave ops ++ [⟨"Q", []⟩] := rfl
  rw [hlength, before_append (Nat.le_refl _), before_length, hbracketed, run_concat]
  exact Pen.graphics_restore r _

/-- Behind content in brackets the state is that in which the last open save is read, and, where none is
open, that which the content leaves. -/
theorem graphics_behind (r : ContentResources) (ops appended : List Operation) :
    (before r (bracketed ops ++ appended) (ops.length + 2)).pen.graphics =
      match (openSaves (withSave ops)).head? with
      | some i => (before r (withSave ops) i).pen.graphics
      | none => (run r {} 0 (withSave ops)).1.pen.graphics := by
  rw [behind_eq, saved_eq, List.head?_map]
  cases (openSaves (withSave ops)).head? <;> rfl

/-! ## Content that chooses colours -/

/-- Whether the colour space is not the one at the start. -/
def isRgb (g : GraphicsState) : Bool := decide (g.fillSpace = .rgb)

/-- Where each state that is saved has another colour than that at the start, the saved states tell
whether they are the first one. -/
theorem saved_recolored (s : ScanState) (i : Nat) (ops : List Operation) :
    (run r s i (ops.flatMap fun op => [paintRed, op])).1.pen.saved.map isRgb =
      Command.holdLater (s.pen.saved.map isRgb) (ops.map command) := by
  induction ops generalizing s i with
  | nil => rfl
  | cons op ops ih =>
    let red := (s.step r i paintRed).1
    have hred : isRgb red.pen.graphics = true := rfl
    have hsaved : red.pen.saved = s.pen.saved := rfl
    calc (run r s i ((op :: ops).flatMap fun op => [paintRed, op])).1.pen.saved.map isRgb
        = Command.holdLater ((red.step r (i + 1) op).1.pen.saved.map isRgb) (ops.map command) :=
          ih _ (i + 1 + 1)
      _ = Command.holdLater (s.pen.saved.map isRgb) ((op :: ops).map command) := by
          show Command.holdLater ((red.pen.step r op.command).1.saved.map isRgb) _ = _
          rw [Pen.saved_step, Command.map_hold, hred, hsaved]
          rfl

/-- Unless the save in front is the last one open, a colour gets behind the brackets. -/
theorem isRgb_behind (r : ContentResources) (other : ¬ Isolated ops) (appended : List Operation) :
    isRgb (before r (bracketed (recolored paintRed ops) ++ appended)
      ((recolored paintRed ops).length + 2)).pen.graphics = true := by
  rw [isolated_iff] at other
  let inner := run r {} 0 (withSave (ops.flatMap fun op => [paintRed, op]))
  have hrun : run r {} 0 (withSave (recolored paintRed ops)) =
      run r {} 0 (withSave (ops.flatMap fun op => [paintRed, op]) ++ [paintRed]) := rfl
  have hsaved : (run r {} 0 (withSave (recolored paintRed ops))).1.pen.saved.map isRgb =
      Command.holdLater [false] (ops.map command) := by
    rw [hrun, run_concat]
    exact saved_recolored _ 1 ops
  have hlast : isRgb (run r {} 0 (withSave (recolored paintRed ops))).1.pen.graphics = true := by
    rw [hrun, run_concat]
    rfl
  -- The restore finds the colour of a later save, or nothing, and then the colour chosen at the end stays.
  rw [behind_eq]
  have hhead := congrArg List.head? hsaved
  rw [List.head?_map] at hhead
  cases htop : (run r {} 0 (withSave (recolored paintRed ops))).1.pen.saved.head? with
  | none => exact hlast
  | some g =>
    rw [htop] at hhead
    rw [← hhead] at other
    simpa using other

/-- What stands behind content in brackets of its own starts with the state in which the last open save
is read. So, whatever else the content does between its saves and restores, it starts with a new state just
when that save is the one in front of the content. -/
theorem starts_clean_iff (r : ContentResources) (existing : List Operation) :
    (∀ appended, (before r (bracketed existing ++ appended) (existing.length + 2)).pen.graphics =
      match (openSaves (withSave existing)).head? with
      | some i => (before r (withSave existing) i).pen.graphics
      | none => (run r {} 0 (withSave existing)).1.pen.graphics) ∧
    ((∀ content, nests content = nests existing → ∀ appended,
      (before r (bracketed content ++ appended) (content.length + 2)).pen.graphics = {}) ↔
        Isolated existing) := by
  refine ⟨graphics_behind r existing, ?_, ?_⟩
  · intro hclean
    by_contra hopen
    -- Content that chooses a colour before each operation nests as the given one, and its colour gets out.
    have hred := isRgb_behind r hopen []
    rw [hclean _ (nests_recolored rfl existing)] at hred
    exact absurd hred (by decide)
  · intro hisolated content hsame appended
    have hhead : (openSaves (withSave content)).head? = some 0 := (isolated_congr hsame).mpr hisolated
    rw [graphics_behind, hhead]
    rfl

/-- A save that is left open is what the restore behind the content finds. -/
theorem not_clean_openSave :
    let r : ContentResources := .ofDict ⟨"1.7", ∅, ∅, 0⟩ ∅ []
    (before r (bracketed [paintRed, ⟨"q", []⟩] ++ [⟨"f", []⟩]) 4).pen.graphics ≠ {} := by
  intro r
  have hlast : (openSaves (withSave [paintRed, ⟨"q", []⟩])).head? = some 2 := by decide
  have hbehind := graphics_behind r [paintRed, ⟨"q", []⟩] [⟨"f", []⟩]
  rw [hlast] at hbehind
  exact fun h => graphics_concat_paintRed r [⟨"q", []⟩] (hbehind.symm.trans h)

end ScanState

end AccessiblePdf
