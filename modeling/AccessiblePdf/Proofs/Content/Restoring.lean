import AccessiblePdf.Proofs.Content.Painting

/-!
The graphics state behind content that restores each state that it saves. In brackets of its own such
content leaves no trace, as long as there is room for all states that are open at once. Saves for which
there is no room are dropped, but restores never are: behind content that is nested too deeply the
last restore finds nothing, and the state stays as the content left it (`graphics_bracket`). So the
room is just what a nesting needs to be safe, whatever else the content does (`bracket_restores_iff`).
-/
namespace AccessiblePdf

namespace Command

/-- How many states are open after a command, when `n` were before; none if one is restored that was
not saved. -/
def openAfter? (n : Nat) : Command → Option Nat
  | .save => some (n + 1)
  | .restore => match n with
    | 0 => none
    | n + 1 => some n
  | _ => some n

/-- How many states are open after some commands, when `n` were before. -/
def open? (n : Nat) (cs : List Command) : Option Nat := cs.foldlM openAfter? n

/-- The most states that are open at one place, when `n` are at the start. -/
def nestingFrom (n : Nat) : List Command → Nat
  | [] => n
  | c :: cs => max n (nestingFrom ((c.openAfter? n).getD 0) cs)

/-- Whether a command saves a state, or restores one. -/
def nests : Command → Bool
  | .save | .restore => true
  | _ => false

/-! ## Open states -/

theorem open?_cons (n : Nat) (c : Command) (cs : List Command) :
    open? n (c :: cs) = (c.openAfter? n).bind fun m => open? m cs := by
  simp [open?, List.foldlM_cons]

theorem open?_append (n : Nat) (cs cs' : List Command) :
    open? n (cs ++ cs') = (open? n cs).bind fun m => open? m cs' := by
  simp [open?, List.foldlM_append]

theorem openAfter?_of_not_nests {c : Command} (h : c.nests = false) (n : Nat) :
    c.openAfter? n = some n := by
  cases c <;> first | rfl | exact absurd h (by simp [nests])

theorem le_nestingFrom (n : Nat) (cs : List Command) : n ≤ nestingFrom n cs := by
  cases cs with
  | nil => exact Nat.le_refl n
  | cons c cs => exact Nat.le_max_left ..

theorem open?_filter (n : Nat) (cs : List Command) : open? n (cs.filter nests) = open? n cs := by
  induction cs generalizing n with
  | nil => rfl
  | cons c cs ih =>
    cases h : c.nests with
    | true =>
      rw [List.filter_cons_of_pos h, open?_cons, open?_cons]
      simp only [ih]
    | false =>
      rw [List.filter_cons_of_neg (by simp [h]), open?_cons, openAfter?_of_not_nests h, ih]
      simp

theorem nestingFrom_filter (n : Nat) (cs : List Command) :
    nestingFrom n (cs.filter nests) = nestingFrom n cs := by
  induction cs generalizing n with
  | nil => rfl
  | cons c cs ih =>
    cases h : c.nests with
    | true => rw [List.filter_cons_of_pos h, nestingFrom, nestingFrom, ih]
    | false =>
      have hle := le_nestingFrom n cs
      rw [List.filter_cons_of_neg (by simp [h]), nestingFrom, openAfter?_of_not_nests h, ih]
      simp only [Option.getD_some]
      omega

theorem savedAfter?_eq_open? {n m : Nat} {cs : List Command} (h : open? n cs = some m)
    (shallow : nestingFrom n cs < maxSavedStates) :
    cs.foldlM (fun n c => c.savedAfter? n) n = some m := by
  induction cs generalizing n with
  | nil => exact h
  | cons c cs ih =>
    rw [open?_cons] at h
    obtain ⟨k, hk, h⟩ := Option.bind_eq_some_iff.mp h
    rw [nestingFrom, hk, Option.getD_some] at shallow
    have hroom : nestingFrom k cs < maxSavedStates := by omega
    have hsaved : c.savedAfter? n = some k := by
      cases c with
      | save =>
        have hk' : n + 1 = k := Option.some.inj hk
        have := le_nestingFrom k cs
        rw [savedAfter?, if_pos (by omega), hk']
      | _ => exact hk
    rw [List.foldlM_cons, hsaved]
    exact ih h hroom

/-! ## Saves and restores in a row -/

theorem open?_saves (n k : Nat) : open? n (List.replicate k .save) = some (n + k) := by
  induction k generalizing n with
  | zero => rfl
  | succ k ih =>
    rw [List.replicate_succ, open?_cons]
    show open? (n + 1) (List.replicate k .save) = some (n + (k + 1))
    rw [ih]
    congr 1
    omega

theorem open?_restores (n k : Nat) : open? (n + k) (List.replicate k .restore) = some n := by
  induction k with
  | zero => rfl
  | succ k ih =>
    rw [List.replicate_succ, open?_cons]
    exact ih

theorem nestingFrom_saves (n k : Nat) (cs : List Command) :
    nestingFrom n (List.replicate k .save ++ cs) = nestingFrom (n + k) cs := by
  induction k generalizing n with
  | zero => rfl
  | succ k ih =>
    have hle := le_nestingFrom (n + 1 + k) cs
    calc nestingFrom n (List.replicate (k + 1) .save ++ cs)
        = max n (nestingFrom (n + 1) (List.replicate k .save ++ cs)) := rfl
      _ = max n (nestingFrom (n + 1 + k) cs) := by rw [ih]
      _ = nestingFrom (n + (k + 1)) cs := by
        rw [show n + (k + 1) = n + 1 + k by omega]
        omega

theorem nestingFrom_restores (n k : Nat) (cs : List Command) :
    nestingFrom (n + k) (List.replicate k .restore ++ cs) = max (n + k) (nestingFrom n cs) := by
  induction k with
  | zero =>
    have hle := le_nestingFrom n cs
    show nestingFrom n cs = max n (nestingFrom n cs)
    omega
  | succ k ih =>
    calc nestingFrom (n + (k + 1)) (List.replicate (k + 1) .restore ++ cs)
        = max (n + (k + 1)) (nestingFrom (n + k) (List.replicate k .restore ++ cs)) := rfl
      _ = max (n + (k + 1)) (nestingFrom n cs) := by
        rw [ih]
        omega

end Command

namespace Pen

variable {r : ContentResources} {p : Pen} {n m : Nat} {cs : List Command}

/-! ## Saved states -/

theorem length_saved_step (c : Command) (room : p.saved.length ≤ maxSavedStates) :
    (p.step r c).1.saved.length ≤ maxSavedStates := by
  cases c with
  | save =>
    rw [step]
    split
    · next h =>
      show (p.graphics :: p.saved).length ≤ maxSavedStates
      rw [List.length_cons]
      omega
    · exact room
  | restore =>
    rw [step]
    split
    · next g rest h =>
      rw [h, List.length_cons] at room
      show rest.length ≤ maxSavedStates
      omega
    · exact room
  | _ => rwa [step_saved (by simp) (by simp)]

/-- Where less is saved than is open, so it is after a command. -/
theorem step_short {c : Command} (h : c.openAfter? n = some m) (short : p.saved.length ≤ n) :
    (p.step r c).1.saved.length ≤ m := by
  cases c with
  | save =>
    have hm : n + 1 = m := Option.some.inj h
    rw [step]
    split
    · show (p.graphics :: p.saved).length ≤ m
      rw [List.length_cons]
      omega
    · show p.saved.length ≤ m
      omega
  | restore =>
    cases n with
    | zero => exact absurd h (by simp [Command.openAfter?])
    | succ n =>
      have hm : n = m := Option.some.inj h
      rw [step]
      split
      · next g rest hsaved =>
        rw [hsaved, List.length_cons] at short
        show rest.length ≤ m
        omega
      · next hsaved =>
        rw [hsaved]
        exact Nat.zero_le m
  | _ =>
    have hm : n = m := Option.some.inj h
    rw [step_saved (by simp) (by simp), ← hm]
    exact short

theorem draw_short (h : Command.open? n cs = some m) (short : p.saved.length ≤ n) :
    (p.draw r cs).1.saved.length ≤ m := by
  induction cs generalizing p n with
  | nil =>
    have hm : n = m := Option.some.inj h
    exact hm ▸ short
  | cons c cs ih =>
    rw [Command.open?_cons] at h
    obtain ⟨k, hk, h⟩ := Option.bind_eq_some_iff.mp h
    exact ih h (step_short hk short)

theorem draw_deep (h : Command.open? n cs = some m) (room : p.saved.length ≤ maxSavedStates)
    (deep : maxSavedStates ≤ Command.nestingFrom n cs) : (p.draw r cs).1.saved.length ≤ m := by
  induction cs generalizing p n with
  | nil =>
    have hm : n = m := Option.some.inj h
    exact Nat.le_trans room (hm ▸ deep)
  | cons c cs ih =>
    by_cases here : maxSavedStates ≤ n
    · -- All the room is taken at this place already.
      apply draw_short h
      omega
    · have hall := h
      rw [Command.open?_cons] at h
      obtain ⟨k, hk, h⟩ := Option.bind_eq_some_iff.mp h
      rw [Command.nestingFrom, hk, Option.getD_some] at deep
      apply ih h (length_saved_step c room)
      omega

/-- Content in brackets that restores what it saves gives the graphics state back, or, where it is nested
too deeply, leaves its own. -/
theorem graphics_draw_bracket (paired : Command.open? 0 cs = some 0) (fresh : p.saved = []) :
    (p.draw r (.save :: (cs ++ [.restore]))).1.graphics =
      if Command.nestingFrom 0 cs < maxSavedStates then p.graphics
      else (p.draw r (.save :: cs)).1.graphics := by
  split
  · next shallow =>
    exact (draw_bracket (Command.savedAfter?_eq_open? paired shallow) fresh).1
  · next deep =>
    have hsave : (p.step r .save).1.saved.length ≤ maxSavedStates := by
      apply length_saved_step
      rw [fresh]
      exact Nat.zero_le _
    have hshort := draw_deep (r := r) paired hsave (Nat.le_of_not_lt deep)
    have hnone : (p.draw r (.save :: cs)).1.saved = [] :=
      List.eq_nil_of_length_eq_zero (Nat.le_zero.mp hshort)
    calc (p.draw r (.save :: (cs ++ [.restore]))).1.graphics
        = ((p.draw r (.save :: cs)).1.step r .restore).1.graphics := by
          rw [← List.cons_append, draw_append]
          rfl
      _ = (p.draw r (.save :: cs)).1.graphics := by rw [step, hnone]

end Pen

/-! ## Content streams -/

namespace Operation

/-- Each state that is saved is restored, and none else; at any depth. -/
def SavesPaired (ops : List Operation) : Prop := Command.open? 0 (ops.map command) = some 0

/-- The most states that operations have open at one place. -/
def nesting (ops : List Operation) : Nat := Command.nestingFrom 0 (ops.map command)

instance (ops : List Operation) : Decidable (SavesPaired ops) := by
  unfold SavesPaired
  infer_instance

/-- What operations save and restore, apart from all else. -/
def nests (ops : List Operation) : List Command := (ops.map command).filter Command.nests

/-- Content between a save and a restore. -/
def bracketed (ops : List Operation) : List Operation := ⟨"q", []⟩ :: (ops ++ [⟨"Q", []⟩])

variable {ops ops' : List Operation}

theorem SavesPaired.of_nests (paired : SavesPaired ops) (same : nests ops' = nests ops) :
    SavesPaired ops' := by
  rw [SavesPaired, ← Command.open?_filter, ← nests, same, nests, Command.open?_filter]
  exact paired

theorem nesting_eq (same : nests ops' = nests ops) : nesting ops' = nesting ops := by
  rw [nesting, nesting, ← Command.nestingFrom_filter, ← nests, same, nests, Command.nestingFrom_filter]

end Operation

namespace ScanState

variable {r : ContentResources} {ops : List Operation}

theorem run_pen (s : ScanState) (i : Nat) (ops : List Operation) :
    (run r s i ops).1.pen = (s.pen.draw r (ops.map Operation.command)).1 := by
  induction ops generalizing s i with
  | nil => rfl
  | cons op ops ih =>
    rw [List.map_cons, Pen.draw_cons, run]
    exact ih _ _

/-- Behind content in brackets that restores what it saves, the graphics state is that before it, or, where
the content is nested too deeply, what the content left. -/
theorem graphics_bracket (r : ContentResources) (paired : Operation.SavesPaired ops) :
    (run r {} 0 (Operation.bracketed ops)).1.pen.graphics =
      if Operation.nesting ops < maxSavedStates then {}
      else (run r {} 0 (⟨"q", []⟩ :: ops)).1.pen.graphics := by
  have hcommands : (Operation.bracketed ops).map Operation.command =
      .save :: (ops.map Operation.command ++ [.restore]) := by
    rw [Operation.bracketed, List.map_cons, List.map_append]
    rfl
  rw [run_pen, run_pen, hcommands]
  exact Pen.graphics_draw_bracket paired rfl

/-- An operation that chooses another colour space than that at the start. -/
def paintRed : Operation := ⟨"rg", [.integer 1, .integer 0, .integer 0]⟩

theorem graphics_concat_paintRed (r : ContentResources) (ops : List Operation) :
    (run r {} 0 (ops ++ [paintRed])).1.pen.graphics ≠ {} := by
  rw [run_concat]
  intro h
  have hspace : ColorSpace.rgb = ColorSpace.gray := congrArg GraphicsState.fillSpace h
  cases hspace

/-- Behind content in brackets that restores what it saves, the graphics state is that before it, if the
content is not nested too deeply, and otherwise what the content left. So whatever else stands between the
saves and restores, the state is given back just when their nesting is not too deep. -/
theorem bracket_restores_iff (r : ContentResources) (paired : Operation.SavesPaired ops) :
    ((run r {} 0 (Operation.bracketed ops)).1.pen.graphics =
      if Operation.nesting ops < maxSavedStates then {}
      else (run r {} 0 (⟨"q", []⟩ :: ops)).1.pen.graphics) ∧
    ((∀ ops', Operation.nests ops' = Operation.nests ops →
      (run r {} 0 (Operation.bracketed ops')).1.pen.graphics = {}) ↔
        Operation.nesting ops < maxSavedStates) := by
  refine ⟨graphics_bracket r paired, ?_, ?_⟩
  · intro hall
    by_contra hdeep
    have hsame : Operation.nests (ops ++ [paintRed]) = Operation.nests ops := by
      rw [Operation.nests, List.map_append, List.filter_append]
      exact List.append_nil _
    have hred := hall _ hsame
    rw [graphics_bracket r (paired.of_nests hsame), Operation.nesting_eq hsame, if_neg hdeep] at hred
    exact graphics_concat_paintRed r (⟨"q", []⟩ :: ops) hred
  · intro hshallow ops' hsame
    rw [graphics_bracket r (paired.of_nests hsame), Operation.nesting_eq hsame, if_pos hshallow]

/-! ## At the limit -/

/-- Some saves, as many restores, and then another colour. -/
def nestedRed (n : Nat) : List Operation :=
  List.replicate n ⟨"q", []⟩ ++ (List.replicate n ⟨"Q", []⟩ ++ [paintRed])

theorem map_command_nestedRed (n : Nat) : (nestedRed n).map Operation.command =
    List.replicate n .save ++ (List.replicate n .restore ++ [paintRed.command]) := by
  simp only [nestedRed, List.map_append, List.map_replicate, List.map_cons, List.map_nil]
  rfl

theorem savesPaired_nestedRed (n : Nat) : Operation.SavesPaired (nestedRed n) := by
  have hsaves := Command.open?_saves 0 n
  rw [Nat.zero_add] at hsaves
  have hrestores := Command.open?_restores 0 n
  rw [Nat.zero_add] at hrestores
  rw [Operation.SavesPaired, map_command_nestedRed, Command.open?_append, hsaves, Option.bind_some,
    Command.open?_append, hrestores]
  rfl

theorem nesting_nestedRed (n : Nat) : Operation.nesting (nestedRed n) = n := by
  have hrestores := Command.nestingFrom_restores 0 n [paintRed.command]
  rw [Nat.zero_add] at hrestores
  rw [Operation.nesting, map_command_nestedRed, Command.nestingFrom_saves, Nat.zero_add, hrestores]
  simp [Command.nestingFrom, paintRed, Operation.command, Command.openAfter?]

/-- With brackets around as many saves as there is room for, the state is given back. -/
theorem bracket_restores_nestedRed :
    let r : ContentResources := .ofDict ⟨"1.7", ∅, ∅, 0⟩ ∅ []
    Operation.SavesPaired (nestedRed 255) ∧
      (run r {} 0 (Operation.bracketed (nestedRed 255))).1.pen.graphics = {} := by
  intro r
  have hpaired := savesPaired_nestedRed 255
  obtain ⟨hstate, -⟩ := bracket_restores_iff r hpaired
  refine ⟨hpaired, ?_⟩
  rw [hstate, nesting_nestedRed, if_pos (by decide)]

/-- With one save more the last restore finds nothing. -/
theorem not_restored_nestedRed :
    let r : ContentResources := .ofDict ⟨"1.7", ∅, ∅, 0⟩ ∅ []
    Operation.SavesPaired (nestedRed 256) ∧
      (run r {} 0 (Operation.bracketed (nestedRed 256))).1.pen.graphics ≠ {} := by
  intro r
  have hpaired := savesPaired_nestedRed 256
  refine ⟨hpaired, ?_⟩
  rw [graphics_bracket r hpaired, nesting_nestedRed, if_neg (by decide), nestedRed, ← List.append_assoc,
    ← List.cons_append]
  exact graphics_concat_paintRed r _

end ScanState

end AccessiblePdf
