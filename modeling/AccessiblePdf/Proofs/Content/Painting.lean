import AccessiblePdf.Proofs.Content.Scan

/-!
What the painter draws, apart from where it stands in the content. Figures come one after the other
(`draw_append`), only some commands draw text (`draw_kind`), and behind balanced content the painter
has the graphics state that it had before (`draw_bracket`).
-/
namespace AccessiblePdf

namespace Command

/-- Whether a command shows text. -/
def showsText : Command → Bool
  | .showText _ | .nextLineShow _ | .spacedShow _ _ _ => true
  | _ => false

/-- How many states are saved after a command, when `n` were before: none if one is restored that was
not saved, or one is saved for which there is no room beside one more. -/
def savedAfter? (n : Nat) : Command → Option Nat
  | .save => if n + 1 < maxSavedStates then some (n + 1) else none
  | .restore => match n with
    | 0 => none
    | n + 1 => some n
  | _ => some n

end Command

/-- Each state that is saved is restored, and none else. -/
def Operation.Restored (ops : List Operation) : Prop :=
  (ops.map Operation.command).foldlM (fun n c => c.savedAfter? n) 0 = some 0

instance (ops : List Operation) : Decidable (Operation.Restored ops) := by
  unfold Operation.Restored
  infer_instance

namespace Pen

variable {r : ContentResources} {p : Pen} {cs : List Command}

/-! ## Figures -/

/-- What commands do to the painter, and the figures that they draw. -/
def draw (r : ContentResources) : Pen → List Command → Pen × List Figure
  | p, [] => (p, [])
  | p, c :: cs =>
    let (p, figure) := p.step r c
    let (p, rest) := draw r p cs
    (p, figure.toList ++ rest)

theorem draw_cons (r : ContentResources) (p : Pen) (c : Command) (cs : List Command) :
    p.draw r (c :: cs) = (((p.step r c).1.draw r cs).1,
      (p.step r c).2.toList ++ ((p.step r c).1.draw r cs).2) := rfl

theorem draw_append (r : ContentResources) (p : Pen) (cs cs' : List Command) :
    p.draw r (cs ++ cs') = (((p.draw r cs).1.draw r cs').1,
      (p.draw r cs).2 ++ ((p.draw r cs).1.draw r cs').2) := by
  induction cs generalizing p with
  | nil => rfl
  | cons c cs ih => rw [List.cons_append, draw_cons, draw_cons, ih, List.append_assoc]

theorem run_figures (r : ContentResources) (s : ScanState) (i : Nat) (ops : List Operation) :
    (ScanState.run r s i ops).2.map (·.figure) =
      (s.pen.draw r (ops.map Operation.command)).2 := by
  induction ops generalizing s i with
  | nil => rfl
  | cons op ops ih =>
    rw [List.map_cons, draw_cons, ScanState.run]
    simp only [List.map_append, ih]
    congr 1
    simp only [ScanState.step]
    cases (s.pen.step r op.command).2 <;> rfl

/-! ## Text -/

theorem drawObject_kind (r : ContentResources) (p : Pen) (name : String) :
    (p.drawObject r name).kind ≠ .text := by
  rw [drawObject]
  split
  · split <;> simp
  · simp

theorem step_kind {c : Command} (h : c.showsText = false) :
    ∀ f ∈ (p.step r c).2, f.kind ≠ .text := by
  intro f hf
  have hdraws : c.draws = true := by
    rw [← isSome_step r p c, Option.isSome_iff_exists]
    exact ⟨f, hf⟩
  cases c with
  | drawObject name =>
    obtain rfl := Option.some.inj hf
    exact drawObject_kind r p name
  | inlineImage =>
    obtain rfl := Option.some.inj hf
    simp [finish]
  | paint fills =>
    obtain rfl := Option.some.inj hf
    simp [finish]
  | showText items => exact absurd h (by simp [Command.showsText])
  | nextLineShow items => exact absurd h (by simp [Command.showsText])
  | spacedShow word char items => exact absurd h (by simp [Command.showsText])
  | _ => exact absurd hdraws Bool.false_ne_true

/-- Without a command that shows text no text is drawn. -/
theorem draw_kind (h : ∀ c ∈ cs, c.showsText = false) :
    ∀ f ∈ (p.draw r cs).2, f.kind ≠ .text := by
  induction cs generalizing p with
  | nil => exact fun f hf => absurd hf List.not_mem_nil
  | cons c cs ih =>
    rw [List.forall_mem_cons] at h
    intro f hf
    rcases List.mem_append.mp hf with hf | hf
    · exact step_kind h.1 f (Option.mem_toList.mp hf)
    · exact ih h.2 f hf

/-! ## Saved states -/

theorem step_saved {c : Command} (save : c ≠ .save) (restore : c ≠ .restore) :
    (p.step r c).1.saved = p.saved := by
  cases c with
  | save => exact absurd rfl save
  | restore => exact absurd rfl restore
  | transform m => cases m <;> rfl
  | textMatrix m => cases m <;> rfl
  | lineTo q => cases q <;> rfl
  | rectangle coordinates =>
    match coordinates with
    | [] | [_] | [_, _] | [_, _, _] | [_, _, _, _] | _ :: _ :: _ :: _ :: _ :: _ => rfl
  | curve coordinates fromCurrent => cases fromCurrent <;> rfl
  | _ => rfl

/-- A command leaves alone what was saved before those states that it may restore. -/
theorem step_savedAfter {c : Command} {top base : List GraphicsState} {n : Nat}
    (single : base.length = 1) (h : c.savedAfter? top.length = some n)
    (saved : p.saved = top ++ base) :
    ∃ top' : List GraphicsState, top'.length = n ∧ (p.step r c).1.saved = top' ++ base := by
  cases c with
  | save =>
    simp only [Command.savedAfter?, Option.ite_none_right_eq_some, Option.some.injEq] at h
    obtain ⟨hroom, rfl⟩ := h
    have hlength : p.saved.length < maxSavedStates := by
      rw [saved, List.length_append, single]
      exact hroom
    refine ⟨p.graphics :: top, rfl, ?_⟩
    rw [step, if_pos hlength, saved, List.cons_append]
  | restore =>
    cases top with
    | nil => exact absurd h (by simp [Command.savedAfter?])
    | cons g top =>
      obtain rfl := Option.some.inj h
      refine ⟨top, rfl, ?_⟩
      simp only [step, saved, List.cons_append]
  | _ =>
    obtain rfl := Option.some.inj h
    refine ⟨top, rfl, Eq.trans (step_saved ?_ ?_) saved⟩ <;> simp

theorem draw_savedAfter {top base : List GraphicsState} {n : Nat} (single : base.length = 1)
    (h : cs.foldlM (fun n c => c.savedAfter? n) top.length = some n)
    (saved : p.saved = top ++ base) :
    ∃ top' : List GraphicsState, top'.length = n ∧ (p.draw r cs).1.saved = top' ++ base := by
  induction cs generalizing p top with
  | nil => exact ⟨top, Option.some.inj h, saved⟩
  | cons c cs ih =>
    rw [List.foldlM_cons] at h
    obtain ⟨m, hm, h⟩ := Option.bind_eq_some_iff.mp h
    obtain ⟨top', rfl, hsaved⟩ := step_savedAfter (r := r) single hm saved
    exact ih h hsaved

/-- Between a save and a restore, content that restores what it saves does not change the graphics
state. -/
theorem draw_bracket (restored : cs.foldlM (fun n c => c.savedAfter? n) 0 = some 0)
    (fresh : p.saved = []) :
    let q := (p.draw r (.save :: (cs ++ [.restore]))).1
    q.graphics = p.graphics ∧ q.saved = [] := by
  intro q
  have hsave : p.step r .save = ({ p with saved := [p.graphics] }, none) := by
    rw [step, fresh, if_pos (by decide)]
  have hinner : ({ p with saved := [p.graphics] } : Pen).saved = [] ++ [p.graphics] := rfl
  obtain ⟨top, htop, hsaved⟩ := @draw_savedAfter r _ cs [] _ 0 List.length_singleton restored hinner
  obtain rfl := List.eq_nil_of_length_eq_zero htop
  have hq : q = ((({ p with saved := [p.graphics] } : Pen).draw r cs).1.step r .restore).1 := by
    rw [show q = (p.draw r (.save :: (cs ++ [.restore]))).1 from rfl, draw_cons, hsave,
      draw_append]
    rfl
  rw [hq, step, hsaved]
  exact ⟨rfl, rfl⟩

end Pen

end AccessiblePdf
