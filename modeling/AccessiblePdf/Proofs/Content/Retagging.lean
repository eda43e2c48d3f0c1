import AccessiblePdf.Proofs.Content.Levels
import Mathlib.Data.List.Sort

/-!
Tagging a region once more. The scan of tagged content runs side by side with the scan of what it
was made from (`Simulates`): the painters agree, and the open sequences are alike but for the one
that a span opens at its level. So tagging gives MCIDs to what was selected and leaves everything
else as it was (`tagging_exact`), however often content has been tagged before.
-/
namespace AccessiblePdf

namespace Marking

open ScanState

/-! ## Openers with an MCID -/

/-- The opener of the `n`-th span, with the `n`-th MCID from `first` on. -/
def mcidOpener (role : String) (first : Int) (n : Nat) : Operation :=
  openWith role (.ofList [(utf8 "MCID", .integer (first + n))])

theorem openedMcid_mcidOpener (r : ContentResources) (role : String) (first : Int) (n : Nat) :
    PageScan.openedMcid? r (mcidOpener role first n) = some (first + n) := rfl

theorem command_mcidOpener (role : String) (first : Int) (n : Nat) :
    ∃ tag properties, (mcidOpener role first n).command = .beginMarked tag properties ∧
      ∀ r : ContentResources, properties.bind (ContentResources.mcid? r.doc r.entries) =
        some (first + n) :=
  ⟨_, _, rfl, fun _ => rfl⟩

theorem command_close : close.command = .endMarked := rfl

/-! ## Stacks that are alike -/

/-- Sequences that tag their content the same way. -/
structure Alike (a b : MarkedSequence) : Prop where
  mcid : a.mcid = b.mcid
  artifact : a.artifact = b.artifact

/-- A stack that tags content the same way as another. -/
abbrev AlikeAll : List MarkedSequence → List MarkedSequence → Prop := List.Forall₂ Alike

namespace AlikeAll

theorem mcid {l l' : List MarkedSequence} (h : AlikeAll l l') :
    l.findSome? (·.mcid) = l'.findSome? (·.mcid) := by
  induction h with
  | nil => rfl
  | cons hab _ ih => rw [List.findSome?_cons, List.findSome?_cons, hab.mcid, ih]

theorem artifact {l l' : List MarkedSequence} (h : AlikeAll l l') :
    l.any (·.artifact) = l'.any (·.artifact) := by
  induction h with
  | nil => rfl
  | cons hab _ ih => rw [List.any_cons, List.any_cons, hab.artifact, ih]

theorem step (r : ContentResources) (c : Command) {s t : MarkStack}
    (h : AlikeAll s.sequences t.sequences) :
    AlikeAll (s.step r c).sequences (t.step r c).sequences := by
  cases c with
  | beginMarked tag properties => exact .cons ⟨rfl, rfl⟩ h
  | endMarked => exact List.forall₂_drop 1 h
  | _ => exact h

end AlikeAll

section Simulation

variable {r : ContentResources} {ops out : List Operation} {ss : List Span} {first : Int}
  {role : String} {k : Nat} {op : Operation} {o : Option Nat}

/-! ## Two scans side by side -/

/-- The stack in the tagged content, beside the one in the content it was made from: alike where no
span is open, and with one sequence more at the level of the span where one is. -/
inductive Stacks (r : ContentResources) (ops : List Operation) (ss : List Span) (first : Int)
    (k : Nat) : Option Nat → List MarkedSequence → Prop where
  | outside {stack : List MarkedSequence} (same : AlikeAll (openAt r ops k) stack) :
      Stacks r ops ss first k none stack
  | inside {n : Nat} {s : Span} {above above' below : List MarkedSequence} {q : MarkedSequence}
      (span : ss[n]? = some s) (split : openAt r ops k = above ++ openAt r ops s.first)
      (upper : AlikeAll above above') (opened : q.mcid = some (first + n))
      (lower : AlikeAll (openAt r ops s.first) below) :
      Stacks r ops ss first k (some n) (above' ++ q :: below)

/-- What is drawn, before and after tagging. -/
structure Redrawn (ss : List Span) (first : Int) (d d' : Drawn) : Prop where
  operator : d'.operator = d.operator
  figure : d'.figure = d.figure
  inside : ∀ (n : Nat) (s : Span), ss[n]? = some s → s.first ≤ d.index → d.index ≤ s.last →
    d'.marks.mcid = some (first + n)
  outside : (∀ s ∈ ss, ¬(s.first ≤ d.index ∧ d.index ≤ s.last)) →
    d'.marks.mcid = d.marks.mcid ∧ d'.marks.artifact = d.marks.artifact

/-- The scan of `out` has come as far as the scan of the first `k` operations. -/
structure Simulates (r : ContentResources) (ops : List Operation) (ss : List Span) (first : Int)
    (o : Option Nat) (k : Nat) (out : List Operation) : Prop where
  pen : (run r {} 0 out).1.pen = (before r ops k).pen
  stack : Stacks r ops ss first k o (run r {} 0 out).1.marks.sequences
  drawn : List.Forall₂ (Redrawn ss first) (run r {} 0 (ops.take k)).2 (run r {} 0 out).2

theorem pen_concat (r : ContentResources) (out : List Operation) (op : Operation) :
    (run r {} 0 (out ++ [op])).1.pen = ((run r {} 0 out).1.pen.step r op.command).1 := by
  rw [run_concat]
  rfl

theorem marks_concat (r : ContentResources) (out : List Operation) (op : Operation) :
    (run r {} 0 (out ++ [op])).1.marks = (run r {} 0 out).1.marks.step r op.command := by
  rw [run_concat]
  rfl

theorem bracket_concat (out : List Operation) (h : op.command.isBracket = true) :
    (run r {} 0 (out ++ [op])).1.pen = (run r {} 0 out).1.pen ∧
      (run r {} 0 (out ++ [op])).2 = (run r {} 0 out).2 := by
  rw [run_concat]
  simp [ScanState.step, Pen.step_of_isBracket r _ h]

/-- Two scans whose painters agree read an operation. -/
theorem drawn_concat {R : Drawn → Drawn → Prop} (hop : ops[k]? = some op)
    (pen : (run r {} 0 out).1.pen = (before r ops k).pen)
    (drawn : List.Forall₂ R (run r {} 0 (ops.take k)).2 (run r {} 0 out).2)
    (marks : ∀ d d', drawnAt r ops k = some d → d'.operator = d.operator → d'.figure = d.figure →
      d'.marks = (run r {} 0 out).1.marks.marks → R d d') :
    List.Forall₂ R (run r {} 0 (ops.take (k + 1))).2 (run r {} 0 (out ++ [op])).2 := by
  rw [run_take, List.range_succ, List.filterMap_append, ← run_take, run_concat]
  refine List.rel_append drawn ?_
  rw [List.filterMap_cons, List.filterMap_nil]
  have hd : drawnAt r ops k = ((before r ops k).step r k op).2 := by rw [drawnAt, hop]; rfl
  cases hfigure : ((before r ops k).pen.step r op.command).2 with
  | none =>
    rw [hd]
    simp [ScanState.step, pen, hfigure]
  | some f =>
    have hsome : drawnAt r ops k = some ⟨k, startOf (before r ops k).pathStart k op.command,
        op.operator, f, (before r ops k).marks.marks⟩ := by
      rw [hd]
      simp [ScanState.step, hfigure]
    have hsome' : ((run r {} 0 out).1.step r (0 + out.length) op).2 = some ⟨0 + out.length,
        startOf (run r {} 0 out).1.pathStart (0 + out.length) op.command, op.operator, f,
        (run r {} 0 out).1.marks.marks⟩ := by
      simp [ScanState.step, pen, hfigure]
    rw [hsome, hsome']
    exact .cons (marks _ _ hsome rfl rfl rfl) .nil

theorem Simulates.read (h : Simulates r ops ss first o k out) (hop : ops[k]? = some op)
    (stack : Stacks r ops ss first (k + 1) o (run r {} 0 (out ++ [op])).1.marks.sequences)
    (marks : ∀ d d', drawnAt r ops k = some d → d'.operator = d.operator → d'.figure = d.figure →
      d'.marks = (run r {} 0 out).1.marks.marks → Redrawn ss first d d') :
    Simulates r ops ss first o (k + 1) (out ++ [op]) := by
  refine ⟨?_, stack, drawn_concat hop h.pen h.drawn marks⟩
  rw [pen_concat, before_succ hop, h.pen]
  rfl

theorem Stacks.of_level {n : Nat} {s : Span} {stack : List MarkedSequence}
    (h : Stacks r ops ss first k (some n) stack) (hs : ss[n]? = some s)
    (level : openAt r ops k = openAt r ops s.first) :
    ∃ q below, stack = q :: below ∧ q.mcid = some (first + n) ∧
      AlikeAll (openAt r ops k) below := by
  cases h with
  | @inside _ t above above' below q span split upper opened lower =>
    obtain rfl : s = t := Option.some.inj (hs.symm.trans span)
    have habove : above = [] := List.self_eq_append_left.mp (level.symm.trans split)
    rw [habove] at upper
    cases upper
    rw [level]
    exact ⟨q, below, rfl, opened, lower⟩

/-- Inside a span, brackets nest with those of the span. -/
theorem Stacks.step {n : Nat} {s : Span} {level : List MarkedSequence} {t : MarkStack}
    (balanced : Operation.Balanced ops) (hop : ops[k]? = some op) (hs : ss[n]? = some s)
    (hlevel : Level r ops s level) (hk : s.first ≤ k ∧ k ≤ s.last)
    (h : Stacks r ops ss first k (some n) t.sequences) :
    Stacks r ops ss first (k + 1) (some n) (t.step r op.command).sequences := by
  generalize hstack : t.sequences = stack at h
  have hnext : openAt r ops (k + 1) = ((before r ops k).marks.step r op.command).sequences := by
    rw [openAt, marks_succ hop]
  cases h with
  | @inside _ s' above above' below q span split upper opened lower =>
    obtain rfl : s = s' := Option.some.inj (hs.symm.trans span)
    rw [openAt] at split
    cases hc : op.command with
    | beginMarked tag properties =>
      rw [hc, MarkStack.step, split] at hnext
      rw [MarkStack.step, hstack]
      let pushed (count : Nat) : MarkedSequence :=
        ⟨count, properties.bind (ContentResources.mcid? r.doc r.entries),
          tag == MarkStack.artifactTag⟩
      have hpushed : AlikeAll (pushed (before r ops k).marks.count :: above)
          (pushed t.count :: above') := .cons ⟨rfl, rfl⟩ upper
      have hinside := Stacks.inside hs hnext hpushed opened lower
      exact hinside
    | endMarked =>
      rw [hc, MarkStack.step, split] at hnext
      rw [MarkStack.step, hstack]
      cases upper with
      | nil =>
        -- The level stays open up to the end of the span, so it is not what is ended.
        have hlen := (hlevel.within (k + 1) (by omega) (by omega)).length_le
        have hne := List.length_pos_iff.mpr (sequences_ne_nil (r := r) balanced hop hc)
        rw [← hlevel.first, hnext] at hlen
        rw [split] at hne
        simp only [List.nil_append, List.length_drop] at hlen hne
        omega
      | cons hb habove => exact .inside hs hnext habove opened lower
    | _ =>
      rw [hc] at hnext
      show Stacks r ops ss first (k + 1) (some n) t.sequences
      rw [hstack]
      exact .inside hs (hnext.trans split) upper opened lower

theorem Simulates.opens {n : Nat} {s : Span} (hs : ss[n]? = some s)
    (h : Simulates r ops ss first none s.first out) :
    Simulates r ops ss first (some n) s.first (out ++ [mcidOpener role first n]) := by
  obtain ⟨tag, properties, hcommand, hmcid⟩ := command_mcidOpener role first n
  have hbracket : (mcidOpener role first n).command.isBracket = true := by rw [hcommand]; rfl
  obtain ⟨hpen, hdrawn⟩ := bracket_concat (r := r) out hbracket
  refine ⟨by rw [hpen, h.pen], ?_, by rw [hdrawn]; exact h.drawn⟩
  rw [marks_concat, hcommand]
  cases h.stack with
  | outside same => exact .inside hs (List.nil_append _).symm .nil (hmcid r) same

theorem Simulates.closes {n : Nat} {s : Span} {level : List MarkedSequence}
    (hs : ss[n]? = some s) (hlevel : Level r ops s level)
    (h : Simulates r ops ss first (some n) (s.last + 1) out) :
    Simulates r ops ss first none (s.last + 1) (out ++ [close]) := by
  obtain ⟨hpen, hdrawn⟩ := bracket_concat (r := r) out (show close.command.isBracket = true from rfl)
  obtain ⟨q, below, hstack, _, hbelow⟩ :=
    h.stack.of_level hs (hlevel.behind.trans hlevel.first.symm)
  refine ⟨by rw [hpen, h.pen], .outside ?_, by rw [hdrawn]; exact h.drawn⟩
  rw [marks_concat, command_close]
  simp only [MarkStack.step, hstack]
  exact hbelow

theorem Simulates.outside (hop : ops[k]? = some op)
    (hout : ∀ s ∈ ss, ¬(s.first ≤ k ∧ k ≤ s.last)) (h : Simulates r ops ss first none k out) :
    Simulates r ops ss first none (k + 1) (out ++ [op]) := by
  have hsame : AlikeAll (openAt r ops k) (run r {} 0 out).1.marks.sequences := by
    cases h.stack with
    | outside same => exact same
  refine h.read hop (.outside ?_) fun d d' hd hoperator hfigure hmarks => ?_
  · rw [openAt, marks_succ hop, marks_concat]
    exact hsame.step r op.command
  · have hk := index_drawnAt hd
    obtain ⟨_, _, _, _, _, _, hmarks', _⟩ := drawnAt_spec hd
    refine ⟨hoperator, hfigure, fun n s hs h1 h2 => ?_, fun _ => ?_⟩
    · exact absurd ⟨by omega, by omega⟩ (hout s (List.mem_of_getElem? hs))
    · rw [hmarks, hmarks']
      exact ⟨hsame.mcid.symm, hsame.artifact.symm⟩

theorem Simulates.inside {n : Nat} {s : Span} {level : List MarkedSequence} (apart : Apart ss)
    (balanced : Operation.Balanced ops) (hs : ss[n]? = some s) (hlevel : Level r ops s level)
    (hk : s.first ≤ k ∧ k ≤ s.last) (hop : ops[k]? = some op)
    (h : Simulates r ops ss first (some n) k out) :
    Simulates r ops ss first (some n) (k + 1) (out ++ [op]) := by
  refine h.read hop ?_ fun d d' hd hoperator hfigure hmarks => ?_
  · rw [marks_concat]
    exact h.stack.step balanced hop hs hlevel hk
  · have hindex := index_drawnAt hd
    have hat := hlevel.drawn k d hk.1 hk.2 hd
    obtain ⟨q, below, hstack, hq, _⟩ := h.stack.of_level hs (hat.trans hlevel.first.symm)
    refine ⟨hoperator, hfigure, fun m t ht h1 h2 => ?_, fun hout => ?_⟩
    · obtain rfl := apart.unique hs ht hk ⟨by omega, by omega⟩
      rw [hmarks, MarkStack.marks, hstack, List.findSome?_cons, hq]
    · exact absurd ⟨by omega, by omega⟩ (hout s (List.mem_of_getElem? hs))

theorem walk_simulates (role : String) (first : Int) (apart : Apart ss)
    (balanced : Operation.Balanced ops) (levels : ∀ s ∈ ss, ∃ level, Level r ops s level) :
    Walk ops ss (mcidOpener role first) (Simulates r ops ss first) where
  start := ⟨rfl, .outside .nil, .nil⟩
  opens := fun _ _ _ hs h => h.opens hs
  outside := fun _ _ _ hop hout h => h.outside hop hout
  inside := by
    intro n s k op out hs hk hop h
    obtain ⟨level, hlevel⟩ := levels s (List.mem_of_getElem? hs)
    exact h.inside apart balanced hs hlevel hk hop
  closes := by
    intro n s out hs h
    obtain ⟨level, hlevel⟩ := levels s (List.mem_of_getElem? hs)
    exact h.closes hs hlevel

end Simulation

/-! ## Tagged content is tidy -/

section Tidiness

variable {ops : List Operation} {ss : List Span}

theorem depthAfter?_add {c : Command} {depth depth' : Nat} (h : c.depthAfter? depth = some depth')
    (e : Nat) : c.depthAfter? (depth + e) = some (depth' + e) := by
  cases c with
  | beginMarked tag properties =>
    simp only [Command.depthAfter?, Option.some_inj] at h ⊢
    omega
  | endMarked =>
    simp only [Command.depthAfter?] at h ⊢
    split at h
    · exact absurd h (by simp)
    · rw [if_neg (by omega), Option.some_inj]
      have := Option.some.inj h
      omega
  | _ => exact congrArg (fun d => d.map (· + e)) h

theorem depth?_read {k e : Nat} {op : Operation} {out : List Operation}
    (balanced : Operation.Balanced ops) (hop : ops[k]? = some op)
    (h : ∃ depth, Operation.depth? (ops.take k) = some depth ∧
      Operation.depth? out = some (depth + e)) :
    ∃ depth, Operation.depth? (ops.take (k + 1)) = some depth ∧
      Operation.depth? (out ++ [op]) = some (depth + e) := by
  obtain ⟨depth, hdepth, hout⟩ := h
  have hnext := balanced.take (k + 1)
  rw [Operation.Balanced, take_succ_of_getElem? hop, Operation.depth?_concat, hdepth,
    Option.bind_some, Option.isSome_iff_exists] at hnext
  obtain ⟨depth', hdepth'⟩ := hnext
  refine ⟨depth', ?_, ?_⟩
  · rw [take_succ_of_getElem? hop, Operation.depth?_concat, hdepth, Option.bind_some, hdepth']
  · rw [Operation.depth?_concat, hout, Option.bind_some, depthAfter?_add hdepth']

theorem walk_balanced (role : String) (first : Int) (balanced : Operation.Balanced ops) :
    Walk ops ss (mcidOpener role first) fun o k out => ∃ depth,
      Operation.depth? (ops.take k) = some depth ∧
        Operation.depth? out = some (depth + o.toList.length) where
  start := ⟨0, rfl, rfl⟩
  opens := by
    rintro n s out _ ⟨depth, hdepth, hout⟩
    obtain ⟨tag, properties, hcommand, _⟩ := command_mcidOpener role first n
    refine ⟨depth, hdepth, ?_⟩
    rw [Operation.depth?_concat, hout, hcommand]
    rfl
  outside := fun _ _ _ hop _ h => depth?_read balanced hop h
  inside := fun _ _ _ _ _ _ _ hop h => depth?_read balanced hop h
  closes := by
    rintro n s out _ ⟨depth, hdepth, hout⟩
    refine ⟨depth, hdepth, ?_⟩
    rw [Operation.depth?_concat, hout, command_close]
    rfl

theorem after?_of_breaks {c : Command} (breaks : breaksPath c = true) (paints : c.paints = false)
    (s : PathState) :
    s.after? breaksPath c = some (if s = .absent then .absent else .crossed) := by
  have hends : c.endsPath = false := by
    cases c <;> first | rfl | exact absurd breaks Bool.false_ne_true |
      exact absurd paints.symm Bool.false_ne_true
  have hconstructs : c.constructs = false := by
    by_contra h
    rw [breaksPath_of_constructs c (by simpa using h)] at breaks
    exact absurd breaks Bool.false_ne_true
  simp only [PathState.after?_eq, paints, hends, hconstructs, breaks, if_true, Bool.false_eq_true,
    false_and, if_false]
  split <;> rfl

theorem after?_of_isBracket {c : Command} (h : c.isBracket = true) (s : PathState) :
    s.after? breaksPath c = some (if s = .absent then .absent else .crossed) := by
  refine after?_of_breaks (breaksPath_of_isBracket c h) ?_ s
  cases c <;> first | rfl | exact absurd h Bool.false_ne_true

theorem after?_of_draws {c : Command} {s s' : PathState} (draws : c.draws = true)
    (h : s.after? breaksPath c = some s') : (if s' = .absent then .absent else .crossed) = s' := by
  by_cases hp : c.paints = true
  · have hends : c.endsPath = true := by
      cases c <;> first | rfl | exact absurd hp Bool.false_ne_true
    simp only [PathState.after?_eq, hp, hends, true_and, if_true] at h
    split at h
    · exact absurd h (by simp)
    · rw [← Option.some.inj h]
      rfl
  · rw [after?_of_breaks (breaksPath_of_draws c draws) (by simpa using hp)] at h
    rw [← Option.some.inj h]
    cases s <;> rfl

/-- The path in tagged content, beside the one in the content it was made from. They differ only
between the opener of a span and an operator that breaks a path anyway. -/
def SamePath (ops : List Operation) (ss : List Span) (o : Option Nat) (k : Nat)
    (out : List Operation) : Prop :=
  ∃ s s', Operation.path? breaksPath (ops.take k) = some s ∧
    Operation.path? breaksPath out = some s' ∧
      (s' = s ∨ ∃ n t, o = some n ∧ ss[n]? = some t ∧ k = t.first ∧ s ≠ .absent ∧
        s' = .crossed)

theorem exists_path?_succ {k : Nat} {op : Operation} {s : PathState}
    (free : Operation.PathsFree breaksPath ops) (hop : ops[k]? = some op)
    (hs : Operation.path? breaksPath (ops.take k) = some s) :
    ∃ s', s.after? breaksPath op.command = some s' ∧
      Operation.path? breaksPath (ops.take (k + 1)) = some s' := by
  have hnext := free.take (k + 1)
  rw [Operation.PathsFree, take_succ_of_getElem? hop, Operation.path?_concat, hs,
    Option.bind_some, Option.isSome_iff_exists] at hnext
  obtain ⟨s', hs'⟩ := hnext
  refine ⟨s', hs', ?_⟩
  rw [take_succ_of_getElem? hop, Operation.path?_concat, hs, Option.bind_some, hs']

/-- No bracket comes into a path: it stands where there is none, or next to an operator that breaks
the path anyway. -/
theorem walk_path (role : String) (first : Int) (free : Operation.PathsFree breaksPath ops)
    (apart : Apart ss) (within : Within ops.length ss)
    (firsts : ∀ s ∈ ss, Operation.path? breaksPath (ops.take s.first) = some .absent ∨
      ∀ op, ops[s.first]? = some op → op.command.draws = true ∧ op.command.paints = false)
    (lasts : ∀ s ∈ ss, ∀ op, ops[s.last]? = some op → op.command.draws = true) :
    Walk ops ss (mcidOpener role first) (SamePath ops ss) where
  start := ⟨.absent, .absent, rfl, rfl, Or.inl rfl⟩
  opens := by
    rintro n t out ht ⟨s, s', hs, hs', hsame⟩
    obtain ⟨tag, properties, hcommand, _⟩ := command_mcidOpener role first n
    have hbracket : (mcidOpener role first n).command.isBracket = true := by rw [hcommand]; rfl
    obtain rfl : s' = s := by
      rcases hsame with h | ⟨n, t, h, _⟩
      · exact h
      · exact absurd h (by simp)
    refine ⟨s', _, hs, by rw [Operation.path?_concat, hs', Option.bind_some,
      after?_of_isBracket hbracket], ?_⟩
    by_cases h : s' = .absent
    · exact Or.inl (by rw [if_pos h, h])
    · exact Or.inr ⟨n, t, rfl, ht, rfl, h, if_neg h⟩
  outside := by
    rintro k op out hop _ ⟨s, s', hs, hs', hsame⟩
    obtain rfl : s' = s := by
      rcases hsame with h | ⟨n, t, h, _⟩
      · exact h
      · exact absurd h (by simp)
    obtain ⟨t, hafter, ht⟩ := exists_path?_succ free hop hs
    exact ⟨t, t, ht, by rw [Operation.path?_concat, hs', Option.bind_some, hafter], Or.inl rfl⟩
  inside := by
    rintro n t k op out ht hk hop ⟨s, s', hs, hs', hsame⟩
    obtain ⟨u, hafter, hu⟩ := exists_path?_succ free hop hs
    refine ⟨u, u, hu, ?_, Or.inl rfl⟩
    rw [Operation.path?_concat, hs', Option.bind_some, ← hafter]
    rcases hsame with rfl | ⟨n', t', hn, ht', rfl, hpresent, rfl⟩
    · rfl
    · obtain rfl := Option.some.inj hn
      obtain rfl : t = t' := Option.some.inj (ht.symm.trans ht')
      -- A path is under construction, so the span starts with an operator that breaks it.
      rcases firsts t (List.mem_of_getElem? ht) with h | h
      · exact absurd (Option.some.inj (hs.symm.trans h)) hpresent
      · obtain ⟨hdraws, hpaints⟩ := h op hop
        rw [after?_of_breaks (breaksPath_of_draws _ hdraws) hpaints,
          after?_of_breaks (breaksPath_of_draws _ hdraws) hpaints, if_neg hpresent]
        rfl
  closes := by
    rintro n t out ht ⟨s, s', hs, hs', hsame⟩
    have hmem := List.mem_of_getElem? ht
    obtain rfl : s' = s := by
      rcases hsame with h | ⟨n', t', hn, ht', hfirst, _⟩
      · exact h
      · obtain rfl := Option.some.inj hn
        obtain rfl : t = t' := Option.some.inj (ht.symm.trans ht')
        have := apart.le t hmem
        omega
    refine ⟨s', s', hs, ?_, Or.inl rfl⟩
    have hop := List.getElem?_eq_getElem (within t hmem).2
    obtain ⟨s₀, hs₀⟩ := Option.isSome_iff_exists.mp (free.take t.last)
    obtain ⟨u, hafter, hu⟩ := exists_path?_succ free hop hs₀
    obtain rfl : u = s' := Option.some.inj (hu.symm.trans hs)
    rw [Operation.path?_concat, hs', Option.bind_some, after?_of_isBracket rfl,
      after?_of_draws (lasts t hmem _ hop) hafter]

end Tidiness

/-! ## MCIDs -/

theorem mem_mcids_wrap {r : ContentResources} {ops : List Operation} {ss : List Span}
    {first i : Int} {role : String} (sorted : Sorted ss) (within : Within ops.length ss) :
    i ∈ (PageScan.ofOperations r (wrap ops ss (mcidOpener role first))).mcids ↔
      i ∈ (PageScan.ofOperations r ops).mcids ∨ ∃ n < ss.length, i = first + n := by
  have hmatched := (matched_iff_sorted (mcidOpener role first) within).mpr sorted
  simp only [mem_mcids, List.mem_filterMap, hmatched.mem]
  constructor
  · rintro ⟨op, hop | ⟨n, hn, rfl⟩ | ⟨_, rfl⟩, hi⟩
    · exact Or.inl ⟨op, hop, hi⟩
    · rw [openedMcid_mcidOpener, Option.some_inj] at hi
      exact Or.inr ⟨n, hn, hi.symm⟩
    · exact absurd hi (by simp [PageScan.openedMcid?, command_close])
  · rintro (⟨op, hop, hi⟩ | ⟨n, hn, rfl⟩)
    · exact ⟨op, Or.inl hop, hi⟩
    · exact ⟨_, Or.inr (Or.inl ⟨n, hn, rfl⟩), openedMcid_mcidOpener r role first n⟩

theorem mcids_wrap {r : ContentResources} {ops : List Operation} {ss : List Span} {first : Int}
    {role : String} (sorted : Sorted ss) (within : Within ops.length ss)
    (next : (PageScan.ofOperations r ops).nextMcid? = some first) :
    (PageScan.ofOperations r (wrap ops ss (mcidOpener role first))).mcids =
      (PageScan.ofOperations r ops).mcids ++
        (List.range ss.length).map fun n : Nat => first + (n : Int) := by
  refine (pairwise_mcids r _).eq_of_mem_iff (List.pairwise_append.mpr ⟨pairwise_mcids r ops,
    ?_, ?_⟩) fun i => ?_
  · refine List.pairwise_map.mpr (List.pairwise_lt_range.imp ?_)
    intro a b hab
    omega
  · intro a ha b hb
    obtain ⟨n, _, rfl⟩ := List.mem_map.mp hb
    have := lt_nextMcid next ha
    omega
  · rw [mem_mcids_wrap sorted within, List.mem_append, List.mem_map]
    simp only [List.mem_range, eq_comm]

/-! ## Tagging again and again -/

/-- Content in which a region is tagged, with MCIDs from `first` on. -/
def tagged (doc : Document) (entries : Dict Object) (m : Matching Float)
    (target : Option (Box Float)) (role : String) (first : Int) (ops : List Operation) :
    List Operation :=
  let scan := PageScan.ofContent doc entries ops
  wrap ops (spans scan (select m scan target)) (mcidOpener role first)

/-- What comes of tagging regions of content, in any number of rounds. -/
inductive Taggings (ops : List Operation) : List Operation → Prop where
  | none : Taggings ops ops
  | more {out : List Operation} (doc : Document) (entries : Dict Object) (m : Matching Float)
      (target : Option (Box Float)) (role : String) (first : Int)
      (next : (PageScan.ofContent doc entries out).nextMcid? = some first)
      (before : Taggings ops out) : Taggings ops (tagged doc entries m target role first out)

/-- What tagging makes of drawn operators: all stay where and what they are, the ones in a span get
its MCID, and the others keep their tags. -/
structure Retagged (positions : List Nat) (ss : List Span) (first : Int)
    (before after : List Drawn) : Prop where
  length_eq : after.length = before.length
  same : ∀ (p : Nat) (d d' : Drawn), before[p]? = some d → after[p]? = some d' →
    d'.operator = d.operator ∧ d'.figure = d.figure
  selected : ∀ (p : Nat) (d d' : Drawn), before[p]? = some d → after[p]? = some d' → p ∈ positions →
    ∃ (n : Nat) (s : Span), ss[n]? = some s ∧ s.first ≤ d.start ∧ d.index ≤ s.last ∧
      d'.marks.mcid = some (first + n)
  others : ∀ (p : Nat) (d d' : Drawn), before[p]? = some d → after[p]? = some d' →
    p ∉ positions → d'.marks.mcid = d.marks.mcid ∧ d'.marks.artifact = d.marks.artifact

theorem getElem?_of_forall₂ {α β : Type} {R : α → β → Prop} {as : List α} {bs : List β}
    (h : List.Forall₂ R as bs) {p : Nat} {a : α} {b : β} (ha : as[p]? = some a)
    (hb : bs[p]? = some b) : R a b := by
  obtain ⟨hpa, rfl⟩ := List.getElem?_eq_some_iff.mp ha
  obtain ⟨hpb, rfl⟩ := List.getElem?_eq_some_iff.mp hb
  exact List.Forall₂.get h hpa hpb

section Rounds

variable (doc : Document) (entries : Dict Object) (m : Matching Float)
  (target : Option (Box Float)) (role : String) {first : Int} {ops : List Operation}

theorem Tidy.tagged (tidy : Tidy ops) :
    Tidy (Marking.tagged doc entries m target role first ops) := by
  have apart : Apart (spans (PageScan.ofContent doc entries ops)
      (select m (PageScan.ofContent doc entries ops) target)) :=
    apart_spans breaksPath_of_constructs breaksPath_of_draws tidy.free m target
  have within : Within ops.length (spans (PageScan.ofContent doc entries ops)
      (select m (PageScan.ofContent doc entries ops) target)) :=
    within_spans (valid_select m _ target)
  refine ⟨?_, ?_⟩
  · obtain ⟨depth, _, hdepth⟩ :=
      (walk_balanced role first tidy.balanced).wrap apart within
    exact Option.isSome_iff_exists.mpr ⟨_, hdepth⟩
  · have hwalk := walk_path role first tidy.free apart within
      (fun s hs => breaks_at_first tidy.free hs) fun s hs op hop => ?_
    · obtain ⟨_, s, _, hs, _⟩ := hwalk.wrap apart within
      exact Option.isSome_iff_exists.mpr ⟨s, hs⟩
    · obtain ⟨level, hlevel, _⟩ := exists_level tidy.free hs
      exact hlevel.last_draws op hop

theorem Taggings.tidy {out : List Operation} (h : Taggings ops out) (tidy : Tidy ops) :
    Tidy out := by
  induction h with
  | none => exact tidy
  | more doc entries m target role first _ _ ih => exact ih.tagged doc entries m target role

/-- Tagging gives what is selected the MCIDs of its spans, and keeps the rest as it was. -/
theorem Tidy.retagged (tidy : Tidy ops) :
    let scan := PageScan.ofContent doc entries ops
    Retagged (select m scan target) (spans scan (select m scan target)) first scan.operators
      (PageScan.ofContent doc entries
        (Marking.tagged doc entries m target role first ops)).operators := by
  intro scan
  set r := ContentResources.ofDict doc entries ops with hr
  have hscan : PageScan.ofContent doc entries (Marking.tagged doc entries m target role first ops)
      = PageScan.ofOperations r (wrap ops (spans scan (select m scan target))
        (mcidOpener role first)) := by
    rw [PageScan.ofContent, ofDict_eq doc entries _ ops]
    rfl
  have apart : Apart (spans scan (select m scan target)) :=
    apart_spans breaksPath_of_constructs breaksPath_of_draws tidy.free m target
  have within : Within ops.length (spans scan (select m scan target)) :=
    within_spans (valid_select m scan target)
  have hsim := (walk_simulates role first apart tidy.balanced
    fun s hs => (exists_level tidy.free hs).imp fun _ h => h.1).wrap apart within
  have hdrawn := hsim.drawn
  rw [List.take_length] at hdrawn
  rw [hscan]
  refine ⟨hdrawn.length_eq.symm, fun p d d' hd hd' => ?_, fun p d d' hd hd' hp => ?_,
    fun p d d' hd hd' hp => ?_⟩
  · have h := getElem?_of_forall₂ hdrawn hd hd'
    exact ⟨h.operator, h.figure⟩
  · obtain ⟨n, s, hs, hfirst, hlast⟩ := span_of_selected tidy.free hp hd
    have hstart := start_le (mem_operators.mp (List.mem_of_getElem? hd))
    exact ⟨n, s, hs, hfirst, hlast,
      (getElem?_of_forall₂ hdrawn hd hd').inside n s hs (by omega) hlast⟩
  · refine (getElem?_of_forall₂ hdrawn hd hd').outside fun s hs hin => hp ?_
    exact selected_of_span tidy.free hs hd hin.1 hin.2

theorem Tidy.mcids_tagged (tidy : Tidy ops)
    (next : (PageScan.ofContent doc entries ops).nextMcid? = some first) :
    let scan := PageScan.ofContent doc entries ops
    (PageScan.ofContent doc entries (Marking.tagged doc entries m target role first ops)).mcids =
      scan.mcids ++ (List.range (spans scan (select m scan target)).length).map
        fun n : Nat => first + (n : Int) := by
  intro scan
  rw [PageScan.ofContent, ofDict_eq doc entries _ ops]
  exact mcids_wrap
    (apart_spans breaksPath_of_constructs breaksPath_of_draws tidy.free m target).sorted
    (within_spans (valid_select m scan target)) next

/-- Tagging hits just the selected content, in every round: it draws what was drawn before, what was
selected has the MCID of its span, all else has the tags it had, and the content stays tidy. -/
theorem tagging_exact {start : List Operation} (tidy : Tidy start) (rounds : Taggings start ops)
    (next : (PageScan.ofContent doc entries ops).nextMcid? = some first) :
    let scan := PageScan.ofContent doc entries ops
    let positions := select m scan target
    let ss := spans scan positions
    let out := Marking.tagged doc entries m target role first ops
    let scan' := PageScan.ofContent doc entries out
    Retagged positions ss first scan.operators scan'.operators ∧
      scan'.mcids = scan.mcids ++ (List.range ss.length).map (fun n : Nat => first + (n : Int)) ∧
      Tidy out := by
  intro scan positions ss out scan'
  have htidy := rounds.tidy tidy
  exact ⟨htidy.retagged doc entries m target role, htidy.mcids_tagged doc entries m target role next,
    htidy.tagged doc entries m target role⟩

end Rounds

/-- A text and a path are two spans, and get the first two MCIDs. -/
theorem tagging_text_and_path :
    let doc : Document := ⟨"1.7", .empty, .empty, 0⟩
    let ops : List Operation := [⟨"BT", []⟩, ⟨"Tj", [.string (utf8 "a") .literal]⟩, ⟨"ET", []⟩,
      ⟨"re", [.integer 0, .integer 0, .integer 9, .integer 9]⟩, ⟨"f", []⟩]
    Tidy ops ∧ (PageScan.ofContent doc .empty ops).nextMcid? = some 0 ∧
      (PageScan.ofContent doc .empty (tagged doc .empty .default none "P" 0 ops)).mcids = [0, 1] ∧
      Tidy (tagged doc .empty .default none "P" 0 ops) := by
  intro doc ops
  have tidy : Tidy ops := ⟨by decide +kernel, by decide +kernel⟩
  have next : (PageScan.ofContent doc .empty ops).nextMcid? = some 0 := by decide +kernel
  have hspans : spans (PageScan.ofContent doc .empty ops)
      (select .default (PageScan.ofContent doc .empty ops) none) = [⟨1, 1⟩, ⟨3, 4⟩] := by
    decide +kernel
  have hmcids : (PageScan.ofContent doc .empty ops).mcids = [] := by decide +kernel
  obtain ⟨_, h, htidy⟩ := tagging_exact doc .empty .default none "P" tidy .none next
  refine ⟨tidy, next, ?_, htidy⟩
  rw [h, hspans, hmcids]
  decide

end Marking

end AccessiblePdf
