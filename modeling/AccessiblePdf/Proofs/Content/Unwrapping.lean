import AccessiblePdf.Proofs.Content.Retagging

/-!
Content without the marked-content brackets that carry an MCID. The sequences that stay open are those
without one, so the scan of what is kept runs side by side with the scan of all operations (`Thins`):
it draws the same and finds no MCIDs (`unwrap_exact`). Where a region of tidy content without MCIDs
was tagged, an end closes a new sequence just when it was written for it (`walk_undone`), so that
removing the brackets gives the content back (`unwrap_wrap_selected`).
-/
namespace AccessiblePdf

/-! ## Sequences around an operation -/

namespace Operation

variable {ops : List Operation} {op : Operation} {i k : Nat}

/-- The operations behind operation `i` and before operation `k`. -/
def between (ops : List Operation) (i k : Nat) : List Operation := (ops.take k).drop (i + 1)

theorem between_self (ops : List Operation) (k : Nat) : between ops k (k + 1) = [] :=
  List.drop_eq_nil_of_le (List.length_take_le _ _)

theorem between_succ (hop : ops[k]? = some op) (hik : i < k) :
    between ops i (k + 1) = between ops i k ++ [op] := by
  have hlength := ScanState.length_take_of_getElem? hop
  rw [between, ScanState.take_succ_of_getElem? hop, List.drop_append_of_le_length (by omega)]
  rfl

theorem between_succ_of_none (hop : ops[k]? = none) : between ops i (k + 1) = between ops i k := by
  have hk : ops.length ≤ k := List.getElem?_eq_none_iff.mp hop
  rw [between, between, List.take_of_length_le hk, List.take_of_length_le (by omega)]

/-- The operation opens a marked-content sequence with some MCID or none, of an artifact or not. -/
def Opens (r : ContentResources) (op : Operation) (mcid : Option Int) (artifact : Bool) : Prop :=
  ∃ tag properties, op.command = .beginMarked tag properties ∧
    properties.bind (ContentResources.mcid? r.doc r.entries) = mcid ∧
      (tag == MarkStack.artifactTag) = artifact

/-- Operation `k` stands in the sequence that operation `i` opens: between the two, no sequence is
ended that was not opened there. -/
def Encloses (ops : List Operation) (i k : Nat) : Prop := i < k ∧ Balanced (between ops i k)

theorem exists_opens_succ {r : ContentResources} {mcid : Option Int} {artifact : Bool} {p : Nat}
    (hop : ops[k]? = some op) :
    (∃ i op', i < k + 1 ∧ ops[i]? = some op' ∧ Opens r op' mcid artifact ∧
        depth? (between ops i (k + 1)) = some p) ↔
      (Opens r op mcid artifact ∧ p = 0) ∨
        ∃ i op', i < k ∧ ops[i]? = some op' ∧ Opens r op' mcid artifact ∧
          ((depth? (between ops i k)).bind fun n => op.command.depthAfter? n) = some p := by
  constructor
  · rintro ⟨i, op', hi, hop', hopens, hdepth⟩
    rcases Nat.lt_succ_iff_lt_or_eq.mp hi with hi | rfl
    · rw [between_succ hop hi, depth?_concat] at hdepth
      exact Or.inr ⟨i, op', hi, hop', hopens, hdepth⟩
    · obtain rfl := Option.some.inj (hop.symm.trans hop')
      rw [between_self] at hdepth
      exact Or.inl ⟨hopens, (Option.some.inj hdepth).symm⟩
  · rintro (⟨hopens, rfl⟩ | ⟨i, op', hi, hop', hopens, hdepth⟩)
    · exact ⟨k, op, Nat.lt_succ_self k, hop, hopens, by rw [between_self]; rfl⟩
    · refine ⟨i, op', Nat.lt_succ_of_lt hi, hop', hopens, ?_⟩
      rw [between_succ hop hi, depth?_concat, hdepth]

end Operation

open Operation

namespace Marking

open ScanState

section Enclosing

variable {r : ContentResources} {ops : List Operation} {op : Operation} {k : Nat}
  {mcid : Option Int} {artifact : Bool}

theorem not_opens (h : op.command.opensMarked = false) : ¬Opens r op mcid artifact := by
  rintro ⟨tag, properties, hcommand, _⟩
  rw [hcommand] at h
  exact absurd h.symm Bool.false_ne_true

/-- The open sequences, innermost first, are those that some operation opened with as many others
still open that were opened later. -/
theorem getElem?_openAt {p : Nat} :
    (∃ n, (openAt r ops k)[p]? = some ⟨n, mcid, artifact⟩) ↔ ∃ i op, i < k ∧ ops[i]? = some op ∧
      Opens r op mcid artifact ∧ depth? (between ops i k) = some p := by
  induction k generalizing p with
  | zero => simp [openAt, before, run]
  | succ k ih =>
    cases hop : ops[k]? with
    | none =>
      rw [openAt, before_succ_of_none hop, ih]
      simp only [between_succ_of_none hop]
      refine exists_congr fun i => exists_congr fun op => and_congr_left fun h => ?_
      have hk : ops.length ≤ k := List.getElem?_eq_none_iff.mp hop
      have hlt := (List.getElem?_eq_some_iff.mp h.1).1
      omega
    | some op =>
      rw [exists_opens_succ hop, openAt, marks_succ hop]
      cases hc : op.command with
      | beginMarked tag properties =>
        cases p with
        | zero =>
          have hopens : Opens r op mcid artifact ↔
              properties.bind (ContentResources.mcid? r.doc r.entries) = mcid ∧
                (tag == MarkStack.artifactTag) = artifact := by
            simp only [Opens, hc, Command.beginMarked.injEq]
            constructor
            · rintro ⟨_, _, ⟨rfl, rfl⟩, h⟩
              exact h
            · exact fun h => ⟨tag, properties, ⟨rfl, rfl⟩, h⟩
          simp [MarkStack.step, Command.depthAfter?, hopens, Option.bind_eq_some_iff]
        | succ p =>
          simp only [MarkStack.step, List.getElem?_cons_succ, ih, Command.depthAfter?,
            Option.bind_eq_some_iff, Option.some_inj, Nat.add_right_cancel_iff, exists_eq_right,
            Nat.add_one_ne_zero, and_false, false_or]
      | endMarked =>
        have hend : ∀ depth : Option Nat,
            (depth.bind fun n => Command.depthAfter? n .endMarked) = some p ↔
              depth = some (p + 1) := by
          intro depth
          rcases depth with - | - | n <;> simp [Command.depthAfter?]
        have hno : ¬Opens r op mcid artifact := not_opens (by rw [hc]; rfl)
        simp only [MarkStack.step, List.getElem?_drop, Nat.add_comm 1, ih, hend, hno, false_and,
          false_or]
      | _ =>
        have hno : ¬Opens r op mcid artifact := not_opens (by rw [hc]; rfl)
        simp only [MarkStack.step, ih, Command.depthAfter?, Option.bind_fun_some, hno, false_and,
          false_or]

theorem exists_mem_openAt : (∃ n, ⟨n, mcid, artifact⟩ ∈ openAt r ops k) ↔
    ∃ i op, Encloses ops i k ∧ ops[i]? = some op ∧ Opens r op mcid artifact := by
  constructor
  · rintro ⟨n, hmem⟩
    obtain ⟨p, hp⟩ := List.getElem?_of_mem hmem
    obtain ⟨i, op, hi, hop, hopens, hdepth⟩ := getElem?_openAt.mp ⟨n, hp⟩
    exact ⟨i, op, ⟨hi, Option.isSome_iff_exists.mpr ⟨p, hdepth⟩⟩, hop, hopens⟩
  · rintro ⟨i, op, ⟨hi, hbalanced⟩, hop, hopens⟩
    obtain ⟨p, hdepth⟩ := Option.isSome_iff_exists.mp hbalanced
    obtain ⟨n, hn⟩ := getElem?_openAt.mpr ⟨i, op, hi, hop, hopens, hdepth⟩
    exact ⟨n, List.mem_of_getElem? hn⟩

end Enclosing

/-! ## One operation after the other -/

section Unwrapping

variable {r : ContentResources} {ops : List Operation} {op : Operation} {brackets : List Bool}

/-- Which open sequences carry an MCID, behind one more operation. -/
def bracketsAfter (r : ContentResources) (brackets : List Bool) (op : Operation) : List Bool :=
  match op.command with
  | .endMarked => brackets.drop 1
  | .beginMarked _ _ => (PageScan.openedMcid? r op).isSome :: brackets
  | _ => brackets

/-- Whether an operation is no bracket of a sequence with an MCID. -/
def stays (r : ContentResources) (brackets : List Bool) (op : Operation) : Bool :=
  match op.command with
  | .endMarked => brackets.head? != some true
  | .beginMarked _ _ => (PageScan.openedMcid? r op).isNone
  | _ => true

theorem unwrapFrom_cons (r : ContentResources) (brackets : List Bool) (op : Operation)
    (ops : List Operation) :
    unwrapFrom r brackets (op :: ops) =
      ((if stays r brackets op then [op] else []) ++
          (unwrapFrom r (bracketsAfter r brackets op) ops).1,
        (PageScan.openedMcid? r op).toList.length +
          (unwrapFrom r (bracketsAfter r brackets op) ops).2) := by
  rw [unwrapFrom]
  cases hc : op.command with
  | endMarked =>
    by_cases h : brackets.head? = some true <;>
      simp [stays, bracketsAfter, PageScan.openedMcid?, hc, h]
  | beginMarked tag properties =>
    cases h : properties.bind (ContentResources.mcid? r.doc r.entries) <;>
      simp [stays, bracketsAfter, PageScan.openedMcid?, hc, h, Nat.add_comm]
  | _ => simp [stays, bracketsAfter, PageScan.openedMcid?, hc]

theorem unwrapFrom_concat (r : ContentResources) (op : Operation) (ops : List Operation)
    (brackets : List Bool) :
    (unwrapFrom r brackets (ops ++ [op])).1 = (unwrapFrom r brackets ops).1 ++
      if stays r (ops.foldl (bracketsAfter r) brackets) op then [op] else [] := by
  induction ops generalizing brackets with
  | nil =>
    rw [List.nil_append, unwrapFrom_cons, unwrapFrom, unwrapFrom, List.append_nil, List.nil_append,
      List.foldl_nil]
  | cons a ops ih =>
    rw [List.cons_append, unwrapFrom_cons, unwrapFrom_cons, ih, List.foldl_cons]
    simp only [List.append_assoc]

theorem snd_unwrapFrom (r : ContentResources) (brackets : List Bool) (ops : List Operation) :
    (unwrapFrom r brackets ops).2 = ops.countP fun op => (PageScan.openedMcid? r op).isSome := by
  induction ops generalizing brackets with
  | nil => rfl
  | cons op ops ih =>
    rw [unwrapFrom_cons, ih, List.countP_cons, Nat.add_comm]
    cases PageScan.openedMcid? r op <;> rfl

theorem openedMcid_of_mem_unwrapFrom (h : op ∈ (unwrapFrom r brackets ops).1) :
    PageScan.openedMcid? r op = none := by
  induction ops generalizing brackets with
  | nil => exact absurd h List.not_mem_nil
  | cons a ops ih =>
    rw [unwrapFrom_cons, List.mem_append] at h
    rcases h with h | h
    · by_cases hstays : stays r brackets a = true
      · rw [if_pos hstays, List.mem_singleton] at h
        subst h
        cases hc : op.command <;> simp_all [stays, PageScan.openedMcid?]
      · rw [if_neg hstays] at h
        exact absurd h List.not_mem_nil
    · exact ih h

theorem unwrapFrom_sublist (r : ContentResources) (brackets : List Bool) (ops : List Operation) :
    (unwrapFrom r brackets ops).1.Sublist ops := by
  induction ops generalizing brackets with
  | nil => exact List.Sublist.refl _
  | cons op ops ih =>
    rw [unwrapFrom_cons]
    split
    · exact (ih _).cons_cons op
    · exact (ih _).cons op

/-- Where no sequence with an MCID is open and none is opened, everything is kept. -/
theorem unwrapFrom_eq_self (none : ∀ op ∈ ops, PageScan.openedMcid? r op = none)
    (plain : true ∉ brackets) : unwrapFrom r brackets ops = (ops, 0) := by
  induction ops generalizing brackets with
  | nil => rfl
  | cons op ops ih =>
    rw [List.forall_mem_cons] at none
    have hnext : true ∉ bracketsAfter r brackets op := by
      unfold bracketsAfter
      split
      · exact fun h => plain (List.mem_of_mem_drop h)
      · simpa [none.1] using plain
      · exact plain
    have hstays : stays r brackets op = true := by
      unfold stays
      split
      · cases brackets with
        | nil => rfl
        | cons b brackets =>
          cases b with
          | false => rfl
          | true => exact absurd List.mem_cons_self plain
      · rw [none.1]
        rfl
      · rfl
    rw [unwrapFrom_cons, ih none.2 hnext, hstays, none.1]
    rfl

theorem unwrap_unwrap (r : ContentResources) (ops : List Operation) :
    unwrap r (unwrap r ops).1 = ((unwrap r ops).1, 0) :=
  unwrapFrom_eq_self (fun _ h => openedMcid_of_mem_unwrapFrom h) List.not_mem_nil

theorem unwrap_of_count_zero (h : (unwrap r ops).2 = 0) : (unwrap r ops).1 = ops := by
  rw [unwrap, snd_unwrapFrom, List.countP_eq_zero] at h
  rw [unwrap, unwrapFrom_eq_self (fun op hop => by simpa using h op hop) List.not_mem_nil]

/-- Which of the sequences that operations leave open carry an MCID. -/
def taggedBrackets (r : ContentResources) (ops : List Operation) : List Bool :=
  (run r {} 0 ops).1.marks.sequences.map (·.mcid.isSome)

theorem taggedBrackets_concat (r : ContentResources) (ops : List Operation) (op : Operation) :
    taggedBrackets r (ops ++ [op]) = bracketsAfter r (taggedBrackets r ops) op := by
  rw [taggedBrackets, marks_concat]
  cases hc : op.command with
  | beginMarked tag properties =>
    simp [MarkStack.step, bracketsAfter, PageScan.openedMcid?, hc, taggedBrackets]
  | endMarked => simp [MarkStack.step, bracketsAfter, hc, taggedBrackets]
  | _ => simp [MarkStack.step, bracketsAfter, hc, taggedBrackets]

theorem foldl_bracketsAfter (r : ContentResources) (ops : List Operation) :
    ops.foldl (bracketsAfter r) [] = taggedBrackets r ops := by
  induction ops using List.reverseRecOn with
  | nil => rfl
  | append_singleton ops op ih =>
    rw [List.foldl_append, ih, taggedBrackets_concat]
    rfl

theorem unwrap_concat (r : ContentResources) (ops : List Operation) (op : Operation) :
    (unwrap r (ops ++ [op])).1 =
      (unwrap r ops).1 ++ if stays r (taggedBrackets r ops) op then [op] else [] := by
  rw [unwrap, unwrapFrom_concat, foldl_bracketsAfter]
  rfl

end Unwrapping

/-! ## What is drawn without the brackets -/

section Thinning

variable {r : ContentResources} {ops : List Operation} {op : Operation} {k : Nat}

/-- A drawn operation, before and after the brackets with MCIDs were removed: it draws the same without
any MCID, as an artifact if it is in an artifact sequence that was there without an MCID. -/
structure Unmarked (r : ContentResources) (ops : List Operation) (d d' : Drawn) : Prop where
  operator : d'.operator = d.operator
  figure : d'.figure = d.figure
  mcid : d'.marks.mcid = none
  artifact : d'.marks.artifact = true ↔
    ∃ i op, Encloses ops i d.index ∧ ops[i]? = some op ∧ Opens r op none true

theorem isBracket_of_not_stays {brackets : List Bool} (h : stays r brackets op = false) :
    op.command.isBracket = true := by
  cases hc : op.command <;> simp_all [stays, Command.isBracket, Command.opensMarked,
    Command.closesMarked]

/-- A stack without the sequences that have an MCID takes the steps that stay. -/
theorem thinned_step (r : ContentResources) (op : Operation) {s t : MarkStack}
    (h : AlikeAll (s.sequences.filter (·.mcid.isNone)) t.sequences) :
    AlikeAll ((s.step r op.command).sequences.filter (·.mcid.isNone))
      (if stays r (s.sequences.map (·.mcid.isSome)) op then t.step r op.command else t).sequences := by
  cases hc : op.command with
  | beginMarked tag properties =>
    cases hmcid : properties.bind (ContentResources.mcid? r.doc r.entries) with
    | none => simpa [stays, hc, PageScan.openedMcid?, hmcid, MarkStack.step] using ⟨⟨rfl, rfl⟩, h⟩
    | some m => simpa [stays, hc, PageScan.openedMcid?, hmcid, MarkStack.step] using h
  | endMarked =>
    cases hs : s.sequences with
    | nil =>
      rw [hs] at h
      simpa [stays, hc, hs, MarkStack.step] using List.forall₂_drop 1 h
    | cons q below =>
      rw [hs, List.filter_cons] at h
      cases hq : q.mcid with
      | none =>
        simp only [hq, Option.isNone_none, if_true] at h
        simpa [stays, hc, hs, hq, MarkStack.step] using List.forall₂_drop 1 h
      | some m =>
        simp only [hq, Option.isNone_some, Bool.false_eq_true, if_false] at h
        simpa [stays, hc, hs, hq, MarkStack.step] using h
  | _ => simpa [stays, hc, MarkStack.step] using h

/-- The scan of what is kept has come as far as the scan of the first `k` operations. -/
structure Thins (r : ContentResources) (ops : List Operation) (k : Nat) : Prop where
  pen : (run r {} 0 (unwrap r (ops.take k)).1).1.pen = (before r ops k).pen
  stack : AlikeAll ((openAt r ops k).filter (·.mcid.isNone))
    (run r {} 0 (unwrap r (ops.take k)).1).1.marks.sequences
  drawn : List.Forall₂ (Unmarked r ops) (run r {} 0 (ops.take k)).2
    (run r {} 0 (unwrap r (ops.take k)).1).2

theorem Thins.unmarked (h : Thins r ops k) {d d' : Drawn} (hd : drawnAt r ops k = some d)
    (operator : d'.operator = d.operator) (figure : d'.figure = d.figure)
    (marks : d'.marks = (run r {} 0 (unwrap r (ops.take k)).1).1.marks.marks) :
    Unmarked r ops d d' := by
  refine ⟨operator, figure, ?_, ?_⟩
  · rw [marks, MarkStack.marks, ← h.stack.mcid, List.findSome?_eq_none_iff]
    intro q hq
    simpa using (List.mem_filter.mp hq).2
  · rw [marks, MarkStack.marks, ← h.stack.artifact, index_drawnAt hd, ← exists_mem_openAt]
    simp only [List.any_eq_true, List.mem_filter, Option.isNone_iff_eq_none]
    constructor
    · rintro ⟨⟨n, mcid, artifact⟩, ⟨hq, rfl⟩, rfl⟩
      exact ⟨n, hq⟩
    · rintro ⟨n, hq⟩
      exact ⟨_, ⟨hq, rfl⟩, rfl⟩

theorem Thins.step (h : Thins r ops k) (hop : ops[k]? = some op) : Thins r ops (k + 1) := by
  have htake := take_succ_of_getElem? hop
  have hkept := unwrap_concat r (ops.take k) op
  have hstack : AlikeAll ((openAt r ops (k + 1)).filter (·.mcid.isNone))
      (if stays r (taggedBrackets r (ops.take k)) op then
        (run r {} 0 (unwrap r (ops.take k)).1).1.marks.step r op.command
      else (run r {} 0 (unwrap r (ops.take k)).1).1.marks).sequences := by
    rw [openAt, marks_succ hop]
    exact thinned_step r op h.stack
  rw [← htake] at hkept
  by_cases hstays : stays r (taggedBrackets r (ops.take k)) op = true
  · rw [if_pos hstays] at hkept
    refine ⟨?_, ?_, ?_⟩
    · rw [hkept, pen_concat, before_succ hop, h.pen]
      rfl
    · rw [hkept, marks_concat]
      rwa [if_pos hstays] at hstack
    · rw [hkept]
      exact drawn_concat hop h.pen h.drawn fun d d' hd => h.unmarked hd
  · -- A bracket is dropped, and the other scan draws nothing with it.
    rw [if_neg hstays, List.append_nil] at hkept
    obtain ⟨hpen, hdrawn⟩ := bracket_concat (r := r) (ops.take k)
      (isBracket_of_not_stays (by simpa using hstays))
    rw [← htake] at hpen hdrawn
    refine ⟨by rw [hkept, h.pen]; exact hpen.symm, ?_, by rw [hkept, hdrawn]; exact h.drawn⟩
    rw [hkept]
    rwa [if_neg hstays] at hstack

theorem thins (r : ContentResources) (ops : List Operation) (k : Nat) : Thins r ops k := by
  induction k with
  | zero => exact ⟨rfl, .nil, .nil⟩
  | succ k ih =>
    cases hop : ops[k]? with
    | some op => exact ih.step hop
    | none =>
      have hk : ops.length ≤ k := List.getElem?_eq_none_iff.mp hop
      have htake : ops.take (k + 1) = ops.take k := by
        rw [List.take_of_length_le hk, List.take_of_length_le (by omega)]
      refine ⟨?_, ?_, ?_⟩
      · rw [htake, before_succ_of_none hop]
        exact ih.pen
      · rw [htake, openAt, before_succ_of_none hop]
        exact ih.stack
      · rw [htake]
        exact ih.drawn

/-- Removing the brackets with MCIDs changes nothing that is drawn, and leaves no MCID. Nothing more
can be removed, and nothing was removed just when nothing was counted. -/
theorem unwrap_exact (doc : Document) (entries : Dict Object) (used ops : List Operation) :
    let r := ContentResources.ofDict doc entries used
    let kept := (unwrap r ops).1
    let scan' := PageScan.ofContent doc entries kept
    List.Forall₂ (Unmarked r ops) (PageScan.ofContent doc entries ops).operators scan'.operators ∧
      scan'.mcids = [] ∧ unwrap r kept = (kept, 0) ∧ ((unwrap r ops).2 = 0 ↔ kept = ops) := by
  intro r kept scan'
  have hscan : ∀ l, PageScan.ofContent doc entries l = PageScan.ofOperations r l := by
    intro l
    rw [PageScan.ofContent, ofDict_eq doc entries l used]
  have hplain : ∀ op ∈ kept, PageScan.openedMcid? r op = none :=
    fun _ hop => openedMcid_of_mem_unwrapFrom hop
  refine ⟨?_, ?_, unwrap_unwrap r ops, unwrap_of_count_zero, fun hkept => ?_⟩
  · have hdrawn := (thins r ops ops.length).drawn
    rw [List.take_length] at hdrawn
    rw [hscan ops, show scan' = PageScan.ofOperations r kept from hscan kept]
    exact hdrawn
  · rw [show scan' = PageScan.ofOperations r kept from hscan kept,
      List.eq_nil_iff_forall_not_mem]
    intro m hm
    obtain ⟨op, hop, hmcid⟩ := List.mem_filterMap.mp (mem_mcids.mp hm)
    rw [hplain op hop] at hmcid
    exact absurd hmcid (by simp)
  · rw [unwrap, snd_unwrapFrom, List.countP_eq_zero]
    intro op hop
    rw [hplain op (hkept ▸ hop)]
    exact Bool.false_ne_true

end Thinning

/-! ## Removing the brackets of spans -/

section Undoing

variable {r : ContentResources} {ops out : List Operation} {ss : List Span} {opener : Nat → Operation}
  {op : Operation} {k : Nat} {o : Option Nat}

theorem bracketsAfter_append {above : List Bool} (below : List Bool)
    (h : op.command = .endMarked → above ≠ []) :
    bracketsAfter r (above ++ below) op = bracketsAfter r above op ++ below := by
  cases hc : op.command with
  | endMarked =>
    obtain ⟨b, rest, rfl⟩ := List.exists_cons_of_ne_nil (h hc)
    simp [bracketsAfter, hc]
  | _ => simp [bracketsAfter, hc]

theorem stays_of_plain {brackets : List Bool} (plain : PageScan.openedMcid? r op = none)
    (h : op.command = .endMarked → brackets.head? ≠ some true) : stays r brackets op = true := by
  cases hc : op.command with
  | endMarked => simpa [stays, hc] using h hc
  | _ => simp [stays, hc, plain]

/-- The brackets with an MCID that are open in wrapped content, beside those in the content it was made
from: one more at the level of the span that is open. -/
inductive Brackets (r : ContentResources) (ops : List Operation) (ss : List Span) (k : Nat) :
    Option Nat → List Bool → Prop where
  | outside : Brackets r ops ss k none (taggedBrackets r (ops.take k))
  | inside {n : Nat} {s : Span} {above : List Bool} (span : ss[n]? = some s)
      (split : taggedBrackets r (ops.take k) = above ++ taggedBrackets r (ops.take s.first)) :
      Brackets r ops ss k (some n) (above ++ true :: taggedBrackets r (ops.take s.first))

/-- Without the brackets that were written, wrapped content is what it was made from. -/
structure Undone (r : ContentResources) (ops : List Operation) (ss : List Span) (o : Option Nat)
    (k : Nat) (out : List Operation) : Prop where
  kept : (unwrap r out).1 = ops.take k
  brackets : Brackets r ops ss k o (taggedBrackets r out)

theorem taggedBrackets_succ (hop : ops[k]? = some op) :
    taggedBrackets r (ops.take (k + 1)) = bracketsAfter r (taggedBrackets r (ops.take k)) op := by
  rw [take_succ_of_getElem? hop, taggedBrackets_concat]

theorem length_taggedBrackets (r : ContentResources) (ops : List Operation) (k : Nat) :
    (taggedBrackets r (ops.take k)).length = (openAt r ops k).length := List.length_map _

theorem not_mem_taggedBrackets (plain : ∀ op ∈ ops, PageScan.openedMcid? r op = none) (k : Nat) :
    true ∉ taggedBrackets r (ops.take k) := by
  induction k with
  | zero => exact List.not_mem_nil
  | succ k ih =>
    cases hop : ops[k]? with
    | none =>
      have hk : ops.length ≤ k := List.getElem?_eq_none_iff.mp hop
      rwa [List.take_of_length_le (by omega), ← List.take_of_length_le hk]
    | some op =>
      rw [taggedBrackets_succ hop]
      have hplain := plain op (List.mem_of_getElem? hop)
      cases hc : op.command with
      | beginMarked tag properties => simpa [bracketsAfter, hc, hplain] using ih
      | endMarked =>
        simp only [bracketsAfter, hc]
        exact fun h => ih (List.mem_of_mem_drop h)
      | _ => simpa [bracketsAfter, hc] using ih

theorem Undone.read (h : Undone r ops ss o k out) (hop : ops[k]? = some op)
    (plain : PageScan.openedMcid? r op = none)
    (ends : op.command = .endMarked → (taggedBrackets r out).head? ≠ some true)
    (brackets : Brackets r ops ss (k + 1) o (bracketsAfter r (taggedBrackets r out) op)) :
    Undone r ops ss o (k + 1) (out ++ [op]) := by
  refine ⟨?_, by rw [taggedBrackets_concat]; exact brackets⟩
  rw [unwrap_concat, stays_of_plain plain ends, if_pos rfl, h.kept, take_succ_of_getElem? hop]

theorem above_ne_nil {s : Span} {level : List MarkedSequence} {above : List Bool}
    (balanced : Balanced ops) (hlevel : Level r ops s level)
    (hk : s.first ≤ k ∧ k ≤ s.last) (hop : ops[k]? = some op) (ends : op.command = .endMarked)
    (split : taggedBrackets r (ops.take k) = above ++ taggedBrackets r (ops.take s.first)) :
    above ≠ [] := by
  rintro rfl
  have hlen := (hlevel.within (k + 1) (by omega) (by omega)).length_le
  have hpos := List.length_pos_iff.mpr (sequences_ne_nil (r := r) balanced hop ends)
  have hsplit := congrArg List.length split
  rw [List.nil_append, length_taggedBrackets, length_taggedBrackets, hlevel.first, openAt] at hsplit
  rw [openAt, marks_succ hop, ends, MarkStack.step, List.length_drop] at hlen
  omega

theorem above_eq_nil {s : Span} {level : List MarkedSequence} {above : List Bool}
    (hlevel : Level r ops s level)
    (split : taggedBrackets r (ops.take (s.last + 1)) =
      above ++ taggedBrackets r (ops.take s.first)) : above = [] := by
  have hsplit := congrArg List.length split
  rw [List.length_append, length_taggedBrackets, length_taggedBrackets, hlevel.first,
    hlevel.behind] at hsplit
  exact List.length_eq_zero_iff.mp (by omega)

/-- Removing the brackets undoes every step of the walk that wrote them. -/
theorem walk_undone (balanced : Balanced ops)
    (plain : ∀ op ∈ ops, PageScan.openedMcid? r op = none)
    (tagged : ∀ n, (PageScan.openedMcid? r (opener n)).isSome)
    (levels : ∀ s ∈ ss, ∃ level, Level r ops s level) :
    Walk ops ss opener (Undone r ops ss) where
  start := ⟨rfl, .outside⟩
  opens := by
    intro n s out hs h
    have htagged := tagged n
    obtain ⟨tag, properties, hcommand⟩ : ∃ tag properties,
        (opener n).command = .beginMarked tag properties := by
      unfold PageScan.openedMcid? at htagged
      split at htagged
      · next tag properties hcommand => exact ⟨tag, properties, hcommand⟩
      · exact absurd htagged Bool.false_ne_true
    have hbrackets := h.brackets
    generalize hout : taggedBrackets r out = brackets at hbrackets
    cases hbrackets
    refine ⟨?_, ?_⟩
    · have hstays : stays r (taggedBrackets r out) (opener n) = false := by
        simp only [stays, hcommand]
        rw [← Option.not_isSome, htagged]
        rfl
      rw [unwrap_concat, hstays, h.kept]
      simp
    · rw [taggedBrackets_concat, hout]
      simp only [bracketsAfter, hcommand, htagged]
      have hinside : Brackets r ops ss s.first (some n)
          ([] ++ true :: taggedBrackets r (ops.take s.first)) := .inside hs rfl
      exact hinside
  outside := by
    intro k op out hop _ h
    have hbrackets := h.brackets
    generalize hout : taggedBrackets r out = brackets at hbrackets
    cases hbrackets
    refine h.read hop (plain op (List.mem_of_getElem? hop)) (fun _ hhead => ?_) ?_
    · rw [hout] at hhead
      exact not_mem_taggedBrackets plain k (List.mem_of_head? hhead)
    · rw [hout, ← taggedBrackets_succ hop]
      exact .outside
  inside := by
    intro n s k op out hs hk hop h
    obtain ⟨level, hlevel⟩ := levels s (List.mem_of_getElem? hs)
    have hbrackets := h.brackets
    generalize hout : taggedBrackets r out = brackets at hbrackets
    cases hbrackets with
    | @inside _ t above span split =>
      obtain rfl : s = t := Option.some.inj (hs.symm.trans span)
      have habove := fun ends => above_ne_nil balanced hlevel hk hop ends split
      refine h.read hop (plain op (List.mem_of_getElem? hop)) (fun ends hhead => ?_) ?_
      · -- The innermost bracket was there before, so it has no MCID.
        rw [hout, List.head?_append_of_ne_nil _ (habove ends)] at hhead
        have hmem : true ∈ taggedBrackets r (ops.take k) := by
          rw [split]
          exact List.mem_append_left _ (List.mem_of_head? hhead)
        exact not_mem_taggedBrackets plain k hmem
      · rw [hout, bracketsAfter_append _ habove]
        refine .inside hs ?_
        rw [taggedBrackets_succ hop, split, bracketsAfter_append _ habove]
  closes := by
    intro n s out hs h
    obtain ⟨level, hlevel⟩ := levels s (List.mem_of_getElem? hs)
    have hbrackets := h.brackets
    generalize hout : taggedBrackets r out = brackets at hbrackets
    cases hbrackets with
    | @inside _ t above span split =>
      obtain rfl : s = t := Option.some.inj (hs.symm.trans span)
      obtain rfl := above_eq_nil hlevel split
      refine ⟨?_, ?_⟩
      · rw [unwrap_concat, h.kept, hout]
        simp [stays, command_close]
      · rw [taggedBrackets_concat, hout]
        simp only [bracketsAfter, command_close, List.nil_append, List.drop_one, List.tail_cons]
        rw [List.nil_append] at split
        rw [← split]
        exact .outside

theorem Bracketed.countP {opened ended : List Span} (h : Bracketed ops opened ended opener out)
    (p : Operation → Bool) (openers : ∀ n, p (opener n) = true) (others : ∀ op ∈ ops, p op = false)
    (ends : p close = false) : out.countP p = opened.length := by
  obtain ⟨pieces, hb, rfl⟩ := h
  have hcount : ∀ ps : List Piece, (ps.filterMap (Piece.operation? ops opener)).countP p =
      (ps.filterMap Piece.opener?).length := by
    intro ps
    induction ps with
    | nil => rfl
    | cons piece ps ih =>
      cases piece with
      | opener n => simp [Piece.operation?, Piece.opener?, openers, ih]
      | closer n => simp [List.filterMap_cons, Piece.operation?, Piece.opener?, ends, ih]
      | kept i =>
        cases hi : ops[i]? with
        | none => simpa [List.filterMap_cons, Piece.operation?, Piece.opener?, hi] using ih
        | some op =>
          simpa [List.filterMap_cons, Piece.operation?, Piece.opener?, hi,
            others op (List.mem_of_getElem? hi)] using ih
  rw [hcount, hb.opened_once.length_eq, List.length_range]

/-- Removing the brackets undoes the tagging of a region of tidy content without MCIDs, and counts its
spans. -/
theorem unwrap_wrap_selected (doc : Document) (entries : Dict Object) (used : List Operation)
    (m : Matching Float) (target : Option (Box Float)) (tidy : Tidy ops)
    (plain : ∀ op ∈ ops, PageScan.openedMcid? (.ofDict doc entries used) op = none)
    (tagged : ∀ n, (PageScan.openedMcid? (.ofDict doc entries used) (opener n)).isSome) :
    let scan := PageScan.ofContent doc entries ops
    let ss := spans scan (select m scan target)
    unwrap (.ofDict doc entries used) (wrap ops ss opener) = (ops, ss.length) := by
  intro scan ss
  rw [ofDict_eq doc entries used ops] at plain tagged ⊢
  have apart : Apart ss := apart_spans breaksPath_of_constructs breaksPath_of_draws tidy.free m target
  have within : Within ops.length ss := within_spans (valid_select m scan target)
  have hundone := (walk_undone tidy.balanced plain tagged
    fun s hs => (exists_level tidy.free hs).imp fun _ h => h.1).wrap apart within
  have hcount := ((matched_iff_sorted opener within).mpr apart.sorted).countP
    (fun op => (PageScan.openedMcid? (.ofDict doc entries ops) op).isSome) tagged
    (fun op hop => by rw [plain op hop]; rfl) rfl
  refine Prod.ext ?_ ?_
  · exact hundone.kept.trans List.take_length
  · rw [unwrap, snd_unwrapFrom, hcount]

end Undoing

/-- A text, and a path in a sequence of its own, are tagged and untagged. -/
theorem unwrap_wrap_text_and_path :
    let doc : Document := ⟨"1.7", .empty, .empty, 0⟩
    let ops : List Operation := [⟨"BT", []⟩, ⟨"Tj", [.string (utf8 "a") .literal]⟩, ⟨"ET", []⟩,
      ⟨"BMC", [.name (utf8 "Span")]⟩, ⟨"re", [.integer 0, .integer 0, .integer 9, .integer 9]⟩,
      ⟨"f", []⟩, ⟨"EMC", []⟩]
    Tidy ops ∧ (∀ op ∈ ops, PageScan.openedMcid? (.ofDict doc .empty []) op = none) ∧
      (∀ n, (PageScan.openedMcid? (.ofDict doc .empty []) (mcidOpener "P" 0 n)).isSome) ∧
      unwrap (.ofDict doc .empty []) (wrap ops [⟨1, 1⟩, ⟨4, 5⟩] (mcidOpener "P" 0)) = (ops, 2) := by
  intro doc ops
  have tidy : Tidy ops := ⟨by decide +kernel, by decide +kernel⟩
  have plain : ∀ op ∈ ops, PageScan.openedMcid? (.ofDict doc .empty []) op = none := by
    decide +kernel
  have tagged : ∀ n, (PageScan.openedMcid? (.ofDict doc .empty []) (mcidOpener "P" 0 n)).isSome :=
    fun n => by rw [openedMcid_mcidOpener]; rfl
  have hspans : spans (PageScan.ofContent doc .empty ops)
      (select .default (PageScan.ofContent doc .empty ops) none) = [⟨1, 1⟩, ⟨4, 5⟩] := by
    decide +kernel
  have h := unwrap_wrap_selected doc .empty [] .default none tidy plain tagged
  dsimp only at h
  rw [hspans] at h
  exact ⟨tidy, plain, tagged, h⟩

end Marking

end AccessiblePdf
