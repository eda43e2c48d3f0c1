import AccessiblePdf.Proofs.Content.Brackets
import AccessiblePdf.Proofs.Content.Nesting
import AccessiblePdf.Proofs.Geometry.Region
import Mathlib.Data.List.Forall2

/-!
The spans of a selection. A selection lists untagged positions in ascending order, and its spans are
those of groups: runs of neighbours that continue each other (`spans_groups`). When no path has a
drawing operator inside, the spans of a selection lie apart, one behind the other (`apart_spans`).
-/
namespace AccessiblePdf.Marking

/-! ## Selections -/

theorem mem_untagged {ds : List Drawn} {i p : Nat} {d : Drawn} :
    (p, d) ∈ untagged i ds ↔ i ≤ p ∧ ds[p - i]? = some d ∧ d.marks.isTagged = false := by
  induction ds generalizing i with
  | nil => simp [untagged]
  | cons e ds ih =>
    have hcons : i ≤ p → ((e :: ds)[p - i]? = some d ↔
        (p = i ∧ e = d) ∨ (i + 1 ≤ p ∧ ds[p - (i + 1)]? = some d)) := by
      intro hip
      by_cases hp : p = i
      · subst hp; simp
      · have hpi : p - i = (p - (i + 1)) + 1 := by omega
        rw [hpi, List.getElem?_cons_succ]
        simp [hp]
        omega
    cases ht : e.marks.isTagged with
    | true =>
      rw [untagged, if_pos ht, ih]
      constructor
      · rintro ⟨h1, h2, h3⟩
        exact ⟨by omega, (hcons (by omega)).mpr (Or.inr ⟨h1, h2⟩), h3⟩
      · rintro ⟨h1, h2, h3⟩
        rcases (hcons h1).mp h2 with ⟨_, rfl⟩ | ⟨h4, h5⟩
        · rw [ht] at h3; exact absurd h3 (by simp)
        · exact ⟨h4, h5, h3⟩
    | false =>
      rw [untagged, if_neg (by simp [ht]), List.mem_cons, ih, Prod.mk.injEq]
      constructor
      · rintro (⟨rfl, rfl⟩ | ⟨h1, h2, h3⟩)
        · exact ⟨Nat.le_refl _, by simp, ht⟩
        · exact ⟨by omega, (hcons (by omega)).mpr (Or.inr ⟨h1, h2⟩), h3⟩
      · rintro ⟨h1, h2, h3⟩
        rcases (hcons h1).mp h2 with ⟨rfl, rfl⟩ | ⟨h4, h5⟩
        · exact Or.inl ⟨rfl, rfl⟩
        · exact Or.inr ⟨h4, h5, h3⟩

theorem pairwise_untagged (ds : List Drawn) (i : Nat) :
    (untagged i ds).Pairwise fun a b => a.1 < b.1 := by
  induction ds generalizing i with
  | nil => exact List.Pairwise.nil
  | cons e ds ih =>
    rw [untagged]
    split
    · exact ih (i + 1)
    · refine List.pairwise_cons.mpr ⟨?_, ih (i + 1)⟩
      rintro ⟨p, d⟩ h
      have := (mem_untagged.mp h).1
      show i < p
      omega

theorem pairwise_resolve (m : Matching Float) (items : List (Option (Box Float)))
    (target : Box Float) : (m.resolve items target).Pairwise (· < ·) :=
  m.pairwise_resolveAbove machineEpsilon items target

theorem getElem?_lt_of_pairwise {α : Type} {key : α → Nat} {l : List α}
    (h : l.Pairwise fun a b => key a < key b) {i j : Nat} (hij : i < j) {a b : α}
    (ha : l[i]? = some a) (hb : l[j]? = some b) : key a < key b := by
  obtain ⟨hi, rfl⟩ := List.getElem?_eq_some_iff.mp ha
  obtain ⟨hj, rfl⟩ := List.getElem?_eq_some_iff.mp hb
  exact List.pairwise_iff_getElem.mp h i j hi hj hij

theorem pairwise_select (m : Matching Float) (scan : PageScan) (target : Option (Box Float)) :
    (select m scan target).Pairwise (· < ·) := by
  have hsorted := pairwise_untagged scan.operators 0
  cases target with
  | none => exact List.pairwise_map.mpr hsorted
  | some target =>
    refine List.pairwise_filterMap.mpr ((pairwise_resolve m _ target).imp fun {i j} hij => ?_)
    intro p hp q hq
    obtain ⟨a, ha, rfl⟩ := Option.map_eq_some_iff.mp hp
    obtain ⟨b, hb, rfl⟩ := Option.map_eq_some_iff.mp hq
    exact getElem?_lt_of_pairwise hsorted hij ha hb

theorem untagged_of_mem_select {m : Matching Float} {scan : PageScan}
    {target : Option (Box Float)} {p : Nat} (h : p ∈ select m scan target) :
    ∃ d, scan.operators[p]? = some d ∧ d.marks.isTagged = false := by
  have hmem : ∃ d, (p, d) ∈ untagged 0 scan.operators := by
    cases target with
    | none =>
      obtain ⟨⟨q, d⟩, hd, rfl⟩ := List.mem_map.mp h
      exact ⟨d, hd⟩
    | some target =>
      obtain ⟨i, _, hi⟩ := List.mem_filterMap.mp h
      obtain ⟨⟨q, d⟩, hd, rfl⟩ := Option.map_eq_some_iff.mp hi
      exact ⟨d, List.mem_of_getElem? hd⟩
  obtain ⟨d, hd⟩ := hmem
  exact ⟨d, (mem_untagged.mp hd).2⟩

theorem valid_select (m : Matching Float) (scan : PageScan) (target : Option (Box Float)) :
    ∀ p ∈ select m scan target, ∃ d, scan.operators[p]? = some d := by
  intro p hp
  obtain ⟨d, hd, _⟩ := untagged_of_mem_select hp
  exact ⟨d, hd⟩

/-! ## Groups -/

/-- A span goes from the start of the first operator of a group to the last one; operators in between
continue each other. The group is given by its first and last position. -/
structure Covers (operators : List Drawn) (g : Nat × Nat) (s : Span) : Prop where
  le : g.1 ≤ g.2
  first : ∃ a, operators[g.1]? = some a ∧ s.first = a.start
  last : ∃ b, operators[g.2]? = some b ∧ s.last = b.index
  continued : ∀ k, g.1 ≤ k → k < g.2 → ∃ a b, operators[k]? = some a ∧
    operators[k + 1]? = some b ∧ continues a b = true

/-- The positions of a group. -/
def positionsOf (g : Nat × Nat) : List Nat := List.range' g.1 (g.2 + 1 - g.1)

theorem mem_positionsOf {g : Nat × Nat} {p : Nat} : p ∈ positionsOf g ↔ g.1 ≤ p ∧ p ≤ g.2 := by
  rw [positionsOf, List.mem_range'_1]
  omega

theorem positionsOf_succ {p q : Nat} (h : p ≤ q) :
    positionsOf (p, q + 1) = positionsOf (p, q) ++ [q + 1] := by
  rw [positionsOf, positionsOf, show q + 1 + 1 - p = (q + 1 - p) + 1 by omega,
    List.range'_concat]
  congr 2
  omega

theorem Covers.extend {operators : List Drawn} {first p : Nat} {s : Span} {a d : Drawn}
    (h : Covers operators (first, p) s) (ha : operators[p]? = some a)
    (hd : operators[p + 1]? = some d) (hc : continues a d = true) :
    Covers operators (first, p + 1) ⟨s.first, d.index⟩ where
  le := Nat.le_succ_of_le h.le
  first := h.first
  last := ⟨d, hd, rfl⟩
  continued := by
    intro k hk hkp
    rcases Nat.lt_succ_iff_lt_or_eq.mp hkp with h' | rfl
    · exact h.continued k hk h'
    · exact ⟨a, d, ha, hd, hc⟩

theorem Covers.single {operators : List Drawn} {p : Nat} {d : Drawn}
    (hd : operators[p]? = some d) : Covers operators (p, p) ⟨d.start, d.index⟩ where
  le := Nat.le_refl p
  first := ⟨d, hd, rfl⟩
  last := ⟨d, hd, rfl⟩
  continued := fun _ hk hkp => absurd hk (Nat.not_le_of_lt hkp)

theorem spansOnto_groups (operators : List Drawn) (rest : List Nat) :
    ∀ (last : Option (Nat × Drawn)) (acc : List Span) (gs : List (Nat × Nat)),
      (∀ p ∈ rest, ∃ d, operators[p]? = some d) → List.Forall₂ (Covers operators) gs acc →
      (∀ b, last = some b → operators[b.1]? = some b.2 ∧
        ∃ first gs', gs = (first, b.1) :: gs') →
      ∃ gs', List.Forall₂ (Covers operators) gs' (spansOnto operators last acc rest) ∧
        gs'.flatMap positionsOf = gs.reverse.flatMap positionsOf ++ rest := by
  induction rest with
  | nil =>
    intro last acc gs _ hcovers _
    exact ⟨gs.reverse, List.forall₂_reverse_iff.mpr hcovers, by simp⟩
  | cons p rest ih =>
    intro last acc gs hvalid hcovers hlast
    obtain ⟨d, hd⟩ := hvalid p List.mem_cons_self
    have hrest : ∀ q ∈ rest, ∃ d, operators[q]? = some d :=
      fun q hq => hvalid q (List.mem_cons_of_mem p hq)
    have hnext : ∀ (first : Nat) (gs' : List (Nat × Nat)) (b : Nat × Drawn), some (p, d) = some b → operators[b.1]? = some b.2 ∧
        ∃ first' gs'', (first, p) :: gs' = (first', b.1) :: gs'' := by
      rintro first gs' _ ⟨⟩
      exact ⟨hd, first, gs', rfl⟩
    simp only [spansOnto, hd]
    by_cases hjoins : (last.any fun b => b.1 + 1 == p && continues b.2 d) = true
    · -- The operator joins the group before it.
      obtain ⟨b, rfl, hb⟩ := (Option.any_eq_true _ _).mp hjoins
      rw [Bool.and_eq_true, beq_iff_eq] at hb
      obtain ⟨rfl, hc⟩ := hb
      obtain ⟨hb, first, gs, rfl⟩ := hlast b rfl
      obtain ⟨s, done, hs, hdone, rfl⟩ : ∃ s done, Covers operators (first, b.1) s ∧
          List.Forall₂ (Covers operators) gs done ∧ acc = s :: done := by
        cases hcovers with
        | cons hs hdone => exact ⟨_, _, hs, hdone, rfl⟩
      rw [hjoins]
      obtain ⟨gs', hgs', hflat⟩ := ih (some (b.1 + 1, d)) (⟨s.first, d.index⟩ :: done)
        ((first, b.1 + 1) :: gs) hrest (.cons (hs.extend hb hd hc) hdone) (hnext first gs)
      refine ⟨gs', hgs', ?_⟩
      rw [hflat]
      simp [List.flatMap_append, positionsOf_succ hs.le]
    · rw [Bool.not_eq_true] at hjoins
      rw [hjoins]
      obtain ⟨gs', hgs', hflat⟩ := ih (some (p, d)) (⟨d.start, d.index⟩ :: acc)
        ((p, p) :: gs) hrest (.cons (Covers.single hd) hcovers) (hnext p gs)
      refine ⟨gs', hgs', ?_⟩
      rw [hflat]
      simp [List.flatMap_append, positionsOf]

/-- The spans of positions are those of groups, and the groups hold just these positions. -/
theorem spans_groups {scan : PageScan} {positions : List Nat}
    (valid : ∀ p ∈ positions, ∃ d, scan.operators[p]? = some d) :
    ∃ gs, List.Forall₂ (Covers scan.operators) gs (spans scan positions) ∧
      gs.flatMap positionsOf = positions := by
  obtain ⟨gs, hgs, hflat⟩ := spansOnto_groups scan.operators positions none [] [] valid .nil
    (fun b hb => absurd hb (by simp))
  exact ⟨gs, hgs, by simpa using hflat⟩

theorem exists_of_mem_forall₂ {α β : Type} {R : α → β → Prop} {as : List α} {bs : List β}
    (h : List.Forall₂ R as bs) {b : β} (hb : b ∈ bs) : ∃ a ∈ as, R a b := by
  induction h with
  | nil => simp at hb
  | cons hab _ ih =>
    rcases List.mem_cons.mp hb with rfl | hb
    · exact ⟨_, List.mem_cons_self, hab⟩
    · obtain ⟨a, ha, hr⟩ := ih hb
      exact ⟨a, List.mem_cons_of_mem _ ha, hr⟩

theorem pairwise_of_forall₂ {α β : Type} {R : α → β → Prop} {S : α → α → Prop}
    {T : β → β → Prop} {as : List α} {bs : List β} (h : List.Forall₂ R as bs)
    (pairs : as.Pairwise S) (step : ∀ a a' b b', S a a' → R a b → R a' b' → T b b') :
    bs.Pairwise T := by
  induction h with
  | nil => exact List.Pairwise.nil
  | cons hab hrest ih =>
    rw [List.pairwise_cons] at pairs
    refine List.pairwise_cons.mpr ⟨fun b' hb' => ?_, ih pairs.2⟩
    obtain ⟨a', ha', hr⟩ := exists_of_mem_forall₂ hrest hb'
    exact step _ a' _ b' (pairs.1 a' ha') hab hr

theorem pairwise_groups {operators : List Drawn} {gs : List (Nat × Nat)} {ss : List Span}
    (covers : List.Forall₂ (Covers operators) gs ss)
    (ascending : (gs.flatMap positionsOf).Pairwise (· < ·)) :
    gs.Pairwise fun g h => g.2 < h.1 := by
  have hle : ∀ g ∈ gs, g.1 ≤ g.2 := by
    intro g hg
    obtain ⟨s, _, hs⟩ := exists_of_mem_forall₂ covers.flip hg
    exact hs.le
  refine (List.pairwise_flatMap.mp ascending).2.imp_of_mem ?_
  intro g h hg hh hlt
  exact hlt g.2 (mem_positionsOf.mpr ⟨hle g hg, Nat.le_refl _⟩) h.1
    (mem_positionsOf.mpr ⟨Nat.le_refl _, hle h hh⟩)

/-! ## Spans of a scan -/

section Scan

open ScanState

variable {r : ContentResources} {ops : List Operation}

theorem within_spans {positions : List Nat}
    (valid : ∀ p ∈ positions, ∃ d, (PageScan.ofOperations r ops).operators[p]? = some d) :
    Within ops.length (spans (PageScan.ofOperations r ops) positions) := by
  obtain ⟨gs, hgs, -⟩ := spans_groups valid
  intro s hs
  obtain ⟨g, _, hg⟩ := exists_of_mem_forall₂ hgs hs
  obtain ⟨a, ha, hfirst⟩ := hg.first
  obtain ⟨b, hb, hlast⟩ := hg.last
  have ha := mem_operators.mp (List.mem_of_getElem? ha)
  have hb := mem_operators.mp (List.mem_of_getElem? hb)
  have h1 := start_le ha
  have h2 := drawnAt_lt ha
  have h3 := drawnAt_lt hb
  exact ⟨by omega, by omega⟩

theorem index_lt_start {unwanted : Command → Bool}
    (steps : ∀ c : Command, c.constructs = true → unwanted c = false)
    (drawing : ∀ c : Command, c.draws = true → unwanted c = true)
    (free : Operation.PathsFree unwanted ops) {p q : Nat} (hpq : p < q) {a b : Drawn}
    (ha : (PageScan.ofOperations r ops).operators[p]? = some a)
    (hb : (PageScan.ofOperations r ops).operators[q]? = some b) : a.index < b.start := by
  have hindex := getElem?_lt_of_pairwise (pairwise_operators r ops) hpq ha hb
  have ha := mem_operators.mp (List.mem_of_getElem? ha)
  have hb := mem_operators.mp (List.mem_of_getElem? hb)
  obtain ⟨op, hop, hdraws, _⟩ := drawnAt_spec ha
  obtain ⟨op', hop', _⟩ := drawnAt_spec hb
  by_contra hstart
  have hfree := (free_of_drawnAt steps free hop' hb).2 a.index op (by omega) hindex hop
  rw [drawing _ hdraws] at hfree
  exact absurd hfree (by simp)

/-- Where no path has a drawing operator inside, so do the spans of a selection. -/
theorem apart_spans {unwanted : Command → Bool}
    (steps : ∀ c : Command, c.constructs = true → unwanted c = false)
    (drawing : ∀ c : Command, c.draws = true → unwanted c = true)
    (free : Operation.PathsFree unwanted ops) (m : Matching Float)
    (target : Option (Box Float)) :
    Apart (spans (PageScan.ofOperations r ops)
      (select m (PageScan.ofOperations r ops) target)) := by
  obtain ⟨gs, hgs, hflat⟩ := spans_groups (valid_select m (PageScan.ofOperations r ops) target)
  have hpairs := pairwise_groups hgs (by rw [hflat]; exact pairwise_select m _ target)
  refine ⟨fun s hs => ?_, pairwise_of_forall₂ hgs hpairs ?_⟩
  · obtain ⟨g, _, hg⟩ := exists_of_mem_forall₂ hgs hs
    obtain ⟨a, ha, hfirst⟩ := hg.first
    obtain ⟨b, hb, hlast⟩ := hg.last
    have h1 := start_le (mem_operators.mp (List.mem_of_getElem? ha))
    have h2 : a.index ≤ b.index := by
      rcases Nat.lt_or_eq_of_le hg.le with h | h
      · exact Nat.le_of_lt (getElem?_lt_of_pairwise (pairwise_operators r ops) h ha hb)
      · rw [h, hb] at ha
        rw [Option.some.inj ha]
    omega
  · intro g h s t hgh hg hh
    obtain ⟨b, hb, hlast⟩ := hg.last
    obtain ⟨a, ha, hfirst⟩ := hh.first
    rw [hlast, hfirst]
    exact index_lt_start steps drawing free hgh hb ha

/-- Whatever is selected, the spans in order are opened and all are ended, so that every bracket is
matched just when the spans start in order. -/
theorem matched_selection_iff (doc : Document) (entries : Dict Object) (ops : List Operation)
    (m : Matching Float) (target : Option (Box Float)) (opener : Nat → Operation) :
    let scan := PageScan.ofContent doc entries ops
    let ss := spans scan (select m scan target)
    Bracketed ops (inOrder ss) ss opener (wrap ops ss opener) ∧
      (Matched ops ss opener (wrap ops ss opener) ↔ Sorted ss) := by
  intro scan ss
  have within : Within ops.length ss := within_spans (valid_select m scan target)
  exact ⟨bracketed_wrap opener within, matched_iff_sorted opener within⟩

/-- Text that is shown while a path is under construction: the path is painted last but starts
first, so that its opener comes second and is never reached. -/
theorem not_matched_text_in_path :
    let doc : Document := ⟨"1.7", .empty, .empty, 0⟩
    let ops : List Operation := [⟨"m", [.integer 0, .integer 0]⟩,
      ⟨"Tj", [.string (utf8 "a") .literal]⟩, ⟨"f", []⟩]
    let scan := PageScan.ofContent doc .empty ops
    let ss := spans scan (select .default scan none)
    ¬Matched ops ss (fun _ => openWith "Artifact" .empty)
      (wrap ops ss fun _ => openWith "Artifact" .empty) := by
  intro doc ops scan ss h
  have hss : ss = [⟨1, 1⟩, ⟨0, 2⟩] := by decide +kernel
  have within : Within ops.length ss := within_spans (valid_select .default scan none)
  have hsorted := (matched_iff_sorted _ within).mp h
  rw [hss] at hsorted
  exact absurd hsorted (by decide)

end Scan

end AccessiblePdf.Marking
