import AccessiblePdf.Text.Composed
import Std.Data.TreeMap.Lemmas

/-!
Texts that are in composed form: each character stays as it is, whatever stands before it, if no row of the
tables is about it (`composed_of_unlisted`).
-/
namespace AccessiblePdf.Text

variable {c : Nat} {cs : List Nat}

/-- A character that does not decompose, is no mark, and composes with nothing before it. -/
structure Inert (c : Nat) : Prop where
  decompose : Text.decompose c = [c]
  combiningClass : Text.combiningClass c = 0
  compose (a : Nat) : compose? a c = none

/-! ## Texts of such characters -/

theorem flatMap_decompose_of_inert (h : ∀ c ∈ cs, Inert c) : cs.flatMap decompose = cs := by
  induction cs with
  | nil => rfl
  | cons c cs ih =>
    rw [List.forall_mem_cons] at h
    rw [List.flatMap_cons, h.1.decompose, ih h.2, List.singleton_append]

theorem canonicalOrder_of_inert (h : ∀ c ∈ cs, Inert c) : canonicalOrder cs = cs := by
  induction cs with
  | nil => rfl
  | cons c cs ih =>
    rw [List.forall_mem_cons] at h
    rw [canonicalOrder, List.foldr_cons, ← canonicalOrder, ih h.2, if_pos h.1.combiningClass]

theorem composeFrom_of_inert (h : ∀ c ∈ cs, Inert c) (letter : Nat) :
    composeFrom letter [] cs = letter :: cs := by
  induction cs generalizing letter with
  | nil => rfl
  | cons c cs ih =>
    rw [List.forall_mem_cons] at h
    rw [composeFrom]
    simp only [if_true, h.1.compose letter]
    rw [if_pos h.1.combiningClass, List.reverse_nil, ih h.2]
    rfl

theorem composeAll_of_inert (h : ∀ c ∈ cs, Inert c) : composeAll cs = cs := by
  cases cs with
  | nil => rfl
  | cons c cs =>
    rw [List.forall_mem_cons] at h
    rw [composeAll, if_pos h.1.combiningClass, composeFrom_of_inert h.2]

theorem composed_of_inert {s : String} (h : ∀ c ∈ s.toList, Inert c.toNat) : composed s = s := by
  have hcodes : ∀ c ∈ s.toList.map Char.toNat, Inert c := by simpa using h
  have hback : ∀ cs : List Char, (cs.map Char.toNat).map Char.ofNat = cs := fun cs => by
    simp [Function.comp_def]
  rw [composed, flatMap_decompose_of_inert hcodes, canonicalOrder_of_inert hcodes,
    composeAll_of_inert hcodes, hback, String.ofList_toList]

/-! ## Rows of the tables -/

section Rows

variable {α β : Type} {key : α → Nat} {value : α → β}

theorem getElem?_foldl_insert (rows : List α) (t : Std.TreeMap Nat β) (other : ∀ e ∈ rows, key e ≠ c) :
    (rows.foldl (fun t e => t.insert (key e) (value e)) t)[c]? = t[c]? := by
  induction rows generalizing t with
  | nil => rfl
  | cons e rows ih =>
    rw [List.forall_mem_cons] at other
    rw [List.foldl_cons, ih _ other.2, Std.TreeMap.getElem?_insert]
    simp [other.1]

end Rows

/-- The tables have no row for a character, and none in which it comes second. -/
structure Unlisted (c : Nat) : Prop where
  classes : ∀ row ∈ classRows, c < row.1 ∨ row.2.1 < c
  pairs : ∀ e ∈ Decomposition.pairs, e.1 ≠ c ∧ e.2.2 ≠ c
  singles : ∀ row ∈ Decomposition.singles, ∀ e ∈ row.2.zipIdx row.1, e.2 ≠ c
  syllable : Hangul.isSyllable c = false
  letter : c < Hangul.firstVowel ∨ Hangul.beforeTrail + Hangul.trails ≤ c

/-- Whether a character is unlisted, by a search of the tables. -/
def isUnlisted (c : Nat) : Bool :=
  classRows.all (fun row => c < row.1 || row.2.1 < c) &&
    Decomposition.pairs.all (fun e => e.1 != c && e.2.2 != c) &&
    Decomposition.singles.all (fun row => (row.2.zipIdx row.1).all fun e => e.2 != c) &&
    !Hangul.isSyllable c && (c < Hangul.firstVowel || Hangul.beforeTrail + Hangul.trails ≤ c)

theorem unlisted_of_isUnlisted (h : isUnlisted c = true) : Unlisted c := by
  simp only [isUnlisted, Bool.and_eq_true, List.all_eq_true, Bool.not_eq_true', Bool.or_eq_true,
    decide_eq_true_eq, bne_iff_ne] at h
  obtain ⟨⟨⟨⟨hclasses, hpairs⟩, hsingles⟩, hsyllable⟩, hletter⟩ := h
  exact ⟨hclasses, hpairs, hsingles, hsyllable, hletter⟩

theorem table_of_unlisted (h : Unlisted c) : Decomposition.table[c]? = none := by
  rw [Decomposition.table, getElem?_foldl_insert, getElem?_foldl_insert]
  · exact Std.TreeMap.getElem?_emptyc
  · intro e he
    obtain ⟨row, hrow, he⟩ := List.mem_flatMap.mp he
    exact h.singles row hrow e he
  · exact fun e he => (h.pairs e he).1

theorem decomposeWithin_of_none {table : Std.TreeMap Nat (List Nat)} (h : table[c]? = none) (n : Nat) :
    decomposeWithin table n c = [c] := by
  cases n with
  | zero => rfl
  | succ n => rw [decomposeWithin, h]

theorem decompose_of_unlisted (h : Unlisted c) : decompose c = [c] := by
  rw [decompose, h.syllable, if_neg Bool.false_ne_true, decomposeWithin_of_none (table_of_unlisted h)]

theorem combiningClass_of_unlisted (h : Unlisted c) : combiningClass c = 0 := by
  have hnone : (classRows.find? fun row => row.1 ≤ c && c ≤ row.2.1) = none :=
    List.find?_eq_none.mpr fun row hrow => by
      have hrange := h.classes row hrow
      simp only [Bool.and_eq_true, decide_eq_true_eq]
      omega
  rw [combiningClass, hnone]
  split <;> rfl

theorem pairs_bounded : ∀ e ∈ Decomposition.pairs, e.2.2 < 0x200000 := by
  have hall : Decomposition.pairs.all (fun e => e.2.2 < 0x200000) = true := by decide +kernel
  simpa using hall

theorem compose?_of_unlisted (h : Unlisted c) (bounded : c < 0x200000) (a : Nat) : compose? a c = none := by
  obtain ⟨-, hpairs, -, -, hletter⟩ := h
  have hhangul : Hangul.compose? a c = none := by
    simp only [Hangul.firstVowel, Hangul.beforeTrail, Hangul.trails] at hletter
    rw [Hangul.compose?, if_neg, if_neg]
    · simp only [Hangul.beforeTrail, Hangul.trails]
      omega
    · simp only [Hangul.firstVowel, Hangul.vowels]
      omega
  have htable : Decomposition.compositions[Decomposition.pairKey a c]? = none := by
    rw [Decomposition.compositions, getElem?_foldl_insert]
    · exact Std.TreeMap.getElem?_emptyc
    · intro e he heq
      have hpair := (List.mem_filter.mp he).1
      have hsecond := (hpairs e hpair).2
      have hbound := pairs_bounded e hpair
      simp only [Decomposition.pairKey] at heq
      omega
  rw [compose?, hhangul, htable]

/-- A text of characters that stand in no table is in composed form. -/
theorem composed_of_unlisted {s : String} (h : ∀ c ∈ s.toList, Unlisted c.toNat) : composed s = s := by
  refine composed_of_inert fun c hc => ?_
  have hbound : c.toNat < 0x200000 := by
    have hvalid : c.toNat.isValidChar := c.valid
    rcases hvalid with hlow | ⟨-, hhigh⟩ <;> omega
  exact ⟨decompose_of_unlisted (h c hc), combiningClass_of_unlisted (h c hc),
    compose?_of_unlisted (h c hc) hbound⟩

end AccessiblePdf.Text
