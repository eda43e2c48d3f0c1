import AccessiblePdf.Font.Repair
import AccessiblePdf.Proofs.Document.Entry
import AccessiblePdf.Proofs.Document.Retention
import AccessiblePdf.Proofs.Table
import AccessiblePdf.Proofs.Number

/-!
Widths that are written and read again. Whole numbers of few digits are read as themselves
(`reread_of_plain`), and widths in an array as those that were written (`widthsFrom_ofNumber`). An array
that is retained states the same widths (`widthsFrom_eq`).
-/
namespace AccessiblePdf

namespace Number

/-- A whole number that is written as one. -/
def Plain : Number → Prop
  | .whole n => n.natAbs < Object.integerLimit.natAbs
  | .real _ => False

instance (w : Number) : Decidable w.Plain :=
  match w with
  | .whole n => inferInstanceAs (Decidable (n.natAbs < Object.integerLimit.natAbs))
  | .real _ => inferInstanceAs (Decidable False)

/-- What a number is read as once it has been written. -/
def reread (w : Number) : Number := (Object.ofNumber w).number?.getD w

theorem number?_ofNumber (w : Number) : (Object.ofNumber w).number? = some w.reread := by
  have hsome : ((Object.ofNumber w).number?).isSome = true := by
    cases w with
    | whole n => rw [Object.ofNumber]; split <;> rfl
    | real x => rw [Object.ofNumber, Object.ofFloat]; split <;> rfl
  obtain ⟨w', hw'⟩ := Option.isSome_iff_exists.mp hsome
  rw [reread, hw', Option.getD_some]

theorem reread_of_plain {w : Number} (h : w.Plain) : w.reread = w := by
  cases w with
  | whole n =>
    have hsmall : n.natAbs < 0x20000000000000 := Nat.lt_trans h (by decide)
    have hwhole : Object.ofNumber (.whole n) = .integer n := if_pos h
    rw [reread, hwhole, Object.number?, Option.getD_some, ofInt, nearestDouble_eq_self hsmall]
  | real x => exact h.elim

end Number

theorem CodeTable.plain_of_toList {t : CodeTable Number} (h : ∀ e ∈ t.toList, e.2.Plain) (code : Nat)
    (w : Number) (hcode : t[code]? = some w) : w.Plain :=
  h (code, w) (Std.TreeMap.mem_toList_iff_getElem?_eq_some.mpr hcode)

theorem Object.direct_ofNumber (w : Number) : (Object.ofNumber w).isDirect = true := by
  cases w with
  | whole n => rw [Object.ofNumber]; split <;> rfl
  | real x => rw [Object.ofNumber, Object.ofFloat]; split <;> rfl

namespace Font

variable {free : Bytes → Bool → Prop} {old doc : Document}

theorem widthsFrom_cons (doc : Document) (first : Nat) (o : Object) (items : List Object) :
    widthsFrom doc first (o :: items) =
      ((doc.resolve o).number?.map fun w => (first % 0x100000000, w)).toList ++
        widthsFrom doc (first + 1) items := by
  rw [widthsFrom, widthsFrom, List.zipIdx_cons, List.filterMap_cons, List.zipIdx_succ,
    List.filterMap_map]
  cases hn : (doc.resolve o).number? with
  | none =>
    simp only [hn, Option.map_none, Option.toList_none, List.nil_append]
    refine List.filterMap_congr fun e _ => ?_
    simp only [Function.comp_apply, Nat.add_comm, Nat.add_left_comm]
  | some w =>
    simp only [hn, Option.map_some, Option.toList_some, List.singleton_append, Nat.add_zero]
    refine congrArg _ (List.filterMap_congr fun e _ => ?_)
    simp only [Function.comp_apply, Nat.add_comm, Nat.add_left_comm]

/-- Widths that are written are read as those of the codes from the first one on. -/
theorem widthsFrom_ofNumber (doc : Document) {first : Nat} {ws : List Number}
    (codes : first + ws.length ≤ 0x100000000) : widthsFrom doc first (ws.map Object.ofNumber) =
      (ws.zipIdx first).map fun e => (e.2, e.1.reread) := by
  induction ws generalizing first with
  | nil => rfl
  | cons w ws ih =>
    rw [List.length_cons] at codes
    rw [List.map_cons, widthsFrom_cons, Document.resolve_of_direct doc (Object.direct_ofNumber w),
      Number.number?_ofNumber, ih (by omega), List.zipIdx_cons, List.map_cons,
      Nat.mod_eq_of_lt (by omega)]
    rfl

/-- An array that is retained states the same widths. -/
theorem widthsFrom_eq (h : old.Retains free doc) {items items' : List Object}
    (hitems : List.Forall₂ (Object.Retained free doc) items items') (first : Nat) :
    widthsFrom doc first items' = widthsFrom old first items := by
  induction hitems generalizing first with
  | nil => rfl
  | cons hab _ ih => rw [widthsFrom_cons, widthsFrom_cons, (h.resolve hab).number?_eq, ih]

theorem lt_of_mem_widthsFrom {items : List Object} {first : Nat} {e : Nat × Number}
    (h : e ∈ widthsFrom doc first items) : e.1 < 0x100000000 := by
  obtain ⟨⟨o, i⟩, -, he⟩ := List.mem_filterMap.mp h
  obtain ⟨w, -, rfl⟩ := Option.map_eq_some_iff.mp he
  exact Nat.mod_lt _ (by decide)

/-! ## The widths of a font -/

theorem widths_of_composite {x : Dict Object} {id : Option ObjectId}
    (h : (load doc x id).composite = true) : (load doc x id).widths = (compositeWidths doc x).1 ∧
      (load doc x id).defaultWidth = (compositeWidths doc x).2 := by
  have hwidths : ((load doc x id).widths, (load doc x id).defaultWidth) =
      if (load doc x id).composite then compositeWidths doc x
      else (simpleWidths doc x, missingWidth doc x) := rfl
  rw [if_pos h] at hwidths
  exact ⟨congrArg (·.1) hwidths, congrArg (·.2) hwidths⟩

theorem widths_of_simple {x : Dict Object} {id : Option ObjectId}
    (h : (load doc x id).composite = false) : (load doc x id).widths = simpleWidths doc x ∧
      (load doc x id).defaultWidth = missingWidth doc x := by
  have hwidths : ((load doc x id).widths, (load doc x id).defaultWidth) =
      if (load doc x id).composite then compositeWidths doc x
      else (simpleWidths doc x, missingWidth doc x) := rfl
  rw [if_neg (by rw [h]; decide)] at hwidths
  exact ⟨congrArg (·.1) hwidths, congrArg (·.2) hwidths⟩

end Font

namespace Edit

theorem getElem?_mergeWidths (table declared : CodeTable Number) (code : Nat) :
    (mergeWidths table declared)[code]? = declared[code]?.or table[code]? := by
  have hmerged := Table.getElem?_foldl (fun w => w) declared table code
  rwa [Option.map_id'] at hmerged

end Edit

end AccessiblePdf
