import AccessiblePdf.Proofs.Draft
import AccessiblePdf.Structure.Element

/-!
Another kid in the list of an element or of the root. The kids are the items of the array that the
entry `/K` is or refers to, or its single value (`Document.listedKids`). A new kid comes behind them
(`appendKid_lists`), except where the entry refers to an array: then the reference to that array takes
the place of its items.
-/
namespace AccessiblePdf

namespace Document

variable {doc : Document} {x : Dict Object} {id : ObjectId} {items : List Object}

/-- The kids that a dictionary lists: the items of the array that its entry is or refers to, or the
single value of the entry. -/
def listedKids (doc : Document) (x : Dict Object) : List Object :=
  match x.get? "K" with
  | some o => (doc.resolve o).array?.getD [o]
  | none => []

theorem listedKids_array (h : x.get? "K" = some (.array items)) : doc.listedKids x = items := by
  rw [listedKids, h]
  rfl

theorem listedKids_reference (h : x.get? "K" = some (.reference id))
    (array : doc.get? id = some (.array items)) : doc.listedKids x = items := by
  rw [listedKids, h]
  simp only [resolve, array, Option.getD_some, Object.array?]

theorem listedKids_single {o : Object} (h : x.get? "K" = some o)
    (single : (doc.resolve o).array? = none) : doc.listedKids x = [o] := by
  rw [listedKids, h]
  simp only [single, Option.getD_none]

end Document

namespace Edit

open Document

variable {d d' : Draft} {element : ObjectId} {kid : Object} {x : Dict Object}

/-- The new list starts with the kids that were listed, unless the entry refers to an array. -/
theorem kidsWith_eq {doc : Document} (single : ∀ list items, x.get? "K" = some (.reference list) →
    doc.get? list ≠ some (.array items)) : kidsWith kid (x.get? "K") = doc.listedKids x ++ [kid] := by
  cases hk : x.get? "K" with
  | none =>
    rw [listedKids, hk]
    rfl
  | some o =>
    cases o with
    | array items =>
      rw [listedKids_array hk]
      rfl
    | reference list =>
      have hsingle : (doc.resolve (.reference list)).array? = none := by
        rw [resolve]
        cases hget : doc.get? list with
        | none => rfl
        | some o =>
          cases o with
          | array items => exact absurd hget (single list items hk)
          | _ => rfl
      rw [listedKids_single hk hsingle]
      rfl
    | _ =>
      rw [listedKids_single hk rfl]
      rfl

/-- After a kid is added, the kids of the dictionary are the old ones in their order and then the new
one, unless its entry refers to an array that holds something else than this very reference; the kids
are that reference and the new one then. All other entries are as they were. -/
theorem appendKid_lists (run : (appendKid element kid).run d = .ok () d') :
    ∃ x x', d.doc.dict? element = some x ∧ d'.doc.dict? element = some x' ∧
      (∀ key : Bytes, key ≠ "K" → x'.get? key = x.get? key) ∧
      (d'.doc.listedKids x' = d.doc.listedKids x ++ [kid] ↔
        ∀ list items, x.get? "K" = some (.reference list) →
          d.doc.get? list = some (.array items) → items = [.reference list]) ∧
      ∀ list items, x.get? "K" = some (.reference list) → d.doc.get? list = some (.array items) →
        d'.doc.listedKids x' = [.reference list, kid] := by
  obtain ⟨t, x, ht, hx, rfl⟩ := modifyDict_ok.mp run
  let x' := x.insert "K" (.array (kidsWith kid (x.get? "K")))
  have hkids : ∀ doc : Document, doc.listedKids x' = kidsWith kid (x.get? "K") :=
    fun doc => listedKids_array (x.get?_insert_self _ _)
  have hdict : d.doc.dict? element = some x := dict?_of_get? ((get?_eq_of_target? ht).trans hx)
  have hdict' : (d.doc.put t (.dictionary x')).dict? element = some x' := by
    rw [dict?_put hx, if_pos ht]
  refine ⟨x, x', hdict, hdict', fun key hkey => x.get?_insert_of_ne hkey _, ?_, ?_⟩
  · rw [hkids]
    constructor
    · intro h list items hk harray
      rw [listedKids_reference hk harray, hk] at h
      have hlists : [.reference list] ++ [kid] = items ++ [kid] := h
      exact (List.append_cancel_right hlists).symm
    · intro h
      by_cases hsingle : ∀ list items, x.get? "K" = some (.reference list) →
          d.doc.get? list ≠ some (.array items)
      · exact kidsWith_eq hsingle
      · push Not at hsingle
        obtain ⟨list, items, hk, harray⟩ := hsingle
        rw [listedKids_reference hk harray, h list items hk harray, hk]
        rfl
  · intro list items hk harray
    rw [hkids, hk]
    rfl

/-- A dictionary with an entry `/K`, and an array that holds an element. -/
def listing (kids : Object) : Draft where
  doc := ⟨"1.7", .empty, .ofList [(⟨1, 0⟩, .ofEntries [(utf8 "K", kids)]),
    (⟨2, 0⟩, .array [.reference ⟨3, 0⟩])], 3⟩

/-- The element alone, without an array around it. -/
theorem appendKid_lists_single :
    let d := listing (.reference ⟨3, 0⟩)
    ∃ d' x x', (appendKid ⟨1, 0⟩ (.integer 0)).run d = .ok () d' ∧
      d.doc.dict? ⟨1, 0⟩ = some x ∧ d'.doc.dict? ⟨1, 0⟩ = some x' ∧
      d'.doc.listedKids x' = d.doc.listedKids x ++ [.integer 0] := by
  intro d
  obtain ⟨d', run⟩ : ∃ d', (appendKid ⟨1, 0⟩ (.integer 0)).run d = .ok () d' := ⟨_, rfl⟩
  obtain ⟨x, x', hx, hx', -, hlists, -⟩ := appendKid_lists run
  obtain rfl : x = .ofList [(utf8 "K", .reference ⟨3, 0⟩)] := (Option.some.inj hx).symm
  refine ⟨d', _, x', run, hx, hx', hlists.mpr fun list items hk harray => ?_⟩
  obtain rfl : ⟨3, 0⟩ = list := Object.reference.inj (Option.some.inj hk)
  cases harray

/-- The array in an object of its own: the element is no kid any more, but the array is. -/
theorem appendKid_loses_kids :
    let d := listing (.reference ⟨2, 0⟩)
    ∃ d' x x', (appendKid ⟨1, 0⟩ (.integer 0)).run d = .ok () d' ∧
      d.doc.dict? ⟨1, 0⟩ = some x ∧ d'.doc.dict? ⟨1, 0⟩ = some x' ∧
      d.doc.listedKids x = [.reference ⟨3, 0⟩] ∧
      d'.doc.listedKids x' = [.reference ⟨2, 0⟩, .integer 0] :=
  ⟨_, _, _, rfl, rfl, rfl, rfl, rfl⟩

end Edit

end AccessiblePdf
