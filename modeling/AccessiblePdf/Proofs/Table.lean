import Mathlib.Data.List.Induction
import Mathlib.Data.List.Nodup
import Std.Data.TreeMap.Lemmas

/-!
Tables into which entries are put one after the other. Entries of other keys do not matter, and the last
entry of a key is there in the end (`getElem?_foldl_iff`). So the entries of a table, put into another one,
win (`getElem?_foldl`), and all entries of a table make it up again (`getElem?_ofList`).
-/
namespace AccessiblePdf.Table

variable {κ α β : Type} [DecidableEq κ] [Ord κ] [Std.TransOrd κ] [Std.LawfulEqOrd κ]
  {entries : List (κ × α)} {key : κ} {a : α}

theorem getElem?_insert (t : Std.TreeMap κ α) (k : κ) (a : α) (key : κ) :
    (t.insert k a)[key]? = if k = key then some a else t[key]? := by
  rw [Std.TreeMap.getElem?_insert]
  exact if_congr Std.LawfulEqOrd.compare_eq_iff_eq rfl rfl

theorem getElem?_foldl_of_ne (other : ∀ e ∈ entries, e.1 ≠ key) (t : Std.TreeMap κ α) :
    (entries.foldl (fun t e => t.insert e.1 e.2) t)[key]? = t[key]? := by
  induction entries generalizing t with
  | nil => rfl
  | cons e entries ih =>
    rw [List.forall_mem_cons] at other
    rw [List.foldl_cons, ih other.2, getElem?_insert, if_neg other.1]

theorem getElem?_foldl_of_mem (nodup : (entries.map Prod.fst).Nodup) (mem : (key, a) ∈ entries)
    (t : Std.TreeMap κ α) :
    (entries.foldl (fun t e => t.insert e.1 e.2) t)[key]? = some a := by
  induction entries generalizing t with
  | nil => cases mem
  | cons e entries ih =>
    rw [List.map_cons, List.nodup_cons] at nodup
    rw [List.foldl_cons]
    rcases List.mem_cons.mp mem with rfl | mem
    · have hother : ∀ e ∈ entries, e.1 ≠ key := by
        rintro e he rfl
        exact nodup.1 (List.mem_map.mpr ⟨e, he, rfl⟩)
      rw [getElem?_foldl_of_ne hother, getElem?_insert, if_pos rfl]
    · exact ih nodup.2 mem _

theorem getElem?_foldl_or (entries : List (κ × α)) (t : Std.TreeMap κ α) (key : κ) :
    (entries.foldl (fun t e => t.insert e.1 e.2) t)[key]? =
      ((entries.foldl (fun t e => t.insert e.1 e.2) (∅ : Std.TreeMap κ α))[key]?).or t[key]? := by
  induction entries using List.reverseRecOn with
  | nil => rw [List.foldl_nil, List.foldl_nil, Std.TreeMap.getElem?_emptyc, Option.none_or]
  | append_singleton entries e ih =>
    simp only [List.foldl_append, List.foldl_cons, List.foldl_nil, getElem?_insert, ih]
    split <;> rfl

/-- An entry is the last one of its key. -/
def IsLast (entries : List (κ × α)) (key : κ) (a : α) : Prop :=
  ∃ front behind, entries = front ++ (key, a) :: behind ∧ ∀ e ∈ behind, e.1 ≠ key

/-- What is there in the end is what the last entry of a key has. -/
theorem getElem?_foldl_iff :
    (entries.foldl (fun t e => t.insert e.1 e.2) (∅ : Std.TreeMap κ α))[key]? = some a ↔
      IsLast entries key a := by
  constructor
  · intro h
    induction entries using List.reverseRecOn with
    | nil => cases h
    | append_singleton entries e ih =>
      rw [List.foldl_append, List.foldl_cons, List.foldl_nil, getElem?_insert] at h
      split at h
      · next heq =>
        obtain rfl := Option.some.inj h
        exact ⟨entries, [], by rw [← heq], fun _ h => absurd h List.not_mem_nil⟩
      · next hne =>
        obtain ⟨front, behind, rfl, hbehind⟩ := ih h
        refine ⟨front, behind ++ [e], by simp, fun e' he' => ?_⟩
        rcases List.mem_append.mp he' with he' | he'
        · exact hbehind e' he'
        · rw [List.mem_singleton.mp he']
          exact hne
  · rintro ⟨front, behind, rfl, hbehind⟩
    rw [List.foldl_append, List.foldl_cons, getElem?_foldl_of_ne hbehind, getElem?_insert, if_pos rfl]

theorem mem_of_getElem?_foldl
    (h : (entries.foldl (fun t e => t.insert e.1 e.2) (∅ : Std.TreeMap κ α))[key]? = some a) :
    (key, a) ∈ entries := by
  obtain ⟨front, behind, rfl, -⟩ := getElem?_foldl_iff.mp h
  exact List.mem_append_right _ List.mem_cons_self

omit [DecidableEq κ] in
theorem nodup_toList (t : Std.TreeMap κ α) : (t.toList.map Prod.fst).Nodup := by
  rw [Std.TreeMap.map_fst_toList_eq_keys]
  exact Std.TreeMap.distinct_keys.imp fun hne heq =>
    hne (Std.LawfulEqOrd.compare_eq_iff_eq.mpr heq)

/-- Changed entries of a table, put into another one, win. -/
theorem getElem?_foldl (f : β → α) (s : Std.TreeMap κ β) (t : Std.TreeMap κ α) (key : κ) :
    (s.foldl (fun t key b => t.insert key (f b)) t)[key]? = (s[key]?.map f).or t[key]? := by
  have hfold : s.foldl (fun t key b => t.insert key (f b)) t =
      (s.toList.map fun e => (e.1, f e.2)).foldl (fun t e => t.insert e.1 e.2) t := by
    rw [Std.TreeMap.foldl_eq_foldl_toList, List.foldl_map]
  rw [hfold]
  cases hkey : s[key]? with
  | none =>
    refine getElem?_foldl_of_ne (fun e he heq => ?_) t
    obtain ⟨e', he', rfl⟩ := List.mem_map.mp he
    rw [Std.TreeMap.mem_toList_iff_getElem?_eq_some, heq, hkey] at he'
    cases he'
  | some b =>
    have hmem : (key, b) ∈ s.toList := Std.TreeMap.mem_toList_iff_getElem?_eq_some.mpr hkey
    refine getElem?_foldl_of_mem (a := f b) ?_ (List.mem_map.mpr ⟨(key, b), hmem, rfl⟩) t
    rw [List.map_map]
    exact nodup_toList s

theorem getElem?_ofList_map (f : β → α) (t : Std.TreeMap κ β) (key : κ) :
    ((t.toList.map fun e => (e.1, f e.2)).foldl (fun t e => t.insert e.1 e.2)
      (∅ : Std.TreeMap κ α))[key]? = t[key]?.map f := by
  have hfold := getElem?_foldl f t ∅ key
  rw [Std.TreeMap.foldl_eq_foldl_toList, Std.TreeMap.getElem?_emptyc, Option.or_none] at hfold
  rw [List.foldl_map, hfold]

/-- The entries of a table make it up again. -/
theorem getElem?_ofList (t : Std.TreeMap κ α) (key : κ) :
    (t.toList.foldl (fun t e => t.insert e.1 e.2) (∅ : Std.TreeMap κ α))[key]? = t[key]? := by
  have hfold := getElem?_ofList_map (fun a => a) t key
  rwa [Option.map_id', List.map_id'] at hfold

end AccessiblePdf.Table
