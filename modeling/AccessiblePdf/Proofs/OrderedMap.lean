import AccessiblePdf.OrderedMap
import Mathlib.Data.List.Nodup
import Mathlib.Data.List.Perm.Basic

/-!
Maps in which every key occurs once. Removing a key from such a map removes that key and no other
(`get?_erase`), although it moves an entry.
-/
namespace AccessiblePdf.OrderedMap

variable {κ α : Type} [DecidableEq κ]

/-- Every key occurs once. -/
def Distinct (m : OrderedMap κ α) : Prop := m.keys.Nodup

instance (m : OrderedMap κ α) : Decidable m.Distinct := by unfold Distinct; infer_instance

theorem find_eq_some_iff {k : κ} {a : α} {l : List (κ × α)} (nodup : (l.map (·.1)).Nodup) :
    find k l = some a ↔ (k, a) ∈ l := by
  induction l with
  | nil => simp [find]
  | cons e l ih =>
    obtain ⟨k', a'⟩ := e
    rw [List.map_cons, List.nodup_cons] at nodup
    rw [find, List.mem_cons, Prod.mk.injEq]
    by_cases h : k' = k
    · subst h
      have hnot : (k', a) ∉ l := fun hmem =>
        nodup.1 (List.mem_map.mpr ⟨(k', a), hmem, rfl⟩)
      rw [if_pos rfl, Option.some_inj]
      constructor
      · exact fun h => Or.inl ⟨rfl, h.symm⟩
      · intro hx
        rcases hx with ⟨_, rfl⟩ | h
        · rfl
        · exact absurd h hnot
    · rw [if_neg h, ih nodup.2]
      constructor
      · exact Or.inr
      · intro hexists
        rcases hexists with ⟨rfl, _⟩ | h'
        · exact absurd rfl h
        · exact h'

theorem contains_iff {m : OrderedMap κ α} {k : κ} : m.contains k = true ↔ ∃ a, m.get? k = some a :=
  Option.isSome_iff_exists

/-! ## Changes that change nothing -/

theorem insert_get? {m : OrderedMap κ α} {k : κ} {a : α} (h : m.get? k = some a) :
    m.insert k a = m := by
  obtain ⟨l⟩ := m
  rw [get?] at h
  rw [insert]
  congr 1
  show put k a l = l
  induction l with
  | nil => exact absurd h (by simp [find])
  | cons e l ih =>
    obtain ⟨k', a'⟩ := e
    rw [find] at h
    rw [put]
    by_cases hk : k' = k
    · rw [if_pos hk, Option.some_inj] at h
      rw [if_pos hk, h]
    · rw [if_neg hk] at h
      rw [if_neg hk, ih h]

theorem erase_of_get?_eq_none {m : OrderedMap κ α} {k : κ} (h : m.get? k = none) :
    m.erase k = m := by
  have habsent : m.contains k = false := by
    rw [contains, h]
    rfl
  rw [erase]
  split
  · rfl
  · rw [habsent]
    rfl

/-! ## The keys -/

theorem keys_put (k : κ) (a : α) (l : List (κ × α)) : (put k a l).map (·.1) =
    if k ∈ l.map (·.1) then l.map (·.1) else l.map (·.1) ++ [k] := by
  induction l with
  | nil => rfl
  | cons e l ih =>
    obtain ⟨k', a'⟩ := e
    rw [put]
    by_cases hk : k' = k
    · simp [hk]
    · rw [if_neg hk, List.map_cons, ih]
      by_cases hmem : k ∈ l.map (·.1)
      · rw [if_pos hmem, if_pos (by simp [hmem])]
        rfl
      · rw [if_neg hmem, if_neg (by simpa [Ne.symm hk] using hmem)]
        rfl

theorem insert_of_not_mem {m : OrderedMap κ α} {k : κ} (h : k ∉ m.keys) (a : α) :
    m.insert k a = ⟨m.entries ++ [(k, a)]⟩ := by
  obtain ⟨l⟩ := m
  have hput : put k a l = l ++ [(k, a)] := by
    induction l with
    | nil => rfl
    | cons e l ih =>
      rw [keys, List.map_cons, List.mem_cons, not_or] at h
      rw [put, if_neg (Ne.symm h.1), ih h.2]
      rfl
  exact congrArg OrderedMap.mk hput

theorem mem_of_get? {m : OrderedMap κ α} {k : κ} {a : α} (h : m.get? k = some a) :
    (k, a) ∈ m.entries := by
  obtain ⟨l⟩ := m
  rw [get?] at h
  show (k, a) ∈ l
  induction l with
  | nil => exact absurd h (by simp [find])
  | cons e l ih =>
    obtain ⟨k', a'⟩ := e
    rw [find] at h
    split at h
    · next hk =>
      rw [hk, Option.some.inj h]
      exact List.mem_cons_self
    · exact List.mem_cons_of_mem _ (ih h)

theorem keys_insert {m : OrderedMap κ α} {k : κ} {a : α} (h : m.get? k = some a) (b : α) :
    (m.insert k b).keys = m.keys := by
  have hmem : k ∈ m.entries.map (·.1) := List.mem_map.mpr ⟨_, mem_of_get? h, rfl⟩
  rw [keys, insert, keys_put, if_pos hmem]
  rfl

theorem insert_insert (m : OrderedMap κ α) (k : κ) (a b : α) :
    (m.insert k a).insert k b = m.insert k b := by
  obtain ⟨l⟩ := m
  show OrderedMap.mk (put k b (put k a l)) = ⟨put k b l⟩
  congr 1
  induction l with
  | nil => simp [put]
  | cons e l ih => by_cases hk : e.1 = k <;> simp [put, hk, ih]

theorem mem_insert {m : OrderedMap κ α} {k : κ} {a : α} {e : κ × α}
    (h : e ∈ (m.insert k a).entries) : e = (k, a) ∨ e ∈ m.entries := by
  obtain ⟨l⟩ := m
  rw [insert] at h
  replace h : e ∈ put k a l := h
  show e = (k, a) ∨ e ∈ l
  induction l with
  | nil => exact Or.inl (List.mem_singleton.mp h)
  | cons x l ih =>
    obtain ⟨k', a'⟩ := x
    rw [put] at h
    split at h
    · next hk =>
      subst hk
      exact (List.mem_cons.mp h).imp_right (List.mem_cons_of_mem _)
    · rcases List.mem_cons.mp h with rfl | h
      · exact Or.inr List.mem_cons_self
      · exact (ih h).imp_right (List.mem_cons_of_mem _)


theorem Distinct.insert {m : OrderedMap κ α} (distinct : m.Distinct) (k : κ) (a : α) :
    (m.insert k a).Distinct := by
  obtain ⟨l⟩ := m
  show ((put k a l).map (·.1)).Nodup
  rw [keys_put]
  split
  · exact distinct
  · next hmem =>
    refine List.nodup_append.mpr ⟨distinct, List.nodup_singleton k, ?_⟩
    intro x hx y hy
    rw [List.mem_singleton.mp hy]
    rintro rfl
    exact hmem hx

theorem distinct_ofList (l : List (κ × α)) : (ofList l).Distinct := by
  have hfold : ∀ (l : List (κ × α)) (m : OrderedMap κ α), m.Distinct →
      (l.foldl (fun m e => m.insert e.1 e.2) m).Distinct := by
    intro l
    induction l with
    | nil => exact fun _ h => h
    | cons e l ih => exact fun m h => ih _ (h.insert e.1 e.2)
  exact hfold l empty List.nodup_nil

theorem get?_ofList_append (l l' : List (κ × α)) (k : κ) :
    (ofList (l ++ l')).get? k = ((ofList l').get? k).or ((ofList l).get? k) := by
  have hfold : ∀ (l : List (κ × α)) (m : OrderedMap κ α),
      (l.foldl (fun m e => m.insert e.1 e.2) m).get? k = ((ofList l).get? k).or (m.get? k) := by
    intro l
    induction l with
    | nil => exact fun m => rfl
    | cons e l ih =>
      intro m
      rw [ofList, List.foldl_cons, ih, List.foldl_cons, ih (empty.insert e.1 e.2), get?_insert,
        get?_insert]
      by_cases hk : k = e.1
      · rw [if_pos hk, if_pos hk, Option.or_assoc, Option.some_or]
      · rw [if_neg hk, if_neg hk, get?_empty, Option.or_none]
  rw [ofList, List.foldl_append, hfold l']
  rfl

theorem get?_eq_none_iff {m : OrderedMap κ α} {k : κ} :
    m.get? k = none ↔ ∀ e ∈ m.entries, e.1 ≠ k := by
  obtain ⟨l⟩ := m
  show find k l = none ↔ ∀ e ∈ l, e.1 ≠ k
  induction l with
  | nil => simp [find]
  | cons e l ih =>
    obtain ⟨k', a'⟩ := e
    by_cases hk : k' = k <;> simp [find, hk, ih]


theorem get?_of_not_mem_keys {m : OrderedMap κ α} {k : κ} (h : k ∉ m.keys) : m.get? k = none :=
  get?_eq_none_iff.mpr fun _ he heq => h (heq ▸ List.mem_map_of_mem he)

/-! ## Removing a key -/

theorem mem_replaceEntry {k : κ} {e x : κ × α} {l : List (κ × α)} (h : e ∈ replaceEntry k x l) :
    e = x ∨ e ∈ l := by
  induction l with
  | nil => exact absurd h List.not_mem_nil
  | cons y l ih =>
    obtain ⟨k', a'⟩ := y
    rw [replaceEntry] at h
    split at h
    · exact (List.mem_cons.mp h).imp_right (List.mem_cons_of_mem _)
    · rcases List.mem_cons.mp h with rfl | h
      · exact Or.inr List.mem_cons_self
      · exact (ih h).imp_right (List.mem_cons_of_mem _)


theorem mem_erase {m : OrderedMap κ α} {k : κ} {e : κ × α} (h : e ∈ (m.erase k).entries) :
    e ∈ m.entries := by
  rw [erase] at h
  split at h
  · exact h
  · next last hlast =>
    split at h
    · split at h
      · exact List.dropLast_subset _ h
      · rcases mem_replaceEntry h with rfl | h
        · exact List.mem_of_getLast? hlast
        · exact List.dropLast_subset _ h
    · exact h


/-- An entry put in the place of the one with a key. -/
theorem perm_replaceEntry {k : κ} {a : α} (e : κ × α) {l : List (κ × α)}
    (nodup : (l.map (·.1)).Nodup) (h : (k, a) ∈ l) :
    (replaceEntry k e l).Perm (e :: l.filter fun x => x.1 ≠ k) := by
  induction l with
  | nil => exact absurd h List.not_mem_nil
  | cons x l ih =>
    obtain ⟨k', a'⟩ := x
    rw [List.map_cons, List.nodup_cons] at nodup
    rw [replaceEntry]
    by_cases hk : k' = k
    · subst hk
      have hrest : (l.filter fun x => x.1 ≠ k') = l := by
        apply List.filter_eq_self.mpr
        intro x hx
        have : x.1 ≠ k' := fun hx' => nodup.1 (List.mem_map.mpr ⟨x, hx, hx'⟩)
        simpa using this
      rw [if_pos rfl, List.filter_cons_of_neg (by simp), hrest]
    · have hmem : (k, a) ∈ l := by
        rcases List.mem_cons.mp h with h | h
        · exact absurd (congrArg Prod.fst h).symm hk
        · exact h
      rw [if_neg hk, List.filter_cons_of_pos (by simpa using hk)]
      exact ((ih nodup.2 hmem).cons _).trans (List.Perm.swap _ _ _)

/-- What is left when a key is removed. -/
theorem perm_erase {m : OrderedMap κ α} (distinct : m.Distinct) (k : κ) :
    (m.erase k).entries.Perm (m.entries.filter fun e => e.1 ≠ k) := by
  obtain ⟨l⟩ := m
  rw [Distinct] at distinct
  simp only [keys] at distinct
  rw [erase]
  rcases List.eq_nil_or_concat l with rfl | ⟨init, last, rfl⟩
  · exact List.Perm.refl _
  · rw [List.concat_eq_append] at distinct ⊢
    rw [List.getLast?_concat]
    by_cases hk : (OrderedMap.mk (init ++ [last])).contains k = true
    · simp only [hk, if_true, List.dropLast_concat]
      obtain ⟨a, ha⟩ := contains_iff.mp hk
      have hmem := (find_eq_some_iff distinct).mp ha
      rw [List.map_append, List.nodup_append] at distinct
      rw [List.filter_append]
      by_cases hlast : last.1 = k
      · have hinit : (init.filter fun e => e.1 ≠ k) = init := by
          apply List.filter_eq_self.mpr
          intro e he
          have := distinct.2.2 e.1 (List.mem_map_of_mem he) last.1 (by simp)
          rw [hlast] at this
          simpa using this
        rw [if_pos hlast, List.filter_cons_of_neg (by simpa using hlast), List.filter_nil,
          List.append_nil, hinit]
      · have hinit : (k, a) ∈ init := by
          rcases List.mem_append.mp hmem with h | h
          · exact h
          · rw [List.mem_singleton] at h
            exact absurd (congrArg Prod.fst h).symm hlast
        rw [if_neg hlast]
        apply (perm_replaceEntry last distinct.1 hinit).trans
        rw [List.filter_cons_of_pos (by simpa using hlast), List.filter_nil]
        exact (List.perm_append_singleton last _).symm
    · simp only [hk, Bool.false_eq_true, if_false]
      have hall : ((init ++ [last]).filter fun e => e.1 ≠ k) = init ++ [last] := by
        apply List.filter_eq_self.mpr
        intro e he
        have : e.1 ≠ k := by
          rintro rfl
          exact hk (contains_iff.mpr ⟨e.2, (find_eq_some_iff distinct).mpr he⟩)
        simpa using this
      rw [hall]

theorem Distinct.erase {m : OrderedMap κ α} (distinct : m.Distinct) (k : κ) :
    (m.erase k).Distinct := by
  have hperm := (perm_erase distinct k).map (·.1)
  refine hperm.nodup_iff.mpr (distinct.sublist ?_)
  exact List.filter_sublist.map _

/-- Removing a key changes that key and no other. -/
theorem get?_erase {m : OrderedMap κ α} (distinct : m.Distinct) (k k' : κ) :
    (m.erase k).get? k' = if k' = k then none else m.get? k' := by
  have hmem : ∀ a, (m.erase k).get? k' = some a ↔ m.get? k' = some a ∧ k' ≠ k := by
    intro a
    rw [get?, find_eq_some_iff (distinct.erase k), (perm_erase distinct k).mem_iff, get?,
      find_eq_some_iff distinct, List.mem_filter]
    simp
  by_cases h : k' = k
  · rw [if_pos h, Option.eq_none_iff_forall_ne_some]
    intro a ha
    exact ((hmem a).mp ha).2 h
  · rw [if_neg h]
    apply Option.ext
    intro a
    rw [hmem a]
    exact ⟨fun h => h.1, fun h' => ⟨h', h⟩⟩

end AccessiblePdf.OrderedMap
