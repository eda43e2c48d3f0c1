import AccessiblePdf.Proofs.Table
import AccessiblePdf.Proofs.Text.Keys
import Mathlib.Algebra.Order.BigOperators.Group.List
import Mathlib.Algebra.Order.Group.Nat
import Mathlib.Data.List.Nodup
import Std.Data.TreeMap.Lemmas

/-!
The leaves of a name tree, from which a map of texts is read, and to which it is written again when a key
is set. What is written is in the order of its bytes (`sorted_leaves`). But the byte strings of the leaves
are written as the texts that they are read as: setting keys keeps all other leaves just when those are
written as they were (`setKeys_keeps_iff`).
-/
namespace AccessiblePdf.NameTree

open TextString

variable {α : Type} {ls : List (Bytes × α)} {entries : List (String × α)} {s key : String} {v : α}

/-! ## Reading and writing -/

/-- What the leaves of a name tree are read as; the last of several values counts. -/
def read (ls : List (Bytes × α)) : Std.TreeMap String α :=
  ls.foldl (fun m e => m.insert (decode e.1) e.2) ∅

/-- The leaves that a map is written to. -/
def leaves (m : Std.TreeMap String α) : List (Bytes × α) := m.toList.map fun e => (utf8 e.1, e.2)

/-- The leaves when a key is set. -/
def setKey (ls : List (Bytes × α)) (e : String × α) : List (Bytes × α) :=
  leaves ((read ls).insert e.1 e.2)

/-- The leaves when keys are set one after the other. -/
def setKeys (ls : List (Bytes × α)) (entries : List (String × α)) : List (Bytes × α) :=
  entries.foldl setKey ls

theorem read_eq (ls : List (Bytes × α)) : read ls =
    (ls.map fun e => (decode e.1, e.2)).foldl (fun m e => m.insert e.1 e.2) ∅ := by
  rw [read, List.foldl_map]

theorem exists_of_read (h : (read ls)[s]? = some v) : ∃ e ∈ ls, decode e.1 = s ∧ e.2 = v := by
  rw [read_eq] at h
  obtain ⟨e, he, heq⟩ := List.mem_map.mp (Table.mem_of_getElem?_foldl h)
  exact ⟨e, he, congrArg Prod.fst heq, congrArg Prod.snd heq⟩

theorem read_of_mem (nodup : (ls.map fun e => decode e.1).Nodup) {e : Bytes × α} (he : e ∈ ls) :
    (read ls)[decode e.1]? = some e.2 := by
  have hkeys : ((ls.map fun e => (decode e.1, e.2)).map Prod.fst).Nodup := by
    rw [List.map_map]
    exact nodup
  have hmem : (decode e.1, e.2) ∈ ls.map fun e => (decode e.1, e.2) := List.mem_map.mpr ⟨e, he, rfl⟩
  rw [read_eq]
  exact Table.getElem?_foldl_of_mem hkeys hmem ∅

theorem mem_leaves {m : Std.TreeMap String α} {e : Bytes × α} :
    e ∈ leaves m ↔ ∃ s, m[s]? = some e.2 ∧ utf8 s = e.1 := by
  rw [leaves, List.mem_map]
  constructor
  · rintro ⟨⟨s, v⟩, hmem, rfl⟩
    exact ⟨s, Std.TreeMap.mem_toList_iff_getElem?_eq_some.mp hmem, rfl⟩
  · rintro ⟨s, hs, hbytes⟩
    exact ⟨(s, e.2), Std.TreeMap.mem_toList_iff_getElem?_eq_some.mpr hs, Prod.ext hbytes rfl⟩

/-- Leaves are written in the order of their bytes. -/
theorem sorted_leaves (m : Std.TreeMap String α) : ((leaves m).map Prod.fst).Pairwise (· < ·) := by
  rw [leaves, List.map_map, List.pairwise_map]
  refine (Std.TreeMap.ordered_keys_toList (t := m)).imp fun h => utf8_lt ?_
  exact compareOfLessAndEq_eq_lt.mp h

theorem nodup_leaves (m : Std.TreeMap String α) : ((leaves m).map Prod.fst).Nodup :=
  (sorted_leaves m).imp fun h heq => by
    rw [heq] at h
    exact List.lt_irrefl _ h

theorem setKeys_cons (ls : List (Bytes × α)) (e : String × α) (entries : List (String × α)) :
    setKeys ls (e :: entries) = setKeys (setKey ls e) entries := rfl

theorem setKeys_concat (ls : List (Bytes × α)) (entries : List (String × α)) (e : String × α) :
    setKeys ls (entries ++ [e]) = setKey (setKeys ls entries) e := by
  rw [setKeys, List.foldl_append]
  rfl

theorem exists_setKeys (ls : List (Bytes × α)) (set : entries ≠ []) :
    ∃ m, setKeys ls entries = leaves m := by
  rcases List.eq_nil_or_concat' entries with rfl | ⟨entries, e, rfl⟩
  · exact absurd rfl set
  · exact ⟨_, setKeys_concat ls entries e⟩

/-! ## Leaves that are written as they were -/

/-- All leaves are written as they were read. -/
def Faithful (ls : List (Bytes × α)) : Prop := ∀ e ∈ ls, utf8 (decode e.1) = e.1

theorem Faithful.nodup (faithful : Faithful ls) (nodup : (ls.map Prod.fst).Nodup) :
    (ls.map fun e => decode e.1).Nodup := by
  have hkeys : (ls.map fun e => decode e.1).map utf8 = ls.map Prod.fst := by
    rw [List.map_map]
    exact List.map_congr_left faithful
  rw [← hkeys] at nodup
  exact List.Nodup.of_map utf8 nodup

/-- Setting a key among faithful leaves sets it and keeps all others. -/
theorem mem_setKey (faithful : Faithful ls) (nodup : (ls.map Prod.fst).Nodup) {e : String × α}
    {l : Bytes × α} : l ∈ setKey ls e ↔ l = (utf8 e.1, e.2) ∨ l ∈ ls ∧ l.1 ≠ utf8 e.1 := by
  rw [setKey, mem_leaves]
  constructor
  · rintro ⟨s, hs, hbytes⟩
    rw [Table.getElem?_insert] at hs
    split at hs
    · next heq =>
      subst heq
      exact Or.inl (Prod.ext hbytes.symm (Option.some.inj hs).symm)
    · next hne =>
      obtain ⟨l', hl', rfl, hv⟩ := exists_of_read hs
      obtain rfl : l' = l := Prod.ext ((faithful l' hl').symm.trans hbytes) hv
      refine Or.inr ⟨hl', fun heq => hne ?_⟩
      rw [← faithful l' hl'] at heq
      exact (utf8_injective heq).symm
  · rintro (rfl | ⟨hl, hne⟩)
    · exact ⟨e.1, Std.TreeMap.getElem?_insert_self, rfl⟩
    · refine ⟨decode l.1, ?_, faithful l hl⟩
      rw [Table.getElem?_insert, if_neg, read_of_mem (faithful.nodup nodup) hl]
      intro heq
      rw [heq] at hne
      exact hne (faithful l hl).symm

theorem Faithful.setKey (faithful : Faithful ls) (nodup : (ls.map Prod.fst).Nodup) {e : String × α}
    (plain : ¬Marked e.1) : Faithful (setKey ls e) := by
  intro l hl
  rcases (mem_setKey faithful nodup).mp hl with rfl | ⟨hl, -⟩
  · exact (utf8_decode_utf8_iff e.1).mpr plain
  · exact faithful l hl

/-- Setting keys among faithful leaves gives each its last value and keeps all others. -/
theorem mem_setKeys (faithful : Faithful ls) (nodup : (ls.map Prod.fst).Nodup)
    (plain : ∀ e ∈ entries, ¬Marked e.1) : (Faithful (setKeys ls entries) ∧
      ((setKeys ls entries).map Prod.fst).Nodup) ∧ ∀ l, l ∈ setKeys ls entries ↔
        (∃ key, utf8 key = l.1 ∧ entries.reverse.lookup key = some l.2) ∨
          l ∈ ls ∧ l.1 ∉ entries.map fun e => utf8 e.1 := by
  induction entries using List.reverseRecOn with
  | nil => exact ⟨⟨faithful, nodup⟩, fun l => by simp [setKeys]⟩
  | append_singleton entries e ih =>
    obtain ⟨⟨hfaithful, hnodup⟩, hmem⟩ := ih fun e he => plain e (List.mem_append_left _ he)
    rw [setKeys_concat]
    refine ⟨⟨hfaithful.setKey hnodup (plain e (by simp)), nodup_leaves _⟩, fun l => ?_⟩
    rw [mem_setKey hfaithful hnodup, hmem, List.reverse_append, List.reverse_singleton,
      List.singleton_append]
    by_cases hkey : l.1 = utf8 e.1
    · -- The key that was set last.
      have hlookup : (∃ key, utf8 key = l.1 ∧ (e :: entries.reverse).lookup key = some l.2) ↔
          l = (utf8 e.1, e.2) := by
        constructor
        · rintro ⟨key, hbytes, hlast⟩
          obtain rfl := utf8_injective (hbytes.trans hkey)
          rw [List.lookup_cons_self] at hlast
          exact Prod.ext hkey (Option.some.inj hlast).symm
        · rintro rfl
          exact ⟨e.1, rfl, List.lookup_cons_self⟩
      rw [hlookup]
      simp [hkey]
    · have hlookup : ∀ key, utf8 key = l.1 → (e :: entries.reverse).lookup key =
          entries.reverse.lookup key := by
        intro key hbytes
        have hne : (key == e.1) = false := by
          rw [beq_eq_false_iff_ne]
          rintro rfl
          exact hkey hbytes.symm
        rw [List.lookup_cons, hne]
      have hlast : l ≠ (utf8 e.1, e.2) := fun heq => hkey (congrArg Prod.fst heq)
      rw [List.map_append, List.mem_append, List.map_singleton, List.mem_singleton]
      simp only [hlast, hkey, false_or, or_false, ne_eq, not_false_eq_true, and_true]
      exact or_congr_left (exists_congr fun key => and_congr_right fun hbytes => by rw [hlookup key hbytes])

/-! ## Leaves that are written differently -/

/-- A marked text among the leaves comes from one with as many marks more as it has been read again. -/
theorem exists_of_marked (set : entries ≠ []) (plain : ∀ e ∈ entries, ¬Marked e.1)
    (h : (utf8 s, v) ∈ setKeys ls entries) (marked : Marked s) :
    ∃ l ∈ ls, ∃ n, (decode l.1).toList = List.replicate n mark ++ s.toList := by
  -- A marked text was not set just before, so it was read.
  have hread : ∀ {ls : List (Bytes × α)} {e : String × α} {s : String} {l : Bytes × α},
      ¬Marked e.1 → l ∈ setKey ls e → l.1 = utf8 s → Marked s → ∃ l ∈ ls, decode l.1 = s := by
    intro ls e s l hplain hl hbytes hmarked
    obtain ⟨s', hs', hbytes'⟩ := mem_leaves.mp hl
    obtain rfl := utf8_injective (hbytes'.trans hbytes)
    rw [Table.getElem?_insert, if_neg] at hs'
    · obtain ⟨l', hl', hdecode, -⟩ := exists_of_read hs'
      exact ⟨l', hl', hdecode⟩
    · rintro rfl
      exact hplain hmarked
  induction entries generalizing ls with
  | nil => exact absurd rfl set
  | cons e entries ih =>
    rw [List.forall_mem_cons] at plain
    rw [setKeys_cons] at h
    by_cases hlast : entries = []
    · subst hlast
      obtain ⟨l, hl, hdecode⟩ := hread plain.1 h rfl marked
      exact ⟨l, hl, 0, by rw [hdecode]; rfl⟩
    · obtain ⟨l, hl, n, hlist⟩ := ih hlast plain.2 h
      obtain ⟨s', -, hbytes⟩ := mem_leaves.mp hl
      have hunmark : unmark s' = decode l.1 := by rw [← hbytes, decode_utf8]
      have hmarked : Marked (unmark s') := by
        rw [Marked, hunmark, hlist]
        cases n with
        | zero => exact marked
        | succ n => rfl
      obtain ⟨l', hl', hdecode⟩ := hread plain.1 hl hbytes.symm (marked_of_marked_unmark hmarked)
      refine ⟨l', hl', n + 1, ?_⟩
      rw [hdecode, toList_of_marked_unmark hmarked, hunmark, hlist]
      rfl

/-- If all leaves are kept whose keys are not set, then for each of them that is written differently there
is a longer one. -/
theorem exists_longer (set : entries ≠ []) (plain : ∀ e ∈ entries, ¬Marked e.1)
    (kept : ∀ l ∈ ls, l.1 ∉ entries.map (fun e => utf8 e.1) → l ∈ setKeys ls entries) {l : Bytes × α}
    (hl : l ∈ ls) (unset : l.1 ∉ entries.map fun e => utf8 e.1) (changed : utf8 (decode l.1) ≠ l.1) :
    ∃ l' ∈ ls, l'.1 ∉ entries.map (fun e => utf8 e.1) ∧ utf8 (decode l'.1) ≠ l'.1 ∧
      l.1.length < l'.1.length := by
  obtain ⟨m, hm⟩ := exists_setKeys ls set
  have htext : ∀ l ∈ ls, l.1 ∉ entries.map (fun e => utf8 e.1) → ∃ s, utf8 s = l.1 := by
    intro l hl unset
    have hwritten := kept l hl unset
    rw [hm] at hwritten
    obtain ⟨s, -, hbytes⟩ := mem_leaves.mp hwritten
    exact ⟨s, hbytes⟩
  obtain ⟨s, hs⟩ := htext l hl unset
  have hmarked : Marked s := by
    rw [← hs] at changed
    exact not_not.mp fun h => changed ((utf8_decode_utf8_iff s).mpr h)
  have hwritten : (utf8 s, l.2) ∈ setKeys ls entries := by
    rw [hs]
    exact kept l hl unset
  obtain ⟨l', hl', n, hlist⟩ := exists_of_marked set plain hwritten hmarked
  have hfront : Marked (decode l'.1) := by
    rw [Marked, hlist]
    cases n with
    | zero => exact hmarked
    | succ n => rfl
  have hunset : l'.1 ∉ entries.map fun e => utf8 e.1 := by
    intro hmem
    obtain ⟨e, he, hbytes⟩ := List.mem_map.mp hmem
    rw [← hbytes, decode_utf8, unmark_of_not_marked (plain e he)] at hfront
    exact plain e he hfront
  obtain ⟨s', hs'⟩ := htext l' hl' hunset
  rw [← hs', decode_utf8] at hfront hlist
  refine ⟨l', hl', hunset, ?_, ?_⟩
  · rw [← hs']
    exact fun h => (utf8_decode_utf8_iff s').mp h (marked_of_marked_unmark hfront)
  · rw [← hs, ← hs', utf8_eq_flatMap, utf8_eq_flatMap, toList_of_marked_unmark hfront, hlist,
      List.flatMap_cons, List.flatMap_append, utf8_mark]
    simp only [List.length_append, List.length_cons, List.length_nil]
    omega

/-- Setting keys without marks gives each its last value and keeps all other leaves, just when these are
written as they were. -/
theorem setKeys_keeps_iff (set : entries ≠ []) (plain : ∀ e ∈ entries, ¬Marked e.1)
    (nodup : (ls.map Prod.fst).Nodup) :
    ((∀ l ∈ ls, l.1 ∉ entries.map (fun e => utf8 e.1) → l ∈ setKeys ls entries) ∧
        ∀ key v, entries.reverse.lookup key = some v → (utf8 key, v) ∈ setKeys ls entries) ↔
      ∀ l ∈ ls, l.1 ∉ entries.map (fun e => utf8 e.1) → utf8 (decode l.1) = l.1 := by
  constructor
  · rintro ⟨kept, -⟩
    by_contra hchanged
    push Not at hchanged
    -- There would be ever longer leaves.
    have hlong : ∀ n, ∃ l ∈ ls, l.1 ∉ entries.map (fun e => utf8 e.1) ∧ utf8 (decode l.1) ≠ l.1 ∧
        n ≤ l.1.length := by
      intro n
      induction n with
      | zero =>
        obtain ⟨l, hl, unset, changed⟩ := hchanged
        exact ⟨l, hl, unset, changed, Nat.zero_le _⟩
      | succ n ih =>
        obtain ⟨l, hl, unset, changed, hn⟩ := ih
        obtain ⟨l', hl', unset', changed', hlt⟩ := exists_longer set plain kept hl unset changed
        exact ⟨l', hl', unset', changed', Nat.lt_of_le_of_lt hn hlt⟩
    obtain ⟨l, hl, -, -, hn⟩ := hlong ((ls.map fun l => l.1.length).sum + 1)
    have hle : l.1.length ≤ (ls.map fun l => l.1.length).sum :=
      List.single_le_sum (fun n _ => Nat.zero_le n) _ (List.mem_map_of_mem (f := fun l => l.1.length) hl)
    omega
  · intro hfaithful
    have faithful : Faithful ls := by
      intro l hl
      by_cases hmem : l.1 ∈ entries.map fun e => utf8 e.1
      · obtain ⟨e, he, hbytes⟩ := List.mem_map.mp hmem
        rw [← hbytes]
        exact (utf8_decode_utf8_iff e.1).mpr (plain e he)
      · exact hfaithful l hl hmem
    obtain ⟨-, hmem⟩ := mem_setKeys faithful nodup plain
    exact ⟨fun l hl unset => (hmem l).mpr (Or.inr ⟨hl, unset⟩),
      fun key v hlast => (hmem (utf8 key, v)).mpr (Or.inl ⟨key, rfl, hlast⟩)⟩

end AccessiblePdf.NameTree
