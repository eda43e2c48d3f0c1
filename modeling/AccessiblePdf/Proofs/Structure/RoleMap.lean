import AccessiblePdf.Proofs.Outline.ReadingOrder
import AccessiblePdf.Proofs.Structure.Readback
import AccessiblePdf.Proofs.Tree
import Mathlib.Dynamics.PeriodicPts.Defs

/-!
What roles stand for. The entries of a role map lead from role to role (`Leads`), up to one that has no
entry or whose entry is the role itself (`Ends`). `Role.standard` is that role if it is reached within
`Role.hops` entries, and otherwise the role so many entries on, wherever that is (`settles_or_leads`): on
a cycle the one at which the last round breaks off (`standard_of_cycle`). By the rule a role stands for
itself if no end is reached (`StandsFor`), and that comes true exactly on cycles that are gone through in
whole rounds (`standard_standsFor_iff`). The report on a structure tree and the search for headings take a
role for the same one (`Document.takesRole`).
-/
namespace AccessiblePdf

namespace Role

variable {map : Std.TreeMap String String} {role target : String} {k m n : Nat}

/-! ## Following entries -/

/-- So many entries of a role map lead from a role to another one. -/
inductive Leads (map : Std.TreeMap String String) : Nat → String → String → Prop where
  | here (role : String) : Leads map 0 role role
  | step {n : Nat} {role next target : String} (entry : map[role]? = some next)
      (onward : Leads map n next target) : Leads map (n + 1) role target

/-- A role that the map leads nowhere else: it has no entry, or one to itself. -/
def Ends (map : Std.TreeMap String String) (role : String) : Prop :=
  map[role]? = none ∨ map[role]? = some role

instance (map : Std.TreeMap String String) (role : String) : Decidable (Ends map role) :=
  inferInstanceAs (Decidable (_ ∨ _))

/-- At most so many entries lead from a role to one at which they end. -/
def Settles (map : Std.TreeMap String String) (n : Nat) (role target : String) : Prop :=
  ∃ k ≤ n, Leads map k role target ∧ Ends map target

/-- What a role stands for by the rule: the role on which the map settles within the entries that are
followed, or else the role itself. -/
def StandsFor (map : Std.TreeMap String String) (role target : String) : Prop :=
  Settles map hops role target ∨ (¬∃ t, Settles map hops role t) ∧ target = role

/-- The role one entry on, or the role itself where there is no entry. -/
def next (map : Std.TreeMap String String) (role : String) : String := map[role]?.getD role

theorem Ends.isFixedPt (h : Ends map role) : Function.IsFixedPt (next map) role := by
  rcases h with h | h <;> rw [Function.IsFixedPt, next, h] <;> rfl

theorem follow_eq_iterate (map : Std.TreeMap String String) (n : Nat) (role : String) :
    follow map n role = (next map)^[n] role := by
  fun_induction follow map n role with
  | case1 role => rfl
  | case2 n role hentry =>
    have hends : Ends map role := Or.inr hentry
    exact (hends.isFixedPt.iterate (n + 1)).symm
  | case3 n role target hentry hne ih =>
    rw [ih, Function.iterate_succ_apply, next, hentry, Option.getD_some]
  | case4 n role hnone =>
    have hends : Ends map role := Or.inl hnone
    exact (hends.isFixedPt.iterate (n + 1)).symm

theorem Leads.iterate_eq (h : Leads map n role target) : (next map)^[n] role = target := by
  induction h with
  | here role => rfl
  | step entry onward ih => rw [Function.iterate_succ_apply, next, entry, Option.getD_some, ih]

theorem Leads.take (h : Leads map n role target) (hm : m ≤ n) :
    Leads map m role ((next map)^[m] role) := by
  induction h generalizing m with
  | here role =>
    obtain rfl := Nat.le_zero.mp hm
    exact .here role
  | step entry onward ih =>
    cases m with
    | zero => exact .here _
    | succ m =>
      rw [Function.iterate_succ_apply, next, entry, Option.getD_some]
      exact .step entry (ih (Nat.le_of_succ_le_succ hm))

/-! ## Where entries end -/

theorem follow_of_settles (h : Settles map n role target) : follow map n role = target := by
  obtain ⟨k, hk, hleads, hends⟩ := h
  calc follow map n role = (next map)^[n - k + k] role := by
        rw [follow_eq_iterate, Nat.sub_add_cancel hk]
    _ = (next map)^[n - k] target := by rw [Function.iterate_add_apply, hleads.iterate_eq]
    _ = target := hends.isFixedPt.iterate (n - k)

/-- Entries end on the way, or there is one for each step. -/
theorem settles_or_leads (map : Std.TreeMap String String) (n : Nat) (role : String) :
    (∃ target, Settles map n role target) ∨ Leads map n role (follow map n role) := by
  fun_induction follow map n role with
  | case1 role => exact Or.inr (.here role)
  | case2 n role hentry => exact Or.inl ⟨role, 0, Nat.zero_le _, .here role, Or.inr hentry⟩
  | case3 n role next hentry hne ih =>
    rcases ih with ⟨target, k, hk, hleads, hends⟩ | hleads
    · exact Or.inl ⟨target, k + 1, Nat.succ_le_succ hk, .step hentry hleads, hends⟩
    · exact Or.inr (.step hentry hleads)
  | case4 n role hnone => exact Or.inl ⟨role, 0, Nat.zero_le _, .here role, Or.inl hnone⟩

/-! ## Cycles -/

theorem Leads.isPeriodicPt (cycle : Leads map k role role) :
    Function.IsPeriodicPt (next map) k role :=
  cycle.iterate_eq

/-- On a cycle whole rounds do not count. -/
theorem standard_of_cycle (pos : 0 < k) (cycle : Leads map k role role) :
    Leads map (hops % k) role (standard map role) := by
  have hround : standard map role = (next map)^[hops % k] role := by
    rw [standard, follow_eq_iterate, cycle.isPeriodicPt.iterate_mod_apply]
  rw [hround]
  exact cycle.take (Nat.mod_lt hops pos).le

theorem not_settles_of_cycle (pos : 0 < k) (cycle : Leads map k role role) (moves : ¬Ends map role) :
    ¬∃ target, Settles map n role target := by
  rintro ⟨target, j, -, hleads, hends⟩
  -- As many rounds as there are entries up to the end come back, but also stay at the end.
  have hrounds : (next map)^[j * k] role = role := cycle.isPeriodicPt.const_mul j
  have hend : (next map)^[j * k] role = target := by
    have hle : j ≤ j * k := Nat.le_mul_of_pos_right j pos
    rw [← Nat.sub_add_cancel hle, Function.iterate_add_apply, hleads.iterate_eq]
    exact hends.isFixedPt.iterate _
  rw [hrounds] at hend
  exact moves (hend ▸ hends)

end Role

/-! ## Elements of the structure tree -/

namespace ElementContext

variable {c : ElementContext} {P : ElementFacts → Prop} {levels : Nat}

theorem forall_readKid (facts : ∀ page id d, P (c.facts page id d))
    (below : ∀ page met kids, ∀ t ∈ (c.readAll levels page met kids).1, ∀ e ∈ t.values, P e)
    (page : Option Nat) (read : List (Tree ElementFacts) × List ObjectId) (kid : Object)
    (before : ∀ t ∈ read.1, ∀ e ∈ t.values, P e) :
    ∀ t ∈ (c.readKid levels page read kid).1, ∀ e ∈ t.values, P e := by
  rw [readKid]
  split
  · exact before
  · split
    · next d hd =>
      split
      · refine List.forall_mem_cons.mpr ⟨fun e he => ?_, before⟩
        rw [Tree.values, List.mem_cons, Tree.mem_valuesAll] at he
        rcases he with rfl | ⟨t, ht, he⟩
        · exact facts _ _ _
        · exact below _ _ _ t ht e he
      · exact before
    · exact before

theorem forall_readAll (facts : ∀ page id d, P (c.facts page id d)) (levels : Nat)
    (page : Option Nat) (met : List ObjectId) (kids : List Object) :
    ∀ t ∈ (c.readAll levels page met kids).1, ∀ e ∈ t.values, P e := by
  induction levels generalizing page met kids with
  | zero => exact fun t ht => absurd ht List.not_mem_nil
  | succ levels ih =>
    have hfold : ∀ (kids : List Object) (read : List (Tree ElementFacts) × List ObjectId),
        (∀ t ∈ read.1, ∀ e ∈ t.values, P e) →
          ∀ t ∈ (kids.foldl (c.readKid levels page) read).1, ∀ e ∈ t.values, P e := by
      intro kids
      induction kids with
      | nil => exact fun read before => before
      | cons kid kids ihkids =>
        intro read before
        exact ihkids _ (forall_readKid facts ih page read kid before)
    intro t ht
    rw [readAll_succ, List.mem_reverse] at ht
    exact hfold kids ([], met) (fun t ht => absurd ht List.not_mem_nil) t ht

end ElementContext

namespace Document

variable {doc : Document} {map : Std.TreeMap String String} {id : ObjectId} {role : String}

theorem standardRole_of_mem_structureTrees {rootId : Option ObjectId} {root : Dict Object}
    {e : ElementFacts} (he : e ∈ Tree.valuesAll (doc.structureTrees rootId root)) :
    e.standardRole = Role.standard (doc.roleMap root) e.role := by
  obtain ⟨t, ht, he⟩ := Tree.mem_valuesAll.mp he
  let c : ElementContext := ⟨doc, doc.roleMap root, doc.pageNumbers⟩
  exact c.forall_readAll (P := fun e => e.standardRole = Role.standard c.roles e.role)
    (fun _ _ _ => rfl) _ _ _ _ t ht e he

theorem level_heading? {x : Dict Object} (hx : doc.dict? id = some x)
    (hrole : doc.entryName? x "S" = some role) :
    (doc.heading? map id).map (·.level) = headingLevel? (Role.standard map role) := by
  rw [heading?, hx]
  simp only [bind, Option.bind_some, hrole]
  cases headingLevel? (Role.standard map role) <;> rfl

theorem headingLevel?_of_heading? {h : Heading} (hh : doc.heading? map id = some h) :
    headingLevel? (Role.standard map h.role) = some h.level := by
  obtain ⟨x, -, hx⟩ := Option.bind_eq_some_iff.mp hh
  obtain ⟨role, -, hrole⟩ := Option.bind_eq_some_iff.mp hx
  obtain ⟨level, hlevel, hheading⟩ := Option.bind_eq_some_iff.mp hrole
  obtain rfl := Option.some.inj hheading
  exact hlevel

theorem headingLevel?_of_mem_headingsFrom {unvisited pending : List ObjectId} {h : Heading}
    (hh : h ∈ doc.headingsFrom map unvisited pending) :
    headingLevel? (Role.standard map h.role) = some h.level := by
  fun_induction headingsFrom doc map unvisited pending with
  | case1 => exact absurd hh List.not_mem_nil
  | case2 unvisited element pending hmem ih =>
    rcases List.mem_append.mp hh with hh | hh
    · exact headingLevel?_of_heading? (Option.mem_toList.mp hh)
    · exact ih hh
  | case3 unvisited element pending hmem ih => exact ih hh

/-- The report on a structure tree and the search for headings take a role for another one. -/
structure TakesRole (doc : Document) (rootId : ObjectId) (root : Dict Object)
    (role target : String) : Prop where
  /-- Elements with the role are reported with the other one. -/
  reported : ∀ e ∈ Tree.valuesAll (doc.structureTrees (some rootId) root),
    e.role = role → e.standardRole = target
  /-- An object that states the role is a heading exactly if the other one is that of a heading. -/
  heading : ∀ id x, doc.dict? id = some x → doc.entryName? x "S" = some role →
    (doc.heading? (doc.roleMap root) id).map (·.level) = headingLevel? target
  /-- Headings with the role have the level of the other one. -/
  found : ∀ h ∈ doc.headings rootId, h.role = role → headingLevel? target = some h.level

theorem takesRole {rootId : ObjectId} {root : Dict Object} (hroot : doc.dict? rootId = some root)
    (role : String) : doc.TakesRole rootId root role (Role.standard (doc.roleMap root) role) where
  reported := by
    rintro e he rfl
    exact standardRole_of_mem_structureTrees he
  heading _ _ hx hrole := level_heading? hx hrole
  found := by
    rintro h hh rfl
    rw [headings, hroot, Option.getD_some] at hh
    exact headingLevel?_of_mem_headingsFrom hh

end Document

namespace Role

/-! ## The rule -/

/-- A role stands for the one on which its map settles within the entries that are followed. Where it
settles on none, it is taken for the role so many entries on, and so for itself exactly if it is on a
cycle that is gone through in whole rounds. The report on a structure tree and the search for headings
take it for the same role. -/
theorem standard_standsFor_iff (map : Std.TreeMap String String) (role : String) :
    (∀ target, Settles map hops role target → standard map role = target) ∧
      ((¬∃ target, Settles map hops role target) → Leads map hops role (standard map role)) ∧
      (StandsFor map role (standard map role) ↔
        (∃ target, Settles map hops role target) ∨ ∃ k, 0 < k ∧ k ∣ hops ∧ Leads map k role role) ∧
      ∀ (doc : Document) (rootId : ObjectId) (root : Dict Object), doc.dict? rootId = some root →
        doc.roleMap root = map → doc.TakesRole rootId root role (standard map role) := by
  have hunsettled : (¬∃ target, Settles map hops role target) →
      Leads map hops role (standard map role) := (settles_or_leads map hops role).resolve_left
  have hsettled : (∃ target, Settles map hops role target) →
      StandsFor map role (standard map role) := by
    rintro ⟨target, h⟩
    rw [standard, follow_of_settles h]
    exact Or.inl h
  refine ⟨fun target => follow_of_settles, hunsettled, ⟨?_, ?_⟩, ?_⟩
  · rintro (h | ⟨hnone, heq⟩)
    · exact Or.inl ⟨_, h⟩
    · have hround := hunsettled hnone
      rw [heq] at hround
      exact Or.inr ⟨hops, by decide, Nat.dvd_refl hops, hround⟩
  · rintro (h | ⟨k, pos, hrounds, cycle⟩)
    · exact hsettled h
    · by_cases h : ∃ target, Settles map hops role target
      · exact hsettled h
      · -- After whole rounds no entry is left over.
        have hback := standard_of_cycle pos cycle
        rw [Nat.mod_eq_zero_of_dvd hrounds] at hback
        exact Or.inr ⟨h, hback.iterate_eq.symm⟩
  · rintro doc rootId root hroot rfl
    exact Document.takesRole hroot role

/-- A root whose role map has a round of three roles, and a way of two entries to an end. -/
def roundRoot : Dict Object := .ofList [(utf8 "K", .array [.reference ⟨2, 0⟩]),
  (utf8 "RoleMap", .ofEntries [(utf8 "Chapter", .name "Section"), (utf8 "Section", .name "H1"),
    (utf8 "H1", .name "Chapter"), (utf8 "Remark", .name "Note"), (utf8 "Note", .name "P")])]

/-- A document with this root and a chapter. -/
def roundDocument : Document where
  version := "1.7"
  trailer := .empty
  objects := .ofList [(⟨1, 0⟩, .dictionary roundRoot),
    (⟨2, 0⟩, .ofEntries [(utf8 "S", .name "Chapter")])]
  maxId := 2

/-- A remark is a paragraph. The round is cut off at the first heading, so that the chapter is reported
and found as one. -/
theorem standard_standsFor_iff_round :
    let map := roundDocument.roleMap roundRoot
    (Settles map hops "Remark" "P" ∧ standard map "Remark" = "P") ∧
      ((¬∃ target, Settles map hops "Chapter" target) ∧ Leads map hops "Chapter" "H1") ∧
      roundDocument.dict? ⟨1, 0⟩ = some roundRoot ∧
      (∃ e ∈ Tree.valuesAll (roundDocument.structureTrees (some ⟨1, 0⟩) roundRoot),
        e.role = "Chapter" ∧ e.standardRole = "H1") ∧
      (roundDocument.heading? map ⟨2, 0⟩).map (·.level) = some 1 := by
  intro map
  have hchapter : map["Chapter"]? = some "Section" := by decide +kernel
  have hsection : map["Section"]? = some "H1" := by decide +kernel
  have hheading : map["H1"]? = some "Chapter" := by decide +kernel
  have hremark : map["Remark"]? = some "Note" := by decide +kernel
  have hnote : map["Note"]? = some "P" := by decide +kernel
  have hend : Ends map "P" := by decide +kernel
  have hstandard : standard map "Chapter" = "H1" := by decide +kernel
  have hroot : roundDocument.dict? ⟨1, 0⟩ = some roundRoot := rfl
  have hsettles : Settles map hops "Remark" "P" :=
    ⟨2, by decide, .step hremark (.step hnote (.here "P")), hend⟩
  have hround : ¬∃ target, Settles map hops "Chapter" target := by
    refine not_settles_of_cycle (k := 3) (by decide)
      (.step hchapter (.step hsection (.step hheading (.here "Chapter")))) ?_
    rw [Ends, hchapter]
    decide
  obtain ⟨hremarks, -⟩ := standard_standsFor_iff map "Remark"
  obtain ⟨-, hleads, -, htakes⟩ := standard_standsFor_iff map "Chapter"
  rw [hstandard] at hleads htakes
  obtain ⟨hreported, hfound, -⟩ := htakes roundDocument ⟨1, 0⟩ roundRoot hroot rfl
  have hroles : (Tree.valuesAll (roundDocument.structureTrees (some ⟨1, 0⟩) roundRoot)).map
      (·.role) = ["Chapter"] := by decide +kernel
  obtain ⟨e, he, hrole⟩ := List.mem_map.mp (hroles ▸ List.mem_singleton_self "Chapter")
  exact ⟨⟨hsettles, hremarks "P" hsettles⟩, ⟨hround, hleads hround⟩, hroot,
    ⟨e, he, hrole, hreported e he hrole⟩, hfound ⟨2, 0⟩ _ rfl (Document.entryName?_utf8 rfl)⟩

/-- A role map with nine entries in a row. -/
def longMap : Std.TreeMap String String :=
  .ofList [("Level0", "Level1"), ("Level1", "Level2"), ("Level2", "Level3"), ("Level3", "Level4"),
    ("Level4", "Level5"), ("Level5", "Level6"), ("Level6", "Level7"), ("Level7", "H1"), ("H1", "P")]

/-- The first role is taken for the heading before the end, which is neither that end nor itself. -/
theorem standard_longMap_not_standsFor :
    standard longMap "Level0" = "H1" ∧ ¬StandsFor longMap "Level0" (standard longMap "Level0") := by
  have hstandard : standard longMap "Level0" = "H1" := by decide
  refine ⟨hstandard, ?_⟩
  rw [hstandard]
  rintro (⟨k, -, -, hends⟩ | ⟨-, heq⟩)
  · exact absurd hends (by decide)
  · exact absurd heq (by decide)

end Role

end AccessiblePdf
