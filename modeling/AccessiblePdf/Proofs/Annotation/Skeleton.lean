import AccessiblePdf.Object.Basic
import AccessiblePdf.Proofs.Structure.NumberTree

/-!
An abstract account of a structure tree whose elements list objects: which kids each element has, which
key each object has, and what the parent tree has for the keys. The account is in order
(`Skeleton.Agrees`) when the key of a listed object leads to an element that lists the object. It stays
in order when an element is added (`Agrees.addElement`), when an object gets a new key
(`Agrees.giveKey`), and when an element is made the owner of an object and lists it (`Agrees.link`).
-/
namespace AccessiblePdf

/-- What an element lists. -/
inductive Kid where
  | element (id : ObjectId)
  /-- An object on a page: the id under which it is listed, and the place where it is. -/
  | object (target page home : ObjectId)

namespace Kid

/-- A kid as an object. -/
def item : Kid → Object
  | .element id => .reference id
  | .object target page _ => .ofEntries [(utf8 "Type", .name "OBJR"),
      (utf8 "Obj", .reference target), (utf8 "Pg", .reference page)]

end Kid

structure Skeleton where
  /-- The first element below the root. -/
  top : ObjectId
  /-- The kids of the elements. -/
  kids : ObjectId → Option (List Kid)
  /-- The keys of the objects into the parent tree, by their places. -/
  keys : ObjectId → Option Int
  /-- The parent tree. -/
  entries : List (Int × Object)
  /-- The next key. -/
  next : Nat

namespace Skeleton

/-- An element is there. -/
def Has (s : Skeleton) (element : ObjectId) : Prop := ∃ kids, s.kids element = some kids

/-- An element lists a kid. -/
def Lists (s : Skeleton) (element : ObjectId) (kid : Kid) : Prop :=
  ∃ kids, s.kids element = some kids ∧ kid ∈ kids

/-- An element lists the object in a place. -/
def ListsHome (s : Skeleton) (element home : ObjectId) : Prop :=
  ∃ target page, s.Lists element (.object target page home)

/-- The elements at and below the first one. -/
inductive Reaches (s : Skeleton) : ObjectId → Prop where
  | top : Reaches s s.top
  | kid {element kid : ObjectId} (above : Reaches s element) (lists : s.Lists element (.element kid)) :
      Reaches s kid

/-- A new element, without kids. -/
def addElement (s : Skeleton) (element : ObjectId) : Skeleton :=
  { s with kids := Function.update s.kids element (some []) }

/-- One more kid of an element. -/
def append (s : Skeleton) (element : ObjectId) (kid : Kid) : Skeleton :=
  { s with kids := Function.update s.kids element ((s.kids element).map (· ++ [kid])) }

/-- The next key is taken. -/
def advance (s : Skeleton) : Skeleton := { s with next := s.next + 1 }

/-- The key of an object. -/
def setKey (s : Skeleton) (home : ObjectId) (key : Int) : Skeleton :=
  { s with keys := Function.update s.keys home (some key) }

/-- The owner of a key. -/
def setOwner (s : Skeleton) (key : Int) (owner : ObjectId) : Skeleton :=
  { s with entries := Nums.setEntry key (.reference owner) s.entries }

/-- The key of each listed object leads to an element that lists it. -/
structure Agrees (s : Skeleton) : Prop where
  ascending : Nums.Ascending s.entries
  range : ∀ e ∈ s.entries, 0 ≤ e.1 ∧ e.1 < s.next
  keyed : ∀ home key, s.keys home = some key → 0 ≤ key ∧ key < s.next
  apart : ∀ home home' key, s.keys home = some key → s.keys home' = some key → home = home'
  top : s.Has s.top
  closed : ∀ element kid, s.Lists element (.element kid) → s.Has kid
  reached : ∀ element, s.Has element → s.Reaches element
  owned : ∀ element home, s.ListsHome element home → ∃ key owner, s.keys home = some key ∧
    bindings s.entries key = some (.reference owner) ∧ s.ListsHome owner home

variable {s s' : Skeleton} {element x : ObjectId} {kid k : Kid} {key : Int} {home : ObjectId}

theorem kids_addElement : (s.addElement element).kids x = if x = element then some [] else s.kids x :=
  Function.update_apply ..

theorem kids_append : (s.append element kid).kids x =
    if x = element then (s.kids element).map (· ++ [kid]) else s.kids x :=
  Function.update_apply ..

theorem keys_setKey : (s.setKey home key).keys x = if x = home then some key else s.keys x :=
  Function.update_apply ..

/-! ## Kids -/

theorem Lists.has (h : s.Lists element kid) : s.Has element := by
  obtain ⟨kids, hkids, -⟩ := h
  exact ⟨kids, hkids⟩

theorem has_append : (s.append element kid).Has x ↔ s.Has x := by
  rw [Has, kids_append, Has]
  by_cases hx : x = element
  · subst hx
    cases hkids : s.kids x <;> simp
  · rw [if_neg hx]

theorem lists_append : (s.append element kid).Lists x k ↔
    s.Lists x k ∨ s.Has element ∧ x = element ∧ k = kid := by
  rw [Lists, kids_append, Lists, Has]
  by_cases hx : x = element
  · subst hx
    cases hkids : s.kids x <;> simp
  · simp [hx]

theorem has_addElement : (s.addElement element).Has x ↔ s.Has x ∨ x = element := by
  rw [Has, kids_addElement, Has]
  by_cases hx : x = element <;> simp [hx]

theorem lists_addElement (new : s.kids element = none) :
    (s.addElement element).Lists x k ↔ s.Lists x k := by
  rw [Lists, kids_addElement, Lists]
  by_cases hx : x = element
  · subst hx
    simp [new]
  · rw [if_neg hx]

theorem Reaches.mono (h : s.Reaches x) (top : s'.top = s.top)
    (grown : ∀ element kid, s.Lists element kid → s'.Lists element kid) : s'.Reaches x := by
  induction h with
  | top =>
    rw [← top]
    exact .top
  | kid _ lists ih => exact .kid ih (grown _ _ lists)

/-! ## Steps -/

namespace Agrees

/-- A new element below another one. -/
theorem addElement {parent : ObjectId} (h : s.Agrees) (hparent : s.Has parent)
    (new : s.kids element = none) :
    ((s.addElement element).append parent (.element element)).Agrees := by
  have hhas : ∀ x, ((s.addElement element).append parent (.element element)).Has x ↔
      s.Has x ∨ x = element := fun x => has_append.trans has_addElement
  have hlists : ∀ x k, ((s.addElement element).append parent (.element element)).Lists x k ↔
      s.Lists x k ∨ x = parent ∧ k = .element element := by
    intro x k
    rw [lists_append, lists_addElement new, has_addElement]
    simp [hparent]
  have hhome : ∀ x home, ((s.addElement element).append parent (.element element)).ListsHome x home ↔
      s.ListsHome x home := by
    intro x home
    simp only [ListsHome, hlists, reduceCtorEq, and_false, or_false]
  have hreached : ∀ x, s.Reaches x →
      ((s.addElement element).append parent (.element element)).Reaches x :=
    fun x hx => hx.mono rfl fun y k hk => (hlists y k).mpr (Or.inl hk)
  refine ⟨h.ascending, h.range, h.keyed, h.apart, (hhas _).mpr (Or.inl h.top), ?_, ?_, ?_⟩
  · intro x y hy
    rcases (hlists x _).mp hy with hy | ⟨-, heq⟩
    · exact (hhas y).mpr (Or.inl (h.closed x y hy))
    · exact (hhas y).mpr (Or.inr (Kid.element.inj heq))
  · intro x hx
    rcases (hhas x).mp hx with hx | rfl
    · exact hreached x (h.reached x hx)
    · exact .kid (hreached parent (h.reached parent hparent)) ((hlists _ _).mpr (Or.inr ⟨rfl, rfl⟩))
  · intro x home hx
    obtain ⟨key, owner, hkey, hbound, howner⟩ := h.owned x home ((hhome x home).mp hx)
    exact ⟨key, owner, hkey, hbound, (hhome owner home).mpr howner⟩

theorem advance (h : s.Agrees) : s.advance.Agrees where
  ascending := h.ascending
  range := by
    intro e he
    obtain ⟨hpositive, hlt⟩ := h.range e he
    refine ⟨hpositive, ?_⟩
    show e.1 < ((s.next + 1 : Nat) : Int)
    omega
  keyed := by
    intro home key hkey
    obtain ⟨hpositive, hlt⟩ := h.keyed home key hkey
    refine ⟨hpositive, ?_⟩
    show key < ((s.next + 1 : Nat) : Int)
    omega
  apart := h.apart
  top := h.top
  closed := h.closed
  reached := fun x hx => (h.reached x hx).mono rfl fun _ _ hk => hk
  owned := h.owned

/-- An object without a key gets the next one. -/
theorem giveKey (h : s.Agrees) (new : s.keys home = none) :
    (s.advance.setKey home s.next).Agrees := by
  have hadvance := h.advance
  have hkeys : ∀ home' key, (s.advance.setKey home s.next).keys home' = some key →
      home' = home ∧ key = s.next ∨ home' ≠ home ∧ s.keys home' = some key := by
    intro home' key hkey
    rw [keys_setKey] at hkey
    split at hkey
    · next hhome => exact Or.inl ⟨hhome, (Option.some.inj hkey).symm⟩
    · next hhome => exact Or.inr ⟨hhome, hkey⟩
  refine ⟨hadvance.ascending, hadvance.range, ?_, ?_, hadvance.top, hadvance.closed, ?_, ?_⟩
  · intro home' key hkey
    rcases hkeys home' key hkey with ⟨-, rfl⟩ | ⟨-, hkey⟩
    · show (0 : Int) ≤ s.next ∧ (s.next : Int) < ((s.next + 1 : Nat) : Int)
      omega
    · exact hadvance.keyed home' key hkey
  · intro home₁ home₂ key h₁ h₂
    rcases hkeys home₁ key h₁ with ⟨rfl, rfl⟩ | ⟨-, hkey₁⟩
    · rcases hkeys home₂ _ h₂ with ⟨rfl, -⟩ | ⟨-, hkey₂⟩
      · rfl
      · have := (h.keyed home₂ _ hkey₂).2
        omega
    · rcases hkeys home₂ key h₂ with ⟨rfl, rfl⟩ | ⟨-, hkey₂⟩
      · have := (h.keyed home₁ _ hkey₁).2
        omega
      · exact h.apart home₁ home₂ key hkey₁ hkey₂
  · exact fun x hx => (h.reached x hx).mono rfl fun _ _ hk => hk
  · intro x home' hx
    obtain ⟨key, owner, hkey, hbound, howner⟩ := h.owned x home' hx
    have hne : home' ≠ home := by
      rintro rfl
      rw [new] at hkey
      exact absurd hkey (by simp)
    exact ⟨key, owner, by rw [keys_setKey, if_neg hne]; exact hkey, hbound, howner⟩

/-- An element is made the owner of the key of an object, and lists the object. -/
theorem link {target page : ObjectId} (h : s.Agrees) (hkey : s.keys home = some key)
    (helement : s.Has element) (small : s.next ≤ 0x20000000000000) :
    ((s.setOwner key element).append element (.object target page home)).Agrees := by
  obtain ⟨hpositive, hlt⟩ := h.keyed home key hkey
  have hexact : readKey key = key := readKey_eq_self (by omega)
  have hlists : ∀ x k, ((s.setOwner key element).append element (.object target page home)).Lists x k ↔
      s.Lists x k ∨ x = element ∧ k = .object target page home := by
    intro x k
    rw [lists_append]
    exact or_congr_right ⟨fun h => h.2, fun h => ⟨helement, h⟩⟩
  have hreached : ∀ x, s.Reaches x →
      ((s.setOwner key element).append element (.object target page home)).Reaches x :=
    fun x hx => hx.mono rfl fun y k hk => (hlists y k).mpr (Or.inl hk)
  refine ⟨h.ascending.setEntry hexact _, ?_, h.keyed, h.apart, has_append.mpr h.top, ?_, ?_, ?_⟩
  · intro e he
    rcases Nums.mem_setEntry he with rfl | he
    · exact ⟨hpositive, hlt⟩
    · exact h.range e he
  · intro x y hy
    rcases (hlists x _).mp hy with hy | ⟨-, heq⟩
    · exact has_append.mpr (h.closed x y hy)
    · exact absurd heq (by simp)
  · exact fun x hx => hreached x (h.reached x (has_append.mp hx))
  · intro x home' hx
    have hbindings := Nums.bindings_setEntry h.ascending hexact (.reference element)
    by_cases hhome : home' = home
    · -- The object is the one that is listed: its key leads to the element.
      subst hhome
      refine ⟨key, element, hkey, ?_, target, page, (hlists _ _).mpr (Or.inr ⟨rfl, rfl⟩)⟩
      show bindings (Nums.setEntry key (.reference element) s.entries) key = _
      rw [hbindings, Function.update_self]
    · -- Another object keeps its key, and the owner of it.
      obtain ⟨target', page', hx⟩ := hx
      have hold : s.ListsHome x home' := by
        refine ⟨target', page', ((hlists x _).mp hx).resolve_right fun heq => hhome ?_⟩
        exact (Kid.object.inj heq.2).2.2
      obtain ⟨key', owner, hkey', hbound, target'', page'', howner⟩ := h.owned x home' hold
      have hne : key' ≠ key := fun heq => hhome (h.apart home' home key (heq ▸ hkey') hkey)
      refine ⟨key', owner, hkey', ?_, target'', page'', (hlists _ _).mpr (Or.inl howner)⟩
      show bindings (Nums.setEntry key (.reference element) s.entries) key' = _
      rw [hbindings, Function.update_of_ne hne, hbound]

end Agrees

end Skeleton

end AccessiblePdf
