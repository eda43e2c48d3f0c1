/-!
Maps that remember the order in which their keys came. Setting a key that is there keeps its place;
removing one moves the last entry into its place. The view is `get?`; `get?_insert` says what
setting a key does to it.
-/
namespace AccessiblePdf

structure OrderedMap (κ α : Type) where
  entries : List (κ × α)
deriving Repr

namespace OrderedMap

variable {κ α β : Type} [DecidableEq κ]

def empty : OrderedMap κ α := ⟨[]⟩

instance : EmptyCollection (OrderedMap κ α) := ⟨empty⟩

instance : Inhabited (OrderedMap κ α) := ⟨empty⟩

/-- The value of the first entry with a key. -/
def find (k : κ) : List (κ × α) → Option α
  | [] => none
  | (k', a) :: rest => if k' = k then some a else find k rest

/-- Replaces the first entry with a key, or adds one at the end. -/
def put (k : κ) (a : α) : List (κ × α) → List (κ × α)
  | [] => [(k, a)]
  | (k', a') :: rest => if k' = k then (k', a) :: rest else (k', a') :: put k a rest

/-- Replaces the first entry with a key by another entry. -/
def replaceEntry (k : κ) (e : κ × α) : List (κ × α) → List (κ × α)
  | [] => []
  | (k', a') :: rest => if k' = k then e :: rest else (k', a') :: replaceEntry k e rest

def get? (m : OrderedMap κ α) (k : κ) : Option α := find k m.entries

def contains (m : OrderedMap κ α) (k : κ) : Bool := (m.get? k).isSome

def insert (m : OrderedMap κ α) (k : κ) (a : α) : OrderedMap κ α := ⟨put k a m.entries⟩

/-- Without a key; the last entry takes the place of the one removed. -/
def erase (m : OrderedMap κ α) (k : κ) : OrderedMap κ α :=
  match m.entries.getLast? with
  | none => m
  | some last =>
    if m.contains k then
      if last.1 = k then ⟨m.entries.dropLast⟩ else ⟨replaceEntry k last m.entries.dropLast⟩
    else m

/-- The map with these entries, later ones replacing earlier ones with the same key. -/
def ofList (l : List (κ × α)) : OrderedMap κ α := l.foldl (fun m e => m.insert e.1 e.2) empty

def toList (m : OrderedMap κ α) : List (κ × α) := m.entries

def keys (m : OrderedMap κ α) : List κ := m.entries.map (·.1)

def isEmpty (m : OrderedMap κ α) : Bool := m.entries.isEmpty

def size (m : OrderedMap κ α) : Nat := m.entries.length

/-- The entries whose key passes a test, in order. -/
def filterKeys (p : κ → Bool) (m : OrderedMap κ α) : OrderedMap κ α :=
  ⟨m.entries.filter (fun e => p e.1)⟩

/-! ## Setting a key and looking it up -/

theorem find_put_self (k : κ) (a : α) (l : List (κ × α)) : find k (put k a l) = some a := by
  induction l with
  | nil => simp [put, find]
  | cons e l ih => by_cases h : e.1 = k <;> simp [put, find, h, ih]

theorem find_put_of_ne {k k' : κ} (h : k' ≠ k) (a : α) (l : List (κ × α)) :
    find k' (put k a l) = find k' l := by
  induction l with
  | nil => simp [put, find, Ne.symm h]
  | cons e l ih =>
    by_cases he : e.1 = k
    · have hk : ¬ e.1 = k' := fun hk' => h (hk'.symm.trans he)
      simp [put, find, he, Ne.symm h]
    · by_cases hk : e.1 = k'
      · subst hk; simp [put, find, he]
      · simp [put, find, he, hk, ih]

@[simp] theorem get?_empty (k : κ) : (empty : OrderedMap κ α).get? k = none := rfl

@[simp] theorem get?_insert_self (m : OrderedMap κ α) (k : κ) (a : α) :
    (m.insert k a).get? k = some a :=
  find_put_self k a m.entries

theorem get?_insert_of_ne (m : OrderedMap κ α) {k k' : κ} (h : k' ≠ k) (a : α) :
    (m.insert k a).get? k' = m.get? k' :=
  find_put_of_ne h a m.entries

/-- Setting a key changes that key and no other. -/
theorem get?_insert (m : OrderedMap κ α) (k k' : κ) (a : α) :
    (m.insert k a).get? k' = if k' = k then some a else m.get? k' := by
  by_cases h : k' = k
  · subst h; simp
  · simp [h, get?_insert_of_ne m h]

end OrderedMap

end AccessiblePdf
