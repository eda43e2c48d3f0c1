import AccessiblePdf.Document.Trees
import AccessiblePdf.Proofs.Number
import Mathlib.Data.List.Induction
import Mathlib.Logic.Function.Basic

/-!
Flat number trees: lists of keys and values in turn. Setting a key in such a list binds it and
leaves all other keys alone, if nothing behind its place is read as that key
(`bindings_insert_iff`); in a list that is sorted nothing is (`ne_of_mem_behind`). A list of
increasing keys stays one, and grows by a pair just for a new key (`insert_sorted`).
-/
namespace AccessiblePdf

/-! ## Bindings -/

/-- What keys stand for; of several values the last one counts. -/
def bindings (entries : List (Int × Object)) : Int → Option Object :=
  entries.foldl (fun b e => Function.update b e.1 (some e.2)) fun _ => none

theorem bindings_nil (k : Int) : bindings [] k = none := rfl

theorem bindings_concat (es : List (Int × Object)) (e : Int × Object) :
    bindings (es ++ [e]) = Function.update (bindings es) e.1 (some e.2) := by
  rw [bindings, List.foldl_append]
  rfl

theorem bindings_append (as bs : List (Int × Object)) (k : Int) :
    bindings (as ++ bs) k = (bindings bs k).or (bindings as k) := by
  induction bs using List.reverseRecOn with
  | nil => rw [List.append_nil, bindings_nil, Option.none_or]
  | append_singleton bs e ih =>
    rw [← List.append_assoc, bindings_concat, bindings_concat]
    by_cases h : k = e.1
    · subst h
      rw [Function.update_self, Function.update_self, Option.some_or]
    · rw [Function.update_of_ne h, Function.update_of_ne h, ih]

theorem bindings_eq_none {es : List (Int × Object)} {k : Int} :
    bindings es k = none ↔ ∀ e ∈ es, e.1 ≠ k := by
  induction es using List.reverseRecOn with
  | nil => simp [bindings_nil]
  | append_singleton es e ih =>
    rw [bindings_concat]
    by_cases h : k = e.1
    · subst h
      rw [Function.update_self]
      exact ⟨fun h => absurd h (by simp), fun h => absurd rfl (h e (by simp))⟩
    · rw [Function.update_of_ne h, ih]
      constructor
      · intro hes x hx
        rcases List.mem_append.mp hx with hx | hx
        · exact hes x hx
        · rw [List.mem_singleton.mp hx]
          exact Ne.symm h
      · exact fun hes x hx => hes x (List.mem_append_left _ hx)

theorem bindings_single (key : Int) (value : Object) (k : Int) :
    bindings [(key, value)] k = if k = key then some value else none := by
  rw [← List.nil_append [(key, value)], bindings_concat]
  by_cases h : k = key
  · rw [h, Function.update_self, if_pos rfl]
  · rw [Function.update_of_ne h, bindings_nil, if_neg h]

theorem bindings_single_iff {before : Int → Option Object} {key key' : Int} :
    (∀ value, bindings [(key', value)] = Function.update before key (some value)) ↔
      key' = key ∧ ∀ k, k ≠ key → before k = none := by
  constructor
  · intro h
    have hkey : key' = key := by
      by_contra hne
      have hat := congrFun (h .null) key
      rw [Function.update_self, bindings_single, if_neg (Ne.symm hne)] at hat
      exact absurd hat (by simp)
    refine ⟨hkey, fun k hk => ?_⟩
    have hat := congrFun (h .null) k
    rw [Function.update_of_ne hk, bindings_single, hkey, if_neg hk] at hat
    exact hat.symm
  · rintro ⟨rfl, hnone⟩ value
    funext k
    rw [bindings_single]
    by_cases hk : k = key'
    · rw [hk, if_pos rfl, Function.update_self]
    · rw [if_neg hk, Function.update_of_ne hk, hnone k hk]

namespace Nums

/-! ## Lists of keys and values -/

/-- The keys and values of a list, where `key?` reads the keys. -/
def read (key? : Object → Option Int) (items : List Object) : List (Int × Object) :=
  (Document.pairs items).filterMap fun (key, value) => (key? key).map fun k => (k, value)

/-- What stands behind the place where a key is set. -/
def behind (key : Int) : List Object → List Object
  | .integer k :: v :: rest =>
    if k = key then rest
    else if key < k then .integer k :: v :: rest
    else behind key rest
  | _ :: _ :: rest => behind key rest
  | _ => []

/-- A list without a key that lacks its value. -/
def Paired : List Object → Prop
  | [] => True
  | [_] => False
  | _ :: _ :: rest => Paired rest

variable {key? : Object → Option Int} {key : Int}

theorem pairs_append {front : List Object} (h : Paired front) (rest : List Object) :
    Document.pairs (front ++ rest) = Document.pairs front ++ Document.pairs rest := by
  fun_induction Paired front with
  | case1 => rfl
  | case2 => exact h.elim
  | case3 k v front ih =>
    rw [List.cons_append, List.cons_append, Document.pairs, Document.pairs, ih h,
      List.cons_append]

theorem read_append {front : List Object} (h : Paired front) (rest : List Object) :
    read key? (front ++ rest) = read key? front ++ read key? rest := by
  rw [read, pairs_append h, List.filterMap_append]
  rfl

theorem read_pair (k v : Object) (rest : List Object) :
    read key? (k :: v :: rest) = ((key? k).map fun n => (n, v)).toList ++ read key? rest := by
  cases h : key? k <;> simp [read, Document.pairs, h]

/-- Where a key is set: in the place of the pair with this key, or else in front of what is
behind. -/
theorem exists_insert_eq {items : List Object} (paired : Paired items) (key : Int) :
    ∃ front replaced, Paired front ∧ (replaced = [] ∨ ∃ old, replaced = [.integer key, old]) ∧
      items = front ++ (replaced ++ behind key items) ∧
      ∀ value, insert key value items = front ++ .integer key :: value :: behind key items := by
  fun_induction behind key items with
  | case1 v rest => exact ⟨[], [.integer key, v], trivial, Or.inr ⟨v, rfl⟩, rfl,
      fun value => by rw [insert, if_pos rfl]; rfl⟩
  | case2 k v rest hne hlt => exact ⟨[], [], trivial, Or.inl rfl, rfl,
      fun value => by rw [insert, if_neg hne, if_pos hlt]; rfl⟩
  | case3 k v rest hne hlt ih =>
    obtain ⟨front, replaced, hfront, hreplaced, hitems, hinsert⟩ := ih paired
    refine ⟨.integer k :: v :: front, replaced, hfront, hreplaced, ?_, fun value => ?_⟩
    · rw [List.cons_append, List.cons_append, ← hitems]
    · rw [insert, if_neg hne, if_neg hlt, hinsert]
      rfl
  | case4 k v rest hk ih =>
    obtain ⟨front, replaced, hfront, hreplaced, hitems, hinsert⟩ := ih paired
    refine ⟨k :: v :: front, replaced, hfront, hreplaced, ?_, fun value => ?_⟩
    · rw [List.cons_append, List.cons_append, ← hitems]
    · rw [insert, hinsert]
      · rfl
      · exact hk
  | case5 items h1 h2 =>
    match items with
    | [] => exact ⟨[], [], trivial, Or.inl rfl, rfl, fun _ => rfl⟩
    | [_] => exact paired.elim
    | k :: v :: rest => exact absurd rfl (h2 k v rest)

/-! ## Setting a key -/

theorem exists_object_ne (o : Object) : ∃ o' : Object, o' ≠ o := by
  cases o with
  | null => exact ⟨.boolean true, by simp⟩
  | _ => exact ⟨.null, by simp⟩

/-- Setting a key binds it and leaves the others alone just when it is read as itself and nothing
behind its place is read as it too. -/
theorem bindings_insert_iff {items : List Object} (paired : Paired items) {key' : Int}
    (hkey : key? (.integer key) = some key') :
    (∀ value, bindings (read key? (insert key value items)) =
        Function.update (bindings (read key? items)) key (some value)) ↔
      key' = key ∧ ∀ e ∈ read key? (behind key items), e.1 ≠ key := by
  obtain ⟨front, replaced, hfront, hreplaced, hitems, hinsert⟩ := exists_insert_eq paired key
  have hafter : ∀ value k, bindings (read key? (insert key value items)) k =
      (bindings (read key? (behind key items)) k).or
        ((bindings [(key', value)] k).or (bindings (read key? front) k)) := by
    intro value k
    rw [hinsert, read_append hfront, read_pair, hkey, Option.map_some, Option.toList_some,
      ← List.append_assoc, bindings_append, bindings_append]
  constructor
  · intro h
    have hbound : ∀ value, (bindings (read key? (behind key items)) key).or
        ((bindings [(key', value)] key).or (bindings (read key? front) key)) = some value := by
      intro value
      rw [← hafter, h, Function.update_self]
    have hbehind : bindings (read key? (behind key items)) key = none := by
      cases hb : bindings (read key? (behind key items)) key with
      | none => rfl
      | some old =>
        -- A value that is already there would hide the new one, whichever it is.
        obtain ⟨value, hvalue⟩ := exists_object_ne old
        have hold := hbound value
        rw [hb, Option.some_or, Option.some_inj] at hold
        exact absurd hold.symm hvalue
    refine ⟨?_, bindings_eq_none.mp hbehind⟩
    by_contra hne
    have hfree : ∀ value, bindings [(key', value)] key = none := by
      intro value
      rw [bindings_single, if_neg (Ne.symm hne)]
    obtain ⟨value, hvalue⟩ := exists_object_ne .null
    have hnull := hbound .null
    have hother := hbound value
    rw [hbehind, hfree] at hnull hother
    exact hvalue (Option.some.inj (hother.symm.trans hnull))
  · rintro ⟨rfl, hbehind⟩ value
    funext k
    rw [hafter]
    by_cases hk : k = key'
    · subst hk
      rw [bindings_eq_none.mpr hbehind, Option.none_or, bindings_single, if_pos rfl,
        Option.some_or, Function.update_self]
    · have hother : ∀ v : Object, bindings [(key', v)] k = none := by
        intro v
        rw [bindings_single, if_neg hk]
      rw [hother, Option.none_or, Function.update_of_ne hk]
      conv_rhs => rw [hitems, read_append hfront, bindings_append]
      rcases hreplaced with rfl | ⟨old, rfl⟩
      · rw [List.nil_append]
      · rw [List.cons_append, List.cons_append, List.nil_append, read_pair, hkey, Option.map_some,
          Option.toList_some, bindings_append, hother, Option.or_none]

/-! ## Sorted lists -/

/-- The list of keys and values of entries. -/
def ofEntries (es : List (Int × Object)) : List Object :=
  es.flatMap fun e => [.integer e.1, e.2]

theorem ofEntries_cons (e : Int × Object) (es : List (Int × Object)) :
    ofEntries (e :: es) = .integer e.1 :: e.2 :: ofEntries es := rfl

/-- Entries in the order of their keys, each of which is read as itself. -/
structure Ascending (es : List (Int × Object)) : Prop where
  pairwise : es.Pairwise fun a b => a.1 < b.1
  exact : ∀ e ∈ es, readKey e.1 = e.1

/-- Sets a key among entries. -/
def setEntry (key : Int) (value : Object) : List (Int × Object) → List (Int × Object)
  | [] => [(key, value)]
  | e :: es =>
    if e.1 = key then (key, value) :: es
    else if key < e.1 then (key, value) :: e :: es
    else e :: setEntry key value es

theorem paired_ofEntries (es : List (Int × Object)) : Paired (ofEntries es) := by
  induction es with
  | nil => trivial
  | cons e es ih => exact ih

theorem insert_ofEntries (key : Int) (value : Object) (es : List (Int × Object)) :
    insert key value (ofEntries es) = ofEntries (setEntry key value es) := by
  induction es with
  | nil => rfl
  | cons e es ih =>
    rw [ofEntries_cons, insert, setEntry]
    split
    · next h => rw [h]; rfl
    · split
      · rfl
      · rw [ih]; rfl

theorem mem_setEntry {value : Object} {es : List (Int × Object)} {e : Int × Object}
    (h : e ∈ setEntry key value es) : e = (key, value) ∨ e ∈ es := by
  induction es with
  | nil => exact Or.inl (List.mem_singleton.mp h)
  | cons x es ih =>
    rw [setEntry] at h
    split at h
    · rcases List.mem_cons.mp h with rfl | h
      · exact Or.inl rfl
      · exact Or.inr (List.mem_cons_of_mem x h)
    · split at h
      · rcases List.mem_cons.mp h with rfl | h
        · exact Or.inl rfl
        · exact Or.inr h
      · rcases List.mem_cons.mp h with rfl | h
        · exact Or.inr List.mem_cons_self
        · exact (ih h).imp_right (List.mem_cons_of_mem x)

/-- Setting a key keeps the order: the first larger key is where it belongs. -/
theorem pairwise_setEntry {es : List (Int × Object)} (ordered : es.Pairwise fun a b => a.1 < b.1) (key : Int)
    (value : Object) : (setEntry key value es).Pairwise fun a b => a.1 < b.1 := by
  induction es with
  | nil => exact List.pairwise_singleton _ _
  | cons e es ih =>
    rw [List.pairwise_cons] at ordered
    rw [setEntry]
    split
    · next hk =>
      subst hk
      exact List.pairwise_cons.mpr ordered
    · split
      · next hlt =>
        refine List.pairwise_cons.mpr ⟨fun x hx => ?_, List.pairwise_cons.mpr ordered⟩
        rcases List.mem_cons.mp hx with rfl | hx
        · exact hlt
        · exact Int.lt_trans hlt (ordered.1 x hx)
      · next hne hlt =>
        refine List.pairwise_cons.mpr ⟨fun x hx => ?_, ih ordered.2⟩
        rcases mem_setEntry hx with rfl | hx
        · show e.1 < key
          omega
        · exact ordered.1 x hx

theorem Ascending.setEntry {es : List (Int × Object)} (h : Ascending es) {key : Int}
    (exact : readKey key = key) (value : Object) : Ascending (setEntry key value es) := by
  refine ⟨pairwise_setEntry h.pairwise key value, fun e he => ?_⟩
  rcases mem_setEntry he with rfl | he
  · exact exact
  · exact h.exact e he

theorem read_ofEntries {es : List (Int × Object)}
    (h : ∀ e ∈ es, key? (.integer e.1) = some e.1) : read key? (ofEntries es) = es := by
  induction es with
  | nil => rfl
  | cons e es ih =>
    rw [ofEntries_cons, read_pair, h e List.mem_cons_self,
      ih fun x hx => h x (List.mem_cons_of_mem e hx)]
    rfl

/-- In a sorted list nothing behind the place of a key is read as the key. -/
theorem ne_of_mem_behind {es : List (Int × Object)} (ascending : Ascending es)
    (hread : ∀ n, key? (.integer n) = some (readKey n)) :
    ∀ e ∈ read key? (behind key (ofEntries es)), e.1 ≠ key := by
  obtain ⟨hpairs, hexact⟩ := ascending
  induction es with
  | nil => exact fun e he => absurd he List.not_mem_nil
  | cons x es ih =>
    rw [List.pairwise_cons] at hpairs
    have hrest : ∀ e ∈ es, readKey e.1 = e.1 := fun e he => hexact e (List.mem_cons_of_mem x he)
    rw [ofEntries_cons, behind]
    split
    · next h =>
      intro e he
      rw [read_ofEntries fun e he => by rw [hread, hrest e he]] at he
      have := hpairs.1 e he
      omega
    · split
      · next h =>
        intro e he
        rw [← ofEntries_cons, read_ofEntries fun e he => by rw [hread, hexact e he]] at he
        rcases List.mem_cons.mp he with rfl | he
        · omega
        · have := hpairs.1 e he
          omega
      · exact ih hpairs.2 hrest

theorem bindings_setEntry {es : List (Int × Object)} (ascending : Ascending es)
    (exact : readKey key = key) (value : Object) :
    bindings (setEntry key value es) = Function.update (bindings es) key (some value) := by
  let key? (o : Object) : Option Int := o.integer?.map readKey
  have hread : ∀ n, key? (.integer n) = some (readKey n) := fun _ => rfl
  have hself : ∀ {es}, Ascending es → read key? (ofEntries es) = es := by
    intro es h
    exact read_ofEntries fun e he => by rw [hread, h.exact e he]
  have h := (bindings_insert_iff (paired_ofEntries es) (hread key)).mpr
    ⟨exact, ne_of_mem_behind ascending hread⟩ value
  rwa [insert_ofEntries, hself ascending, hself (ascending.setEntry exact value)] at h

/-- Setting keys one after the other in an empty list sorts them; of several values the last one
is kept. -/
theorem exists_sorted {entries : List (Int × Object)}
    (exact : ∀ e ∈ entries, readKey e.1 = e.1) :
    ∃ es, entries.foldl (fun nums e => insert e.1 e.2 nums) [] = ofEntries es ∧
      Ascending es ∧ bindings es = bindings entries := by
  induction entries using List.reverseRecOn with
  | nil => exact ⟨[], rfl, ⟨List.Pairwise.nil, fun e he => absurd he List.not_mem_nil⟩, rfl⟩
  | append_singleton entries e ih =>
    obtain ⟨es, hflat, hascending, hbindings⟩ :=
      ih fun x hx => exact x (List.mem_append_left _ hx)
    have he := exact e (by simp)
    refine ⟨setEntry e.1 e.2 es, ?_, hascending.setEntry he e.2, ?_⟩
    · rw [List.foldl_append, List.foldl_cons, List.foldl_nil, hflat, insert_ofEntries]
    · rw [bindings_setEntry hascending he, bindings_concat, hbindings]

/-! ## Lists of increasing keys -/

/-- Keys and values in turn, where the keys are integers and each is larger than those before it. -/
structure Sorted (items : List Object) : Prop where
  even : items.length % 2 = 0
  integer : ∀ i, 2 * i < items.length → ∃ k, items[2 * i]? = some (.integer k)
  increasing : ∀ i j k l, i < j → items[2 * i]? = some (.integer k) →
    items[2 * j]? = some (.integer l) → k < l

theorem length_ofEntries (es : List (Int × Object)) : (ofEntries es).length = 2 * es.length := by
  induction es with
  | nil => rfl
  | cons e es ih =>
    rw [ofEntries_cons, List.length_cons, List.length_cons, ih, List.length_cons]
    omega

theorem getElem?_ofEntries (es : List (Int × Object)) (i : Nat) :
    (ofEntries es)[2 * i]? = es[i]?.map fun e => .integer e.1 := by
  induction es generalizing i with
  | nil => rfl
  | cons e es ih =>
    cases i with
    | zero => rfl
    | succ i => exact ih i

theorem getElem?_ofEntries_eq_some {es : List (Int × Object)} {i : Nat} {k : Int} :
    (ofEntries es)[2 * i]? = some (.integer k) ↔ ∃ v, es[i]? = some (k, v) := by
  rw [getElem?_ofEntries, Option.map_eq_some_iff]
  constructor
  · rintro ⟨⟨n, v⟩, he, hk⟩
    cases hk
    exact ⟨v, he⟩
  · rintro ⟨v, he⟩
    exact ⟨(k, v), he, rfl⟩

theorem exists_eq_ofEntries : ∀ {items : List Object}, items.length % 2 = 0 →
    (∀ i, 2 * i < items.length → ∃ k, items[2 * i]? = some (.integer k)) → ∃ es, items = ofEntries es
  | [], _, _ => ⟨[], rfl⟩
  | [_], even, _ => absurd even Nat.one_ne_zero
  | a :: v :: rest, even, integer => by
    obtain ⟨k, hk⟩ := integer 0 (by simp)
    obtain rfl : a = .integer k := Option.some.inj hk
    have hrest : rest.length % 2 = 0 := by
      rw [List.length_cons, List.length_cons] at even
      omega
    obtain ⟨es, rfl⟩ := exists_eq_ofEntries hrest fun i hi =>
      integer (i + 1) (by simp only [List.length_cons]; omega)
    exact ⟨(k, v) :: es, rfl⟩

theorem sorted_iff {items : List Object} :
    Sorted items ↔ ∃ es, items = ofEntries es ∧ es.Pairwise fun a b => a.1 < b.1 := by
  constructor
  · rintro ⟨even, integer, increasing⟩
    obtain ⟨es, rfl⟩ := exists_eq_ofEntries even integer
    refine ⟨es, rfl, List.pairwise_iff_getElem.mpr fun i j hi hj hij => ?_⟩
    exact increasing i j _ _ hij
      (getElem?_ofEntries_eq_some.mpr ⟨es[i].2, List.getElem?_eq_getElem hi⟩)
      (getElem?_ofEntries_eq_some.mpr ⟨es[j].2, List.getElem?_eq_getElem hj⟩)
  · rintro ⟨es, rfl, ordered⟩
    refine ⟨by rw [length_ofEntries, Nat.mul_mod_right], fun i hi => ?_, fun i j k l hij hk hl => ?_⟩
    · rw [length_ofEntries] at hi
      have hlt : i < es.length := by omega
      exact ⟨es[i].1, getElem?_ofEntries_eq_some.mpr ⟨es[i].2, List.getElem?_eq_getElem hlt⟩⟩
    · obtain ⟨v, hi⟩ := getElem?_ofEntries_eq_some.mp hk
      obtain ⟨w, hj⟩ := getElem?_ofEntries_eq_some.mp hl
      obtain ⟨hi, hiv⟩ := List.getElem?_eq_some_iff.mp hi
      obtain ⟨hj, hjw⟩ := List.getElem?_eq_some_iff.mp hj
      have hlt := List.pairwise_iff_getElem.mp ordered i j hi hj hij
      rwa [hiv, hjw] at hlt

theorem get?_integer (n : Int) (v : Object) (rest : List Object) (k : Int) :
    get? k (.integer n :: v :: rest) = if k = n then some v else get? k rest := by
  rw [get?]
  exact if_congr eq_comm rfl rfl

theorem get?_insert {items : List Object} (paired : Paired items) (key : Int) (value : Object) (k : Int) :
    get? k (insert key value items) = if k = key then some value else get? k items := by
  fun_induction insert key value items with
  | case1 v rest =>
    rw [get?_integer, get?_integer]
    split <;> rfl
  | case2 n v rest hne hlt => exact get?_integer _ _ _ _
  | case3 n v rest hne hlt ih =>
    rw [get?_integer, get?_integer, ih paired]
    by_cases hn : k = n
    · rw [if_pos hn, if_pos hn, if_neg fun hk => hne (hn.symm.trans hk)]
    · rw [if_neg hn, if_neg hn]
  | case4 a v rest ha ih =>
    rw [get?, get?, ih paired]
    all_goals exact ha
  | case5 => exact paired.elim
  | case6 => exact paired.elim
  | case7 => exact paired.elim
  | case8 => exact get?_integer _ _ _ _

theorem length_setEntry_of_ne {es : List (Int × Object)} (absent : ∀ e ∈ es, e.1 ≠ key) (value : Object) :
    (setEntry key value es).length = es.length + 1 := by
  induction es with
  | nil => rfl
  | cons e es ih =>
    rw [List.forall_mem_cons] at absent
    rw [setEntry, if_neg absent.1]
    split
    · rfl
    · rw [List.length_cons, ih absent.2, List.length_cons]

theorem length_setEntry_of_mem {es : List (Int × Object)} (ordered : es.Pairwise fun a b => a.1 < b.1)
    {e : Int × Object} (he : e ∈ es) (value : Object) : (setEntry e.1 value es).length = es.length := by
  induction es with
  | nil => cases he
  | cons x es ih =>
    rw [List.pairwise_cons] at ordered
    rw [setEntry]
    split
    · rfl
    · next hne =>
      rcases List.mem_cons.mp he with rfl | he
      · exact absurd rfl hne
      · rw [if_neg (Int.not_lt.mpr (Int.le_of_lt (ordered.1 e he))), List.length_cons, ih ordered.2 he, List.length_cons]

/-- Setting a key in a sorted list leaves it sorted, gives the key its value and no other key another one, and
adds a pair just when the key was not there. -/
theorem insert_sorted {items : List Object} (sorted : Sorted items) (key : Int) (value : Object) :
    Sorted (insert key value items) ∧ get? key (insert key value items) = some value ∧
      (∀ k, k ≠ key → get? k (insert key value items) = get? k items) ∧
      ((∃ i, items[2 * i]? = some (.integer key)) → (insert key value items).length = items.length) ∧
      ((¬∃ i, items[2 * i]? = some (.integer key)) →
        (insert key value items).length = items.length + 2) := by
  obtain ⟨es, rfl, ordered⟩ := sorted_iff.mp sorted
  have hget := get?_insert (paired_ofEntries es) key value
  refine ⟨?_, ?_, fun k hk => ?_, ?_, fun habsent => ?_⟩
  · rw [insert_ofEntries]
    exact sorted_iff.mpr ⟨_, rfl, pairwise_setEntry ordered key value⟩
  · rw [hget, if_pos rfl]
  · rw [hget, if_neg hk]
  · rintro ⟨i, hi⟩
    obtain ⟨v, hv⟩ := getElem?_ofEntries_eq_some.mp hi
    rw [insert_ofEntries, length_ofEntries, length_ofEntries,
      length_setEntry_of_mem ordered (List.mem_of_getElem? hv)]
  · have hne : ∀ e ∈ es, e.1 ≠ key := by
      rintro e he rfl
      obtain ⟨i, hi⟩ := List.mem_iff_getElem?.mp he
      exact habsent ⟨i, getElem?_ofEntries_eq_some.mpr ⟨e.2, hi⟩⟩
    rw [insert_ofEntries, length_ofEntries, length_ofEntries, length_setEntry_of_ne hne]
    omega

/-- A key between two others, and one that is there. -/
theorem insert_sorted_between :
    Sorted [.integer 1, .null, .integer 5, .boolean true] ∧
      insert 3 (.name "a") [.integer 1, .null, .integer 5, .boolean true] =
        [.integer 1, .null, .integer 3, .name "a", .integer 5, .boolean true] ∧
      Sorted [.integer 1, .null, .integer 3, .name "a", .integer 5, .boolean true] ∧
      insert 5 (.name "a") [.integer 1, .null, .integer 5, .boolean true] =
        [.integer 1, .null, .integer 5, .name "a"] ∧
      get? 5 [.integer 1, .null, .integer 5, .name "a"] = some (.name "a") := by
  have hsorted : Sorted [.integer 1, .null, .integer 5, .boolean true] :=
    sorted_iff.mpr ⟨[(1, .null), (5, .boolean true)], rfl, by simp⟩
  have hbetween := (insert_sorted hsorted 3 (.name "a")).1
  have hreplaced := (insert_sorted hsorted 5 (.name "a")).2.1
  exact ⟨hsorted, rfl, hbetween, rfl, hreplaced⟩

end Nums

end AccessiblePdf
