import AccessiblePdf.Proofs.Checked
import AccessiblePdf.Proofs.Font.CidWidths

/-!
Loading a font with any addition of codes. `Font.loadBy` is the loading of a font with the addition as a
parameter, in any monad: with the sums cut to 32 bits it is `Font.load` (`loadBy_wrapped`), and with sums
that have to stay within 32 bits it fails just where one does not (`load_fits_iff`). The codes of ToUnicode
maps and of ranges of ids always stay within 32 bits. Those counted on from a number of the document do so
if the number leaves room for the items behind it (`Font.CodesFit`).
-/
namespace AccessiblePdf

namespace Code

/-- The sum of two codes without its bits beyond 32. -/
def wrapped (a b : Nat) : Id Nat := pure ((a + b) % 0x100000000)

/-- The sum of two codes, if it has 32 bits. -/
def checked (a b : Nat) : Option Nat := if a + b < 0x100000000 then some (a + b) else none

variable {m : Type → Type} [Monad m]

/-- An addition that is right where the sum has 32 bits. -/
def Exact (add : Nat → Nat → m Nat) : Prop := ∀ a b, a + b < 0x100000000 → add a b = pure (a + b)

theorem exact_wrapped : Exact wrapped := fun a b h => by rw [wrapped, Nat.mod_eq_of_lt h]

theorem exact_checked : Exact checked := fun _ _ h => if_pos h

theorem gives_checked (a b : Nat) :
    Gives (checked a b) (a + b < 0x100000000) ((a + b) % 0x100000000) where
  some h := by rw [checked, if_pos h, Nat.mod_eq_of_lt h]
  none h := if_neg h

end Code

variable {m : Type → Type} [Monad m] (add : Nat → Nat → m Nat)

/-! ## Loading with an addition -/

namespace Encoding

/-- `differencePairs` with the addition that counts the codes on. -/
def differencePairsBy (doc : Document) : Option Nat → List Object → m (List (Nat × String))
  | _, [] => pure []
  | code, o :: rest =>
    let o := doc.resolve o
    match o.number? with
    | some n => differencePairsBy doc (if startsRun n then some (codeOf n) else code) rest
    | none =>
      match code, o.nameText? with
      | some c, some glyph => do
        let next ← add c 1
        let pairs ← differencePairsBy doc (some next) rest
        return (c, glyph) :: pairs
      | code, _ => differencePairsBy doc code rest

def differencesBy (doc : Document) (array : List Object) : m (CodeTable String) := do
  let pairs ← differencePairsBy add doc none array
  return pairs.foldl (fun t e => t.insert e.1 e.2) ∅

end Encoding

namespace ToUnicode

def spanEntriesBy (first span : Nat) (text : Bytes) : m (List (Nat × String)) :=
  (List.range (span + 1)).mapM fun i => do
    let code ← add first i
    return (code, offsetText text i)

def listEntriesBy (first span : Nat) (i : Nat) : List Token → m (List (Nat × String))
  | [] => pure []
  | .closing :: _ => pure []
  | .opening :: rest => listEntriesBy first span i rest
  | .hex text :: rest =>
    if i ≤ span then do
      let code ← add first i
      let entries ← listEntriesBy first span (i + 1) rest
      return (code, unitsText text) :: entries
    else listEntriesBy first span (i + 1) rest

def rangeEntriesBy (ts : List Token) : m (List (Nat × String)) :=
  match ts with
  | .hex low :: .hex high :: third :: rest =>
    let first := codeValue low
    let span := min (codeValue high - first) rangeLimit
    match third with
    | .hex text => do
      let entries ← spanEntriesBy add first span text
      let more ← rangeEntriesBy rest
      return entries ++ more
    | .opening => do
      let entries ← listEntriesBy add first span 0 rest
      let more ← rangeEntriesBy (listEntries first span 0 rest).2
      return entries ++ more
    | .closing => rangeEntriesBy rest
  | _ :: second :: third :: rest => rangeEntriesBy (second :: third :: rest)
  | _ => pure []
termination_by ts.length
decreasing_by
  · simp only [List.length_cons]; omega
  · refine Nat.lt_of_le_of_lt (listEntries_length _ _ _ _) ?_
    simp only [List.length_cons]; omega
  · simp only [List.length_cons]; omega
  · simp only [List.length_cons]; omega

def textEntriesBy (text : List Char) : m (List (Nat × String)) := do
  let ranges ← (blockTokens "beginbfrange" "endbfrange" text).mapM (rangeEntriesBy add)
  return (blockTokens "beginbfchar" "endbfchar" text).flatMap charEntries ++ ranges.flatten

/-- The map of a CMap, if it is one. -/
def readBy (data : Bytes) : m (Option ToUnicode) :=
  let text := (Utf8.decodeLossy data).toList
  if isCMap text then do
    let entries ← textEntriesBy add text
    return some ((empty ((codespaceBytes? text).getD 1)).insertAll entries)
  else return none

end ToUnicode

namespace Font

/-- The items of an array that are numbers, with their places. -/
def widthItems (doc : Document) (ws : List Object) : List (Nat × Number) :=
  ws.zipIdx.filterMap fun (w, i) => (doc.resolve w).number?.map fun w => (i, w)

/-- `widthsFrom` with the addition of a place, in 32 bits, to the code of the first one. -/
def widthsFromBy (doc : Document) (first : Nat) (ws : List Object) : m (List (Nat × Number)) :=
  (widthItems doc ws).mapM fun (i, w) => do
    let code ← add first (i % 0x100000000)
    return (code, w)

def rangeWidthsBy (first last : Nat) (w : Number) : m (List (Nat × Number)) :=
  let last := min last (min (first + rangeLimit) (0x100000000 - 1))
  (List.range (last + 1 - first)).mapM fun i => do
    let cid ← add first i
    return (cid, w)

def cidWidthPairsBy (doc : Document) : List Object → m (List (Nat × Number))
  | [] => pure []
  | [_] => pure []
  | a :: b :: rest =>
    match a.number? with
    | none => cidWidthPairsBy doc (b :: rest)
    | some first =>
      match b, rest with
      | .array ws, rest => do
        let widths ← widthsFromBy add doc (Encoding.codeOf first) ws
        let more ← cidWidthPairsBy doc rest
        return widths ++ more
      | _, [] => pure []
      | b, c :: rest =>
        match b.number?, c.number? with
        | some last, some w => do
          let widths ← rangeWidthsBy add (Encoding.codeOf first) (Encoding.codeOf last) w
          let more ← cidWidthPairsBy doc rest
          return widths ++ more
        | _, _ => cidWidthPairsBy doc rest

def simpleWidthsBy (doc : Document) (font : Dict Object) : m (CodeTable Number) := do
  let first := Encoding.codeOf ((doc.entryNumber? font "FirstChar").getD (.whole 0))
  let widths ← widthsFromBy add doc first ((doc.entryArray? font "Widths").getD [])
  return widths.foldl (fun t e => t.insert e.1 e.2) ∅

def cidWidthsBy (doc : Document) (array : List Object) : m (CodeTable Number) := do
  let widths ← cidWidthPairsBy add doc (array.map doc.resolve)
  return widths.foldl (fun t e => t.insert e.1 e.2) ∅

/-- The array of widths of a composite font's descendant. -/
def cidArray? (doc : Document) (font : Dict Object) : Option (List Object) :=
  (descendant? doc font).bind (doc.entryArray? · "W")

/-- The array of a font's differences, when its encoding is a dictionary. -/
def differenceArray? (doc : Document) (font : Dict Object) : Option (List Object) :=
  ((doc.value? font "Encoding").bind Object.dictionary?).bind (doc.entryArray? · "Differences")

def toUnicodeBy (doc : Document) (font : Dict Object) : m (Option ToUnicode) :=
  match doc.value? font "ToUnicode" with
  | some (.stream entries content) => ToUnicode.readBy add (Stream.data entries content)
  | _ => pure none

def differencesBy (doc : Document) (font : Dict Object) : m (CodeTable String) :=
  match differenceArray? doc font with
  | some array => Encoding.differencesBy add doc array
  | none => pure ∅

def widthsBy (doc : Document) (font : Dict Object) : m (CodeTable Number) :=
  if doc.entryName? font "Subtype" = some "Type0" then
    match cidArray? doc font with
    | some array => cidWidthsBy add doc array
    | none => pure ∅
  else simpleWidthsBy add doc font

/-- `load` with the addition of codes as a parameter: the ToUnicode map, the differences and the widths are
made with it. -/
def loadBy (doc : Document) (font : Dict Object) (id : Option ObjectId) : m Font := do
  let toUnicode ← toUnicodeBy add doc font
  let differences ← differencesBy add doc font
  let widths ← widthsBy add doc font
  return { load doc font id with toUnicode, differences, widths }

variable {doc : Document} {a b : Object} {first : Number}

theorem cidWidthPairsBy_skip (ha : a.number? = none) (b : Object) (rest : List Object) :
    cidWidthPairsBy add doc (a :: b :: rest) = cidWidthPairsBy add doc (b :: rest) := by
  rw [cidWidthPairsBy.eq_def]
  simp only [ha]

theorem cidWidthPairsBy_list (ha : a.number? = some first) (ws rest : List Object) :
    cidWidthPairsBy add doc (a :: .array ws :: rest) = do
      let widths ← widthsFromBy add doc (Encoding.codeOf first) ws
      let more ← cidWidthPairsBy add doc rest
      return widths ++ more := by
  rw [cidWidthPairsBy.eq_def]
  simp only [ha]

theorem cidWidthPairsBy_pair (hb : b.array? = none) (a : Object) :
    cidWidthPairsBy add doc [a, b] = pure [] := by
  rw [cidWidthPairsBy.eq_def]
  cases ha : a.number? with
  | none =>
    simp only [ha]
    rfl
  | some first =>
    simp only [ha]
    cases b with
    | array ws => cases hb
    | _ => rfl

end Font

/-! ## Sums that fit -/

section Exact

variable [LawfulMonad m] {add} (hadd : Code.Exact add)

theorem mapM_eq_pure {α β : Type} {f : α → m β} {g : α → β} {l : List α}
    (h : ∀ a ∈ l, f a = pure (g a)) : l.mapM f = pure (l.map g) := by
  induction l with
  | nil => rfl
  | cons a l ih =>
    rw [List.forall_mem_cons] at h
    rw [List.mapM_cons, h.1, pure_bind, ih h.2, pure_bind, List.map_cons]

namespace ToUnicode

theorem codeValue_lt_limit (bs : Bytes) : codeValue bs < 0x100000000 := by
  rw [codeValue]
  induction bs using List.reverseRecOn with
  | nil => decide
  | append_singleton bs b =>
    rw [List.foldl_append]
    exact Nat.mod_lt _ (by decide)

theorem span_lt (low high : Bytes) :
    codeValue low + min (codeValue high - codeValue low) rangeLimit < 0x100000000 := by
  have hlow := codeValue_lt_limit low
  have hhigh := codeValue_lt_limit high
  omega

include hadd

theorem spanEntriesBy_exact {first span : Nat} (fits : first + span < 0x100000000) (text : Bytes) :
    spanEntriesBy add first span text = pure (spanEntries first span text) := by
  refine mapM_eq_pure fun i hi => ?_
  rw [List.mem_range] at hi
  rw [hadd first i (by omega), pure_bind]

theorem listEntriesBy_exact {first span : Nat} (fits : first + span < 0x100000000) (i : Nat)
    (ts : List Token) : listEntriesBy add first span i ts = pure (listEntries first span i ts).1 := by
  induction ts generalizing i with
  | nil => rfl
  | cons t ts ih =>
    cases t with
    | hex text =>
      rw [listEntriesBy, listEntries]
      by_cases hi : i ≤ span
      · simp only [if_pos hi, hadd first i (by omega), ih, pure_bind]
      · simp only [if_neg hi, ih]
    | opening => exact ih i
    | closing => rfl

theorem rangeEntriesBy_exact (ts : List Token) : rangeEntriesBy add ts = pure (rangeEntries ts) := by
  induction ts using rangeEntries.induct with
  | case1 low high rest text ih =>
    rw [rangeEntriesBy, rangeEntries]
    simp only [spanEntriesBy_exact hadd (span_lt low high), ih, pure_bind]
  | case2 low high rest first span ih =>
    rw [rangeEntriesBy, rangeEntries]
    simp only [listEntriesBy_exact hadd (span_lt low high), pure_bind]
    rw [ih, pure_bind]
  | case3 low high rest ih => rw [rangeEntriesBy, rangeEntries, ih]
  | case4 t second third rest _ ih => rw [rangeEntriesBy, rangeEntries, ih] <;> assumption
  | case5 ts _ _ => rw [rangeEntriesBy, rangeEntries] <;> assumption

theorem textEntriesBy_exact (text : List Char) : textEntriesBy add text = pure (textEntries text) := by
  rw [textEntriesBy, mapM_eq_pure fun ts _ => rangeEntriesBy_exact hadd ts, pure_bind, textEntries,
    List.flatMap_def (f := rangeEntries)]

theorem readBy_exact (data : Bytes) : readBy add data = pure (read data).toOption := by
  rw [readBy, read]
  split
  · rw [textEntriesBy_exact hadd, pure_bind]
    rfl
  · rfl

end ToUnicode

namespace Font

variable {doc : Document} {a b : Object} {first : Number}

include hadd

theorem rangeWidthsBy_exact (first last : Nat) (w : Number) :
    rangeWidthsBy add first last w = pure (rangeWidths first last w) := by
  refine mapM_eq_pure fun i hi => ?_
  rw [List.mem_range] at hi
  rw [hadd first i (by omega), pure_bind]

theorem cidWidthPairsBy_range (ha : a.number? = some first) (hb : b.array? = none) (c : Object)
    (rest : List Object) : cidWidthPairsBy add doc (a :: b :: c :: rest) = do
      let more ← cidWidthPairsBy add doc rest
      return rangeEntries first b.number? c.number? ++ more := by
  have hstep : cidWidthPairsBy add doc (a :: b :: c :: rest) =
      match b.number?, c.number? with
      | some last, some w => do
        let widths ← rangeWidthsBy add (Encoding.codeOf first) (Encoding.codeOf last) w
        let more ← cidWidthPairsBy add doc rest
        return widths ++ more
      | _, _ => cidWidthPairsBy add doc rest := by
    rw [cidWidthPairsBy.eq_def]
    simp only [ha]
    cases b with
    | array ws => cases hb
    | _ => rfl
  rw [hstep]
  cases b.number? with
  | none => simp [rangeEntries]
  | some last =>
    cases c.number? with
    | none => simp [rangeEntries]
    | some w => simp only [rangeWidthsBy_exact hadd, pure_bind, rangeEntries]

theorem toUnicodeBy_exact (doc : Document) (font : Dict Object) :
    toUnicodeBy add doc font = pure (toUnicode? doc font) := by
  rw [toUnicodeBy, toUnicode?]
  cases doc.value? font "ToUnicode" with
  | none => rfl
  | some o =>
    cases o with
    | stream entries content => exact ToUnicode.readBy_exact hadd (Stream.data entries content)
    | _ => rfl

end Font

end Exact

/-! ## Sums cut to 32 bits -/

theorem Encoding.differencePairsBy_wrapped (doc : Document) (code : Option Nat) (items : List Object) :
    differencePairsBy Code.wrapped doc code items = pure (differencePairs doc code items) := by
  induction items generalizing code with
  | nil => rfl
  | cons o items ih =>
    cases hn : (doc.resolve o).number? with
    | some n => simp only [differencePairsBy, differencePairs, hn, ih]
    | none =>
      cases code with
      | none => simp only [differencePairsBy, differencePairs, hn, ih]
      | some c =>
        cases hglyph : (doc.resolve o).nameText? with
        | none => simp only [differencePairsBy, differencePairs, hn, hglyph, ih]
        | some glyph =>
          simp only [differencePairsBy, differencePairs, hn, hglyph, ih, Code.wrapped, succ, pure_bind]

namespace Font

theorem widthsFrom_eq_map (doc : Document) (first : Nat) (ws : List Object) : widthsFrom doc first ws =
    (widthItems doc ws).map fun (i, w) => ((first + i % 0x100000000) % 0x100000000, w) := by
  rw [widthsFrom, widthItems, List.map_filterMap]
  simp only [Option.map_map, Nat.add_mod_mod]
  rfl

theorem widthsFromBy_wrapped (doc : Document) (first : Nat) (ws : List Object) :
    widthsFromBy Code.wrapped doc first ws = pure (widthsFrom doc first ws) := by
  rw [widthsFrom_eq_map]
  exact mapM_eq_pure fun _ _ => rfl

theorem cidWidthPairsBy_wrapped (doc : Document) (items : List Object) :
    cidWidthPairsBy Code.wrapped doc items = pure (cidWidthPairs doc items) := by
  induction items using cidWidthPairs.induct with
  | case1 => rfl
  | case2 a => rfl
  | case3 a b rest ha ih => rw [cidWidthPairsBy_skip _ ha, cidWidthPairs_skip doc ha, ih]
  | case4 a first ha ws rest ih =>
    rw [cidWidthPairsBy_list _ ha, cidWidthPairs_list doc ha, widthsFromBy_wrapped, ih]
    rfl
  | case5 a b first ha hb =>
    have hnone := array?_eq_none hb
    rw [cidWidthPairsBy_pair _ hnone, cidWidthPairs_pair doc hnone]
  | case6 a first ha b c rest hb last w hc hlast ih =>
    have hnone := array?_eq_none hb
    rw [cidWidthPairsBy_range Code.exact_wrapped ha hnone, cidWidthPairs_range doc ha hnone, ih]
    rfl
  | case7 a first ha b c rest hb _ ih =>
    have hnone := array?_eq_none hb
    rw [cidWidthPairsBy_range Code.exact_wrapped ha hnone, cidWidthPairs_range doc ha hnone, ih]
    rfl

theorem differences_load (doc : Document) (font : Dict Object) (id : Option ObjectId) :
    (load doc font id).differences =
      ((differenceArray? doc font).map (Encoding.differences doc)).getD ∅ := by
  show (encoding doc font).2 = _
  rw [encoding, differenceArray?]
  cases doc.value? font "Encoding" with
  | none => rfl
  | some o => cases o <;> rfl

theorem widths_load (doc : Document) (font : Dict Object) (id : Option ObjectId) :
    (load doc font id).widths = if doc.entryName? font "Subtype" = some "Type0" then
      ((cidArray? doc font).map (cidWidths doc)).getD ∅ else simpleWidths doc font := by
  have hsubtype : (load doc font id).composite = decide (doc.entryName? font "Subtype" = some "Type0") := by
    show ((doc.entryName? font "Subtype").getD "" == "Type0") = _
    cases doc.entryName? font "Subtype" with
    | none => rfl
    | some name =>
      rw [Option.getD_some, beq_eq_decide, decide_eq_decide, Option.some.injEq]
  cases hcomposite : (load doc font id).composite with
  | true =>
    rw [hcomposite] at hsubtype
    rw [(widths_of_composite hcomposite).1, if_pos (of_decide_eq_true hsubtype.symm), compositeWidths,
      cidArray?]
    cases descendant? doc font <;> rfl
  | false =>
    rw [hcomposite] at hsubtype
    rw [(widths_of_simple hcomposite).1, if_neg (of_decide_eq_false hsubtype.symm)]

/-- With sums cut to 32 bits a font is loaded as it is. -/
theorem loadBy_wrapped (doc : Document) (font : Dict Object) (id : Option ObjectId) :
    loadBy Code.wrapped doc font id = pure (load doc font id) := by
  have hunicode : toUnicodeBy Code.wrapped doc font = pure (toUnicode? doc font) :=
    toUnicodeBy_exact Code.exact_wrapped doc font
  have hdifferences : differencesBy Code.wrapped doc font = pure (load doc font id).differences := by
    rw [differencesBy, differences_load]
    cases differenceArray? doc font with
    | none => rfl
    | some array =>
      simp only [Encoding.differencesBy, Encoding.differencePairsBy_wrapped, pure_bind]
      rfl
  have hwidths : widthsBy Code.wrapped doc font = pure (load doc font id).widths := by
    rw [widthsBy, widths_load]
    split
    · cases cidArray? doc font with
      | none => rfl
      | some array =>
        simp only [cidWidthsBy, cidWidthPairsBy_wrapped, pure_bind]
        rfl
    · simp only [simpleWidthsBy, widthsFromBy_wrapped, pure_bind]
      rfl
  rw [loadBy, hunicode, hdifferences, hwidths]
  rfl

end Font

/-! ## Sums that are checked -/

/-- No code counted on from `first` for a number of the array leaves 32 bits. -/
def Font.Spans (doc : Document) (first : Nat) (ws : List Object) : Prop :=
  ∀ i w, ws[i]? = some w → (doc.resolve w).number?.isSome = true →
    first + i % 0x100000000 < 0x100000000

/-- The arrays in an array of widths, each with the id before it. -/
def Font.widthLists : List Object → List (Nat × List Object)
  | [] => []
  | [_] => []
  | a :: b :: rest =>
    match a.number? with
    | none => widthLists (b :: rest)
    | some first =>
      match b, rest with
      | .array ws, rest => (Encoding.codeOf first, ws) :: widthLists rest
      | _, [] => []
      | _, _ :: rest => widthLists rest

/-- All codes and ids that a font counts on from numbers of the document stay within 32 bits: no name in
its differences has the last code, and no item of its widths lies behind it. -/
structure Font.CodesFit (doc : Document) (font : Dict Object) : Prop where
  differences : ∀ array, differenceArray? doc font = some array →
    ∀ e ∈ Encoding.differencePairs doc none array, e.1 + 1 < 0x100000000
  simple : doc.entryName? font "Subtype" ≠ some "Type0" →
    ∀ ws, doc.entryArray? font "Widths" = some ws →
      Spans doc (Encoding.codeOf ((doc.entryNumber? font "FirstChar").getD (.whole 0))) ws
  composite : doc.entryName? font "Subtype" = some "Type0" →
    ∀ array, cidArray? doc font = some array →
      ∀ run ∈ widthLists (array.map doc.resolve), Spans doc run.1 run.2

theorem Encoding.gives_differencePairs (doc : Document) (code : Option Nat) (items : List Object) :
    Gives (differencePairsBy Code.checked doc code items)
      (∀ e ∈ differencePairs doc code items, e.1 + 1 < 0x100000000)
      (differencePairs doc code items) := by
  induction items generalizing code with
  | nil => exact (Gives.of_eq rfl).congr (by simp [differencePairs])
  | cons o items ih =>
    cases hn : (doc.resolve o).number? with
    | some n =>
      simp only [differencePairsBy, differencePairs, hn]
      exact ih _
    | none =>
      cases code with
      | none =>
        simp only [differencePairsBy, differencePairs, hn]
        exact ih none
      | some c =>
        cases hglyph : (doc.resolve o).nameText? with
        | none =>
          simp only [differencePairsBy, differencePairs, hn, hglyph]
          exact ih (some c)
        | some glyph =>
          simp only [differencePairsBy, differencePairs, hn, hglyph, List.forall_mem_cons]
          exact (Code.gives_checked c 1).bind fun _ => (ih (some (succ c))).map ((c, glyph) :: ·)

namespace Font

theorem mem_widthItems {doc : Document} {ws : List Object} {e : Nat × Number} :
    e ∈ widthItems doc ws ↔ ∃ w, ws[e.1]? = some w ∧ (doc.resolve w).number? = some e.2 := by
  rw [widthItems, List.mem_filterMap]
  constructor
  · rintro ⟨⟨w, i⟩, hmem, he⟩
    obtain ⟨n, hn, rfl⟩ := Option.map_eq_some_iff.mp he
    exact ⟨w, List.mem_zipIdx_iff_getElem?.mp hmem, hn⟩
  · rintro ⟨w, hw, hn⟩
    exact ⟨(w, e.1), List.mem_zipIdx_iff_getElem?.mpr hw, Option.map_eq_some_iff.mpr ⟨e.2, hn, rfl⟩⟩

theorem gives_widthsFrom (doc : Document) (first : Nat) (ws : List Object) :
    Gives (widthsFromBy Code.checked doc first ws) (Spans doc first ws) (widthsFrom doc first ws) := by
  rw [widthsFrom_eq_map]
  have hitems := Gives.mapM (l := widthItems doc ws)
    fun e _ => (Code.gives_checked first (e.1 % 0x100000000)).map (·, e.2)
  refine hitems.congr ⟨fun h i w hw hnumber => ?_, fun h e he => ?_⟩
  · obtain ⟨n, hn⟩ := Option.isSome_iff_exists.mp hnumber
    exact h (i, n) (mem_widthItems.mpr ⟨w, hw, hn⟩)
  · obtain ⟨w, hw, hn⟩ := mem_widthItems.mp he
    exact h e.1 w hw (Option.isSome_iff_exists.mpr ⟨e.2, hn⟩)

theorem widthLists_pair (hb : b.array? = none) (a : Object) : widthLists [a, b] = [] := by
  rw [widthLists.eq_def]
  cases ha : a.number? with
  | none =>
    simp only [ha]
    rfl
  | some first =>
    simp only [ha]
    cases b with
    | array ws => cases hb
    | _ => rfl

theorem widthLists_range (ha : a.number? = some first) (hb : b.array? = none) (c : Object)
    (rest : List Object) : widthLists (a :: b :: c :: rest) = widthLists rest := by
  rw [widthLists.eq_def]
  simp only [ha]
  cases b with
  | array ws => cases hb
  | _ => rfl

theorem gives_cidWidthPairs (doc : Document) (items : List Object) :
    Gives (cidWidthPairsBy Code.checked doc items) (∀ run ∈ widthLists items, Spans doc run.1 run.2)
      (cidWidthPairs doc items) := by
  induction items using cidWidthPairs.induct with
  | case1 => exact (Gives.of_eq rfl).congr (by simp [widthLists])
  | case2 a => exact (Gives.of_eq rfl).congr (by simp [widthLists])
  | case3 a b rest ha ih =>
    rw [cidWidthPairsBy_skip _ ha, cidWidthPairs_skip doc ha]
    simpa only [widthLists, ha] using ih
  | case4 a first ha ws rest ih =>
    rw [cidWidthPairsBy_list _ ha, cidWidthPairs_list doc ha]
    simp only [widthLists, ha, List.forall_mem_cons]
    exact (gives_widthsFrom doc _ ws).bind fun _ => ih.map _
  | case5 a b first ha hb =>
    have hnone := array?_eq_none hb
    rw [cidWidthPairsBy_pair _ hnone, cidWidthPairs_pair doc hnone]
    exact (Gives.of_eq rfl).congr (by simp [widthLists_pair hnone])
  | case6 a first ha b c rest hb last w hc hlast ih =>
    -- The sums of a range are exact, so that only lists add to the condition.
    have hnone := array?_eq_none hb
    rw [cidWidthPairsBy_range Code.exact_checked ha hnone, cidWidthPairs_range doc ha hnone]
    rw [widthLists_range ha hnone]
    exact ih.map _
  | case7 a first ha b c rest hb _ ih =>
    have hnone := array?_eq_none hb
    rw [cidWidthPairsBy_range Code.exact_checked ha hnone, cidWidthPairs_range doc ha hnone]
    rw [widthLists_range ha hnone]
    exact ih.map _

theorem gives_differences (doc : Document) (font : Dict Object) (id : Option ObjectId) :
    Gives (differencesBy Code.checked doc font)
      (∀ array, differenceArray? doc font = some array →
        ∀ e ∈ Encoding.differencePairs doc none array, e.1 + 1 < 0x100000000)
      (load doc font id).differences := by
  rw [differencesBy, differences_load]
  cases differenceArray? doc font with
  | none => exact (Gives.of_eq rfl).congr (by simp)
  | some array =>
    have hpairs := Encoding.gives_differencePairs doc none array
    exact (hpairs.map _).congr (by simp)

theorem gives_simpleWidths (doc : Document) (font : Dict Object) :
    Gives (simpleWidthsBy Code.checked doc font)
      (∀ ws, doc.entryArray? font "Widths" = some ws →
        Spans doc (Encoding.codeOf ((doc.entryNumber? font "FirstChar").getD (.whole 0))) ws)
      (simpleWidths doc font) := by
  refine ((gives_widthsFrom doc _ _).map _).congr ?_
  cases doc.entryArray? font "Widths" with
  | none => simp [Spans]
  | some ws => simp

theorem gives_cidArray (doc : Document) (font : Dict Object) :
    Gives (match cidArray? doc font with
        | some array => cidWidthsBy Code.checked doc array
        | none => pure ∅)
      (∀ array, cidArray? doc font = some array →
        ∀ run ∈ widthLists (array.map doc.resolve), Spans doc run.1 run.2)
      (((cidArray? doc font).map (cidWidths doc)).getD ∅) := by
  cases cidArray? doc font with
  | none => exact (Gives.of_eq rfl).congr (by simp)
  | some array => exact ((gives_cidWidthPairs doc _).map _).congr (by simp)

theorem gives_load (doc : Document) (font : Dict Object) (id : Option ObjectId) :
    Gives (loadBy Code.checked doc font id) (CodesFit doc font) (load doc font id) := by
  have hwidths := (gives_cidArray doc font).ite (c := doc.entryName? font "Subtype" = some "Type0")
    (gives_simpleWidths doc font)
  rw [← widths_load doc font id] at hwidths
  rw [loadBy, toUnicodeBy_exact Code.exact_checked, pure_bind]
  refine ((gives_differences doc font id).bind fun _ => hwidths.map _).congr ?_
  exact ⟨fun h => ⟨h.1, h.2.2, h.2.1⟩, fun h => ⟨h.differences, h.composite, h.simple⟩⟩

/-- A font is loaded with sums cut to 32 bits. Checked sums give the same font just if no code that is counted
on from a number of the document leaves 32 bits, and fail in all other cases. -/
theorem load_fits_iff (doc : Document) (font : Dict Object) (id : Option ObjectId) :
    Id.run (loadBy Code.wrapped doc font id) = load doc font id ∧
      (loadBy Code.checked doc font id = some (load doc font id) ↔ CodesFit doc font) ∧
      (loadBy Code.checked doc font id = none ↔ ¬CodesFit doc font) :=
  ⟨congrArg Id.run (loadBy_wrapped doc font id), (gives_load doc font id).eq_some_iff,
    (gives_load doc font id).eq_none_iff⟩

/-- A font whose first code is the last one of 32 bits, with widths for two codes. -/
def lastCodeFont : Dict Object :=
  .ofList [(utf8 "Subtype", .name (utf8 "Type1")), (utf8 "FirstChar", .integer 0xFFFFFFFF),
    (utf8 "Widths", .array [.integer 600, .integer 700])]

def noObjects : Document := ⟨"1.7", .empty, .empty, 0⟩

/-- The second code of such a font leaves 32 bits, and its width goes to code 0. -/
theorem loadBy_checked_lastCodeFont : loadBy Code.checked noObjects lastCodeFont none = none ∧
    (load noObjects lastCodeFont none).widths[0]? = some (.whole 700) := by
  have hsubtype : noObjects.entryName? lastCodeFont "Subtype" = some "Type1" :=
    Document.entryName?_utf8 rfl
  have hsimple : noObjects.entryName? lastCodeFont "Subtype" ≠ some "Type0" := by
    rw [hsubtype]
    decide
  constructor
  · refine (gives_load noObjects lastCodeFont none).none fun h => ?_
    exact absurd (h.simple hsimple _ rfl 1 (.integer 700) rfl rfl) (by decide)
  · rw [widths_load, if_neg hsimple]
    rfl

end Font

end AccessiblePdf
