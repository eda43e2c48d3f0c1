import AccessiblePdf.Instruction.Read
import Mathlib.Data.List.Forall2
import Mathlib.Data.List.Nodup

/-!
Tables by character code in the two notations of instruction documents. The reader of JSON hands the
keys of an object over in their order, that of YAML in the order of the document, and of several
spellings of one code the last one that is handed over counts (`getElem?_ofPairs`). So both notations
of a document are read as the same instruction set exactly if the last spelling of each code in the
document has the value of the greatest one (`notations_alike_iff`), and always if no code is spelled
twice (`settled_of_nodup`).
-/
namespace AccessiblePdf

open Reading

variable {α β : Type}

theorem Reading.ok_bind (a : α) (f : α → Reading β) : (Except.ok a >>= f) = f a := rfl

theorem Reading.ok_map (f : α → β) (a : α) : Except.map f (.ok a : Reading α) = .ok (f a) := rfl

/-! ## What the readers hand over -/

namespace Json

theorem insertSorted_perm {k : String} {v : Data} {l : List (String × Data)}
    (new : k ∉ l.map Prod.fst) : (insertSorted k v l).Perm ((k, v) :: l) := by
  induction l with
  | nil => exact List.Perm.refl _
  | cons e l ih =>
    rw [List.map_cons, List.mem_cons, not_or] at new
    obtain ⟨hne, hl⟩ := new
    rw [insertSorted, if_neg hne]
    split
    · exact List.Perm.refl _
    · exact ((ih hl).cons e).trans (List.Perm.swap _ _ _)

theorem insertSorted_sorted {k : String} {v : Data} {l : List (String × Data)}
    (new : k ∉ l.map Prod.fst) (sorted : l.Pairwise (·.1 < ·.1)) :
    (insertSorted k v l).Pairwise (·.1 < ·.1) := by
  induction l with
  | nil => exact List.pairwise_singleton _ _
  | cons e l ih =>
    rw [List.map_cons, List.mem_cons, not_or] at new
    obtain ⟨hne, hl⟩ := new
    obtain ⟨hhead, htail⟩ := List.pairwise_cons.mp sorted
    rw [insertSorted, if_neg hne]
    split
    · next hlt =>
      refine List.pairwise_cons.mpr ⟨fun e' he' => ?_, sorted⟩
      rcases List.mem_cons.mp he' with rfl | he'
      · exact hlt
      · exact String.lt_trans hlt (hhead e' he')
    · next hlt =>
      refine List.pairwise_cons.mpr ⟨fun e' he' => ?_, ih hl htail⟩
      rcases List.mem_cons.mp ((insertSorted_perm hl).mem_iff.mp he') with rfl | he'
      · exact Std.lt_of_le_of_ne (String.not_lt.mp hlt) (Ne.symm hne)
      · exact hhead e' he'

theorem foldl_insertSorted {entries l : List (String × Data)}
    (distinct : ((entries ++ l).map Prod.fst).Nodup) (sorted : l.Pairwise (·.1 < ·.1)) :
    (entries.foldl (fun t e => insertSorted e.1 e.2 t) l).Perm (entries ++ l) ∧
      (entries.foldl (fun t e => insertSorted e.1 e.2 t) l).Pairwise (·.1 < ·.1) := by
  induction entries generalizing l with
  | nil => exact ⟨List.Perm.refl _, sorted⟩
  | cons e entries ih =>
    have new : e.1 ∉ l.map Prod.fst := by
      rw [List.cons_append, List.map_cons, List.nodup_cons, List.map_append, List.mem_append,
        not_or] at distinct
      exact distinct.1.2
    have hmoved : (entries ++ insertSorted e.1 e.2 l).Perm (e :: entries ++ l) :=
      ((insertSorted_perm new).append_left entries).trans List.perm_middle
    have hstep := ih ((hmoved.map Prod.fst).nodup_iff.mpr distinct) (insertSorted_sorted new sorted)
    exact ⟨hstep.1.trans hmoved, hstep.2⟩

end Json

namespace TextFormat

/-- Pairs in the order in which the reader of a notation hands them over. -/
def arranged : TextFormat → List (String × β) → List (String × β)
  | .json, pairs => pairs.mergeSort fun a b => a.1 ≤ b.1
  | .yaml, pairs => pairs

/-- A table with these entries as the reader of a notation hands it over. -/
def object : TextFormat → List (String × Data) → Data
  | .json, entries => Json.ofEntries entries
  | .yaml, entries => .table (entries.map fun e => (.text e.1, e.2))

def source : TextFormat → Source
  | .json => .strict
  | .yaml => .lenient

theorem arranged_perm (format : TextFormat) (pairs : List (String × β)) :
    (format.arranged pairs).Perm pairs := by
  cases format with
  | json => exact List.mergeSort_perm _ _
  | yaml => exact List.Perm.refl _

theorem arranged_map {γ : Type} (format : TextFormat) (f : β → γ) (pairs : List (String × β)) :
    format.arranged (pairs.map fun e => (e.1, f e.2)) =
      (format.arranged pairs).map fun e => (e.1, f e.2) := by
  cases format with
  | yaml => rfl
  | json =>
    rw [arranged, arranged]
    exact (List.map_mergeSort (s := fun a b : String × γ => decide (a.1 ≤ b.1))
      fun _ _ _ _ => rfl).symm

theorem arranged_sorted {pairs : List (String × β)} (distinct : (pairs.map Prod.fst).Nodup) :
    (TextFormat.json.arranged pairs).Pairwise (·.1 < ·.1) := by
  have hle : (TextFormat.json.arranged pairs).Pairwise fun a b => decide (a.1 ≤ b.1) = true :=
    @List.pairwise_mergeSort _ (fun a b : String × β => decide (a.1 ≤ b.1))
      (fun a b c hab hbc =>
        decide_eq_true (String.le_trans (of_decide_eq_true hab) (of_decide_eq_true hbc)))
      (fun a b => by
        rw [Bool.or_eq_true, decide_eq_true_iff, decide_eq_true_iff]
        exact String.le_total a.1 b.1) pairs
  have hne : (TextFormat.json.arranged pairs).Pairwise fun a b => a.1 ≠ b.1 :=
    List.pairwise_map.mp (((arranged_perm .json pairs).map Prod.fst).nodup_iff.mpr distinct)
  exact (hle.and hne).imp fun h => Std.lt_of_le_of_ne (of_decide_eq_true h.1) h.2

theorem object_eq (format : TextFormat) {entries : List (String × Data)}
    (distinct : (entries.map Prod.fst).Nodup) :
    format.object entries = .table ((format.arranged entries).map fun e => (.text e.1, e.2)) := by
  cases format with
  | yaml => rfl
  | json =>
    have hread := Json.foldl_insertSorted (l := []) (by simpa using distinct) List.Pairwise.nil
    rw [List.append_nil] at hread
    have heq : entries.foldl (fun t e => Json.insertSorted e.1 e.2 t) [] =
        TextFormat.json.arranged entries :=
      List.Perm.eq_of_pairwise (fun a b _ _ hab hba => absurd hba (String.lt_asymm hab)) hread.2
        (arranged_sorted distinct) (hread.1.trans (arranged_perm .json entries).symm)
    rw [object, Json.ofEntries, heq]

end TextFormat

/-! ## Tables -/

/-- Different spellings, each of a character code. -/
structure Spelled (pairs : List (String × β)) : Prop where
  distinct : (pairs.map Prod.fst).Nodup
  codes : ∀ e ∈ pairs, (CharCode.ofText? e.1).isSome

/-- What the last spelling of a code in a list of pairs stands with. -/
def lastOf (pairs : List (String × β)) (code : Nat) : Option β :=
  ((pairs.filter fun e => CharCode.ofText? e.1 == some code).getLast?).map Prod.snd

theorem lastOf_cons (e : String × β) (pairs : List (String × β)) (code : Nat) :
    lastOf (e :: pairs) code =
      (lastOf pairs code).or (if CharCode.ofText? e.1 = some code then some e.2 else none) := by
  rw [lastOf, lastOf, List.filter_cons]
  split
  · next h =>
    rw [List.getLast?_cons, if_pos (beq_iff_eq.mp h)]
    cases (pairs.filter fun e => CharCode.ofText? e.1 == some code).getLast? <;> rfl
  · next h => rw [if_neg (by simpa using h), Option.or_none]

/-- The table that spellings with values make, put in one after the other. -/
def ofPairs (value : β → α) (pairs : List (String × β)) : CodeTable α :=
  pairs.foldl (fun t e => t.insert ((CharCode.ofText? e.1).getD 0) (value e.2)) ∅

/-- In a table that spellings make, the last spelling of a code counts. -/
theorem getElem?_ofPairs (value : β → α) {pairs : List (String × β)}
    (codes : ∀ e ∈ pairs, (CharCode.ofText? e.1).isSome) (code : Nat) :
    (ofPairs value pairs)[code]? = (lastOf pairs code).map value := by
  have onto (t : CodeTable α) :
      (pairs.foldl (fun t e => t.insert ((CharCode.ofText? e.1).getD 0) (value e.2)) t)[code]? =
        ((lastOf pairs code).map value).or t[code]? := by
    induction pairs generalizing t with
    | nil => rfl
    | cons e pairs ih =>
      obtain ⟨code', hcode'⟩ := Option.isSome_iff_exists.mp (codes e List.mem_cons_self)
      rw [List.foldl_cons, ih fun e he => codes e (List.mem_cons_of_mem _ he), lastOf_cons, hcode',
        Option.getD_some, Std.TreeMap.getElem?_insert]
      by_cases h : code' = code
      · cases lastOf pairs code <;> simp [h]
      · cases lastOf pairs code <;> simp [h]
  rw [ofPairs, onto, Std.TreeMap.getElem?_emptyc, Option.or_none]

/-- A table of spellings is read as the table that they make. -/
theorem codeTableFrom_table {source : Source} {read : Data → Reading α} {write : β → Data}
    {value : β → α} (reads : ∀ b, read (write b) = .ok (value b)) {pairs : List (String × β)}
    (codes : ∀ e ∈ pairs, (CharCode.ofText? e.1).isSome) :
    codeTableFrom source read (.table (pairs.map fun e => (.text e.1, write e.2))) =
      .ok (ofPairs value pairs) := by
  have hentries : codeEntries read (pairs.map fun e => (.text e.1, write e.2)) =
      .ok (pairs.map fun e => ((CharCode.ofText? e.1).getD 0, value e.2)) := by
    induction pairs with
    | nil => rfl
    | cons e pairs ih =>
      obtain ⟨code, hcode⟩ := Option.isSome_iff_exists.mp (codes e List.mem_cons_self)
      have hrest := ih fun e he => codes e (List.mem_cons_of_mem _ he)
      rw [codeEntries] at hrest ⊢
      rw [List.map_cons, List.mapM_cons, hrest, List.map_cons]
      simp only [charCode, hcode, reads]
      rfl
  calc codeTableFrom source read (.table (pairs.map fun e => (.text e.1, write e.2)))
      = (codeEntries read (pairs.map fun e => (.text e.1, write e.2))).map
          fun es => es.foldl (fun t e => t.insert e.1 e.2) ∅ := rfl
    _ = .ok (ofPairs value pairs) := by
        rw [hentries, Except.map, List.foldl_map]
        rfl

theorem codeTableFrom_object (format : TextFormat) (source : Source) (read : Data → Reading α)
    (write : β → Data) (value : β → α) (reads : ∀ b, read (write b) = .ok (value b))
    {pairs : List (String × β)} (spelled : Spelled pairs) :
    codeTableFrom source read (format.object (pairs.map fun e => (e.1, write e.2))) =
      .ok (ofPairs value (format.arranged pairs)) := by
  have distinct : ((pairs.map fun e => (e.1, write e.2)).map Prod.fst).Nodup := by
    rw [List.map_map]
    exact spelled.distinct
  rw [format.object_eq distinct, format.arranged_map, List.map_map]
  exact codeTableFrom_table reads fun e he =>
    spelled.codes e ((format.arranged_perm pairs).mem_iff.mp he)

/-! ## Documents -/

/-- A font edit as documents write it, with tables of spellings. A width is a whole number or not. -/
structure FontForm where
  op : String
  font : String
  page : Int
  differences : List (String × String)
  mappings : List (String × String)
  widths : List (String × (Int ⊕ Float))

namespace FontForm

/-- A form that a document can hold: a page of 64 bits, and in each table different spellings of
character codes. -/
structure Proper (f : FontForm) : Prop where
  page : minInt64 ≤ f.page ∧ f.page ≤ maxInt64
  differences : Spelled f.differences
  mappings : Spelled f.mappings
  widths : Spelled f.widths

def width : Int ⊕ Float → Number
  | .inl n => .ofInt n
  | .inr x => .ofFloat x

def widthData : Int ⊕ Float → Data
  | .inl n => .int n
  | .inr x => .float x

/-- The data that the reader of a notation hands over for a form. -/
def data (format : TextFormat) (f : FontForm) : Data :=
  format.object [("op", .text f.op), ("font", .text f.font), ("page", .int f.page),
    ("differences", format.object (f.differences.map fun e => (e.1, .text e.2))),
    ("mappings", format.object (f.mappings.map fun e => (e.1, .text e.2))),
    ("widths", format.object (f.widths.map fun e => (e.1, widthData e.2)))]

/-- The font edit that a form means in a notation. -/
def edit (format : TextFormat) (f : FontForm) : FontEdit where
  op := f.op
  font := f.font
  page := f.page
  differences := ofPairs id (format.arranged f.differences)
  mappings := ofPairs id (format.arranged f.mappings)
  widths := ofPairs width (format.arranged f.widths)

theorem ofEntries_font (op font page differences mappings widths : Data) :
    Json.ofEntries [("op", op), ("font", font), ("page", page), ("differences", differences),
        ("mappings", mappings), ("widths", widths)] =
      .table [(.text "differences", differences), (.text "font", font), (.text "mappings", mappings),
        (.text "op", op), (.text "page", page), (.text "widths", widths)] := by
  simp only [Json.ofEntries, List.foldl_cons, List.foldl_nil, Json.insertSorted, String.reduceEq,
    String.reduceLT, reduceIte, List.map_cons, List.map_nil]

theorem ofData_data (format : TextFormat) {f : FontForm} (proper : f.Proper) :
    FontEdit.ofData format.source (f.data format) = .ok (f.edit format) := by
  have hdifferences := codeTableFrom_object format format.source asText .text id (fun _ => rfl)
    proper.differences
  have hmappings := codeTableFrom_object format format.source asText .text id (fun _ => rfl)
    proper.mappings
  have hwidths := codeTableFrom_object format format.source asNumber widthData width
    (fun b => by cases b <;> rfl) proper.widths
  have hpage : asInt (.int f.page) = .ok f.page := if_pos proper.page
  rw [data]
  generalize format.object (f.differences.map fun e => (e.1, .text e.2)) = differences at *
  generalize format.object (f.mappings.map fun e => (e.1, .text e.2)) = mappings at *
  generalize format.object (f.widths.map fun e => (e.1, widthData e.2)) = widths at *
  cases format with
  | yaml =>
    simp only [TextFormat.source] at hdifferences hmappings hwidths
    simp [TextFormat.object, TextFormat.source, FontEdit.ofData, record, Data.untagged, named,
      fieldOf, field, asText, ok_bind, ok_map, hdifferences, hmappings, hwidths, hpage, edit]
  | json =>
    simp only [TextFormat.source] at hdifferences hmappings hwidths
    simp [TextFormat.object, ofEntries_font, TextFormat.source, FontEdit.ofData, record,
      Data.untagged, named, fieldOf, field, asText, ok_bind, ok_map, hdifferences, hmappings,
      hwidths, hpage, edit]

end FontForm

/-- The data that the reader of a notation hands over for a document with font edits. -/
def fontDocument (format : TextFormat) (version : String) (fs : List FontForm) : Data :=
  format.object [("version", .text version), ("fonts", .list (fs.map (FontForm.data format)))]

/-- The instruction set that such a document means in a notation. -/
def fontSet (format : TextFormat) (version : String) (fs : List FontForm) : InstructionSet where
  version := some version
  fonts := fs.map (FontForm.edit format)

theorem asList_fonts (format : TextFormat) {fs : List FontForm} (proper : ∀ f ∈ fs, f.Proper) :
    asList format.source (FontEdit.ofData format.source) (.list (fs.map (FontForm.data format))) =
      .ok (fs.map (FontForm.edit format)) := by
  show (fs.map (FontForm.data format)).mapM (FontEdit.ofData format.source) = _
  induction fs with
  | nil => rfl
  | cons f fs ih =>
    rw [List.map_cons, List.mapM_cons, f.ofData_data format (proper f List.mem_cons_self), ok_bind,
      ih fun f hf => proper f (List.mem_cons_of_mem _ hf)]
    rfl

theorem ofEntries_document (version fonts : Data) :
    Json.ofEntries [("version", version), ("fonts", fonts)] =
      .table [(.text "fonts", fonts), (.text "version", version)] := by
  simp only [Json.ofEntries, List.foldl_cons, List.foldl_nil, Json.insertSorted, String.reduceEq,
    String.reduceLT, reduceIte, List.map_cons, List.map_nil]

theorem ofJsonData_fontDocument (version : String) {fs : List FontForm}
    (proper : ∀ f ∈ fs, f.Proper) :
    InstructionSet.ofJsonData (fontDocument .json version fs) = .ok (fontSet .json version fs) := by
  have hfonts := asList_fonts .json proper
  simp only [TextFormat.source] at hfonts
  simp [fontDocument, TextFormat.object, ofEntries_document, InstructionSet.ofJsonData,
    InstructionSet.ofEntries, named, fieldOf, field, readVersion, ok_bind, ok_map, hfonts, fontSet]

theorem ofYamlData_fontDocument (version : String) {fs : List FontForm}
    (proper : ∀ f ∈ fs, f.Proper) :
    InstructionSet.ofYamlData (fontDocument .yaml version fs) = .ok (fontSet .yaml version fs) := by
  have hfonts := asList_fonts .yaml proper
  simp only [TextFormat.source] at hfonts
  simp [fontDocument, TextFormat.object, InstructionSet.ofYamlData, Data.untagged,
    InstructionSet.ofEntries, named, fieldOf, field, readVersion, ok_bind, ok_map, hfonts, fontSet]

/-! ## Agreement -/

/-- The same font edit, with the same entries in its tables. -/
structure FontEdit.Alike (f g : FontEdit) : Prop where
  rest : { f with differences := ∅, mappings := ∅, widths := ∅ } =
    { g with differences := ∅, mappings := ∅, widths := ∅ }
  differences : ∀ code : Nat, f.differences[code]? = g.differences[code]?
  mappings : ∀ code : Nat, f.mappings[code]? = g.mappings[code]?
  widths : ∀ code : Nat, f.widths[code]? = g.widths[code]?

/-- The same instruction set, up to what tables look like inside. -/
structure InstructionSet.Alike (s t : InstructionSet) : Prop where
  rest : { s with fonts := [] } = { t with fonts := [] }
  fonts : List.Forall₂ FontEdit.Alike s.fonts t.fonts

theorem InstructionSet.Alike.mappings_eq {s t : InstructionSet} (h : s.Alike t) (code : Nat) :
    s.fonts.map (·.mappings[code]?) = t.fonts.map (·.mappings[code]?) := by
  rw [← List.forall₂_eq_eq_eq, List.forall₂_map_left_iff, List.forall₂_map_right_iff]
  exact h.fonts.imp fun _ _ hf => hf.mappings code

/-- Of each code the last spelling in the document has the value of the greatest one. -/
def SettledSpellings (value : β → α) (pairs : List (String × β)) : Prop :=
  ∀ code, (lastOf (TextFormat.json.arranged pairs) code).map value = (lastOf pairs code).map value

theorem lastOf_perm {pairs pairs' : List (String × β)} (perm : pairs'.Perm pairs)
    (once : (pairs.map fun e => CharCode.ofText? e.1).Nodup) (code : Nat) :
    lastOf pairs' code = lastOf pairs code := by
  let spells : String × β → Bool := fun e => CharCode.ofText? e.1 == some code
  have hcodes : (pairs.filter spells).map (fun e => CharCode.ofText? e.1) =
      List.replicate (pairs.filter spells).length (some code) := by
    rw [List.eq_replicate_iff, List.length_map]
    refine ⟨rfl, fun c hc => ?_⟩
    obtain ⟨e, he, rfl⟩ := List.mem_map.mp hc
    exact beq_iff_eq.mp (List.mem_filter.mp he).2
  have hlength : (pairs.filter spells).length ≤ 1 := by
    rw [← List.nodup_replicate (a := some code), ← hcodes]
    exact once.sublist (List.filter_sublist.map _)
  have hfilter : pairs'.filter spells = pairs.filter spells := by
    have hperm : (pairs'.filter spells).Perm (pairs.filter spells) := perm.filter spells
    match hspelled : pairs.filter spells with
    | [] => exact (hspelled ▸ hperm).eq_nil
    | [e] => exact List.perm_singleton.mp (hspelled ▸ hperm)
    | _ :: _ :: _ => simp [hspelled] at hlength
  rw [lastOf, lastOf]
  exact congrArg (fun l => l.getLast?.map Prod.snd) hfilter

/-- If no code is spelled twice, there is nothing to settle. -/
theorem settled_of_nodup (value : β → α) {pairs : List (String × β)}
    (once : (pairs.map fun e => CharCode.ofText? e.1).Nodup) :
    SettledSpellings value pairs := by
  intro code
  rw [lastOf_perm (TextFormat.arranged_perm .json pairs) once]

namespace FontForm

/-- All tables of a form are settled. -/
structure Settled (f : FontForm) : Prop where
  differences : SettledSpellings id f.differences
  mappings : SettledSpellings id f.mappings
  widths : SettledSpellings width f.widths

theorem getElem?_eq_iff (value : β → α) {pairs : List (String × β)} (spelled : Spelled pairs) :
    (∀ code : Nat, (ofPairs value (TextFormat.json.arranged pairs))[code]? =
      (ofPairs value pairs)[code]?) ↔ SettledSpellings value pairs := by
  have hcodes : ∀ e ∈ TextFormat.json.arranged pairs, (CharCode.ofText? e.1).isSome :=
    fun e he => spelled.codes e ((TextFormat.arranged_perm .json pairs).mem_iff.mp he)
  simp only [getElem?_ofPairs value hcodes, getElem?_ofPairs value spelled.codes]
  rfl

theorem edit_alike_iff {f : FontForm} (proper : f.Proper) :
    (f.edit .json).Alike (f.edit .yaml) ↔ f.Settled := by
  constructor
  · intro h
    exact ⟨(getElem?_eq_iff id proper.differences).mp h.differences,
      (getElem?_eq_iff id proper.mappings).mp h.mappings,
      (getElem?_eq_iff width proper.widths).mp h.widths⟩
  · intro h
    exact ⟨rfl, (getElem?_eq_iff id proper.differences).mpr h.differences,
      (getElem?_eq_iff id proper.mappings).mpr h.mappings,
      (getElem?_eq_iff width proper.widths).mpr h.widths⟩

end FontForm

/-- Both notations of a document with font edits are read, and as the same instruction set exactly if
in each table of each edit the last spelling of a code has the value of the greatest one. -/
theorem notations_alike_iff (version : String) {fs : List FontForm} (proper : ∀ f ∈ fs, f.Proper) :
    InstructionSet.ofJsonData (fontDocument .json version fs) = .ok (fontSet .json version fs) ∧
      InstructionSet.ofYamlData (fontDocument .yaml version fs) = .ok (fontSet .yaml version fs) ∧
      ((fontSet .json version fs).Alike (fontSet .yaml version fs) ↔ ∀ f ∈ fs, f.Settled) := by
  refine ⟨ofJsonData_fontDocument version proper, ofYamlData_fontDocument version proper, ?_⟩
  have hfonts : List.Forall₂ FontEdit.Alike (fs.map (FontForm.edit .json))
      (fs.map (FontForm.edit .yaml)) ↔ ∀ f ∈ fs, f.Settled := by
    rw [List.forall₂_map_left_iff, List.forall₂_map_right_iff, List.forall₂_same]
    exact forall₂_congr fun f hf => FontForm.edit_alike_iff (proper f hf)
  rw [← hfonts]
  exact ⟨fun h => h.fonts, fun h => ⟨rfl, h⟩⟩

/-- Three ways to spell a code, for three codes. -/
theorem notations_alike_letters :
    let f : FontForm := ⟨"write_tounicode", "F1", 1, [],
      [("67", "C"), ("<42>", "B"), ("0x41", "A")], []⟩
    InstructionSet.ofJsonData (fontDocument .json "1.0" [f]) = .ok (fontSet .json "1.0" [f]) ∧
      InstructionSet.ofYamlData (fontDocument .yaml "1.0" [f]) = .ok (fontSet .yaml "1.0" [f]) ∧
      (fontSet .json "1.0" [f]).Alike (fontSet .yaml "1.0" [f]) := by
  intro f
  have proper : ∀ g ∈ [f], g.Proper := by
    intro g hg
    obtain rfl := List.mem_singleton.mp hg
    exact ⟨by decide, ⟨by decide, by decide⟩, ⟨by decide, by decide⟩, ⟨by decide, by decide⟩⟩
  obtain ⟨hjson, hyaml, halike⟩ := notations_alike_iff "1.0" proper
  refine ⟨hjson, hyaml, halike.mpr fun g hg => ?_⟩
  obtain rfl := List.mem_singleton.mp hg
  exact ⟨settled_of_nodup id (by decide), settled_of_nodup id (by decide),
    settled_of_nodup FontForm.width (by decide)⟩

theorem ok_of_toOption {ε : Type} {x : Except ε α} {a : α} (h : x.toOption = some a) : x = .ok a := by
  cases x with
  | error e => cases h
  | ok b => exact congrArg Except.ok (Option.some.inj h)

/-- A text that is a document in both notations and spells one code twice. As JSON the greater
spelling counts, as YAML the later one. -/
theorem notations_differ :
    let text := "\x7b\"fonts\":[\x7b\"mappings\":\x7b\"65\":\"A\",\"0x41\":\"B\"\x7d\x7d]\x7d"
    ∃ json yaml, InstructionSet.ofText (some .json) text = .ok json ∧
      InstructionSet.ofText (some .yaml) text = .ok yaml ∧
      json.fonts.map (·.mappings[65]?) = [some "A"] ∧
      yaml.fonts.map (·.mappings[65]?) = [some "B"] ∧ ¬ json.Alike yaml := by
  intro text
  have hjson : (InstructionSet.ofText (some .json) text).toOption.map
      (·.fonts.map (·.mappings[65]?)) = some [some "A"] := by decide +kernel
  have hyaml : (InstructionSet.ofText (some .yaml) text).toOption.map
      (·.fonts.map (·.mappings[65]?)) = some [some "B"] := by decide +kernel
  obtain ⟨json, hjsonRead, hjsonTable⟩ := Option.map_eq_some_iff.mp hjson
  obtain ⟨yaml, hyamlRead, hyamlTable⟩ := Option.map_eq_some_iff.mp hyaml
  refine ⟨json, yaml, ok_of_toOption hjsonRead, ok_of_toOption hyamlRead, hjsonTable, hyamlTable,
    fun alike => ?_⟩
  have heq := alike.mappings_eq 65
  rw [hjsonTable, hyamlTable] at heq
  exact absurd heq (by decide)

end AccessiblePdf
