import Mathlib
import AccessiblePdf.Proofs.Font.Finding
import AccessiblePdf.Proofs.Runs
import AccessiblePdf.Proofs.Table
import AccessiblePdf.Proofs.Number

/-!
Glyphs that are declared for the codes of a simple font. The array of differences that is written gives
each code its glyph again (`differences_differencesArray`), with one number for each stretch of consecutive
codes (`differencesArray_compact`), and what was there is taken over. So a font that is loaded again has the
declared glyphs, for all other codes the texts that it had, and the same base encoding
(`applyFont_differences`).
-/
namespace AccessiblePdf

namespace Encoding

variable {free : Bytes → Bool → Prop} {old doc : Document}

/-! ## Differences arrays -/

theorem codeOf_lt (n : Number) : codeOf n < 0x100000000 :=
  Nat.lt_of_le_of_lt (Nat.min_le_right _ _) (by decide)

theorem codeOf_ofInt {code : Nat} (h : code < 0x100000000) : codeOf (.ofInt code) = code := by
  have hread : saturate (nearestDouble code) = code := readKey_eq_self (by omega)
  rw [codeOf, Number.ofInt, Number.truncated, hread, Int.toNat_natCast]
  exact Nat.min_eq_left (by omega)

theorem startsRun_ofInt {code : Nat} (h : code < 0x100000000) : startsRun (.ofInt code) = true := by
  rw [Number.ofInt, nearestDouble_eq_self (by omega), startsRun]
  exact decide_eq_true (Int.natCast_nonneg code)

theorem differencePairs_integer (doc : Document) (next : Option Nat) {code : Nat}
    (h : code < 0x100000000) (items : List Object) :
    differencePairs doc next (.integer code :: items) = differencePairs doc (some code) items := by
  rw [differencePairs.eq_def]
  simp only [Document.resolve, Object.number?, startsRun_ofInt h, if_true, codeOf_ofInt h]

theorem differencePairs_name (doc : Document) (code : Nat) (glyph : String) (items : List Object) :
    differencePairs doc (some code) (.name (utf8 glyph) :: items) =
      (code, glyph) :: differencePairs doc (some (succ code)) items := by
  rw [differencePairs.eq_def]
  simp only [Document.resolve, Object.number?, Object.nameText?, Object.name?, Option.map_some,
    Utf8.decodeLossy_utf8]

/-- Runs are read as the codes and glyphs that they were written for: the reader counts on from a code as
the writer does. -/
theorem differencePairs_runs (doc : Document) (next : Option Nat) {pairs : List (Nat × String)}
    (codes : ∀ e ∈ pairs, e.1 < 0x100000000) :
    differencePairs doc next (runs next pairs) = pairs := by
  induction pairs generalizing next with
  | nil => rfl
  | cons e pairs ih =>
    rw [List.forall_mem_cons] at codes
    rw [runs]
    split
    · next h => rw [h, differencePairs_name, ih _ codes.2]
    · rw [differencePairs_integer doc next codes.1, differencePairs_name, ih _ codes.2]

/-- A table of codes is written as an array of differences that gives it again. -/
theorem differences_differencesArray (doc : Document) {t : CodeTable String}
    (codes : ∀ e ∈ t.toList, e.1 < 0x100000000) (code : Nat) :
    (differences doc (differencesArray t))[code]? = t[code]? := by
  rw [differences, differencesArray, differencePairs_runs doc none codes, Table.getElem?_ofList]

/-- A run as it stands in an array: its first code, and its glyphs behind it. -/
def runItems (run : Nat × List String) : List Object :=
  .integer run.1 :: run.2.map fun glyph => .name (utf8 glyph)

/-- Runs in an array; the code of the first one is left out if it is the next one. -/
def itemsFrom (next : Option Nat) : List (Nat × List String) → List Object
  | [] => []
  | run :: more =>
    (if next = some run.1 then (runItems run).tail else runItems run) ++ more.flatMap runItems

theorem itemsFrom_of_ne {next : Option Nat} {runs : List (Nat × List String)}
    (h : ∀ run ∈ runs.head?, next ≠ some run.1) : itemsFrom next runs = runs.flatMap runItems := by
  cases runs with
  | nil => rfl
  | cons run more => rw [itemsFrom, if_neg (h run rfl), List.flatMap_cons]

theorem runs_eq (next : Option Nat) {pairs : List (Nat × String)}
    (codes : ∀ e ∈ pairs, e.1 < 0xFFFFFFFF) : runs next pairs = itemsFrom next (Runs.ofList pairs) := by
  induction pairs generalizing next with
  | nil => rfl
  | cons e pairs ih =>
    obtain ⟨code, glyph⟩ := e
    rw [List.forall_mem_cons] at codes
    have hsucc : succ code = code + 1 := Nat.mod_eq_of_lt (by omega)
    have hcode : runs next ((code, glyph) :: pairs) = (if next = some code then [] else [.integer code]) ++
        .name (utf8 glyph) :: itemsFrom (some (code + 1)) (Runs.ofList pairs) := by
      rw [runs, ih _ codes.2, hsucc]
      split <;> rfl
    rw [hcode]
    obtain ⟨glyphs, more, hruns, hcons⟩ | ⟨hhead, hcons⟩ := Runs.ofList_cons code glyph pairs
    · rw [hruns, hcons, itemsFrom, if_pos rfl, itemsFrom]
      split <;> rfl
    · have hrest : itemsFrom (some (code + 1)) (Runs.ofList pairs) = (Runs.ofList pairs).flatMap runItems :=
        itemsFrom_of_ne fun run hrun heq => hhead run hrun (Option.some.inj heq).symm
      rw [hrest, hcons, itemsFrom]
      split <;> rfl

/-- A table of codes is read back from its array of differences, and the array has one number for each
stretch of consecutive codes that goes on in neither direction: its first code, in front of its glyphs. -/
theorem differencesArray_compact {t : CodeTable String}
    (codes : ∀ code glyph, t[code]? = some glyph → code < 0xFFFFFFFF) :
    (∀ doc, (differences doc (differencesArray t)).toList = t.toList) ∧
      ∃ runs : List (Nat × List String), (∀ run, run ∈ runs ↔ Runs.IsRun t run) ∧
        runs.Pairwise (fun run run' => run.1 < run'.1) ∧
        differencesArray t =
          runs.flatMap fun run => .integer run.1 :: run.2.map fun glyph => .name (utf8 glyph) := by
  have hcodes : ∀ e ∈ t.toList, e.1 < 0xFFFFFFFF := fun e he =>
    codes _ _ (Std.TreeMap.mem_toList_iff_getElem?_eq_some.mp he)
  refine ⟨fun doc => ?_, Runs.ofList t.toList, fun run => Runs.mem_ofList_iff, ?_, ?_⟩
  · have hsame : (differences doc (differencesArray t)).Equiv t :=
      Std.TreeMap.Equiv.of_forall_constGet?_eq
        (differences_differencesArray doc fun e he => Nat.lt_trans (hcodes e he) (by decide))
    exact hsame.toList_eq
  · exact (Runs.pairwise_ofList (Runs.pairwise_toList t)).imp fun h => Nat.lt_of_le_of_lt (Nat.le_add_right _ _) h
  · rw [differencesArray, runs_eq none hcodes]
    exact itemsFrom_of_ne fun _ _ h => by cases h

/-- Two codes in a row and one apart. -/
def gapTable : CodeTable String := (((∅ : CodeTable String).insert 66 "B").insert 70 "F").insert 65 "A"

/-- The two runs of the table are what stands in its array, and the table comes back. -/
theorem differencesArray_compact_gap :
    (∀ code glyph, gapTable[code]? = some glyph → code < 0xFFFFFFFF) ∧
      (differences ⟨"1.7", ∅, ∅, 0⟩ (differencesArray gapTable)).toList =
        [(65, "A"), (66, "B"), (70, "F")] ∧
      ∃ runs : List (Nat × List String), (∀ run, run ∈ runs ↔ Runs.IsRun gapTable run) ∧
        ([.integer 65, .name "A", .name "B", .integer 70, .name "F"] : List Object) =
          runs.flatMap fun run => .integer run.1 :: run.2.map fun glyph => .name (utf8 glyph) := by
  have htable : gapTable.toList = [(65, "A"), (66, "B"), (70, "F")] := by decide +kernel
  have hcodes : ∀ code glyph, gapTable[code]? = some glyph → code < 0xFFFFFFFF := by
    intro code glyph h
    rw [← Std.TreeMap.mem_toList_iff_getElem?_eq_some, htable] at h
    have hall : ∀ e ∈ [(65, "A"), (66, "B"), (70, "F")], e.1 < 0xFFFFFFFF := by decide
    exact hall _ h
  obtain ⟨hread, runs, hruns, -, harray⟩ := differencesArray_compact hcodes
  refine ⟨hcodes, (hread _).trans htable, runs, hruns, Eq.trans ?_ harray⟩
  rw [differencesArray, htable]
  rfl

theorem differencePairs_eq (h : old.Retains free doc) {items items' : List Object}
    (hitems : List.Forall₂ (Object.Retained free doc) items items') (next : Option Nat) :
    differencePairs doc next items' = differencePairs old next items := by
  induction hitems generalizing next with
  | nil => rfl
  | cons hab _ ih =>
    have hseen := h.resolve hab
    rw [differencePairs.eq_def, differencePairs.eq_def]
    simp only [hseen.number?_eq, hseen.nameText?_eq, ih]

/-- The codes of differences have 32 bits. -/
theorem lt_of_mem_differencePairs {items : List Object} {next : Option Nat} {e : Nat × String}
    (hnext : ∀ code, next = some code → code < 0x100000000)
    (h : e ∈ differencePairs doc next items) : e.1 < 0x100000000 := by
  induction items generalizing next with
  | nil => cases h
  | cons o items ih =>
    rw [differencePairs.eq_def] at h
    cases hn : (doc.resolve o).number? with
    | some n =>
      simp only [hn] at h
      refine ih (fun code hcode => ?_) h
      split at hcode
      · rw [← Option.some.inj hcode]
        exact codeOf_lt n
      · exact hnext code hcode
    | none =>
      simp only [hn] at h
      split at h
      · next code glyph _ =>
        rcases List.mem_cons.mp h with rfl | h
        · exact hnext code rfl
        · refine ih (fun code' hcode => ?_) h
          rw [← Option.some.inj hcode]
          exact Nat.mod_lt _ (by decide)
      · exact ih hnext h

/-- The differences that a dictionary states. -/
def stated (doc : Document) (x : Dict Object) : CodeTable String :=
  ((doc.entryArray? x "Differences").map (differences doc)).getD ∅

theorem stated_eq_of_rel {x y : Dict Object} (h : old.Retains free doc)
    (hrel : Option.Rel (List.Forall₂ (Object.Retained free doc))
      (old.entryArray? x "Differences") (doc.entryArray? y "Differences")) :
    stated doc y = stated old x := by
  rw [stated, stated]
  revert hrel
  generalize old.entryArray? x "Differences" = a
  generalize doc.entryArray? y "Differences" = b
  intro hrel
  cases hrel with
  | none => rfl
  | some hitems =>
    rw [Option.map_some, Option.map_some, differences, differences, differencePairs_eq h hitems]

theorem lt_of_stated {x : Dict Object} {code : Nat} {glyph : String}
    (h : (stated doc x)[code]? = some glyph) : code < 0x100000000 := by
  rw [stated] at h
  cases harray : doc.entryArray? x "Differences" with
  | none => rw [harray] at h; cases h
  | some items =>
    rw [harray, Option.map_some, Option.getD_some, differences] at h
    exact lt_of_mem_differencePairs (fun _ hnone => by cases hnone) (Table.mem_of_getElem?_foldl h)

end Encoding

theorem Font.encoding_of_dictionary {doc : Document} {x z : Dict Object}
    (h : doc.value? x "Encoding" = some (.dictionary z)) :
    Font.encoding doc x = (doc.entryName? z "BaseEncoding", Encoding.stated doc z) := by
  rw [Font.encoding, h]
  rfl

/-- The dictionary that is the encoding of a font, if one is. -/
def Font.encodingDict (doc : Document) (x : Dict Object) : Dict Object :=
  ((doc.value? x "Encoding").bind Object.dictionary?).getD ∅

theorem Font.encoding_eq (doc : Document) (x : Dict Object) : Font.encoding doc x =
    ((doc.entryName? x "Encoding").or (doc.entryName? (encodingDict doc x) "BaseEncoding"),
      Encoding.stated doc (encodingDict doc x)) := by
  rw [Font.encoding, encodingDict, Document.entryName?]
  cases doc.value? x "Encoding" with
  | none => rfl
  | some o => cases o <;> rfl

/-- The encoding of a font is retained, if it has one at all. -/
theorem Document.Retains.encoding_eq {old doc : Document} {x y : Dict Object}
    (h : old.Retains OwnResources doc)
    (hxy : (Object.dictionary x).Retained OwnResources doc (.dictionary y))
    (leads : old.Leads x "Encoding") : Font.encoding doc y = Font.encoding old x := by
  have hfree {key : Bytes} (hne : key ≠ utf8 "Resources") (present : Bool) :
      ¬OwnResources key present := not_ownResources_of_ne hne present
  have hdict {v w : Dict Object} (hx : old.value? x "Encoding" = some (.dictionary v))
      (hy : doc.value? y "Encoding" = some (.dictionary w))
      (hvw : (Object.dictionary v).Retained OwnResources doc (.dictionary w)) :
      Font.encoding doc y = Font.encoding old x := by
    rw [Font.encoding_of_dictionary hx, Font.encoding_of_dictionary hy,
      h.entryName?_eq hvw (hfree (by decide) _),
      Encoding.stated_eq_of_rel h (h.entryArray?_rel hvw (hfree (by decide) _))]
  have hrel := h.value?_retained hxy (hfree (by decide) _) leads
  generalize hx : old.value? x "Encoding" = a at hrel
  generalize hy : doc.value? y "Encoding" = b at hrel
  cases hrel with
  | none => rw [Font.encoding, Font.encoding, hx, hy]
  | @some a b hab =>
    obtain ⟨hab, direct⟩ := hab
    cases hab with
    | same =>
      cases a with
      | dictionary v => exact hdict hx hy (.same _)
      | _ => rw [Font.encoding, Font.encoding, hx, hy]
    | dictionary has entry => exact hdict hx hy (.dictionary has entry)
    | array => rw [Font.encoding, Font.encoding, hx, hy]
    | moved => exact absurd direct Bool.false_ne_true

namespace Edit

variable {d d' : Draft} {page font : ObjectId} {x y : Dict Object} {declared : CodeTable String} {u : Unit}

/-- The entries that change when differences are added. -/
def encodingKeys : List String := ["Encoding", "Type", "BaseEncoding", "Differences"]

/-- An encoding with differences, and maybe with a base. -/
def withDifferences (base : Option String) (differences : List Object) (z : Dict Object) :
    Dict Object :=
  let z := z.insert "Type" (.name "Encoding")
  let z := match base with
    | some base => z.insert "BaseEncoding" (.name base)
    | none => z
  z.insert "Differences" (.array differences)

theorem get?_withDifferences (base : Option String) (differences : List Object) (z : Dict Object) :
    (withDifferences base differences z).get? "Differences" = some (.array differences) :=
  OrderedMap.get?_insert_self _ _ _

theorem get?_withDifferences_base (base : Option String) (differences : List Object) (z : Dict Object) :
    (withDifferences base differences z).get? "BaseEncoding" =
      (base.map fun base => Object.name (utf8 base)).or (z.get? "BaseEncoding") := by
  refine (OrderedMap.get?_insert_of_ne _ (by decide) _).trans ?_
  cases base with
  | none => exact OrderedMap.get?_insert_of_ne _ (by decide) _
  | some base => exact OrderedMap.get?_insert_self _ _ _

theorem get?_withDifferences_of_ne (base : Option String) (differences : List Object) (z : Dict Object)
    {key : Bytes} (hkey : key ∉ ["Type", "BaseEncoding", "Differences"].map utf8) :
    (withDifferences base differences z).get? key = z.get? key := by
  simp only [List.map_cons, List.map_nil, List.mem_cons, List.not_mem_nil, or_false, not_or] at hkey
  obtain ⟨htype, hbase, hdifferences⟩ := hkey
  refine (OrderedMap.get?_insert_of_ne _ hdifferences _).trans ?_
  cases base with
  | none => exact OrderedMap.get?_insert_of_ne _ htype _
  | some base =>
    exact (OrderedMap.get?_insert_of_ne _ hbase _).trans (OrderedMap.get?_insert_of_ne _ htype _)

theorem entryName?_withDifferences {free : Bytes → Bool → Prop} {old doc : Document}
    (h : old.Retains free doc) (base : Option String) (differences : List Object) (z : Dict Object) :
    doc.entryName? (withDifferences base differences z) "BaseEncoding" =
      base.or (old.entryName? z "BaseEncoding") := by
  rw [Document.entryName?, Document.value?, get?_withDifferences_base]
  cases base with
  | some base =>
    rw [Option.map_some, Option.some_or, Option.some_or, Option.map_some, Option.bind_some]
    exact congrArg some (Utf8.decodeLossy_utf8 base)
  | none =>
    rw [Option.map_none, Option.none_or, Option.none_or]
    exact (h.value?_same _ _).bind_eq fun _ _ hseen => hseen.nameText?_eq

theorem getElem?_stated_withDifferences (doc : Document) (base : Option String) {t : CodeTable String}
    (codes : ∀ code glyph, t[code]? = some glyph → code < 0x100000000) (z : Dict Object) (code : Nat) :
    (Encoding.stated doc (withDifferences base (Encoding.differencesArray t) z))[code]? = t[code]? := by
  have harray : doc.entryArray? (withDifferences base (Encoding.differencesArray t) z) "Differences" =
      some (Encoding.differencesArray t) := by
    rw [Document.entryArray?, Document.value?_of_direct (get?_withDifferences _ _ _) rfl]
    rfl
  have hcodes : ∀ e ∈ t.toList, e.1 < 0x100000000 := fun e he =>
    codes _ _ (Std.TreeMap.mem_toList_iff_getElem?_eq_some.mp he)
  rw [Encoding.stated, harray, Option.map_some, Option.getD_some,
    Encoding.differences_differencesArray _ hcodes]

theorem setDifferences_ok (hrun : (setDifferences font declared).run d = .ok u d') :
    ∃ y encoding d₁ z, d.doc.dict? font = some y ∧
      (indirectDict font "Encoding").run d = .ok encoding d₁ ∧ d₁.doc.dict? encoding = some z ∧
      (modifyDict encoding (withDifferences (d.doc.entryName? y "Encoding")
        (Encoding.differencesArray (declared.foldl (fun t code glyph => t.insert code (CharSet.bare glyph))
          (Encoding.stated d₁.doc z))))).run d₁ = .ok u d' := by
  unfold setDifferences at hrun
  obtain ⟨doc, d₀, hdoc, hrest⟩ := bind_ok.mp hrun
  obtain ⟨rfl, rfl⟩ := doc_ok.mp hdoc
  obtain ⟨y, d₂, hy, hrest⟩ := bind_ok.mp hrest
  obtain ⟨hy, rfl⟩ := dict_ok.mp hy
  obtain ⟨encoding, d₁, hencoding, hrest⟩ := bind_ok.mp hrest
  obtain ⟨doc, d₃, hdoc, hrest⟩ := bind_ok.mp hrest
  obtain ⟨rfl, rfl⟩ := doc_ok.mp hdoc
  obtain ⟨z, d₄, hz, hrest⟩ := bind_ok.mp hrest
  obtain ⟨hz, rfl⟩ := dict_ok.mp hz
  exact ⟨y, encoding, d₄, z, hy, hencoding, hz, hrest⟩

/-- The font then has the same base encoding, and its differences with those that are added. -/
theorem setDifferences_encoding (unused : d.doc.Unused) (hy : d.doc.dict? font = some y)
    (codes : ∀ code glyph, declared[code]? = some glyph → code < 0x100000000)
    (hrun : (setDifferences font declared).run d = .ok u d') :
    d.doc.Retains (Under encodingKeys) d'.doc ∧ ∃ y', d'.doc.dict? font = some y' ∧
      (Object.dictionary y).Retained (Under encodingKeys) d'.doc (.dictionary y') ∧
      (Font.encoding d'.doc y').1 = (Font.encoding d.doc y).1 ∧
      ∀ code : Nat, (Font.encoding d'.doc y').2[code]? =
        (declared[code]?.map CharSet.bare).or (Font.encoding d.doc y).2[code]? := by
  obtain ⟨y', encoding, d₁, z, hy', hencoding, hz, hmodify⟩ := setDifferences_ok hrun
  obtain rfl : y = y' := Option.some.inj (hy.symm.trans hy')
  have hfree : (d.doc.value? y "Encoding").bind Object.dictionary? = none →
      Under ["Encoding"] "Encoding" (y.get? "Encoding").isSome := fun _ => List.mem_cons_self
  obtain ⟨hown, hz', -⟩ := indirectDict_own unused hy hfree hencoding
  obtain rfl : z = Font.encodingDict d.doc y := Option.some.inj (hz.symm.trans hz')
  set table : CodeTable String := declared.foldl (fun t code glyph => t.insert code (CharSet.bare glyph))
    (Encoding.stated d₁.doc (Font.encodingDict d.doc y)) with htable
  obtain ⟨hretains, y₂, hy₂, hyy₂, -, hvalue⟩ := modifyOwn_retains ["Type", "BaseEncoding", "Differences"]
    unused hy rfl (by decide) (fun key hkey => get?_withDifferences_of_ne _ _ _ hkey) hencoding hmodify
  refine ⟨hretains, y₂, hy₂, hyy₂, ?_⟩
  rw [Font.encoding_of_dictionary hvalue, Font.encoding_eq]
  refine ⟨entryName?_withDifferences hretains _ _ _, fun code => ?_⟩
  have hstated : Encoding.stated d₁.doc (Font.encodingDict d.doc y) =
      Encoding.stated d.doc (Font.encodingDict d.doc y) :=
    Encoding.stated_eq_of_rel hown ((hown.value?_same _ _).bind fun _ _ hseen => hseen.array?_rel)
  have hget (code : Nat) : table[code]? = (declared[code]?.map CharSet.bare).or
      (Encoding.stated d.doc (Font.encodingDict d.doc y))[code]? := by
    rw [htable, hstated, Table.getElem?_foldl]
  rw [getElem?_stated_withDifferences _ _ (fun code glyph hcode => ?_), hget]
  rw [hget, Option.or_eq_some_iff] at hcode
  rcases hcode with hnew | ⟨-, hold⟩
  · obtain ⟨glyph, hglyph, -⟩ := Option.map_eq_some_iff.mp hnew
    exact codes _ _ hglyph
  · exact Encoding.lt_of_stated hold

theorem text?_of_unmapped {doc : Document} {x : Dict Object} {id : Option ObjectId}
    (simple : (Font.load doc x id).composite = false) (unmapped : Font.toUnicode? doc x = none)
    (code : Nat) : (Font.load doc x id).text? code =
      match (Font.encoding doc x).2[code]? with
      | some glyph => Glyph.text? glyph
      | none =>
        if (Font.load doc x id).subtype == "Type3" then none
        else (Encoding.decode? (Font.encoding doc x).1 code).map String.singleton := by
  have hmap : (Font.load doc x id).toUnicode = none := unmapped
  rw [Font.text?, hmap, simple]
  rfl

/-- When glyphs have been declared for codes of a simple font without a ToUnicode map, it is loaded with
the texts of these glyphs. The texts of all other codes are what they were, and so is the base encoding.
-/
theorem applyFont_differences (numbered : d.doc.Numbered) {f : FontEdit}
    (hop : FontOp.ofName? f.op = some .setDifferences) (hpage : (Edit.page f.page).run d = .ok page d)
    (hx : d.doc.fontOf? page f.font = some x) (simple : (Font.load d.doc x none).composite = false)
    (unmapped : Font.toUnicode? d.doc x = none) (leads : d.doc.Leads x "Encoding")
    (hrun : (applyFont f).run d = .ok u d') :
    ∃ font d₁ y, (fontId page f.font).run d = .ok font d₁ ∧ d'.doc.dict? font = some y ∧
      (Font.load d'.doc y font).baseEncoding = (Font.load d.doc x font).baseEncoding ∧
      (∀ code glyph, f.differences[code]? = some glyph →
        (Font.load d'.doc y font).text? code = Glyph.text? (CharSet.bare glyph)) ∧
      ∀ code, f.differences[code]? = none →
        (Font.load d'.doc y font).text? code = (Font.load d.doc x font).text? code := by
  obtain ⟨font, d₁, y, hfont, hnumbered, hfound, hy, hxy, hrepair⟩ :=
    applyFont_retains numbered hop hpage hx hrun
  obtain ⟨_, d₂, hcheck, hset⟩ := bind_ok.mp hrepair
  obtain ⟨hcodes, rfl⟩ := checkCodes_table hcheck
  have hdeclared : ∀ code glyph, f.differences[code]? = some glyph → code < 0x100000000 :=
    fun code glyph hcode => Nat.lt_of_le_of_lt (hcodes code glyph hcode) (by decide)
  obtain ⟨hchange, y', hy', hyy', hbase, hdifferences⟩ :=
    setDifferences_encoding hnumbered.unused hy hdeclared hset
  have hencoding := hfound.encoding_eq hxy leads
  obtain ⟨hretains, hxy'⟩ := hfound.repaired hxy hchange hyy'
  have hfree {key : Bytes} (hkey : key ∉ encodingKeys.map utf8) (resources : key ≠ utf8 "Resources")
      (present : Bool) : ¬Repairing encodingKeys key present := not_repairing hkey resources present
  have hsubtype : (Font.load d'.doc y' font).subtype = (Font.load d.doc x font).subtype :=
    hretains.subtype_eq hxy' (hfree (by decide) (by decide))
  have hsimple : (Font.load d'.doc y' font).composite = false :=
    (hretains.composite_eq hxy' (hfree (by decide) (by decide))).trans simple
  have hunmapped : Font.toUnicode? d'.doc y' = none :=
    (hretains.toUnicode?_eq hxy' (hfree (by decide) (by decide))).trans unmapped
  refine ⟨font, d₂, y', hfont, hy', hbase.trans (congrArg (·.1) hencoding), fun code glyph hcode => ?_,
    fun code hcode => ?_⟩
  · rw [text?_of_unmapped hsimple hunmapped, hdifferences, hcode]
    rfl
  · have hother : (Font.encoding d'.doc y').2[code]? = (Font.encoding d.doc x).2[code]? := by
      rw [hdifferences, hcode, hencoding]
      rfl
    have hold : (Font.load d.doc x font).composite = false := simple
    rw [text?_of_unmapped hsimple hunmapped, text?_of_unmapped hold unmapped, hother, hbase, hencoding,
      hsubtype]

/-! ## An encoding behind a reference -/

/-- A font whose encoding has a base, and a bullet in the place of B. -/
def bulletFont : Dict Object :=
  .ofList [(utf8 "Subtype", .name "Type1"), (utf8 "Encoding", .reference ⟨4, 0⟩)]

/-- A page with this font. -/
def bulletPage : Draft :=
  fontPage bulletFont [(⟨4, 0⟩, .ofEntries [(utf8 "BaseEncoding", .name "WinAnsiEncoding"),
    (utf8 "Differences", .array [.integer 0x42, .name "bullet"])])]

/-- Declares the euro sign in the place of A. -/
def euroSign : FontEdit :=
  { op := "set_differences", font := "F1", page := 1
    differences := (∅ : CodeTable String).insert 0x41 "/Euro" }

theorem numbered_bulletPage : bulletPage.doc.Numbered :=
  Document.numbered_of_entries (by
    simp [bulletPage, fontPage, OrderedMap.ofList, OrderedMap.insert, OrderedMap.put, OrderedMap.empty])

/-- The declared code has its glyph, and the codes with and without an old one have theirs. -/
theorem applyFont_differences_euro : ∃ d' font y,
    bulletPage.doc.Numbered ∧ FontOp.ofName? euroSign.op = some .setDifferences ∧
      (Edit.page euroSign.page).run bulletPage = .ok ⟨3, 0⟩ bulletPage ∧
      bulletPage.doc.fontOf? ⟨3, 0⟩ euroSign.font = some bulletFont ∧
      (Font.load bulletPage.doc bulletFont none).composite = false ∧
      Font.toUnicode? bulletPage.doc bulletFont = none ∧
      bulletPage.doc.Leads bulletFont "Encoding" ∧
      (applyFont euroSign).run bulletPage = .ok () d' ∧ d'.doc.dict? font = some y ∧
      (Font.load d'.doc y font).baseEncoding = some "WinAnsiEncoding" ∧
      (Font.load d'.doc y font).text? 0x41 = some "€" ∧
      (Font.load d'.doc y font).text? 0x42 = some "•" ∧
      (Font.load d'.doc y font).text? 0x43 = some "C" := by
  have hpage : (Edit.page euroSign.page).run bulletPage = .ok ⟨3, 0⟩ bulletPage := by cbv
  have hfont : bulletPage.doc.fontOf? ⟨3, 0⟩ euroSign.font = some bulletFont := by rfl
  have hsimple : (Font.load bulletPage.doc bulletFont none).composite = false := by decide +kernel
  have hunmapped : Font.toUnicode? bulletPage.doc bulletFont = none := by rfl
  have hleads : bulletPage.doc.Leads bulletFont "Encoding" := by
    intro id hid
    cases hid
    rfl
  have hold : (Font.load bulletPage.doc bulletFont none).baseEncoding = some "WinAnsiEncoding" ∧
      (Font.load bulletPage.doc bulletFont none).text? 0x42 = some "•" ∧
      (Font.load bulletPage.doc bulletFont none).text? 0x43 = some "C" := by decide +kernel
  obtain ⟨d', hrun⟩ : ∃ d', (applyFont euroSign).run bulletPage = .ok () d' :=
    exists_of_result (by cbv)
  obtain ⟨font, -, y, -, hy, hbase, hdeclared, hother⟩ := applyFont_differences numbered_bulletPage rfl
    hpage hfont hsimple hunmapped hleads hrun
  exact ⟨d', font, y, numbered_bulletPage, rfl, hpage, hfont, hsimple, hunmapped, hleads, hrun, hy,
    hbase.trans hold.1, (hdeclared 0x41 "/Euro" (by decide)).trans (by decide +kernel),
    (hother 0x42 (by decide)).trans hold.2.1, (hother 0x43 (by decide)).trans hold.2.2⟩

end Edit

end AccessiblePdf
