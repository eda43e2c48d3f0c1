import AccessiblePdf.Proofs.Font.Differences
import AccessiblePdf.Proofs.Font.Widths

/-!
Widths that are declared for the codes of a simple font. All codes from the first to the last one with a
width are written, and the codes between that have none get the width that the descriptor states, or
zero (`getElem?_simpleWidths`). So a font that is loaded again has the declared widths, and the other
codes theirs, unless one without a width lies between codes with one and the descriptor states no
positive width (`applyFont_simpleWidths`, `applyFont_narrows_gap`).
-/
namespace AccessiblePdf

namespace Font

variable {free : Bytes → Bool → Prop} {old doc : Document} {x y : Dict Object}

/-! ## Codes without a width -/

/-- The width that the descriptor of a font states for codes without one. -/
def statedMissing? (doc : Document) (x : Dict Object) : Option Number :=
  (doc.entryDict? x "FontDescriptor").bind (doc.entryNumber? · "MissingWidth")

theorem missingWidth_eq (doc : Document) (x : Dict Object) :
    missingWidth doc x = ((statedMissing? doc x).filter isPositive).getD simpleWidth := rfl

/-- How far a code of some width advances at a font size of 1. -/
def scaled (f : Font) (w : Number) : Float :=
  match f.scale with
  | some scale => w.toFloat * scale
  | none => w.toFloat / 1000.0

theorem advance_eq (f : Font) (code : Nat) : f.advance code = f.scaled (f.width code) := rfl

/-- A code without a width, between codes with one. -/
def Enclosed (t : CodeTable Number) (code : Nat) : Prop :=
  t[code]? = none ∧ (∃ a ∈ t, a < code) ∧ ∃ b ∈ t, code < b

theorem statedMissing?_eq (h : old.Retains free doc)
    (hxy : (Object.dictionary x).Retained free doc (.dictionary y))
    (descriptor : ∀ present, ¬free "FontDescriptor" present)
    (missing : ∀ present, ¬free "MissingWidth" present) (leads : old.Leads x "FontDescriptor") :
    statedMissing? doc y = statedMissing? old x := by
  have hrel := (h.value?_retained hxy (descriptor _) leads).bind (f := Object.entries?)
    (g := Object.entries?) (S := fun v w => (Object.dictionary v).Retained free doc (.dictionary w))
    fun a b hab => by
      obtain ⟨hab, direct⟩ := hab
      cases hab with
      | same => cases a <;> first | exact .none | exact .some (.same _)
      | dictionary has entry => exact .some (.dictionary has entry)
      | array => exact .none
      | moved => exact absurd direct Bool.false_ne_true
  exact hrel.bind_eq fun v w hvw => h.entryNumber?_eq hvw (missing _)

theorem simpleWidths_eq (h : old.Retains free doc)
    (hxy : (Object.dictionary x).Retained free doc (.dictionary y))
    (first : ∀ present, ¬free "FirstChar" present) (widths : ∀ present, ¬free "Widths" present) :
    simpleWidths doc y = simpleWidths old x := by
  have hrel := h.entryArray?_rel hxy (widths _)
  rw [simpleWidths, simpleWidths, h.entryNumber?_eq hxy (first _)]
  revert hrel
  generalize old.entryArray? x "Widths" = a
  generalize doc.entryArray? y "Widths" = b
  intro hrel
  cases hrel with
  | none => rfl
  | some hitems => rw [Option.getD_some, Option.getD_some, widthsFrom_eq h hitems]

theorem lt_of_simpleWidths {code : Nat} {w : Number} (h : (simpleWidths doc x)[code]? = some w) :
    code < 0x100000000 := by
  exact lt_of_mem_widthsFrom (Table.mem_of_getElem?_foldl h)

/-! ## Arrays from the first to the last code -/

/-- A font with widths for the codes from the first to the last one. -/
def withWidths (first last : Nat) (ws : List Object) (y : Dict Object) : Dict Object :=
  ((y.insert "FirstChar" (.integer first)).insert "LastChar" (.integer last)).insert "Widths" (.array ws)

theorem get?_withWidths_of_ne (first last : Nat) (ws : List Object) (y : Dict Object) {key : Bytes}
    (hkey : key ∉ ["FirstChar", "LastChar", "Widths"].map utf8) :
    (withWidths first last ws y).get? key = y.get? key := by
  simp only [List.map_cons, List.map_nil, List.mem_cons, List.not_mem_nil, or_false, not_or] at hkey
  obtain ⟨hfirst, hlast, hwidths⟩ := hkey
  rw [withWidths, OrderedMap.get?_insert_of_ne _ hwidths, OrderedMap.get?_insert_of_ne _ hlast,
    OrderedMap.get?_insert_of_ne _ hfirst]

/-- The widths from the first to the last code are read as they were written, and no others. -/
theorem getElem?_simpleWidths (doc : Document) {first last : Nat} (hlast : last < 0x100000000)
    (hle : first ≤ last) (t : CodeTable Number) (filler : Number) (y : Dict Object) (code : Nat) :
    (simpleWidths doc (withWidths first last (Edit.widthArray t filler first last) y))[code]? =
      if first ≤ code ∧ code ≤ last then some (t[code]?.getD filler).reread else none := by
  set ws : List Number := (List.range (last + 1 - first)).map fun i => t[first + i]?.getD filler with hws
  have hlength : ws.length = last + 1 - first := by rw [hws, List.length_map, List.length_range]
  have harray : Edit.widthArray t filler first last = ws.map Object.ofNumber := by
    rw [Edit.widthArray, hws, List.map_map]
    rfl
  have hentry : doc.entryArray? (withWidths first last (ws.map Object.ofNumber) y) "Widths" =
      some (ws.map Object.ofNumber) := by
    rw [Document.entryArray?, withWidths, Document.value?_of_direct (OrderedMap.get?_insert_self _ _ _) rfl]
    rfl
  have hfirst : doc.entryNumber? (withWidths first last (ws.map Object.ofNumber) y) "FirstChar" =
      some (.ofInt first) := by
    rw [Document.entryNumber?, withWidths, Document.value?, OrderedMap.get?_insert_of_ne _ (by decide),
      OrderedMap.get?_insert_of_ne _ (by decide), OrderedMap.get?_insert_self]
    rfl
  rw [simpleWidths, harray, hentry, hfirst, Option.getD_some, Option.getD_some,
    Encoding.codeOf_ofInt (by omega), widthsFrom_ofNumber doc (by omega)]
  split
  · next hcode =>
    refine Table.getElem?_foldl_of_mem ?_ ?_ ∅
    · rw [List.map_map]
      show ((ws.zipIdx first).map Prod.snd).Nodup
      rw [List.zipIdx_map_snd]
      exact List.nodup_range'
    · refine List.mem_map.mpr ⟨(t[code]?.getD filler, code), ?_, rfl⟩
      rw [List.mem_zipIdx_iff_le_and_getElem?_sub]
      refine ⟨hcode.1, ?_⟩
      rw [hws, List.getElem?_map, List.getElem?_range (by omega), Option.map_some,
        Nat.add_sub_cancel' hcode.1]
  · next hcode =>
    rw [Table.getElem?_foldl_of_ne, Std.TreeMap.getElem?_emptyc]
    rintro e he rfl
    obtain ⟨⟨w, i⟩, hmem, rfl⟩ := List.mem_map.mp he
    rw [List.mem_zipIdx_iff_le_and_getElem?_sub] at hmem
    have hi := (List.getElem?_eq_some_iff.mp hmem.2).1
    simp only at hcode
    omega

end Font

namespace CodeTable

variable {α : Type} {t : CodeTable α} {code first last : Nat}

theorem mem_iff_getElem? : code ∈ t ↔ ∃ a, t[code]? = some a := by
  rw [Std.TreeMap.mem_iff_isSome_getElem?, Option.isSome_iff_exists]

theorem minKey?_spec (h : t.minKey? = some first) : first ∈ t ∧ ∀ code ∈ t, first ≤ code := by
  obtain ⟨hmem, hle⟩ := Std.TreeMap.minKey?_eq_some_iff_mem_and_forall.mp h
  exact ⟨hmem, fun code hcode => Nat.isLE_compare.mp (hle code hcode)⟩

theorem maxKey?_spec (h : t.maxKey? = some last) : last ∈ t ∧ ∀ code ∈ t, code ≤ last := by
  obtain ⟨hmem, hle⟩ := Std.TreeMap.maxKey?_eq_some_iff_mem_and_forall.mp h
  exact ⟨hmem, fun code hcode => Nat.isLE_compare.mp (hle code hcode)⟩

end CodeTable

namespace Edit

variable {d d' : Draft} {page font : ObjectId} {x y : Dict Object} {declared : CodeTable Number} {u : Unit}

/-- The entries that change when widths are set. -/
def widthKeys : List String := ["FirstChar", "LastChar", "Widths"]

/-- The width that is written for the codes between that have none. -/
def filler (doc : Document) (x : Dict Object) : Number := (Font.statedMissing? doc x).getD (.whole 0)

/-- Widths from the first to the last code that has one are written, if any has. -/
theorem setSimpleWidths_ok (hrun : (setSimpleWidths font declared).run d = .ok u d') :
    ∃ y t, d.doc.dict? font = some y ∧ t = mergeWidths (Font.simpleWidths d.doc y) declared ∧
      ((∃ first last, t.minKey? = some first ∧ t.maxKey? = some last ∧
        (modifyDict font (Font.withWidths first last
          (widthArray t (filler d.doc y) first last))).run d = .ok u d') ∨
        (t.isEmpty = true ∧ d' = d)) := by
  unfold setSimpleWidths at hrun
  obtain ⟨doc, d₁, hdoc, hrest⟩ := bind_ok.mp hrun
  obtain ⟨rfl, rfl⟩ := doc_ok.mp hdoc
  obtain ⟨y, d₂, hy, hrest⟩ := bind_ok.mp hrest
  obtain ⟨hy, rfl⟩ := dict_ok.mp hy
  refine ⟨y, _, hy, rfl, ?_⟩
  dsimp only at hrest
  cases hfirst : (mergeWidths (Font.simpleWidths d₂.doc y) declared).minKey? with
  | none =>
    rw [hfirst] at hrest
    exact Or.inr ⟨Std.TreeMap.minKey?_eq_none_iff.mp hfirst, (pure_ok.mp hrest).2⟩
  | some first =>
    cases hlast : (mergeWidths (Font.simpleWidths d₂.doc y) declared).maxKey? with
    | none =>
      rw [hfirst, hlast] at hrest
      exact Or.inr ⟨Std.TreeMap.maxKey?_eq_none_iff.mp hlast, (pure_ok.mp hrest).2⟩
    | some last =>
      rw [hfirst, hlast] at hrest
      exact Or.inl ⟨first, last, rfl, rfl, hrest⟩

/-- The widths that a table has are read again, and of the other codes those between. -/
theorem setSimpleWidths_retains (hy : d.doc.dict? font = some y) {t : CodeTable Number}
    (ht : t = mergeWidths (Font.simpleWidths d.doc y) declared)
    (codes : ∀ code w, declared[code]? = some w → code < 0x100000000)
    (hrun : (setSimpleWidths font declared).run d = .ok u d') :
    d.doc.Retains (Under widthKeys) d'.doc ∧ ∃ y', d'.doc.dict? font = some y' ∧
      (Object.dictionary y).Retained (Under widthKeys) d'.doc (.dictionary y') ∧
      (∀ (code : Nat) w, t[code]? = some w → (Font.simpleWidths d'.doc y')[code]? = some w.reread) ∧
      (∀ code, Font.Enclosed t code →
        (Font.simpleWidths d'.doc y')[code]? = some (filler d.doc y).reread) ∧
      ∀ code : Nat, t[code]? = none → ¬Font.Enclosed t code →
        (Font.simpleWidths d'.doc y')[code]? = none := by
  obtain ⟨y₁, t', hy₁, ht', hcases⟩ := setSimpleWidths_ok hrun
  obtain rfl : y = y₁ := Option.some.inj (hy.symm.trans hy₁)
  obtain rfl : t = t' := ht.trans ht'.symm
  rcases hcases with ⟨first, last, hfirst, hlast, hmodify⟩ | ⟨hempty, rfl⟩
  · obtain ⟨hfirst, hmin⟩ := CodeTable.minKey?_spec hfirst
    obtain ⟨hlast, hmax⟩ := CodeTable.maxKey?_spec hlast
    have hbound : last < 0x100000000 := by
      obtain ⟨w, hw⟩ := CodeTable.mem_iff_getElem?.mp hlast
      rw [ht, getElem?_mergeWidths, Option.or_eq_some_iff] at hw
      rcases hw with hnew | ⟨-, hold⟩
      · exact codes _ _ hnew
      · exact Font.lt_of_simpleWidths hold
    have hkeep : ∀ key, ¬Under widthKeys key (y.get? key).isSome →
        (Font.withWidths first last (widthArray t (filler d.doc y) first last) y).get? key = y.get? key :=
      fun key hkey => Font.get?_withWidths_of_ne _ _ _ _ hkey
    obtain ⟨hchange, hy'⟩ := modifyDict_retains hy hkeep hmodify
    refine ⟨hchange, _, hy', .of_get? hkeep, fun code w hcode => ?_, fun code hcode => ?_,
      fun code hcode hnot => ?_⟩
    all_goals rw [Font.getElem?_simpleWidths _ hbound (hmin last hlast)]
    · have hmem := CodeTable.mem_iff_getElem?.mpr ⟨w, hcode⟩
      rw [if_pos ⟨hmin code hmem, hmax code hmem⟩, hcode, Option.getD_some]
    · obtain ⟨hnone, ⟨a, ha, hlow⟩, b, hb, hhigh⟩ := hcode
      rw [if_pos ⟨(hmin a ha).trans hlow.le, hhigh.le.trans (hmax b hb)⟩, hnone, Option.getD_none]
    · have hother {a : Nat} (ha : a ∈ t) : a ≠ code := by
        rintro rfl
        obtain ⟨w, hw⟩ := CodeTable.mem_iff_getElem?.mp ha
        rw [hcode] at hw
        cases hw
      refine if_neg fun hbetween => hnot ⟨hcode, ⟨first, hfirst, ?_⟩, last, hlast, ?_⟩
      · exact Nat.lt_of_le_of_ne hbetween.1 (hother hfirst)
      · exact Nat.lt_of_le_of_ne hbetween.2 (hother hlast).symm
  · have hnone (code : Nat) : t[code]? = none := Std.TreeMap.getElem?_of_isEmpty hempty
    refine ⟨.refl _, y, hy, .same _, fun code w hcode => ?_, fun code hcode => ?_, fun code hcode _ => ?_⟩
    · rw [hnone] at hcode
      cases hcode
    · obtain ⟨-, ⟨a, ha, -⟩, -⟩ := hcode
      obtain ⟨w, hw⟩ := CodeTable.mem_iff_getElem?.mp ha
      rw [hnone] at hw
      cases hw
    · rw [ht, getElem?_mergeWidths, Option.or_eq_none_iff] at hcode
      exact hcode.2

theorem missingWidth_of_isPositive {doc : Document} (h : Font.isPositive (filler doc x) = true) :
    Font.missingWidth doc x = filler doc x := by
  rw [Font.missingWidth_eq, filler] at *
  cases hstated : Font.statedMissing? doc x with
  | none =>
    rw [hstated] at h
    exact absurd h (by decide)
  | some w =>
    rw [hstated, Option.getD_some] at h
    rw [Option.filter_some, if_pos h]
    rfl

theorem missingWidth_ne {doc : Document} (h : ¬Font.isPositive (filler doc x) = true) :
    Font.missingWidth doc x ≠ filler doc x := by
  have hdefault : Font.missingWidth doc x = Font.simpleWidth := by
    rw [Font.missingWidth_eq]
    rw [filler] at h
    cases hstated : Font.statedMissing? doc x with
    | none => rfl
    | some w =>
      rw [hstated, Option.getD_some] at h
      rw [Option.filter_some, if_neg h]
      rfl
  rw [hdefault]
  intro heq
  rw [← heq] at h
  exact h (by decide)

end Edit

/-! ## The font with the declared widths -/

/-- A font, and the same one with widths that have been declared for codes: codes with a width have it as
it was written, the codes between that have none are filled, and all the others are as they were. -/
structure Font.Widened (old new : Font) (declared : CodeTable Number) (filler : Number) : Prop where
  advance : ∀ code, new.advance code = old.scaled (new.width code)
  given : ∀ (code : Nat) w, declared[code]? = some w → new.width code = w.reread
  listed : ∀ (code : Nat) w, declared[code]? = none → old.widths[code]? = some w →
    new.width code = w.reread
  enclosed : ∀ code, Enclosed (Edit.mergeWidths old.widths declared) code →
    new.width code = filler.reread
  other : ∀ code : Nat, (Edit.mergeWidths old.widths declared)[code]? = none →
    ¬Enclosed (Edit.mergeWidths old.widths declared) code → new.width code = old.width code

namespace Edit

variable {d d' : Draft} {page font : ObjectId} {x y : Dict Object} {declared : CodeTable Number} {u : Unit}

/-- What a table gives, read with the same scale and the same width for codes without one. -/
theorem widened_of_widths {old new : Font} {w : Number} (scale : new.scale = old.scale)
    (sameDefault : new.defaultWidth = old.defaultWidth)
    (listed : ∀ (code : Nat) v, (mergeWidths old.widths declared)[code]? = some v →
      new.widths[code]? = some v.reread)
    (enclosed : ∀ code, Font.Enclosed (mergeWidths old.widths declared) code →
      new.widths[code]? = some w.reread)
    (other : ∀ code : Nat, (mergeWidths old.widths declared)[code]? = none →
      ¬Font.Enclosed (mergeWidths old.widths declared) code → new.widths[code]? = none) :
    Font.Widened old new declared w where
  advance code := by rw [Font.advance_eq, Font.scaled, Font.scaled, scale]
  given code v hcode := by
    have hmerged : (mergeWidths old.widths declared)[code]? = some v := by
      rw [getElem?_mergeWidths, hcode, Option.some_or]
    rw [Font.width, listed code v hmerged, Option.getD_some]
  listed code v hcode hold := by
    have hmerged : (mergeWidths old.widths declared)[code]? = some v := by
      rw [getElem?_mergeWidths, hcode, Option.none_or, hold]
    rw [Font.width, listed code v hmerged, Option.getD_some]
  enclosed code hcode := by rw [Font.width, enclosed code hcode, Option.getD_some]
  other code hcode hnot := by
    have hold := hcode
    rw [getElem?_mergeWidths, Option.or_eq_none_iff] at hold
    rw [Font.width, Font.width, other code hcode hnot, hold.2, sameDefault]

/-- With plain widths, each code for which none is declared keeps its own exactly if the width for the
codes between is the one that they had, or there are none. -/
theorem keeps_iff_of_widened {old new : Font} {doc : Document}
    (h : Font.Widened old new declared (filler doc x))
    (hdefault : old.defaultWidth = Font.missingWidth doc x)
    (plain : ∀ (code : Nat) w, old.widths[code]? = some w → w.Plain) (plainFiller : (filler doc x).Plain)
    (limit : Nat) :
    (∀ code ≤ limit, declared[code]? = none → new.width code = old.width code) ↔
      Font.isPositive (filler doc x) = true ∨
        ∀ code ≤ limit, ¬Font.Enclosed (mergeWidths old.widths declared) code := by
  have hunlisted {code : Nat} (hcode : (mergeWidths old.widths declared)[code]? = none) :
      declared[code]? = none ∧ old.width code = Font.missingWidth doc x := by
    rw [getElem?_mergeWidths, Option.or_eq_none_iff] at hcode
    exact ⟨hcode.1, by rw [Font.width, hcode.2, Option.getD_none, hdefault]⟩
  constructor
  · intro hkeep
    by_contra hnot
    rw [not_or] at hnot
    obtain ⟨hfiller, hexists⟩ := hnot
    push Not at hexists
    obtain ⟨code, hlimit, hcode⟩ := hexists
    obtain ⟨hdeclared, hwidth⟩ := hunlisted hcode.1
    refine missingWidth_ne hfiller ?_
    rw [← hwidth, ← hkeep code hlimit hdeclared, h.enclosed code hcode,
      Number.reread_of_plain plainFiller]
  · intro hcases code hlimit hdeclared
    cases hold : old.widths[code]? with
    | some w =>
      rw [h.listed code w hdeclared hold, Number.reread_of_plain (plain code w hold), Font.width, hold,
        Option.getD_some]
    | none =>
      have hcode : (mergeWidths old.widths declared)[code]? = none := by
        rw [getElem?_mergeWidths, hdeclared, hold]
        rfl
      by_cases henclosed : Font.Enclosed (mergeWidths old.widths declared) code
      · rcases hcases with hpositive | hnone
        · rw [h.enclosed code henclosed, Number.reread_of_plain plainFiller, (hunlisted hcode).2,
            missingWidth_of_isPositive hpositive]
        · exact absurd henclosed (hnone code hlimit)
      · exact h.other code hcode henclosed

/-- A simple font for which widths have been declared is loaded with them. -/
theorem applyFont_widened (numbered : d.doc.Numbered) {f : FontEdit}
    (hop : FontOp.ofName? f.op = some .setWidths) (hpage : (Edit.page f.page).run d = .ok page d)
    (hx : d.doc.fontOf? page f.font = some x) (simple : (Font.load d.doc x none).composite = false)
    (leads : d.doc.Leads x "FontDescriptor") (hrun : (applyFont f).run d = .ok u d') :
    ∃ font d₁ y, (fontId page f.font).run d = .ok font d₁ ∧ d'.doc.dict? font = some y ∧
      Font.Widened (Font.load d.doc x font) (Font.load d'.doc y font) f.widths (filler d.doc x) := by
  obtain ⟨font, d₁, y₁, hfont, -, hfound, hy₁, hxy₁, hrepair⟩ :=
    applyFont_retains numbered hop hpage hx hrun
  obtain ⟨_, d₂, hcheck, hset⟩ := bind_ok.mp hrepair
  rw [simple] at hcheck hset
  obtain ⟨hcodes, rfl⟩ := checkCodes_table hcheck
  have hlimit : ∀ code w, f.widths[code]? = some w → code < 0x100000000 :=
    fun code w hcode => Nat.lt_of_le_of_lt (hcodes code w hcode) (by decide)
  have hown {key : Bytes} (hne : key ≠ utf8 "Resources") (present : Bool) :
      ¬OwnResources key present := not_ownResources_of_ne hne present
  have hwidths₁ : Font.simpleWidths d₂.doc y₁ = Font.simpleWidths d.doc x :=
    Font.simpleWidths_eq hfound hxy₁ (hown (by decide)) (hown (by decide))
  have hfiller₁ : filler d₂.doc y₁ = filler d.doc x := by
    rw [filler, filler, Font.statedMissing?_eq hfound hxy₁ (hown (by decide)) (hown (by decide)) leads]
  obtain ⟨hchange, y, hy, hyy₁, hlisted, henclosed, hother⟩ :=
    setSimpleWidths_retains hy₁ rfl hlimit hset
  rw [hwidths₁] at hlisted henclosed hother
  rw [hfiller₁] at henclosed
  obtain ⟨hretains, hxy⟩ := hfound.repaired hxy₁ hchange hyy₁
  have hfree {key : Bytes} (hkey : key ∉ widthKeys.map utf8) (resources : key ≠ utf8 "Resources")
      (present : Bool) : ¬Repairing widthKeys key present := not_repairing hkey resources present
  have hsimple : (Font.load d'.doc y font).composite = false :=
    (hretains.composite_eq hxy (hfree (by decide) (by decide))).trans simple
  obtain ⟨hold, holdDefault⟩ : (Font.load d.doc x font).widths = Font.simpleWidths d.doc x ∧
      (Font.load d.doc x font).defaultWidth = Font.missingWidth d.doc x := Font.widths_of_simple simple
  obtain ⟨hnew, hnewDefault⟩ := Font.widths_of_simple hsimple
  have hdefault : (Font.load d'.doc y font).defaultWidth = (Font.load d.doc x font).defaultWidth := by
    rw [holdDefault, hnewDefault, Font.missingWidth_eq, Font.missingWidth_eq,
      Font.statedMissing?_eq hretains hxy (hfree (by decide) (by decide))
        (hfree (by decide) (by decide)) leads]
  rw [← hold, ← hnew] at hlisted henclosed hother
  exact ⟨font, d₂, y, hfont, hy, widened_of_widths
    (hretains.scale_eq hxy (hfree (by decide) (by decide)) (hfree (by decide) (by decide))) hdefault
    hlisted henclosed hother⟩

/-- When widths have been declared for codes of a simple font, it is loaded with them, filled up with the
width that its descriptor states or zero. So each of the other codes keeps its width exactly if the
descriptor states a positive one, or no code without one lies between codes with one. -/
theorem applyFont_simpleWidths (numbered : d.doc.Numbered) {f : FontEdit}
    (hop : FontOp.ofName? f.op = some .setWidths) (hpage : (Edit.page f.page).run d = .ok page d)
    (hx : d.doc.fontOf? page f.font = some x) (simple : (Font.load d.doc x none).composite = false)
    (leads : d.doc.Leads x "FontDescriptor")
    (declared : ∀ (code : Nat) w, f.widths[code]? = some w → w.Plain)
    (hrun : (applyFont f).run d = .ok u d') :
    ∃ font d₁ y old new, (fontId page f.font).run d = .ok font d₁ ∧ d'.doc.dict? font = some y ∧
      old = Font.load d.doc x font ∧ new = Font.load d'.doc y font ∧
      Font.Widened old new f.widths (filler d.doc x) ∧
      (∀ (code : Nat) w, f.widths[code]? = some w → new.advance code = old.scaled w) ∧
      ((∀ (code : Nat) w, old.widths[code]? = some w → w.Plain) → (filler d.doc x).Plain →
        ((∀ code ≤ 0xFF, f.widths[code]? = none → new.width code = old.width code) ↔
          Font.isPositive (filler d.doc x) = true ∨
            ∀ code ≤ 0xFF, ¬Font.Enclosed (mergeWidths old.widths f.widths) code)) := by
  obtain ⟨font, d₁, y, hfont, hy, hwidened⟩ := applyFont_widened numbered hop hpage hx simple leads hrun
  have hdefault : (Font.load d.doc x font).defaultWidth = Font.missingWidth d.doc x :=
    (Font.widths_of_simple simple).2
  refine ⟨font, d₁, y, _, _, hfont, hy, rfl, rfl, hwidened, fun code w hcode => ?_,
    fun plain plainFiller => keeps_iff_of_widened hwidened hdefault plain plainFiller 0xFF⟩
  rw [hwidened.advance, hwidened.given code w hcode, Number.reread_of_plain (declared code w hcode)]

/-! ## A gap -/

/-- A font with a width for one code. -/
def narrowFont : Dict Object :=
  .ofList [(utf8 "Subtype", .name "Type1"), (utf8 "FirstChar", .integer 65),
    (utf8 "Widths", .array [.integer 600])]

/-- A page with this font. -/
def narrowPage : Draft := fontPage narrowFont []

/-- Declares the width of the next code but one. -/
def wideCode : FontEdit :=
  { op := "set_widths", font := "F1", page := 1
    widths := (∅ : CodeTable Number).insert 67 (.whole 700) }

theorem numbered_narrowPage : narrowPage.doc.Numbered :=
  Document.numbered_of_entries (by
    simp [narrowPage, fontPage, OrderedMap.ofList, OrderedMap.insert, OrderedMap.put, OrderedMap.empty])

theorem page_narrowPage : (Edit.page wideCode.page).run narrowPage = .ok ⟨3, 0⟩ narrowPage := by cbv

theorem fontOf?_narrowPage : narrowPage.doc.fontOf? ⟨3, 0⟩ wideCode.font = some narrowFont := by rfl

theorem simple_narrowFont : (Font.load narrowPage.doc narrowFont none).composite = false := by
  decide +kernel

theorem leads_narrowFont : narrowPage.doc.Leads narrowFont "FontDescriptor" := by
  intro id hid
  cases hid

theorem exists_widened_narrowPage : ∃ d', (applyFont wideCode).run narrowPage = .ok () d' :=
  exists_of_result (by cbv)

theorem enclosed_narrowFont : Font.Enclosed
    (mergeWidths (Font.load narrowPage.doc narrowFont none).widths wideCode.widths) 66 :=
  ⟨by cbv, ⟨65, by decide +kernel, by decide⟩, 67, by decide +kernel, by decide⟩

/-- The declared code has its width, and of the others those with a width and those outside have theirs.
-/
theorem applyFont_simpleWidths_gap : ∃ d' font y,
    narrowPage.doc.Numbered ∧ FontOp.ofName? wideCode.op = some .setWidths ∧
      (Edit.page wideCode.page).run narrowPage = .ok ⟨3, 0⟩ narrowPage ∧
      narrowPage.doc.fontOf? ⟨3, 0⟩ wideCode.font = some narrowFont ∧
      (Font.load narrowPage.doc narrowFont none).composite = false ∧
      narrowPage.doc.Leads narrowFont "FontDescriptor" ∧
      (∀ (code : Nat) w, wideCode.widths[code]? = some w → w.Plain) ∧
      (applyFont wideCode).run narrowPage = .ok () d' ∧ d'.doc.dict? font = some y ∧
      (Font.load d'.doc y font).width 67 = .whole 700 ∧ (Font.load d'.doc y font).width 65 = .whole 600 ∧
      ¬∀ code ≤ 0xFF, wideCode.widths[code]? = none →
        (Font.load d'.doc y font).width code = (Font.load narrowPage.doc narrowFont font).width code := by
  have hdeclared := CodeTable.plain_of_toList (t := wideCode.widths) (by decide +kernel)
  obtain ⟨d', hrun⟩ := exists_widened_narrowPage
  obtain ⟨font, -, y, old, new, -, hy, rfl, rfl, hwidened, -, hiff⟩ := applyFont_simpleWidths
    numbered_narrowPage rfl page_narrowPage fontOf?_narrowPage simple_narrowFont leads_narrowFont
    hdeclared hrun
  have hplain : ∀ e ∈ (Font.load narrowPage.doc narrowFont none).widths.toList, e.2.Plain := by
    decide +kernel
  refine ⟨d', font, y, numbered_narrowPage, rfl, page_narrowPage, fontOf?_narrowPage,
    simple_narrowFont, leads_narrowFont, hdeclared, hrun, hy, (hwidened.given 67 _ (by cbv)).trans (by cbv),
    (hwidened.listed 65 (.whole 600) (by cbv) ?_).trans (by cbv), fun hkeep => ?_⟩
  · show (Font.load narrowPage.doc narrowFont none).widths[65]? = some (.whole 600)
    cbv
  · rcases (hiff (CodeTable.plain_of_toList hplain) (by decide +kernel)).mp hkeep with hpositive | hnone
    · exact absurd hpositive (by decide +kernel)
    · exact hnone 66 (by decide) enclosed_narrowFont

/-- The code between has no width of its own, and loses the one that it had: it does not advance any
more. -/
theorem applyFont_narrows_gap : ∃ d' font d₁ y,
    (Edit.page wideCode.page).run narrowPage = .ok ⟨3, 0⟩ narrowPage ∧
      narrowPage.doc.fontOf? ⟨3, 0⟩ wideCode.font = some narrowFont ∧
      (Font.load narrowPage.doc narrowFont none).composite = false ∧
      FontOp.ofName? wideCode.op = some .setWidths ∧
      (∀ (code : Nat) w, wideCode.widths[code]? = some w → w.Plain) ∧
      (applyFont wideCode).run narrowPage = .ok () d' ∧
      (fontId ⟨3, 0⟩ wideCode.font).run narrowPage = .ok font d₁ ∧ d'.doc.dict? font = some y ∧
      wideCode.widths[66]? = none ∧ (Font.load narrowPage.doc narrowFont font).advance 66 = 0.5 ∧
      (Font.load d'.doc y font).advance 66 = 0 := by
  obtain ⟨d', hrun⟩ := exists_widened_narrowPage
  obtain ⟨font, d₁, y, hfont, hy, hwidened⟩ := applyFont_widened numbered_narrowPage rfl
    page_narrowPage fontOf?_narrowPage simple_narrowFont leads_narrowFont hrun
  refine ⟨d', font, d₁, y, page_narrowPage, fontOf?_narrowPage, simple_narrowFont, rfl,
    CodeTable.plain_of_toList (t := wideCode.widths) (by decide +kernel), hrun, hfont, hy, by cbv, ?_, ?_⟩
  · show (Font.load narrowPage.doc narrowFont none).advance 66 = 0.5
    decide +kernel
  · rw [hwidened.advance, hwidened.enclosed 66 enclosed_narrowFont]
    show (Font.load narrowPage.doc narrowFont none).scaled _ = 0
    decide +kernel

end Edit

end AccessiblePdf
