import AccessiblePdf.Proofs.Font.Differences

/-!
Encodings that are given by name. A dictionary that is the encoding of a font gets the name as its base and
keeps all else, and anything else gives way to the name, but for the stream of a character map: that gives
way to a dictionary with nothing but a base (`Edit.setEncoding_names_iff`).
-/
namespace AccessiblePdf

/-- An encoding has been named: the dictionary that it was has the name as its base, and in the place of
anything else there is the name. -/
def Font.Named (old doc : Document) (name : String) (x y : Dict Object) : Prop :=
  match old.value? x "Encoding" with
  | some (.dictionary z) =>
    doc.value? y "Encoding" = some (.dictionary (z.insert "BaseEncoding" (.name name)))
  | _ => y.get? "Encoding" = some (.name name)

/-- The encoding of a font is a stream. -/
def Font.StreamEncoded (doc : Document) (x : Dict Object) : Prop :=
  ∃ entries content, doc.value? x "Encoding" = some (.stream entries content)

namespace Font

variable {old doc : Document} {x y : Dict Object} {name : String}

theorem not_streamEncoded (plain : doc.entryDict? x "Encoding" = none) : ¬StreamEncoded doc x := by
  intro h
  obtain ⟨entries, content, hstream⟩ := h
  rw [Document.entryDict?, hstream] at plain
  cases plain

theorem named_of_plain (plain : old.entryDict? x "Encoding" = none)
    (h : y.get? "Encoding" = some (.name name)) : Named old doc name x y := by
  rw [Document.entryDict?] at plain
  rw [Named]
  cases hvalue : old.value? x "Encoding" with
  | none => exact h
  | some o =>
    rw [hvalue, Option.bind_some] at plain
    cases o with
    | dictionary z => exact absurd plain (by simp [Object.entries?])
    | _ => exact h

end Font

namespace Edit

variable {d : Draft} {font : ObjectId} {x : Dict Object}

/-- The entries that change when an encoding is named. -/
def namingKeys : List String := ["Encoding", "BaseEncoding"]

theorem run_setEncoding (hx : d.doc.dict? font = some x) (name : String) :
    (setEncoding font name).run d =
      if (d.doc.entryDict? x "Encoding").isSome then
        (do setEntry (← indirectDict font "Encoding") "BaseEncoding" (.name name) : Edit Unit).run d
      else (setEntry font "Encoding" (.name name)).run d := by
  unfold setEncoding
  rw [run_bind (doc_ok.mpr ⟨rfl, rfl⟩), run_bind (dict_ok.mpr ⟨hx, rfl⟩)]
  split <;> rfl

theorem exists_setEncoding_name (hx : d.doc.dict? font = some x)
    (plain : d.doc.entryDict? x "Encoding" = none) (name : String) :
    ∃ d' y, (setEncoding font name).run d = .ok () d' ∧ d.doc.Retains (Under namingKeys) d'.doc ∧
      d'.doc.dict? font = some y ∧ y.get? "Encoding" = some (.name name) := by
  obtain ⟨d', hset⟩ := exists_setEntry hx "Encoding" (.name name)
  have hkeep : ∀ key, ¬Under namingKeys key (x.get? key).isSome →
      (x.insert "Encoding" (.name name)).get? key = x.get? key := by
    intro key hkey
    apply OrderedMap.get?_insert_of_ne
    intro hencoding
    apply hkey
    rw [hencoding]
    exact List.mem_cons_self
  obtain ⟨hretains, hy⟩ := modifyDict_retains hx hkeep hset
  refine ⟨d', _, ?_, hretains, hy, OrderedMap.get?_insert_self ..⟩
  rw [run_setEncoding hx, plain]
  exact hset

/-- What has entries gives way to a dictionary with a new base: the one that it was, or an empty one. -/
theorem exists_setEncoding_base (unused : d.doc.Unused) (hx : d.doc.dict? font = some x)
    (hentries : (d.doc.entryDict? x "Encoding").isSome = true) (name : String) :
    ∃ d' y id, (setEncoding font name).run d = .ok () d' ∧ d.doc.Retains (Under namingKeys) d'.doc ∧
      d'.doc.dict? font = some y ∧ y.get? "Encoding" = some (.reference id) ∧
      d'.doc.value? y "Encoding" =
        some (.dictionary ((Font.encodingDict d.doc x).insert "BaseEncoding" (.name name))) := by
  obtain ⟨id, d₁, hown⟩ := exists_indirectDict unused hx "Encoding"
  have hfree : (d.doc.value? x "Encoding").bind Object.dictionary? = none →
      Under namingKeys "Encoding" (x.get? "Encoding").isSome := fun _ => List.mem_cons_self
  obtain ⟨-, hz, -⟩ := indirectDict_own unused hx hfree hown
  obtain ⟨d', hset⟩ := exists_setEntry hz "BaseEncoding" (.name name)
  have hkeep : ∀ key, key ∉ ["BaseEncoding"].map utf8 →
      ((Font.encodingDict d.doc x).insert "BaseEncoding" (.name name)).get? key =
        (Font.encodingDict d.doc x).get? key := by
    intro key hkey
    apply OrderedMap.get?_insert_of_ne
    simpa using hkey
  obtain ⟨hretains, y, hy, -, hentry, hvalue⟩ :=
    modifyOwn_retains ["BaseEncoding"] unused hx rfl (by decide) hkeep hown hset
  refine ⟨d', y, id, ?_, hretains, hy, hentry, hvalue⟩
  rw [run_setEncoding hx, if_pos hentries, run_bind hown]
  exact hset

/-- An encoding can be given to every font by name. It is named then, unless it was a stream, and in the
place of a stream there is a dictionary with the base alone. Nothing else changes. -/
theorem setEncoding_names_iff (unused : d.doc.Unused) (hx : d.doc.dict? font = some x) (name : String) :
    ∃ d' y, (setEncoding font name).run d = .ok () d' ∧ d.doc.Retains (Under namingKeys) d'.doc ∧
      d'.doc.dict? font = some y ∧
      (Font.Named d.doc d'.doc name x y ↔ ¬Font.StreamEncoded d.doc x) ∧
      (Font.StreamEncoded d.doc x → d'.doc.value? y "Encoding" =
        some (.ofEntries [(utf8 "BaseEncoding", .name name)])) := by
  by_cases hentries : (d.doc.entryDict? x "Encoding").isSome = true
  · obtain ⟨d', y, id, hrun, hretains, hy, hentry, hvalue⟩ :=
      exists_setEncoding_base unused hx hentries name
    refine ⟨d', y, hrun, hretains, hy, ?_⟩
    obtain ⟨entries, hsome⟩ := Option.isSome_iff_exists.mp hentries
    obtain ⟨o, ho, hwith⟩ := Option.bind_eq_some_iff.mp hsome
    rw [Font.encodingDict, ho] at hvalue
    rw [Font.Named, Font.StreamEncoded, ho]
    cases o with
    | dictionary z =>
      have hnot : ¬∃ entries content, some (Object.dictionary z) = some (.stream entries content) := by simp
      exact ⟨⟨fun _ => hnot, fun _ => hvalue⟩, fun hstream => absurd hstream hnot⟩
    | stream dict content =>
      have hnot : y.get? "Encoding" ≠ some (.name name) := by simp [hentry]
      exact ⟨⟨fun h => absurd h hnot, fun h => absurd ⟨dict, content, rfl⟩ h⟩, fun _ => hvalue⟩
    | _ => exact absurd hwith (by simp [Object.entries?])
  · have hplain : d.doc.entryDict? x "Encoding" = none := by simpa using hentries
    have hnot := Font.not_streamEncoded hplain
    obtain ⟨d', y, hrun, hretains, hy, hname⟩ := exists_setEncoding_name hx hplain name
    exact ⟨d', y, hrun, hretains, hy, ⟨fun _ => hnot, fun _ => Font.named_of_plain hplain hname⟩,
      fun hstream => absurd hstream hnot⟩

/-! ## An encoding with differences, and a character map -/

/-- A font with this encoding in another object. -/
def encodedFont : Dict Object :=
  .ofList [(utf8 "Subtype", .name "Type0"), (utf8 "Encoding", .reference ⟨5, 0⟩)]

/-- A document with this font. -/
def encodedPage (encoding : Object) : Draft :=
  fontPage ∅ [(⟨4, 0⟩, .dictionary encodedFont), (⟨5, 0⟩, encoding)]

theorem unused_encodedPage (encoding : Object) : (encodedPage encoding).doc.Unused := rfl

/-- An encoding keeps its differences. -/
theorem setEncoding_names_differences :
    let old := encodedPage (.ofEntries [(utf8 "BaseEncoding", .name "MacRomanEncoding"),
      (utf8 "Differences", .array [.integer 0x42, .name "bullet"])])
    ∃ d' y, old.doc.Unused ∧ old.doc.dict? ⟨4, 0⟩ = some encodedFont ∧
      (setEncoding ⟨4, 0⟩ "WinAnsiEncoding").run old = .ok () d' ∧ d'.doc.dict? ⟨4, 0⟩ = some y ∧
      d'.doc.value? y "Encoding" = some (.ofEntries [(utf8 "BaseEncoding", .name "WinAnsiEncoding"),
        (utf8 "Differences", .array [.integer 0x42, .name "bullet"])]) := by
  intro old
  have hx : old.doc.dict? ⟨4, 0⟩ = some encodedFont := rfl
  have hnot : ¬Font.StreamEncoded old.doc encodedFont := by
    intro h
    obtain ⟨entries, content, hstream⟩ := h
    cases hstream
  obtain ⟨d', y, hrun, -, hy, hnamed, -⟩ :=
    setEncoding_names_iff (unused_encodedPage _) hx "WinAnsiEncoding"
  exact ⟨d', y, unused_encodedPage _, hx, hrun, hy, hnamed.mpr hnot⟩

/-- A character map is given up for a dictionary, which does not say that the encoding is the one that was
named. -/
theorem setEncoding_loses_name :
    let old := encodedPage (.stream (.ofList [(utf8 "CMapName", .name "Custom")]) [])
    ∃ d' y, (setEncoding ⟨4, 0⟩ "Identity-H").run old = .ok () d' ∧ d'.doc.dict? ⟨4, 0⟩ = some y ∧
      ¬Font.Named old.doc d'.doc "Identity-H" encodedFont y ∧ d'.doc.value? y "Encoding" =
        some (.ofEntries [(utf8 "BaseEncoding", .name "Identity-H")]) := by
  intro old
  have hx : old.doc.dict? ⟨4, 0⟩ = some encodedFont := rfl
  obtain ⟨d', y, id, hrun, -, hy, hentry, hvalue⟩ :=
    exists_setEncoding_base (unused_encodedPage _) hx rfl "Identity-H"
  refine ⟨d', y, hrun, hy, fun hnamed => ?_, hvalue⟩
  have hname : y.get? "Encoding" = some (.name "Identity-H") := hnamed
  rw [hentry] at hname
  cases hname

end Edit

end AccessiblePdf
