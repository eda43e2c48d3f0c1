import AccessiblePdf.Proofs.Instruction.References

/-!
The rules of instruction sets as conditions on what a set holds (`InstructionSet.Valid`). Each check of
an item is read as the condition that it decides (the lemmas `violations_eq_nil`), whatever the path
of the item is; only the ids of structure elements are a matter between items.
-/
namespace AccessiblePdf

/-! ## Conditions -/

/-- A text that is more than white space. -/
def Text.NotBlank (s : String) : Prop := ∃ c ∈ s.toList, Text.isBlank c = false

/-- `[A-Za-z]{2,8}(-[A-Za-z0-9]{1,8})*`, as a whole. -/
def IsLanguageTag (s : String) : Prop :=
  ∃ (first : List Char) (groups : List (List Char)),
    s.toList = first ++ groups.flatMap ('-' :: ·) ∧
    (2 ≤ first.length ∧ first.length ≤ 8 ∧ ∀ c ∈ first, c.isAlpha) ∧
    ∀ g ∈ groups, 1 ≤ g.length ∧ g.length ≤ 8 ∧ ∀ c ∈ g, c.isAlphanum

/-- A box in the positive quadrant with an area. No comparison holds of what is not a number. -/
structure Box.Valid (b : Box Float) : Prop where
  x : 0 ≤ b.x
  y : 0 ≤ b.y
  width : 0 < b.width
  height : 0 < b.height

structure MetadataEdit.Valid (m : MetadataEdit) : Prop where
  language : ∀ l ∈ m.language, IsLanguageTag l
  pdfuaPart : ∀ n ∈ m.pdfuaPart, n = 1 ∨ n = 2
  tabOrder : ∀ t ∈ m.tabOrder,
    Text.toAsciiLower t ∈ ["s", "structure", "r", "row", "c", "column"]

/-- A structure element that keeps the rules on its own, whatever ids the others have. -/
structure Tag.Valid (t : Tag) : Prop where
  id : ∀ id ∈ t.id, Text.NotBlank id
  role : t.role ∈ knownRoles
  scope : ∀ s ∈ t.scope, s ∈ knownScopes
  colspan : ∀ n ∈ t.colspan, 0 < n
  rowspan : ∀ n ∈ t.rowspan, 0 < n
  language : ∀ l ∈ t.language, IsLanguageTag l
  box : ∀ b ∈ t.box, b.Valid
  attributes : ∀ a ∈ t.attributes, Text.NotBlank a.owner ∧ Text.NotBlank a.key

structure TagRegion.Valid (ids : List String) (r : TagRegion) : Prop where
  node : r.node ∈ ids
  page : 0 < r.page
  box : ∃ b ∈ r.box, b.Valid

structure ArtifactRegion.Valid (r : ArtifactRegion) : Prop where
  page : 0 < r.page
  box : ∃ b ∈ r.box, b.Valid
  kind : Text.toAsciiLower r.kind ∈ ["layout", "header", "footer", "pagination", "background"]

/-- The name of an operation on annotations. -/
def AnnotationOp.name : AnnotationOp → String
  | .setContents => "set_contents"
  | .setTooltip => "set_tu"
  | .associate => "associate"
  | .createWidget => "create_widget"

/-- What an operation on annotations needs. Of the elements, only those that are named have to be
declared. -/
def AnnotationEdit.Payload (ids : List String) (a : AnnotationEdit) : AnnotationOp → Prop
  | .setContents | .setTooltip => (∃ i ∈ a.index, 0 ≤ i) ∧ ∃ v, a.value = some v
  | .associate => (∃ i ∈ a.index, 0 ≤ i) ∧ ∀ id ∈ a.node, id ∈ ids
  | .createWidget =>
    (∃ b ∈ a.rect, b.Valid) ∧ (∃ name ∈ a.fieldName, Text.NotBlank name) ∧
      (∃ t ∈ a.fieldType, t ∈ knownFieldTypes) ∧ ∀ id ∈ a.node, id ∈ ids

structure AnnotationEdit.Valid (ids : List String) (a : AnnotationEdit) : Prop where
  page : 0 < a.page
  payload : ∃ op : AnnotationOp, a.op = op.name ∧ a.Payload ids op

/-- The name of an operation on fonts. -/
def FontOp.name : FontOp → String
  | .writeCidSet => "write_cidset"
  | .writeCharSet => "write_charset"
  | .setEncoding => "set_encoding"
  | .setDifferences => "set_differences"
  | .writeToUnicode => "write_tounicode"
  | .setWidths => "set_widths"
  | .addDescriptor => "add_font_descriptor"

/-- A table that is not empty, with codes up to a limit and with values as `P` asks for them. -/
structure CodeTable.Filled {α : Type} (limit : Nat) (P : α → Prop) (t : CodeTable α) : Prop where
  nonempty : ∃ code : Nat, code ∈ t
  codes : ∀ code : Nat, code ∈ t → code ≤ limit
  values : ∀ a ∈ t.values, P a

/-- A width is finite and not negative. -/
def Number.IsWidth : Number → Prop
  | .whole n => 0 ≤ n
  | .real x => x.isFinite ∧ ¬ x < 0

/-- What an operation on fonts needs. -/
def FontEdit.Payload (f : FontEdit) : FontOp → Prop
  | .writeCidSet => f.cids ≠ [] ∧ ∀ cid ∈ f.cids, 0 ≤ cid ∧ cid ≤ 0xFFFF
  | .writeCharSet =>
    f.glyphNames ≠ [] ∧
      ∀ name ∈ f.glyphNames, name ≠ "" ∧ ∀ c ∈ name.toList, Text.isBlank c = false
  | .setEncoding => ∃ e ∈ f.encoding, e ∈ knownEncodings
  | .setDifferences => f.differences.Filled 0xFF Text.NotBlank
  | .writeToUnicode => f.mappings.Filled 0xFFFF fun _ => True
  | .setWidths => f.widths.Filled 0xFFFF Number.IsWidth
  | .addDescriptor => True

structure FontEdit.Valid (f : FontEdit) : Prop where
  font : Text.NotBlank f.font
  page : 0 < f.page
  payload : ∃ op : FontOp, f.op = op.name ∧ f.Payload op

structure OcrWord.Valid (w : OcrWord) : Prop where
  text : Text.NotBlank w.text
  box : ∃ b ∈ w.box, b.Valid
  confidence : ∀ c ∈ w.confidence, 0 ≤ c ∧ c ≤ 1

structure OcrPage.Valid (p : OcrPage) : Prop where
  page : 0 < p.page
  words : ∀ w ∈ p.words, w.Valid

/-- An instruction set that keeps all rules. -/
structure InstructionSet.Valid (set : InstructionSet) : Prop where
  version : set.version = some "1.0"
  metadata : ∀ m ∈ set.metadata, m.Valid
  tags : ∀ t ∈ set.allTags, t.Valid
  distinct : (Edit.idsOf set.allTags).Nodup
  regions : ∀ r ∈ set.regions, r.Valid (Edit.idsOf set.allTags)
  artifacts : ∀ r ∈ set.artifacts, r.Valid
  annotations : ∀ a ∈ set.annotations, a.Valid (Edit.idsOf set.allTags)
  fonts : ∀ f ∈ set.fonts, f.Valid
  ocr : ∀ p ∈ set.ocr, p.Valid

/-! ## Values -/

theorem Text.isEmptyOrBlank_eq_false {s : String} :
    Text.isEmptyOrBlank s = false ↔ Text.NotBlank s := by
  simp [Text.isEmptyOrBlank, Text.NotBlank]

theorem Rule.unless_notBlank {rule : Rule} {field s : String} :
    rule.unless field (!Text.isEmptyOrBlank s) = [] ↔ Text.NotBlank s := by
  rw [Rule.unless_eq_nil, Bool.not_eq_true', Text.isEmptyOrBlank_eq_false]

theorem Rule.unless_contains {rule : Rule} {field s : String} {words : List String} :
    rule.unless field (words.contains s) = [] ↔ s ∈ words := by
  rw [Rule.unless_eq_nil, List.contains_iff_mem]

theorem ifGiven_eq_nil {α : Type} {f : α → List Violation} {o : Option α} :
    ifGiven f o = [] ↔ ∀ a ∈ o, f a = [] := by
  cases o <;> simp [ifGiven]

theorem requiredAt_eq_nil {α : Type} {field : String} {f : α → List Violation} {o : Option α} :
    requiredAt field f o = [] ↔ ∃ a ∈ o, f a = [] := by
  cases o <;> simp [requiredAt]

theorem eachItem_eq_nil {α : Type} {f : String → α → List Violation} {P : α → Prop}
    (decides : ∀ path a, f path a = [] ↔ P a) {path : String} {i : Nat} {as : List α} :
    eachItem path f i as = [] ↔ ∀ a ∈ as, P a := by
  induction as generalizing i with
  | nil => simp [eachItem]
  | cons a as ih => rw [eachItem, List.append_eq_nil_iff, decides, ih, List.forall_mem_cons]

theorem intercalate_singleton {α : Type} (sep : α) (first : List α) (groups : List (List α)) :
    [sep].intercalate (first :: groups) = first ++ groups.flatMap (sep :: ·) := by
  induction groups generalizing first with
  | nil => simp
  | cons g groups ih => simp [List.intercalate_cons_cons, ih]

/-- A text is a language tag if its pieces between hyphens are as they should be. Letters and digits
are no hyphens, so no other way of cutting the text has to be looked at. -/
theorem isLanguageTag_iff {s : String} : isLanguageTag s = true ↔ IsLanguageTag s := by
  have pieces (first : List Char) (groups : List (List Char))
      (hsplit : s.toList.splitOn '-' = first :: groups) :
      isLanguageTag s = true ↔
        (2 ≤ first.length ∧ first.length ≤ 8 ∧ ∀ c ∈ first, c.isAlpha) ∧
          ∀ g ∈ groups, 1 ≤ g.length ∧ g.length ≤ 8 ∧ ∀ c ∈ g, c.isAlphanum := by
    simp [isLanguageTag, Text.splitOn, hsplit, and_assoc]
  constructor
  · intro h
    cases hsplit : s.toList.splitOn '-' with
    | nil => exact absurd hsplit (List.splitOn_ne_nil _ _)
    | cons first groups =>
      have hjoin : ['-'].intercalate (first :: groups) = s.toList := by
        rw [← hsplit, List.intercalate_splitOn]
      rw [intercalate_singleton] at hjoin
      exact ⟨first, groups, hjoin.symm, (pieces first groups hsplit).mp h⟩
  · intro h
    obtain ⟨first, groups, hjoin, hfirst, hgroups⟩ := h
    have hyphen : ∀ g ∈ first :: groups, '-' ∉ g := by
      intro g hg hmem
      rcases List.mem_cons.mp hg with rfl | hg
      · exact absurd (hfirst.2.2 _ hmem) (by decide)
      · exact absurd ((hgroups g hg).2.2 _ hmem) (by decide)
    have hsplit : s.toList.splitOn '-' = first :: groups := by
      rw [hjoin, ← intercalate_singleton, List.splitOn_intercalate _ hyphen (List.cons_ne_nil _ _)]
    exact (pieces first groups hsplit).mpr ⟨hfirst, hgroups⟩

theorem languageViolations_eq_nil {field s : String} :
    languageViolations field s = [] ↔ IsLanguageTag s := by
  rw [languageViolations, Rule.unless_eq_nil, isLanguageTag_iff]

theorem pageViolations_eq_nil {path : String} {page : Int} :
    pageViolations path page = [] ↔ 0 < page := by
  rw [pageViolations, Rule.unless_eq_nil, decide_eq_true_iff]

theorem Box.violations_eq_nil {field : String} {b : Box Float} : b.violations field = [] ↔ b.Valid := by
  simp only [Box.violations, List.append_eq_nil_iff, Rule.unless_eq_nil, decide_eq_true_iff]
  constructor
  · intro h
    obtain ⟨⟨⟨x, y⟩, width⟩, height⟩ := h
    exact ⟨x, y, width, height⟩
  · intro v
    exact ⟨⟨⟨v.x, v.y⟩, v.width⟩, v.height⟩

theorem boxRequired_eq_nil {field : String} {o : Option (Box Float)} :
    boxRequired field o = [] ↔ ∃ b ∈ o, b.Valid := by
  simp only [boxRequired, requiredAt_eq_nil, Box.violations_eq_nil]

theorem TabOrder.isSome_ofName? {name : String} :
    (ofName? name).isSome = true ↔
      Text.toAsciiLower name ∈ ["s", "structure", "r", "row", "c", "column"] := by
  unfold ofName?
  split <;> simp_all

theorem ArtifactKind.isSome_ofName? {name : String} :
    (ofName? name).isSome = true ↔
      Text.toAsciiLower name ∈ ["layout", "header", "footer", "pagination", "background"] := by
  unfold ofName?
  split <;> simp_all

theorem AnnotationOp.ofName?_eq_some {name : String} {op : AnnotationOp} :
    ofName? name = some op ↔ name = op.name := by
  constructor
  · unfold ofName?
    split <;> intro h <;> cases h <;> rfl
  · intro h
    rw [h]
    cases op <;> rfl

theorem FontOp.ofName?_eq_some {name : String} {op : FontOp} :
    ofName? name = some op ↔ name = op.name := by
  constructor
  · unfold ofName?
    split <;> intro h <;> cases h <;> rfl
  · intro h
    rw [h]
    cases op <;> rfl

/-! ## Sections -/

theorem versionViolations_eq_nil {v : Option String} :
    versionViolations v = [] ↔ v = some "1.0" := by
  cases v <;> simp [versionViolations, Rule.unless_eq_nil, supportedVersion]

theorem MetadataEdit.violations_eq_nil {m : MetadataEdit} : m.violations = [] ↔ m.Valid := by
  simp only [violations, List.append_eq_nil_iff, ifGiven_eq_nil, languageViolations_eq_nil,
    Rule.unless_eq_nil, TabOrder.isSome_ofName?, Bool.or_eq_true, beq_iff_eq]
  constructor
  · intro h
    obtain ⟨⟨language, pdfuaPart⟩, tabOrder⟩ := h
    exact ⟨language, pdfuaPart, tabOrder⟩
  · intro v
    exact ⟨⟨v.language, v.pdfuaPart⟩, v.tabOrder⟩

theorem TagAttribute.violations_eq_nil (path : String) (a : TagAttribute) :
    a.violations path = [] ↔ Text.NotBlank a.owner ∧ Text.NotBlank a.key := by
  rw [violations, List.append_eq_nil_iff, Rule.unless_notBlank, Rule.unless_notBlank]

theorem roleViolations_eq_nil {field role : String} :
    roleViolations field role = [] ↔ role ∈ knownRoles := by
  rw [roleViolations]
  split
  · next h =>
    rw [String.isEmpty_iff.mp h]
    exact ⟨fun h => absurd h (List.cons_ne_nil _ _), fun h => absurd h (by decide)⟩
  · exact Rule.unless_contains

theorem idViolations_eq_nil {seen : List String} {field id : String} :
    idViolations seen field id = [] ↔ Text.NotBlank id ∧ id ∉ seen := by
  rw [idViolations]
  split
  · next h => simp [← Text.isEmptyOrBlank_eq_false, h]
  · next h =>
    rw [← Text.isEmptyOrBlank_eq_false, Rule.unless_eq_nil]
    simp [h]

/-- A structure element is checked on its own and against the ids before it. -/
theorem Tag.violations_eq_nil {seen : List String} {path : String} {t : Tag} :
    t.violations seen path = [] ↔ t.Valid ∧ ∀ id ∈ t.id, id ∉ seen := by
  simp only [violations, List.append_eq_nil_iff, ifGiven_eq_nil, idViolations_eq_nil,
    roleViolations_eq_nil, Rule.unless_eq_nil, List.contains_iff_mem, decide_eq_true_iff,
    languageViolations_eq_nil, Box.violations_eq_nil,
    eachItem_eq_nil TagAttribute.violations_eq_nil]
  constructor
  · intro h
    obtain ⟨⟨⟨⟨⟨⟨⟨id, role⟩, scope⟩, colspan⟩, rowspan⟩, language⟩, box⟩, attributes⟩ := h
    exact ⟨⟨fun i h => (id i h).1, role, scope, colspan, rowspan, language, box, attributes⟩,
      fun i h => (id i h).2⟩
  · intro h
    obtain ⟨v, unseen⟩ := h
    exact ⟨⟨⟨⟨⟨⟨⟨fun i h => ⟨v.id i h, unseen i h⟩, v.role⟩, v.scope⟩, v.colspan⟩, v.rowspan⟩,
      v.language⟩, v.box⟩, v.attributes⟩

theorem TagRegion.violations_eq_nil {ids : List String} (hids : ∀ id ∈ ids, Text.NotBlank id)
    (path : String) (r : TagRegion) : r.violations ids path = [] ↔ r.Valid ids := by
  have hnode : (if Text.isEmptyOrBlank r.node then [⟨path ++ ".node", .required⟩]
      else (Rule.declaredNode r.node).unless (path ++ ".node") (ids.contains r.node)) = [] ↔
      r.node ∈ ids := by
    split
    · next h =>
      refine ⟨fun h => absurd h (List.cons_ne_nil _ _), fun hmem => ?_⟩
      have := Text.isEmptyOrBlank_eq_false.mpr (hids _ hmem)
      simp [h] at this
    · exact Rule.unless_contains
  rw [violations, List.append_eq_nil_iff, List.append_eq_nil_iff, hnode, pageViolations_eq_nil,
    boxRequired_eq_nil]
  constructor
  · intro h
    obtain ⟨⟨node, page⟩, box⟩ := h
    exact ⟨node, page, box⟩
  · intro v
    exact ⟨⟨v.node, v.page⟩, v.box⟩

theorem ArtifactRegion.violations_eq_nil (path : String) (r : ArtifactRegion) :
    r.violations path = [] ↔ r.Valid := by
  rw [violations, List.append_eq_nil_iff, List.append_eq_nil_iff, pageViolations_eq_nil,
    boxRequired_eq_nil, Rule.unless_eq_nil, ArtifactKind.isSome_ofName?]
  constructor
  · intro h
    obtain ⟨⟨page, box⟩, kind⟩ := h
    exact ⟨page, box, kind⟩
  · intro v
    exact ⟨⟨v.page, v.box⟩, v.kind⟩

namespace AnnotationEdit

theorem indexViolations_eq_nil {path : String} {o : Option Int} :
    indexViolations path o = [] ↔ ∃ i ∈ o, 0 ≤ i := by
  simp only [indexViolations, requiredAt_eq_nil, Rule.unless_eq_nil, decide_eq_true_iff]

theorem nodeViolations_eq_nil {ids : List String} {path : String} {a : AnnotationEdit} :
    a.nodeViolations ids path = [] ↔ ∀ id ∈ a.node, id ∈ ids := by
  simp only [nodeViolations, ifGiven_eq_nil, Rule.unless_contains]

theorem widgetViolations_eq_nil {path : String} {a : AnnotationEdit} :
    a.widgetViolations path = [] ↔
      (∃ b ∈ a.rect, b.Valid) ∧ (∃ name ∈ a.fieldName, Text.NotBlank name) ∧
        ∃ t ∈ a.fieldType, t ∈ knownFieldTypes := by
  simp only [widgetViolations, List.append_eq_nil_iff, boxRequired_eq_nil, requiredAt_eq_nil,
    Rule.unless_eq_nil, List.contains_iff_mem, Option.any_eq_true, Bool.not_eq_true',
    Text.isEmptyOrBlank_eq_false, Option.mem_def, and_assoc]

theorem valid_iff {ids : List String} {a : AnnotationEdit} {op : AnnotationOp}
    (h : AnnotationOp.ofName? a.op = some op) : a.Valid ids ↔ 0 < a.page ∧ a.Payload ids op := by
  constructor
  · intro valid
    obtain ⟨page, op', hop, payload⟩ := valid
    rw [AnnotationOp.ofName?_eq_some.mpr hop] at h
    cases h
    exact ⟨page, payload⟩
  · intro checked
    obtain ⟨page, payload⟩ := checked
    exact ⟨page, op, AnnotationOp.ofName?_eq_some.mp h, payload⟩

theorem violations_eq_nil (ids : List String) (path : String) (a : AnnotationEdit) :
    a.violations ids path = [] ↔ a.Valid ids := by
  rw [violations]
  split
  · next h =>
    refine ⟨fun h => absurd h (List.cons_ne_nil _ _), fun valid => ?_⟩
    obtain ⟨_, op, hop, _⟩ := valid
    simp [AnnotationOp.ofName?_eq_some.mpr hop] at h
  · next op h =>
    rw [valid_iff h, List.append_eq_nil_iff, pageViolations_eq_nil]
    refine and_congr_right fun _ => ?_
    cases op <;> simp only [List.append_eq_nil_iff, indexViolations_eq_nil, Rule.unless_eq_nil,
      nodeViolations_eq_nil, widgetViolations_eq_nil, Option.isSome_iff_exists, Payload, and_assoc]

end AnnotationEdit

namespace FontEdit

theorem codeViolations_eq_nil {α : Type} {field limitText : String} {limit : Nat}
    {t : CodeTable α} :
    codeViolations field limit limitText t = [] ↔ ∀ code : Nat, code ∈ t → code ≤ limit := by
  rw [codeViolations]
  split
  · next code h =>
    have hmem : code ∈ t := Std.TreeMap.mem_keys.mp (List.mem_of_find?_eq_some h)
    have hlimit : limit < code := by simpa using List.find?_some h
    exact ⟨fun h => absurd h (List.cons_ne_nil _ _), fun h => absurd (h code hmem) (by omega)⟩
  · next h =>
    simp only [List.find?_eq_none, Std.TreeMap.mem_keys, decide_eq_true_iff, Nat.not_lt] at h
    exact ⟨fun _ => h, fun _ => rfl⟩

/-- The checks of a table together: it has entries, its codes stay below the limit, and its values are
as `P` asks. -/
theorem filled_iff {α : Type} (field limitText : String) {limit : Nat} {t : CodeTable α}
    {P : α → Prop} :
    (Rule.tableNotEmpty.unless field (!t.isEmpty) = [] ∧
      codeViolations field limit limitText t = []) ∧ (∀ a ∈ t.values, P a) ↔ t.Filled limit P := by
  have hnonempty : Rule.tableNotEmpty.unless field (!t.isEmpty) = [] ↔ ∃ code : Nat, code ∈ t := by
    rw [Rule.unless_eq_nil, Bool.not_eq_true', ← Bool.not_eq_true,
      Std.TreeMap.isEmpty_iff_forall_not_mem]
    simp only [not_forall, not_not]
  rw [hnonempty, codeViolations_eq_nil]
  constructor
  · intro h
    obtain ⟨⟨nonempty, codes⟩, values⟩ := h
    exact ⟨nonempty, codes, values⟩
  · intro v
    exact ⟨⟨v.nonempty, v.codes⟩, v.values⟩

theorem isValidWidth_iff {w : Number} : isValidWidth w = true ↔ w.IsWidth := by
  cases w <;> simp [isValidWidth, Number.IsWidth]

theorem payloadViolations_eq_nil {path : String} {f : FontEdit} {op : FontOp} :
    f.payloadViolations path op = [] ↔ f.Payload op := by
  cases op with
  | writeCidSet => simp [payloadViolations, Rule.unless_eq_nil, Payload]
  | writeCharSet => simp [payloadViolations, Rule.unless_eq_nil, Payload]
  | setEncoding =>
    simp only [payloadViolations, requiredAt_eq_nil, Rule.unless_contains, Payload]
  | setDifferences =>
    rw [payloadViolations, List.append_eq_nil_iff, List.append_eq_nil_iff, Payload,
      ← filled_iff (path ++ ".differences") "0xFF"]
    refine and_congr_right fun _ => ?_
    simp only [Rule.unless_eq_nil, List.all_eq_true, Bool.not_eq_true',
      Text.isEmptyOrBlank_eq_false]
  | writeToUnicode =>
    rw [payloadViolations, List.append_eq_nil_iff, Payload,
      ← filled_iff (path ++ ".mappings") "0xFFFF"]
    simp only [implies_true, and_true]
  | setWidths =>
    rw [payloadViolations, List.append_eq_nil_iff, List.append_eq_nil_iff, Payload,
      ← filled_iff (path ++ ".widths") "0xFFFF"]
    refine and_congr_right fun _ => ?_
    simp only [Rule.unless_eq_nil, List.all_eq_true, isValidWidth_iff]
  | addDescriptor => simp [payloadViolations, Payload]

theorem valid_iff {f : FontEdit} {op : FontOp} (h : FontOp.ofName? f.op = some op) :
    f.Valid ↔ (Text.NotBlank f.font ∧ 0 < f.page) ∧ f.Payload op := by
  constructor
  · intro valid
    obtain ⟨font, page, op', hop, payload⟩ := valid
    rw [FontOp.ofName?_eq_some.mpr hop] at h
    cases h
    exact ⟨⟨font, page⟩, payload⟩
  · intro checked
    obtain ⟨⟨font, page⟩, payload⟩ := checked
    exact ⟨font, page, op, FontOp.ofName?_eq_some.mp h, payload⟩

theorem violations_eq_nil (path : String) (f : FontEdit) : f.violations path = [] ↔ f.Valid := by
  rw [violations]
  split
  · next h =>
    refine ⟨fun h => absurd h (List.cons_ne_nil _ _), fun valid => ?_⟩
    obtain ⟨_, _, op, hop, _⟩ := valid
    simp [FontOp.ofName?_eq_some.mpr hop] at h
  · next op h =>
    rw [valid_iff h, List.append_eq_nil_iff, List.append_eq_nil_iff, Rule.unless_notBlank,
      pageViolations_eq_nil, payloadViolations_eq_nil]

end FontEdit

theorem OcrWord.violations_eq_nil (path : String) (w : OcrWord) :
    w.violations path = [] ↔ w.Valid := by
  simp only [violations, List.append_eq_nil_iff, boxRequired_eq_nil, ifGiven_eq_nil,
    Rule.unless_eq_nil, Bool.not_eq_true', Text.isEmptyOrBlank_eq_false, Bool.and_eq_true,
    decide_eq_true_iff]
  constructor
  · intro h
    obtain ⟨⟨text, box⟩, confidence⟩ := h
    exact ⟨text, box, confidence⟩
  · intro v
    exact ⟨⟨v.text, v.box⟩, v.confidence⟩

theorem OcrPage.violations_eq_nil (path : String) (p : OcrPage) :
    p.violations path = [] ↔ p.Valid := by
  rw [violations, List.append_eq_nil_iff, pageViolations_eq_nil,
    eachItem_eq_nil OcrWord.violations_eq_nil]
  constructor
  · intro h
    obtain ⟨page, words⟩ := h
    exact ⟨page, words⟩
  · intro v
    exact ⟨v.page, v.words⟩

end AccessiblePdf
