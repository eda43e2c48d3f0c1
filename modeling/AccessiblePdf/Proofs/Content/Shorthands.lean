import AccessiblePdf.Proofs.Content.Scan
import AccessiblePdf.Proofs.Document.Entry

/-!
Operators that show text and do something else besides. Each stands for operations of which only the last
one shows text (`Shorthand`): a move to the next line, spacings, or one string in the place of several.
Written out they draw the same, and so does all that follows; only the operations are counted anew
(`ofContent_expand`).
-/
namespace AccessiblePdf

/-! ## Strings in a row -/

namespace Font

variable {f : Font}

theorem pairCodes_append (b : Bytes) :
    ∀ {a : Bytes}, a.length % 2 = 0 → pairCodes (a ++ b) = pairCodes a ++ pairCodes b
  | [], _ => rfl
  | [_], even => absurd even (by simp)
  | x :: y :: a, even => by
    have heven : a.length % 2 = 0 := by
      rw [List.length_cons, List.length_cons] at even
      omega
    rw [List.cons_append, List.cons_append, pairCodes, pairCodes, pairCodes_append b heven,
      List.cons_append]

theorem codes_append {a : Bytes} (whole : f.composite = true → a.length % 2 = 0) (b : Bytes) :
    f.codes (a ++ b) = f.codes a ++ f.codes b := by
  cases hcomposite : f.composite with
  | true => simp only [codes, hcomposite, if_true, pairCodes_append b (whole hcomposite)]
  | false => simp only [codes, hcomposite, Bool.false_eq_true, if_false, List.map_append]

theorem codes_nil (f : Font) : f.codes [] = [] := by
  rw [codes]
  split <;> rfl

end Font

namespace Pen

theorem widthOnto_append (f : Font) (g : GraphicsState) (width : Float) (codes codes' : List Nat) :
    widthOnto f g width (codes ++ codes') = widthOnto f g (widthOnto f g width codes) codes' :=
  List.foldl_append

theorem measure_strings {f : Font} {strings : List Bytes}
    (whole : f.composite = true → ∀ s ∈ strings, s.length % 2 = 0) (g : GraphicsState)
    (codes : List Nat) (width : Float) :
    (strings.map TextItem.string).foldl (measure f g) (codes, width) =
      measure f g (codes, width) (.string strings.flatten) := by
  induction strings generalizing codes width with
  | nil =>
    simp only [List.map_nil, List.foldl_nil, List.flatten_nil, measure, Font.codes_nil, List.append_nil]
    rfl
  | cons s strings ih =>
    have hfirst : f.composite = true → s.length % 2 = 0 := fun h => whole h s List.mem_cons_self
    rw [List.map_cons, List.foldl_cons, measure,
      ih fun h s' hs' => whole h s' (List.mem_cons_of_mem _ hs')]
    simp only [measure, List.flatten_cons, Font.codes_append hfirst, widthOnto_append, List.append_assoc]

theorem showItems_strings {r : ContentResources} {p : Pen} {strings : List Bytes}
    (whole : (r.font (p.graphics.font.getD [])).composite = true → ∀ s ∈ strings, s.length % 2 = 0) :
    p.showItems r (strings.map TextItem.string) = p.showItems r [.string strings.flatten] := by
  simp only [showItems, measure_strings whole, List.foldl_cons, List.foldl_nil]

end Pen

/-! ## Operations that stand for several -/

/-- The font in which text is shown. -/
def ScanState.font (r : ContentResources) (s : ScanState) : Font :=
  r.font (s.pen.graphics.font.getD [])

open Operation in
/-- Where text is shown in a font, an operation stands for some that draw nothing and one that draws. -/
inductive Shorthand (font : Font) : Operation → List Operation → Operation → Prop where
  | nextLine (operands : List Object) :
    Shorthand font ⟨nextLineOperator, operands⟩ [⟨"T*", []⟩] ⟨"Tj", operands⟩
  | spaced {word char : Object} (wordNumber : word.float?.isSome = true)
      (charNumber : char.float?.isSome = true) (operands : List Object) :
    Shorthand font ⟨spacedOperator, word :: char :: operands⟩ [⟨"Tw", [word]⟩, ⟨"Tc", [char]⟩]
      ⟨nextLineOperator, operands⟩
  | strings {strings : List (Bytes × StringStyle)}
      (whole : font.composite = true → ∀ s ∈ strings, s.1.length % 2 = 0) (style : StringStyle)
      (operands : List Object) :
    Shorthand font ⟨"TJ", .array (strings.map fun s => .string s.1 s.2) :: operands⟩ []
      ⟨"Tj", .string (strings.map (·.1)).flatten style :: operands⟩

namespace Operation

variable {operands : List Object}

theorem command_nextLineShow (operands : List Object) :
    command ⟨nextLineOperator, operands⟩ = .nextLineShow (shown ⟨nextLineOperator, operands⟩ 0) := rfl

theorem command_spacedShow {word char : Object} {w c : Float} (hword : word.float? = some w)
    (hchar : char.float? = some c) (operands : List Object) :
    command ⟨spacedOperator, word :: char :: operands⟩ =
      .spacedShow (some w) (some c) (shown ⟨nextLineOperator, operands⟩ 0) := by
  show Command.spacedShow word.float? char.float? _ = _
  rw [hword, hchar]
  rfl

theorem command_wordSpacing {o : Object} {x : Float} (h : o.float? = some x) :
    command ⟨"Tw", [o]⟩ = .wordSpacing x := by
  show Command.wordSpacing (o.float?.getD 0) = _
  rw [h, Option.getD_some]

theorem command_charSpacing {o : Object} {x : Float} (h : o.float? = some x) :
    command ⟨"Tc", [o]⟩ = .charSpacing x := by
  show Command.charSpacing (o.float?.getD 0) = _
  rw [h, Option.getD_some]

theorem command_strings (strings : List (Bytes × StringStyle)) (operands : List Object) :
    command ⟨"TJ", .array (strings.map fun s => .string s.1 s.2) :: operands⟩ =
      .showText ((strings.map (·.1)).map TextItem.string) := by
  show Command.showText ((strings.map fun s => Object.string s.1 s.2).filterMap TextItem.ofObject?) = _
  congr 1
  induction strings with
  | nil => rfl
  | cons s strings ih => exact congrArg (TextItem.string s.1 :: ·) ih

end Operation

/-! ## Counting operations anew -/

/-- The number of an operation when there are `n` more from operation `k` on. -/
def shiftFrom (k n i : Nat) : Nat := if i < k then i else i + n

theorem shiftFrom_of_lt {k n i : Nat} (h : i < k) : shiftFrom k n i = i := if_pos h

theorem shiftFrom_of_le {k n i : Nat} (h : k ≤ i) : shiftFrom k n i = i + n :=
  if_neg (Nat.not_lt_of_le h)

namespace Drawn

/-- The same drawn by an operation that is counted anew. -/
def shift (k n : Nat) (d : Drawn) : Drawn :=
  { d with index := shiftFrom k n d.index, start := shiftFrom k n d.start }

/-- The same drawn when operation `k` is written out as `n` more, the last of them with some operator. -/
def expand (k n : Nat) (operator : String) (d : Drawn) : Drawn :=
  { d.shift k n with operator := if d.index = k then operator else d.operator }

theorem expand_of_lt {d : Drawn} {k : Nat} (n : Nat) (operator : String) (index : d.index < k)
    (start : d.start < k) : d.expand k n operator = d := by
  rw [expand, shift, shiftFrom_of_lt index, shiftFrom_of_lt start, if_neg (Nat.ne_of_lt index)]

theorem expand_of_gt {d : Drawn} {k : Nat} (n : Nat) (operator : String) (index : k < d.index) :
    d.expand k n operator = d.shift k n := by
  rw [expand, if_neg (Nat.ne_of_gt index)]
  rfl

end Drawn

namespace ScanState

variable {r : ContentResources} {s : ScanState} {op last : Operation} {quiet : List Operation}
  {k n i : Nat}

/-- The same when the path began with an operation that is counted anew. -/
def shift (k n : Nat) (s : ScanState) : ScanState :=
  { s with pathStart := s.pathStart.map (shiftFrom k n) }

theorem shift_of_lt (n : Nat) (h : ∀ j, s.pathStart = some j → j < k) : s.shift k n = s := by
  have hstart : s.pathStart.map (shiftFrom k n) = s.pathStart := by
    cases hs : s.pathStart with
    | none => rfl
    | some j => rw [Option.map_some, shiftFrom_of_lt (h j hs)]
  rw [shift, hstart]

theorem step_shift (r : ContentResources) (s : ScanState) (op : Operation) (n : Nat) (h : k ≤ i) :
    (s.shift k n).step r (i + n) op =
      ((s.step r i op).1.shift k n, (s.step r i op).2.map (Drawn.shift k n)) := by
  have hnow : shiftFrom k n i = i + n := shiftFrom_of_le h
  have hafter : pathStartAfter (s.pathStart.map (shiftFrom k n)) (i + n) op.command =
      (pathStartAfter s.pathStart i op.command).map (shiftFrom k n) := by
    rw [pathStartAfter_eq, pathStartAfter_eq]
    cases s.pathStart <;> split <;> try split
    all_goals simp [hnow]
  have hstart : startOf (s.pathStart.map (shiftFrom k n)) (i + n) op.command =
      shiftFrom k n (startOf s.pathStart i op.command) := by
    rw [startOf_eq, startOf_eq]
    cases s.pathStart <;> split <;> simp [hnow]
  simp only [step, shift, hafter, hstart, Option.map_map]
  congr 2
  funext figure
  simp only [Function.comp_apply, Drawn.shift, hnow]

theorem run_shift (r : ContentResources) (s : ScanState) (ops : List Operation) (n : Nat) (h : k ≤ i) :
    run r (s.shift k n) (i + n) ops =
      ((run r s i ops).1.shift k n, (run r s i ops).2.map (Drawn.shift k n)) := by
  induction ops generalizing s i with
  | nil => rfl
  | cons op ops ih =>
    have hnext : i + n + 1 = i + 1 + n := by omega
    simp only [run, step_shift r s op n h, hnext, ih _ (Nat.le_succ_of_le h), List.map_append]
    cases (s.step r i op).2 <;> rfl

theorem le_index_of_mem_run {ops : List Operation} {d : Drawn} (h : d ∈ (run r s i ops).2) :
    i ≤ d.index := by
  induction ops generalizing s i with
  | nil => exact absurd h List.not_mem_nil
  | cons op ops ih =>
    rw [run] at h
    rcases List.mem_append.mp h with h | h
    · obtain ⟨figure, -, rfl⟩ := Option.map_eq_some_iff.mp (Option.mem_toList.mp h)
      exact Nat.le_refl i
    · exact Nat.le_of_succ_le (ih h)

/-! ## Writing operations out -/

theorem run_shorthand (h : Shorthand (s.font r) op quiet last) (i : Nat) :
    run r s i (quiet ++ [last]) = ((s.step r i op).1, (s.step r i op).2.toList.map fun d =>
      { d with
        index := i + quiet.length, start := i + quiet.length, operator := last.operator }) := by
  cases h with
  | nextLine operands => rfl
  | spaced wordNumber charNumber operands =>
    obtain ⟨w, hw⟩ := Option.isSome_iff_exists.mp wordNumber
    obtain ⟨c, hc⟩ := Option.isSome_iff_exists.mp charNumber
    simp only [List.cons_append, List.nil_append, run, step, Operation.command_wordSpacing hw,
      Operation.command_charSpacing hc, Operation.command_spacedShow hw hc,
      Operation.command_nextLineShow]
    rfl
  | @strings strings whole style operands =>
    have hwhole : (s.font r).composite = true → ∀ b ∈ strings.map (·.1), b.length % 2 = 0 :=
      fun h => List.forall_mem_map.mpr (whole h)
    simp only [List.nil_append, run, step, Operation.command_strings, Pen.step,
      Pen.showItems_strings hwhole]
    rfl

theorem step_shorthand (h : Shorthand (s.font r) op quiet last) (i : Nat) :
    ∃ pen figure, s.step r i op =
      (⟨pen, s.marks, s.pathStart⟩, some ⟨i, i, op.operator, figure, s.marks.marks⟩) := by
  cases h with
  | nextLine operands => exact ⟨_, _, rfl⟩
  | spaced wordNumber charNumber operands => exact ⟨_, _, rfl⟩
  | strings whole style operands => exact ⟨_, _, rfl⟩

theorem expand_front {front : List Operation} {d : Drawn} (h : d ∈ (run r {} 0 front).2) (n : Nat)
    (operator : String) : d.expand front.length n operator = d := by
  have hdrawn : drawnAt r front d.index = some d := mem_operators.mp h
  have hindex := drawnAt_lt hdrawn
  exact Drawn.expand_of_lt n operator hindex (Nat.lt_of_le_of_lt (start_le hdrawn) hindex)

/-- The operations around one that is written out draw what they drew, and are counted anew. -/
theorem run_expand {front : List Operation}
    (h : Shorthand ((run r {} 0 front).1.font r) op quiet last) (behind : List Operation) :
    (run r {} 0 (front ++ (quiet ++ last :: behind))).2 =
      (run r {} 0 (front ++ op :: behind)).2.map
        (Drawn.expand front.length quiet.length last.operator) := by
  obtain ⟨pen, figure, hstep⟩ := step_shorthand h front.length
  let s := (run r {} 0 front).1
  let next : ScanState := ⟨pen, s.marks, s.pathStart⟩
  let more := (run r next (front.length + 1) behind).2
  -- A path that is open here began in front, where nothing is counted anew.
  have hnext : next.shift front.length quiet.length = next := shift_of_lt _ fun j hj =>
    pathStart_le r front front.length j (by rw [before_length]; exact hj)
  have hmore : (run r next (front.length + (quiet ++ [last]).length) behind).2 =
      more.map (Drawn.shift front.length quiet.length) := by
    have hcount : front.length + (quiet ++ [last]).length = front.length + 1 + quiet.length := by
      rw [List.length_append, List.length_singleton]
      omega
    have hshift := run_shift r next behind quiet.length (Nat.le_succ front.length)
    rw [hnext] at hshift
    rw [hcount, hshift]
  have hfront : (run r {} 0 front).2.map (Drawn.expand front.length quiet.length last.operator) =
      (run r {} 0 front).2 :=
    (List.map_congr_left fun d hd => expand_front hd quiet.length last.operator).trans (List.map_id _)
  have hbehind : more.map (Drawn.expand front.length quiet.length last.operator) =
      more.map (Drawn.shift front.length quiet.length) :=
    List.map_congr_left fun d hd => Drawn.expand_of_gt _ _ (le_index_of_mem_run hd)
  have hhere : Drawn.expand front.length quiet.length last.operator
      ⟨front.length, front.length, op.operator, figure, s.marks.marks⟩ =
      ⟨front.length + quiet.length, front.length + quiet.length, last.operator, figure,
        s.marks.marks⟩ := by
    simp [Drawn.expand, Drawn.shift, shiftFrom]
  calc (run r {} 0 (front ++ (quiet ++ last :: behind))).2
      = (run r {} 0 front).2 ++ (⟨front.length + quiet.length, front.length + quiet.length,
          last.operator, figure, s.marks.marks⟩ ::
            more.map (Drawn.shift front.length quiet.length)) := by
        rw [List.append_cons quiet last behind, run_append, Nat.zero_add, run_append, run_shorthand h,
          hstep, ← hmore]
        rfl
    _ = (run r {} 0 (front ++ op :: behind)).2.map
          (Drawn.expand front.length quiet.length last.operator) := by
        rw [run_append, Nat.zero_add, run, hstep, List.map_append, hfront, ← hbehind, ← hhere]
        rfl

end ScanState

namespace PageScan

theorem filterMap_openedMcid?_shorthand {font : Font} {op last : Operation} {quiet : List Operation}
    (h : Shorthand font op quiet last) (r : ContentResources) :
    openedMcid? r op = none ∧ (quiet ++ [last]).filterMap (openedMcid? r) = [] := by
  cases h with
  | nextLine operands => exact ⟨rfl, rfl⟩
  | spaced wordNumber charNumber operands => exact ⟨rfl, rfl⟩
  | strings whole style operands => exact ⟨rfl, rfl⟩

/-- The font in which text is shown behind some operations. -/
def fontBehind (doc : Document) (entries : Dict Object) (ops : List Operation) : Font :=
  let r := ContentResources.ofDict doc entries ops
  (ScanState.run r {} 0 ops).1.font r

/-- Wherever an operation that stands for others is written out, the page has the same scan: the same is
drawn, by operations that are counted anew, and the same content is marked. -/
theorem ofContent_expand {doc : Document} {entries : Dict Object} {front quiet : List Operation}
    {op last : Operation} (h : Shorthand (fontBehind doc entries front) op quiet last)
    (behind : List Operation) :
    let scan := ofContent doc entries (front ++ op :: behind)
    ofContent doc entries (front ++ (quiet ++ last :: behind)) =
      { operators := scan.operators.map (Drawn.expand front.length quiet.length last.operator)
        mcids := scan.mcids
        operationCount := scan.operationCount + quiet.length } := by
  intro scan
  let r := ContentResources.ofDict doc entries front
  have hscan : ∀ ops, ofContent doc entries ops = ofOperations r ops := fun ops => by
    rw [ofContent, ScanState.ofDict_eq doc entries ops front]
  obtain ⟨hop, hquiet⟩ := filterMap_openedMcid?_shorthand h r
  have hopened : (front ++ (quiet ++ last :: behind)).filterMap (openedMcid? r) =
      (front ++ op :: behind).filterMap (openedMcid? r) := by
    rw [List.append_cons quiet last behind, List.filterMap_append, List.filterMap_append, hquiet,
      List.filterMap_append, List.filterMap_cons_none hop, List.nil_append]
  have hcount : (front ++ (quiet ++ last :: behind)).length =
      (front ++ op :: behind).length + quiet.length := by
    simp only [List.length_append, List.length_cons]
    omega
  have hdrawn := ScanState.run_expand (r := r) h behind
  simp only [scan, hscan, ofOperations, hdrawn, hopened, hcount]

/-- A composite font, and no other resource. -/
def compositeFont : Dict Object :=
  .ofList [(utf8 "Font", .ofEntries [(utf8 "F1", .ofEntries [(utf8 "Subtype", .name "Type0")])])]

/-- The start of a text in that font. -/
def compositeText : List Operation := [⟨"BT", []⟩, ⟨"Tf", [.name "F1", .integer 10]⟩]

/-- Strings of one and of two codes in a composite font are one string of three codes. -/
theorem ofContent_expand_composite :
    let doc : Document := ⟨"1.7", ∅, ∅, 0⟩
    let op : Operation :=
      ⟨"TJ", [.array [.string [0, 0x41] .literal, .string [0, 0x42, 0, 0x20] .hexadecimal]]⟩
    let last : Operation := ⟨"Tj", [.string [0, 0x41, 0, 0x42, 0, 0x20] .literal]⟩
    (fontBehind doc compositeFont compositeText).composite = true ∧
      Shorthand (fontBehind doc compositeFont compositeText) op [] last ∧
      (ofContent doc compositeFont (compositeText ++ [last, ⟨"ET", []⟩])).operators =
        (ofContent doc compositeFont (compositeText ++ [op, ⟨"ET", []⟩])).operators.map
          (Drawn.expand 2 0 "Tj") := by
  intro doc op last
  let strings : List (Bytes × StringStyle) := [([0, 0x41], .literal), ([0, 0x42, 0, 0x20], .hexadecimal)]
  have whole : ∀ s ∈ strings, s.1.length % 2 = 0 := by decide
  have hshorthand : Shorthand (fontBehind doc compositeFont compositeText) op [] last :=
    .strings (fun _ => whole) .literal []
  refine ⟨?_, hshorthand, congrArg operators (ofContent_expand hshorthand [⟨"ET", []⟩])⟩
  have hfont : fontBehind doc compositeFont compositeText =
      ContentResources.loadFont doc compositeFont "F1" := ScanState.font_ofDict doc compositeFont _ _
  have hsubtype : doc.entryName? (.ofList [(utf8 "Subtype", .name "Type0")]) "Subtype" = some "Type0" :=
    Document.entryName?_utf8 rfl
  rw [hfont]
  show ((doc.entryName? (.ofList [(utf8 "Subtype", .name "Type0")]) "Subtype").getD "" == "Type0") = true
  rw [hsubtype]
  rfl

end PageScan

end AccessiblePdf
