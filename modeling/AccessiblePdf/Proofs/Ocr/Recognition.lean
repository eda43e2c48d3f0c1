import AccessiblePdf.Proofs.Content.Painting
import AccessiblePdf.Proofs.Content.Writing
import AccessiblePdf.Proofs.Geometry.Region
import AccessiblePdf.Proofs.Ocr.Face

/-!
A text layer seen by a scan. Each word of it is one figure (`draw_word`), so a scan finds the texts of
the words that have any (`shownTexts_layer`). A word is recognised in its box just when all of its
characters have a code (`isShown_layer`); the other ones are to be shown once more (`wordsToShow_layer`).
-/
namespace AccessiblePdf

open Edit

namespace Ocr

/-! ## Words as figures -/

/-- The numbers by which a word is placed: size, horizontal scaling in percent, and where it starts. -/
structure Placing where
  height : Float
  scale : Float
  x : Float
  y : Float

/-- A font as wide as a font of the layer. -/
def LayerFont.face (layer : LayerFont) : Font := { Font.absent with composite := layer == .universal }

/-- The graphics state in which a word is shown. -/
def shownState (place : Placing) : GraphicsState where
  renderMode := invisible
  fontSize := place.height
  horizontalScale := place.scale / 100.0

/-- Where a word starts. -/
def shownPosition (place : Placing) : TextPosition := ({} : TextPosition).move place.x place.y

/-- The box of a word on the page, if it has a size. -/
def shownBox? (place : Placing) (w : ShownWord) : Option (Box Float) :=
  let g := shownState place
  if 0 < g.fontSize then
    some ((shownPosition place).runBox g (Pen.widthOnto w.font.face g 0 w.codes))
  else none

namespace ShownWord

variable {w : ShownWord}

/-- All codes of a word stand for characters. -/
def Readable (w : ShownWord) : Prop := w.codes.map w.font.char? = w.text.toList.map some

theorem readable_of_ofText? {s : String} (h : ofText? s = some w) : w.Readable := by
  rw [Readable, text_of_ofText? h]
  exact map_char?_of_ofText? h

theorem Readable.isSome (h : w.Readable) {code : Nat} (hcode : code ∈ w.codes) :
    (w.font.char? code).isSome = true := by
  have hmem : w.font.char? code ∈ w.text.toList.map some := h ▸ List.mem_map_of_mem hcode
  obtain ⟨c, -, hc⟩ := List.mem_map.mp hmem
  rw [← hc]
  rfl

end ShownWord

/-- The bytes that show a word. -/
def shownBytes (w : ShownWord) : Bytes :=
  match w.font with
  | .latin => w.codes.map UInt8.ofNat
  | .universal => w.codes.flatMap fun c => [UInt8.ofNat (c / 256), UInt8.ofNat c]

theorem pairCodes_flatMap {codes : List Nat} (h : ∀ c ∈ codes, c < 65536) :
    Font.pairCodes (codes.flatMap fun c => [UInt8.ofNat (c / 256), UInt8.ofNat c]) = codes := by
  induction codes with
  | nil => rfl
  | cons c codes ih =>
    rw [List.forall_mem_cons] at h
    have hcode : (UInt8.ofNat (c / 256)).toNat * 256 + (UInt8.ofNat c).toNat = c := by
      have := h.1
      simp only [UInt8.toNat_ofNat']
      omega
    rw [List.flatMap_cons, List.cons_append, List.cons_append, List.nil_append, Font.pairCodes,
      hcode, ih h.2]

/-- The codes of a word are those of the bytes that show it. -/
theorem codes_shownBytes {f : Font} {w : ShownWord} (shows : f.Shows w.font)
    (readable : w.Readable) : f.codes (shownBytes w) = w.codes := by
  have hsome : ∀ code ∈ w.codes, (w.font.char? code).isSome = true := fun _ => readable.isSome
  obtain ⟨layer, codes⟩ := w
  cases layer with
  | latin =>
    have hcode : ∀ code ∈ codes, (UInt8.ofNat code).toNat = code := by
      intro code hcode
      have hchar : (Encoding.decode? (some "WinAnsiEncoding") code).isSome = true := hsome code hcode
      rw [UInt8.toNat_ofNat', Nat.mod_eq_of_lt]
      refine Nat.lt_of_not_le fun hle => ?_
      rw [Encoding.decode?, if_pos hle] at hchar
      exact absurd hchar Bool.false_ne_true
    have hcomposite : f.composite = false := shows.composite
    rw [Font.codes, hcomposite, if_neg Bool.false_ne_true, shownBytes, List.map_map]
    exact (List.map_congr_left hcode).trans (List.map_id codes)
  | universal =>
    have hcode : ∀ code ∈ codes, code < 65536 := by
      intro code hcode
      have hchar : (LayerFont.universal.char? code).isSome = true := hsome code hcode
      rw [LayerFont.char?] at hchar
      split at hchar
      · next huniversal =>
        simp only [ShownWord.isUniversal, Bool.and_eq_true, decide_eq_true_eq] at huniversal
        omega
      · exact absurd hchar Bool.false_ne_true
    have hcomposite : f.composite = true := shows.composite
    rw [Font.codes, hcomposite, if_pos rfl, shownBytes]
    exact pairCodes_flatMap hcode

theorem widthOnto_eq {f : Font} {layer : LayerFont} (shows : f.Shows layer) (g : GraphicsState)
    (width : Float) (codes : List Nat) :
    Pen.widthOnto f g width codes = Pen.widthOnto layer.face g width codes := by
  have hadvance : ∀ code, f.advance code = layer.face.advance code := shows.advance
  simp only [Pen.widthOnto, hadvance, shows.composite]
  rfl

variable {r : ContentResources} {p : Pen} {place : Placing} {w : ShownWord}

/-- The operations of a word with some numbers. -/
def layout (resource : String) (height scale x y : Object) (w : ShownWord) : List Operation :=
  [⟨"q", []⟩, ⟨"BT", []⟩, ⟨"Tr", [.integer invisible]⟩, ⟨"Tf", [.name resource, height]⟩, ⟨"Tz", [scale]⟩,
    ⟨"Td", [x, y]⟩, ⟨"Tj", [w.string]⟩, ⟨"ET", []⟩, ⟨"Q", []⟩]

/-- What the operations of a word tell the painter. -/
def wordCommands (resource : String) (place : Placing) (w : ShownWord) : List Command :=
  [.save, .beginText, .renderMode invisible, .font (some (utf8 resource)) (some place.height),
    .horizontalScale place.scale, .moveText place.x place.y, .showText [.string (shownBytes w)], .endText,
    .restore]

theorem command_layout {height scale x y : Object} (hheight : height.float? = some place.height)
    (hscale : scale.float? = some place.scale) (hx : x.float? = some place.x)
    (hy : y.float? = some place.y) (resource : String) (w : ShownWord) :
    (layout resource height scale x y w).map Operation.command = wordCommands resource place w := by
  have hmode : Operation.command ⟨"Tr", [.integer invisible]⟩ = .renderMode invisible := rfl
  have hfont : Operation.command ⟨"Tf", [.name resource, height]⟩ =
      .font (some (utf8 resource)) (some place.height) := by
    rw [← hheight]
    rfl
  have hstretch : Operation.command ⟨"Tz", [scale]⟩ = .horizontalScale place.scale := by
    show Command.horizontalScale (scale.float?.getD 100) = _
    rw [hscale, Option.getD_some]
  have hmove : Operation.command ⟨"Td", [x, y]⟩ = .moveText place.x place.y := by
    show Command.moveText (x.float?.getD 0) (y.float?.getD 0) = _
    rw [hx, hy, Option.getD_some, Option.getD_some]
  have hstring : Operation.command ⟨"Tj", [w.string]⟩ = .showText [.string (shownBytes w)] := by
    obtain ⟨font, codes⟩ := w
    cases font <;> rfl
  simp only [layout, List.map_cons, List.map_nil, hmode, hfont, hstretch, hmove, hstring]
  rfl

/-- The graphics state in which a word is shown, with its font under some name. -/
def stateUnder (resource : String) (place : Placing) : GraphicsState :=
  { shownState place with font := some (utf8 resource) }

/-- A figure depicts a word: it is an invisible text in the place of the word. -/
structure Depicts (f : Figure) (place : Placing) (w : ShownWord) : Prop where
  kind : f.kind = .text
  box : f.box = shownBox? place w
  text : f.text = some w.text
  renderMode : f.renderMode = invisible
  mapped : f.mapped = !w.codes.isEmpty

theorem step_showText_word {resource : String} (shows : (r.font (utf8 resource)).Shows w.font)
    (readable : w.Readable) {q : Pen} (graphics : q.graphics = stateUnder resource place)
    (start : q.text = shownPosition place) :
    ∃ f : Figure, Depicts f place w ∧ q.step r (.showText [.string (shownBytes w)]) =
      ({ q with text := q.text.advance (Pen.widthOnto w.font.face (shownState place) 0 w.codes) },
        some f) := by
  have hfont : (stateUnder resource place).font.getD [] = utf8 resource := rfl
  have hcodes := codes_shownBytes shows readable
  have hwidth := widthOnto_eq shows (stateUnder resource place) 0 w.codes
  have htext := shows.decode readable
  simp only [Pen.step, Pen.showItems, graphics, List.foldl_cons, List.foldl_nil, Pen.measure, hfont,
    hcodes, hwidth, List.nil_append, htext]
  refine ⟨_, ⟨rfl, ?_, ?_, ?_, ?_⟩, rfl⟩
  · rw [start]
    rfl
  · exact congrArg some String.ofList_toList
  · simp only [Pen.finish, graphics]
    rfl
  · exact Bool.true_and _

/-- A word is one figure, and leaves the graphics state as it is. -/
theorem draw_word {resource : String} (shows : (r.font (utf8 resource)).Shows w.font)
    (readable : w.Readable) (graphics : p.graphics = {}) (saved : p.saved = []) :
    ∃ f : Figure, Depicts f place w ∧ (p.draw r (wordCommands resource place w)).2 = [f] ∧
      (p.draw r (wordCommands resource place w)).1.graphics = {} ∧
      (p.draw r (wordCommands resource place w)).1.saved = [] := by
  set q : Pen := { p with
    graphics := stateUnder resource place, saved := [{}], text := shownPosition place
    textObject := some p.textObjects, textObjects := p.textObjects + 1 } with hq
  obtain ⟨f, hfigure, hstep⟩ := step_showText_word shows readable (q := q) rfl rfl
  have hsave : p.step r .save = ({ p with saved := [{}] }, none) := by
    rw [Pen.step, saved, if_pos (by decide), graphics]
  have hbegin : ({ p with saved := [{}] } : Pen).draw r [.beginText, .renderMode invisible,
      .font (some (utf8 resource)) (some place.height), .horizontalScale place.scale,
      .moveText place.x place.y] = (q, []) := by
    rw [hq]
    simp only [Pen.draw, Pen.step, graphics]
    rfl
  have hend : q.draw r [.showText [.string (shownBytes w)], .endText, .restore] = ({ q with
      graphics := {}, saved := [], textObject := none
      text := q.text.advance (Pen.widthOnto w.font.face (shownState place) 0 w.codes) }, [f]) := by
    rw [Pen.draw_cons, hstep]
    rfl
  have hdraw : p.draw r (wordCommands resource place w) = ({ q with
      graphics := {}, saved := [], textObject := none
      text := q.text.advance (Pen.widthOnto w.font.face (shownState place) 0 w.codes) }, [f]) := by
    rw [show wordCommands resource place w = .save :: ([.beginText, .renderMode invisible,
        .font (some (utf8 resource)) (some place.height), .horizontalScale place.scale,
        .moveText place.x place.y] ++ [.showText [.string (shownBytes w)], .endText, .restore]) from rfl,
      Pen.draw_cons, hsave, Pen.draw_append, hbegin, hend]
    rfl
  rw [hdraw]
  exact ⟨f, hfigure, rfl, rfl, rfl⟩

/-! ## Words as they are written and read again -/

/-- A word is placed by the numbers that some objects have. -/
def placed (read : Object → Object) (box : Box Float) (w : ShownWord) : Placing :=
  let number (x : Float) : Float := (read (rounded x)).float?.getD 0
  ⟨number box.height, number (scaling box w), number box.x, number (box.y + baseline * box.height)⟩

theorem float?_ofFloat (x : Float) : ∃ y, (Object.ofFloat x).float? = some y := by
  rw [Object.ofFloat]
  split <;> exact ⟨_, rfl⟩

theorem float?_reread (x : Float) : ∃ y, (Object.ofFloat x).reread.float? = some y := by
  rw [Object.ofFloat]
  split
  · exact ⟨_, rfl⟩
  · rw [Object.reread]
    rcases Object.rereadReal_cases x.toFloat32 with ⟨y, hy⟩ | ⟨n, hn⟩
    · exact ⟨_, by rw [hy]; rfl⟩
    · exact ⟨_, by rw [hn]; rfl⟩

theorem command_placed {read : Object → Object} (numbers : ∀ x, ∃ y, (read (rounded x)).float? = some y)
    (resource : String) (box : Box Float) (w : ShownWord) :
    (layout resource (read (rounded box.height)) (read (rounded (scaling box w))) (read (rounded box.x))
      (read (rounded (box.y + baseline * box.height))) w).map Operation.command =
        wordCommands resource (placed read box w) w := by
  have hnumber : ∀ x, (read (rounded x)).float? = some ((read (rounded x)).float?.getD 0) := by
    intro x
    obtain ⟨y, hy⟩ := numbers x
    rw [hy, Option.getD_some]
  exact command_layout (hnumber _) (hnumber _) (hnumber _) (hnumber _) resource w

theorem command_wordOperations (resource : String) (box : Box Float) (w : ShownWord) :
    (wordOperations resource box w).map Operation.command = wordCommands resource (placed id box w) w :=
  @command_placed id (fun _ => float?_ofFloat _) resource box w

theorem command_reread_wordOperations (resource : String) (box : Box Float) (w : ShownWord) :
    ((wordOperations resource box w).map Operation.reread).map Operation.command =
      wordCommands resource (placed Object.reread box w) w := by
  have hstring : w.string.reread = w.string := by
    obtain ⟨font, codes⟩ := w
    cases font <;> rfl
  rw [← @command_placed Object.reread (fun _ => float?_reread _)]
  simp only [wordOperations, layout, List.map_cons, List.map_nil, Operation.reread, Object.rereadAll,
    hstring]
  rfl

/-! ## The texts of a layer -/

/-- What a scan gives for a figure that is a text. -/
def shownText? (f : Figure) : Option (Option (Box Float) × String) :=
  if f.kind == .text then
    match f.text.map Text.composed with
    | some text => if Text.isEmptyOrBlank text then none else some (f.box, text)
    | none => none
  else none

theorem shownTexts_eq (scan : PageScan) :
    shownTexts scan = (scan.operators.map (·.figure)).filterMap shownText? := by
  rw [shownTexts, List.filterMap_map, List.filterMap_filter]
  rfl

/-- What a scan gives for a word that is read again. -/
def shownWord? (word : Box Float × ShownWord) : Option (Option (Box Float) × String) :=
  let text := Text.composed word.2.text
  if Text.isEmptyOrBlank text then none
  else some (shownBox? (placed Object.reread word.1 word.2) word.2, text)

/-- The operations of some words. -/
def layerOperations (words : List (Box Float × ShownWord)) : List Operation :=
  words.flatMap fun word => wordOperations word.2.font.resource word.1 word.2

/-- The fonts of words show them. -/
def Supports (r : ContentResources) (words : List (Box Float × ShownWord)) : Prop :=
  ∀ word ∈ words, (r.font (utf8 word.2.font.resource)).Shows word.2.font ∧ word.2.Readable

theorem draw_layer {words : List (Box Float × ShownWord)} (supports : Supports r words)
    (graphics : p.graphics = {}) (saved : p.saved = []) :
    (p.draw r (((layerOperations words).map Operation.reread).map Operation.command)).2.filterMap
      shownText? = words.filterMap shownWord? := by
  induction words generalizing p with
  | nil => rfl
  | cons word words ih =>
    obtain ⟨hword, hwords⟩ := List.forall_mem_cons.mp supports
    obtain ⟨f, hfigure, hf, hgraphics, hsaved⟩ :=
      @draw_word r p (placed Object.reread word.1 word.2) word.2 _ hword.1 hword.2 graphics saved
    have hshown : shownText? f = shownWord? word := by
      rw [shownText?, hfigure.kind, hfigure.text, hfigure.box]
      simp only [beq_self_eq_true, if_true, Option.map_some, shownWord?]
    rw [layerOperations, List.flatMap_cons, List.map_append, List.map_append,
      command_reread_wordOperations, Pen.draw_append, List.filterMap_append, hf, ← layerOperations,
      ih hwords hgraphics hsaved, ← List.singleton_append (x := word), List.filterMap_append]
    simp only [List.filterMap_cons, List.filterMap_nil, hshown]

theorem shownTexts_untexted {lead : List Operation}
    (untexted : ∀ op ∈ lead, op.command.showsText = false) : shownTexts (.ofOperations r lead) = [] := by
  rw [shownTexts_eq, PageScan.ofOperations, Pen.run_figures, List.filterMap_eq_nil_iff]
  intro f hf
  have hkind := Pen.draw_kind (by simpa using untexted) f hf
  simp [shownText?, hkind]

/-- A scan finds the words of a layer behind content without text. -/
theorem shownTexts_layer {lead : List Operation} {words : List (Box Float × ShownWord)}
    (supports : Supports r words)
    (untexted : ∀ op ∈ lead, op.command.showsText = false)
    (fresh : words ≠ [] → let q := (({} : Pen).draw r (lead.map Operation.command)).1
      q.graphics = {} ∧ q.saved = []) :
    shownTexts (.ofOperations r (lead ++ (layerOperations words).map Operation.reread)) =
      words.filterMap shownWord? := by
  by_cases hwords : words = []
  · subst hwords
    rw [show layerOperations [] = [] from rfl, List.map_nil, List.append_nil]
    exact shownTexts_untexted untexted
  · have hlead := shownTexts_untexted (r := r) untexted
    rw [shownTexts_eq, PageScan.ofOperations, Pen.run_figures] at hlead ⊢
    rw [List.map_append, Pen.draw_append, List.filterMap_append, hlead, List.nil_append]
    exact draw_layer supports (fresh hwords).1 (fresh hwords).2

/-! ## Words that are recognised -/

variable {m : Matching Float} {shown : List (Option (Box Float) × String)} {box : Box Float} {text : String}

theorem isShown_of_mem {b : Option (Box Float)} {s : String} (mem : (b, s) ∈ shown)
    (inside : b.any (box.expand m.tolerance).contains = true) (occurs : occursIn text s = true) :
    isShown m shown box text = true := by
  obtain ⟨i, hi⟩ := List.mem_iff_getElem?.mp mem
  have hmap : (shown.map (·.1))[i]? = some b := by rw [List.getElem?_map, hi, Option.map_some]
  have hcontained : i ∈ m.contained (shown.map (·.1)) box :=
    mem_indicesFrom.mpr ⟨i, b, (Nat.zero_add i).symm, hmap, inside⟩
  have hresolve : m.resolve (shown.map (·.1)) box = m.contained (shown.map (·.1)) box :=
    Matching.resolveAbove_of_mem hcontained
  rw [isShown, hresolve, List.any_eq_true]
  exact ⟨i, hcontained, by rw [hi, Option.any_some]; exact occurs⟩

theorem isShown_of_absent (absent : ∀ s ∈ shown, occursIn text s.2 = false) :
    isShown m shown box text = false := by
  rw [isShown, List.any_eq_false]
  intro i _
  cases hs : shown[i]? with
  | none => simp
  | some s => simp [absent s (List.mem_of_getElem? hs)]

/-- The text by which a word is looked for. -/
def wordText (w : OcrWord) : String := Text.trim (Text.composed w.text)

theorem isEmptyOrBlank_trim {s : String} (h : (Text.trim s).toList ≠ []) :
    Text.isEmptyOrBlank (Text.trim s) = false := by
  rw [Text.trim, String.toList_ofList, Text.trimList, Text.trimEndList] at h
  rw [Text.isEmptyOrBlank, Text.trim, String.toList_ofList, Text.trimList, Text.trimEndList,
    List.all_eq_false]
  have hhead := List.head?_dropWhile_not Text.isBlank (Text.trimStartList s.toList).reverse
  cases hlist : List.dropWhile Text.isBlank (Text.trimStartList s.toList).reverse with
  | nil =>
    rw [hlist] at h
    exact absurd rfl h
  | cons c cs =>
    rw [hlist] at hhead
    exact ⟨c, by simp, by simpa using hhead⟩

/-- A word is shown when it is confident enough, has a box and a text, and is not on the page. -/
theorem wordToShow?_eq_some {o : Options} {pageBox : Box Float}
    {shown : List (Option (Box Float) × String)} {w : OcrWord} {word : Box Float × ShownWord} :
    wordToShow? o pageBox shown w = some word ↔ ¬w.confidence.getD 1.0 < o.minConfidence ∧
      (w.box.map fun declared => o.matching.toUserSpace declared pageBox) = some word.1 ∧
        (wordText w).isEmpty = false ∧ isShown o.matching shown word.1 (wordText w) = false ∧
          ShownWord.ofText? (wordText w) = some word.2 := by
  obtain ⟨b, sw⟩ := word
  rw [wordToShow?]
  split
  · next hlow => simp [hlow]
  · next hhigh =>
    cases hbox : w.box with
    | none => simp
    | some declared =>
      simp only [bind, Option.bind_some, Option.map_some, Option.some.injEq]
      rw [← wordText]
      constructor
      · intro h
        split at h
        · exact absurd h (by simp)
        · next hshow =>
          obtain ⟨sw', hword, h⟩ := Option.bind_eq_some_iff.mp h
          obtain ⟨rfl, rfl⟩ := Prod.mk.inj (Option.some.inj h)
          rw [Bool.or_eq_true, not_or, Bool.not_eq_true, Bool.not_eq_true] at hshow
          exact ⟨hhigh, rfl, hshow.1, hshow.2, hword⟩
      · rintro ⟨-, rfl, hempty, hshown, hword⟩
        rw [hempty, hshown, Bool.or_self, if_neg Bool.false_ne_true, hword]
        rfl

/-- A word, as it is drawn when it is read again, lies in its box. -/
def Fits (m : Matching Float) (word : Box Float × ShownWord) : Prop :=
  (shownBox? (placed Object.reread word.1 word.2) word.2).any (word.1.expand m.tolerance).contains = true

instance (m : Matching Float) (word : Box Float × ShownWord) : Decidable (Fits m word) :=
  inferInstanceAs (Decidable (_ = true))

/-- The words of a page that are shown when there is no text on it. -/
def layerWords (o : Options) (pageBox : Box Float) (words : List OcrWord) :
    List (Box Float × ShownWord) :=
  words.filterMap (wordToShow? o pageBox [])

/-- All characters of a word have a code. -/
def Coded (w : OcrWord) : Prop := ∀ c ∈ (wordText w).toList, ShownWord.isUniversal c.toNat = true

instance (w : OcrWord) : Decidable (Coded w) := decidable_of_iff _ List.all_eq_true

section Recognition

variable {o : Options} {pageBox : Box Float} {words : List OcrWord} {w : OcrWord}
  {word : Box Float × ShownWord}

theorem wordToShow?_eq : wordToShow? o pageBox shown w = (wordToShow? o pageBox [] w).filter fun word =>
    !isShown o.matching shown word.1 (wordText w) := by
  have hnothing : ∀ box, isShown o.matching [] box (wordText w) = false := fun box =>
    isShown_of_absent fun s hs => absurd hs List.not_mem_nil
  refine Option.ext fun word => ?_
  rw [Option.filter_eq_some_iff, wordToShow?_eq_some, wordToShow?_eq_some, hnothing]
  cases isShown o.matching shown word.1 (wordText w) <;> simp

/-- When the words of a layer are looked for again, those are found whose characters all have codes. -/
theorem isShown_layer (composed : ∀ w ∈ words, Text.composed (coded (wordText w)) = coded (wordText w))
    (fits : ∀ word ∈ layerWords o pageBox words, Fits o.matching word) (hw : w ∈ words)
    (written : wordToShow? o pageBox [] w = some word) :
    isShown o.matching ((layerWords o pageBox words).filterMap shownWord?) word.1 (wordText w) =
      true ↔ Coded w := by
  obtain ⟨-, -, hempty, -, hofText⟩ := wordToShow?_eq_some.mp written
  have hmem : word ∈ layerWords o pageBox words := List.mem_filterMap.mpr ⟨w, hw, written⟩
  constructor
  · intro hshown
    by_contra huncoded
    -- No text on the page has the character without a code.
    rw [isShown_of_absent] at hshown
    · exact absurd hshown Bool.false_ne_true
    · intro s hs
      obtain ⟨word', hword', hs⟩ := List.mem_filterMap.mp hs
      obtain ⟨w', hw', hwritten'⟩ := List.mem_filterMap.mp hword'
      obtain ⟨-, -, -, -, hofText'⟩ := wordToShow?_eq_some.mp hwritten'
      have hs2 : s.2 = coded (wordText w') := by
        rw [shownWord?, ShownWord.text_of_ofText? hofText', composed w' hw'] at hs
        simp only [Option.ite_none_left_eq_some, Option.some.injEq] at hs
        rw [← hs.2]
      rw [Bool.eq_false_iff, hs2]
      intro hoccurs
      refine huncoded fun c hc => ?_
      have hc' := (occursIn_iff.mp hoccurs).subset hc
      rw [coded_toList] at hc'
      exact (List.mem_filter.mp hc').2
  · intro hcoded
    have htext : coded (wordText w) = wordText w := by
      rw [coded, List.filter_eq_self.mpr hcoded, String.ofList_toList]
    have hshown : shownWord? word = some
        (shownBox? (placed Object.reread word.1 word.2) word.2, wordText w) := by
      have hblank : Text.isEmptyOrBlank (wordText w) = false :=
        isEmptyOrBlank_trim (by simpa [wordText] using hempty)
      rw [shownWord?, ShownWord.text_of_ofText? hofText, composed w hw, htext, hblank]
      rfl
    exact isShown_of_mem (List.mem_filterMap.mpr ⟨word, hmem, hshown⟩) (fits word hmem)
      (occursIn_iff.mpr List.infix_rfl)

/-- The words of a layer that are to be shown once more are those with a character that has no code. -/
theorem wordsToShow_layer
    (composed : ∀ w ∈ words, Text.composed (coded (wordText w)) = coded (wordText w))
    (fits : ∀ word ∈ layerWords o pageBox words, Fits o.matching word) :
    words.filterMap (wordToShow? o pageBox ((layerWords o pageBox words).filterMap shownWord?)) =
      layerWords o pageBox (words.filter fun w => ¬Coded w) := by
  rw [layerWords, layerWords, List.filterMap_filter]
  refine List.filterMap_congr fun w hw => ?_
  rw [wordToShow?_eq]
  cases hwritten : wordToShow? o pageBox [] w with
  | none => simp
  | some word =>
    have hshown := isShown_layer composed fits hw hwritten
    rw [layerWords] at hshown
    by_cases hcoded : Coded w
    · simp [hcoded, hshown.mpr hcoded]
    · have hmissing := mt hshown.mp hcoded
      simp [hcoded, hmissing]

end Recognition

end Ocr

end AccessiblePdf
