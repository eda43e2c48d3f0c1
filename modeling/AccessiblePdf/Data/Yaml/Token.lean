import AccessiblePdf.Data.Basic

/-!
The tokens of a YAML document. Indentation shows as explicit starts and ends of blocks, and a key
that is known as one only by the colon behind it gets its key token in front of it.
-/
namespace AccessiblePdf.Yaml

inductive Token where
  | version (major minor : Nat)
  | tagHandle (handle lead : String)
  | documentStart
  | documentEnd
  | blockSequence
  | blockMapping
  | blockEnd
  | flowSequence
  | flowSequenceEnd
  | flowMapping
  | flowMappingEnd
  | blockEntry
  | flowEntry
  | key
  | value
  | alias (name : String)
  | anchor (name : String)
  | tag (handle suffix : String)
  | scalar (unquoted : Bool) (text : String)
  | streamEnd
deriving DecidableEq, Inhabited, Repr

/-! ## Characters -/

/-- The characters that documents may hold. -/
def isAllowed (c : Char) : Bool :=
  let n := c.toNat
  n == 9 || n == 10 || n == 13 || (0x20 ≤ n && n ≤ 0x7E) || n == 0x85 ||
    (0xA0 ≤ n && n ≤ 0xD7FF) || (0xE000 ≤ n && n ≤ 0xFFFD) || 0x10000 ≤ n

def isBreak (c : Char) : Bool :=
  c == '\n' || c == '\r' || c == '\x85' || c == '\u2028' || c == '\u2029'

def isSpaceOrTab (c : Char) : Bool := c == ' ' || c == '\t'

def isSpacing (c : Char) : Bool := isBreak c || isSpaceOrTab c

/-- The characters of names. -/
def isWord (c : Char) : Bool := c.isAlphanum || c == '_' || c == '-'

/-- The indicators that part the items of flow collections. -/
def isFlowIndicator (c : Char) : Bool :=
  c == ',' || c == '[' || c == ']' || c == '\x7b' || c == '\x7d'

/-! ## Positions -/

/-- A place in the text. -/
structure Cursor where
  rest : List Char
  line : Nat
  column : Nat
  index : Nat

namespace Cursor

def peek (c : Cursor) : Option Char := c.rest.head?

def peekAt (c : Cursor) (n : Nat) : Option Char := c.rest[n]?

/-- Whether a character at an offset is spacing or the end of the text. -/
def spacingAt (c : Cursor) (n : Nat) : Bool := (c.peekAt n).all isSpacing

/-- Past one character of the line. -/
def skip (c : Cursor) : Cursor :=
  { c with rest := c.rest.drop 1, column := c.column + 1, index := c.index + 1 }

def skipN (c : Cursor) (n : Nat) : Cursor :=
  { c with rest := c.rest.drop n, column := c.column + n, index := c.index + n }

/-- Past the characters that pass a test. -/
def skipWhile (p : Char → Bool) (c : Cursor) : Cursor := c.skipN (c.rest.takeWhile p).length

/-- Past a line break, if one is here, with the character that it counts as. -/
def readBreak (c : Cursor) : List Char × Cursor :=
  let next (n : Nat) : Cursor :=
    { rest := c.rest.drop n, line := c.line + 1, column := 0, index := c.index + n }
  match c.rest with
  | '\r' :: '\n' :: _ => (['\n'], next 2)
  | b :: _ =>
    if b == '\u2028' || b == '\u2029' then ([b], next 1)
    else if isBreak b then (['\n'], next 1)
    else ([], c)
  | [] => ([], c)

def skipBreak (c : Cursor) : Cursor := c.readBreak.2

def startsWith (c : Cursor) (s : String) : Bool := s.toList.isPrefixOf c.rest

/-- Whether a line starts here with the marker of a document's start or end. -/
def atMarker (c : Cursor) : Bool :=
  c.column == 0 && (c.startsWith "---" || c.startsWith "...") && c.spacingAt 3

end Cursor

/-! ## Scalars over several lines -/

/-- What lies between two stretches of a scalar. -/
structure Gap where
  /-- The blanks before the first line break. -/
  blanks : List Char
  breaks : List Char
  /-- The first line break is escaped, and counts for nothing. -/
  escaped : Bool

namespace Gap

def none : Gap := ⟨[], [], false⟩

def hasBreak (g : Gap) : Bool := g.escaped || !g.breaks.isEmpty

/-- What a gap contributes: one line break becomes a space, of several the first is dropped. -/
def text (g : Gap) : List Char :=
  if g.escaped then g.breaks
  else
    match g.breaks with
    | [] => g.blanks
    | ['\n'] => [' ']
    | '\n' :: breaks => breaks
    | breaks => breaks

/-- Reads a gap on. After a line break, a tab within the indentation is refused. -/
def read (indent : Nat) : Nat → Gap → Cursor → Option (Gap × Cursor)
  | 0, _, _ => Option.none
  | fuel + 1, g, c =>
    match c.peek with
    | some x =>
      if isSpaceOrTab x then
        if g.hasBreak then
          if x == '\t' && c.column < indent then Option.none else read indent fuel g c.skip
        else read indent fuel { g with blanks := g.blanks ++ [x] } c.skip
      else if isBreak x then
        let (b, c) := c.readBreak
        read indent fuel { g with breaks := g.breaks ++ b } c
      else some (g, c)
    | Option.none => some (g, c)

end Gap

/-- A stretch of unquoted text without blanks, and what follows. -/
def plainRun (flow : Bool) : Nat → Cursor → Option (List Char × Cursor)
  | 0, _ => none
  | fuel + 1, c =>
    match c.peek with
    | none => some ([], c)
    | some x =>
      if isSpacing x then some ([], c)
      else if x == ':' && flow && (c.peekAt 1).any (fun y => isFlowIndicator y || y == '?') then none
      else if (x == ':' && c.spacingAt 1) || (flow && isFlowIndicator x) then some ([], c)
      else (plainRun flow fuel c.skip).map fun (cs, c) => (x :: cs, c)

/-- An unquoted scalar: its text, whether a line ended behind it, and what follows. -/
def plainText (flow : Bool) (indent : Nat) :
    Nat → List Char → Gap → Cursor → Option (List Char × Bool × Cursor)
  | 0, _, _, _ => none
  | fuel + 1, text, gap, c =>
    if c.atMarker || c.peek == some '#' then some (text, gap.hasBreak, c)
    else do
      let (run, c) ← plainRun flow (c.rest.length + 1) c
      let text := if run.isEmpty then text else text ++ gap.text ++ run
      let gap := if run.isEmpty then gap else Gap.none
      if (c.peek).any isSpacing then
        let (gap, c) ← Gap.read indent (c.rest.length + 1) Gap.none c
        if !flow && c.column < indent then some (text, gap.hasBreak, c)
        else plainText flow indent fuel text gap c
      else some (text, gap.hasBreak, c)

/-- The value of hexadecimal digits. -/
def hexNumber? (cs : List Char) : Option Nat :=
  cs.foldlM (fun n c =>
    if c.isDigit then some (n * 16 + (c.toNat - 0x30))
    else if 'a' ≤ c ∧ c ≤ 'f' then some (n * 16 + (c.toNat - 'a'.toNat + 10))
    else if 'A' ≤ c ∧ c ≤ 'F' then some (n * 16 + (c.toNat - 'A'.toNat + 10))
    else none) 0

/-- The character that the letter after a backslash stands for. -/
def escapeOf? : Char → Option Char
  | '0' => some '\x00'
  | 'a' => some '\x07'
  | 'b' => some '\x08'
  | 't' => some '\t'
  | '\t' => some '\t'
  | 'n' => some '\n'
  | 'v' => some '\x0B'
  | 'f' => some '\x0C'
  | 'r' => some '\r'
  | 'e' => some '\x1B'
  | ' ' => some ' '
  | '"' => some '"'
  | '/' => some '/'
  | '\\' => some '\\'
  | 'N' => some '\x85'
  | '_' => some '\xA0'
  | 'L' => some '\u2028'
  | 'P' => some '\u2029'
  | _ => none

/-- How many hexadecimal digits follow the letter after a backslash. -/
def escapeDigits? : Char → Option Nat
  | 'x' => some 2
  | 'u' => some 4
  | 'U' => some 8
  | _ => none

/-- An escape after its backslash. -/
def escape? (c : Cursor) : Option (Char × Cursor) := do
  let letter ← c.peek
  match escapeDigits? letter with
  | some n =>
    let ds := (c.rest.drop 1).take n
    if ds.length < n then none
    else
      let code ← hexNumber? ds
      if (0xD800 ≤ code ∧ code ≤ 0xDFFF) ∨ 0x10FFFF < code then none
      else some (Char.ofNat code, c.skipN (n + 1))
  | none => some (← escapeOf? letter, c.skip)

def apostrophe : Char := Char.ofNat 0x27

/-- A stretch of quoted text without blanks; the flag tells an escaped line break at its end. -/
def quotedRun (single : Bool) : Nat → Cursor → Option (List Char × Bool × Cursor)
  | 0, _ => none
  | fuel + 1, c =>
    let quote := if single then apostrophe else '"'
    match c.peek with
    | none => some ([], false, c)
    | some x =>
      if isSpacing x then some ([], false, c)
      else if single && x == quote && c.peekAt 1 == some quote then
        (quotedRun single fuel (c.skipN 2)).map fun (cs, r) => (quote :: cs, r)
      else if x == quote then some ([], false, c)
      else if !single && x == '\\' then
        if (c.peekAt 1).any isBreak then some ([], true, c.skip.skipBreak)
        else do
          let (y, c) ← escape? c.skip
          let (cs, r) ← quotedRun single fuel c
          some (y :: cs, r)
      else (quotedRun single fuel c.skip).map fun (cs, r) => (x :: cs, r)

/-- A quoted scalar after its opening quote. -/
def quotedText (single : Bool) : Nat → List Char → Cursor → Option (List Char × Cursor)
  | 0, _, _ => none
  | fuel + 1, text, c => do
    if c.atMarker || c.rest.isEmpty then failure
    let (run, escaped, c) ← quotedRun single (c.rest.length + 1) c
    let text := text ++ run
    if c.peek == some (if single then apostrophe else '"') then some (text, c.skip)
    else
      let (gap, c) ← Gap.read 0 (c.rest.length + 1) ⟨[], [], escaped⟩ c
      quotedText single fuel (text ++ gap.text) c

/-! ## Block scalars -/

/-- What becomes of the line breaks at the end of a block scalar. -/
inductive Chomping where
  | strip
  | clip
  | keep
deriving DecidableEq

/-- The spaces and empty lines before a line of a block scalar: the breaks, the widest indentation
seen, and what follows. An indentation of zero is still unknown. -/
def blockBreaks (indent : Nat) :
    Nat → Nat → List Char → Cursor → Option (List Char × Nat × Cursor)
  | 0, _, _, _ => none
  | fuel + 1, widest, breaks, c =>
    let inside (c : Cursor) : Bool := indent == 0 || c.column < indent
    let spaces := (c.rest.takeWhile (· == ' ')).length
    let c := c.skipN (if indent == 0 then spaces else min spaces (indent - c.column))
    let widest := max widest c.column
    if inside c && c.peek == some '\t' then none
    else if (c.peek).any isBreak then
      let (b, c) := c.readBreak
      blockBreaks indent fuel widest (breaks ++ b) c
    else some (breaks, widest, c)

/-- The lines of a block scalar, each with the line break before it. -/
def blockLines (literal : Bool) (indent : Nat) :
    Nat → List Char → List Char → List Char → Bool → Cursor →
    Option (List Char × List Char × List Char × Cursor)
  | 0, _, _, _, _, _ => none
  | fuel + 1, text, lead, breaks, afterBlank, c =>
    if c.column == indent && !c.rest.isEmpty then do
      let blank := (c.peek).any isSpaceOrTab
      let joint :=
        if !literal && lead.head? == some '\n' && !afterBlank && !blank then
          if breaks.isEmpty then [' '] else []
        else lead
      let line := c.rest.takeWhile (fun x => !isBreak x)
      let (lead, c) := (c.skipN line.length).readBreak
      let text := text ++ joint ++ breaks ++ line
      let (breaks, _, c) ← blockBreaks indent (c.rest.length + 1) 0 [] c
      blockLines literal indent fuel text lead breaks blank c
    else some (text, lead, breaks, c)

/-- The chomping and indentation indicators of a block scalar, in either order. -/
def blockHeader (c : Cursor) : Option (Chomping × Nat × Cursor) :=
  let chomping? : Option Char → Option Chomping
    | some '+' => some .keep
    | some '-' => some .strip
    | _ => none
  let digit? : Option Char → Option Nat
    | some d => if d.isDigit then some (d.toNat - 0x30) else none
    | none => none
  match chomping? c.peek, digit? c.peek with
  | some ch, _ =>
    match digit? c.skip.peek with
    | some 0 => none
    | some n => some (ch, n, c.skipN 2)
    | none => some (ch, 0, c.skip)
  | none, some 0 => none
  | none, some n =>
    match chomping? c.skip.peek with
    | some ch => some (ch, n, c.skipN 2)
    | none => some (.clip, n, c.skip)
  | none, none => some (.clip, 0, c)

/-- A block scalar after its indicator, inside a block of some indentation. -/
def blockText (literal : Bool) (outer : Int) (c : Cursor) : Option (List Char × Cursor) := do
  let (chomping, increment, c) ← blockHeader c
  let c := c.skipWhile isSpaceOrTab
  let c := if c.peek == some '#' then c.skipWhile (fun x => !isBreak x) else c
  if !(c.peek).all isBreak then failure
  let c := c.skipBreak
  let fixed : Nat :=
    if increment = 0 then 0 else if 0 ≤ outer then outer.toNat + increment else increment
  let (breaks, widest, c) ← blockBreaks fixed (c.rest.length + 1) 0 [] c
  let indent := if fixed = 0 then max widest (max (outer + 1).toNat 1) else fixed
  let (text, lead, breaks, c) ←
    blockLines literal indent (c.rest.length + 1) [] [] breaks false c
  let text := if chomping = .strip then text else text ++ lead
  let text := if chomping = .keep then text ++ breaks else text
  some (text, c)

/-! ## Tags and directives -/

/-- The characters of tags; the last four only between angle brackets and in directives. -/
def isTagChar (verbatim : Bool) (c : Char) : Bool :=
  isWord c || [';', '/', '?', ':', '@', '&', '=', '+', '$', '.', '%', '!', '~', '*', apostrophe,
    '(', ')'].contains c || (verbatim && [',', '[', ']'].contains c)

/-- One byte of a tag that is written as a percent sign and two digits. -/
def escapedByte? : List Char → Option (Nat × List Char)
  | '%' :: a :: b :: rest => do some (← hexNumber? [a, b], rest)
  | _ => none

/-- The character that a run of escaped bytes starts with, in UTF-8. -/
def escapedChar? (cs : List Char) : Option (Char × List Char) := do
  let (b₀, cs) ← escapedByte? cs
  let continue? (n : Nat) (cs : List Char) : Option (Nat × List Char) := do
    let (b, cs) ← escapedByte? cs
    if b / 0x40 = 2 then some (n * 0x40 + b % 0x40, cs) else none
  let (code, cs) ←
    if b₀ < 0x80 then some (b₀, cs)
    else if b₀ / 0x20 = 6 then continue? (b₀ % 0x20) cs
    else if b₀ / 0x10 = 14 then do
      let (n, cs) ← continue? (b₀ % 0x10) cs
      continue? n cs
    else if b₀ / 8 = 30 then do
      let (n, cs) ← continue? (b₀ % 8) cs
      let (n, cs) ← continue? n cs
      continue? n cs
    else none
  some (Char.ofNat code, cs)

/-- A tag's text with its escapes resolved. -/
def tagText? : Nat → List Char → Option (List Char)
  | 0, _ => none
  | _ + 1, [] => some []
  | fuel + 1, c :: cs =>
    if c == '%' then do
      let (x, rest) ← escapedChar? (c :: cs)
      some (x :: (← tagText? fuel rest))
    else (tagText? fuel cs).map (c :: ·)

/-- The characters of a tag from here on, resolved. -/
def takeTag (verbatim : Bool) (c : Cursor) : Option (String × Cursor) := do
  let run := c.rest.takeWhile (isTagChar verbatim)
  let text ← tagText? (run.length + 1) run
  some (String.ofList text, c.skipN run.length)

/-- A tag's handle and suffix, from its first exclamation mark on. -/
def tagParts (c : Cursor) : Option (String × String × Cursor) := do
  if c.peekAt 1 == some '<' then
    let (suffix, c) ← takeTag true (c.skipN 2)
    if suffix.isEmpty || c.peek != some '>' then failure
    some ("", suffix, c.skip)
  else
    let word := (c.rest.drop 1).takeWhile isWord
    if c.peekAt (word.length + 1) == some '!' then
      let (suffix, c) ← takeTag false (c.skipN (word.length + 2))
      if suffix.isEmpty then failure
      some ("!" ++ String.ofList word ++ "!", suffix, c)
    else
      let (suffix, c) ← takeTag false c.skip
      if suffix.isEmpty then some ("", "!", c) else some ("!", suffix, c)

/-- A directive after its percent sign. -/
def directive (c : Cursor) : Option (Token × Cursor) := do
  let name := c.rest.takeWhile isWord
  let c := (c.skipN name.length).skipWhile isSpaceOrTab
  let (token, c) ←
    match String.ofList name with
    | "YAML" => do
      let major := c.rest.takeWhile Char.isDigit
      let minor := (c.rest.drop (major.length + 1)).takeWhile Char.isDigit
      if major.isEmpty || minor.isEmpty || 9 < major.length || 9 < minor.length ||
          c.peekAt major.length != some '.' then failure
      let value (ds : List Char) : Nat := ds.foldl (fun n d => n * 10 + (d.toNat - 0x30)) 0
      some (Token.version (value major) (value minor), c.skipN (major.length + 1 + minor.length))
    | "TAG" => do
      if c.peek != some '!' then failure
      let word := (c.rest.drop 1).takeWhile isWord
      let closed := c.peekAt (word.length + 1) == some '!'
      if !closed && !word.isEmpty then failure
      let handle := "!" ++ String.ofList word ++ (if closed then "!" else "")
      let c := c.skipN handle.length
      if !(c.peek).any isSpaceOrTab then failure
      let (lead, c) ← takeTag true (c.skipWhile isSpaceOrTab)
      if lead.isEmpty || !c.spacingAt 0 then failure
      some (Token.tagHandle handle lead, c)
    | _ => none
  let c := c.skipWhile isSpaceOrTab
  let c := if c.peek == some '#' then c.skipWhile (fun x => !isBreak x) else c
  if !(c.peek).all isBreak then failure
  some (token, c.skipBreak)

/-! ## The tokens of a text -/

/-- A place where a key may turn out to have begun. -/
structure KeyStart where
  /-- The number of tokens before it. -/
  token : Nat
  line : Nat
  column : Nat
  index : Nat
  /-- Nothing but a key can stand there. -/
  required : Bool

/-- How far the tokens of a text have been found. -/
structure Scanner where
  cursor : Cursor
  tokens : Array Token
  indent : Int
  /-- The indentations of the blocks around, innermost first. -/
  outer : List Int
  /-- The candidates for a key on each level of flow collections, innermost first. -/
  keys : List (Option KeyStart)
  keyAllowed : Bool

abbrev Scan := StateT Scanner Option

namespace Scan

def flow (s : Scanner) : Bool := 1 < s.keys.length

def emit (t : Token) : Scan Unit := modify fun s => { s with tokens := s.tokens.push t }

def advance (c : Cursor) : Scan Unit := modify fun s => { s with cursor := c }

def allowKey (b : Bool) : Scan Unit := modify fun s => { s with keyAllowed := b }

/-- A token of `n` characters. -/
def emitSkip (n : Nat) (t : Token) : Scan Unit := do
  advance ((← get).cursor.skipN n)
  emit t

/-- Opens a block when the column is deeper than the one around; its start goes in front of token
`at?`, or behind all. -/
def openBlock (column : Nat) (at? : Option Nat) (t : Token) : Scan Unit := do
  let s ← get
  if !flow s && s.indent < column then
    let place := at?.getD s.tokens.size
    set { s with
      indent := column, outer := s.indent :: s.outer
      tokens := s.tokens.insertIdxIfInBounds place t }

/-- Closes the blocks that are deeper than a column. -/
def closeBlocks (column : Int) : Scan Unit := modify fun s =>
  if flow s then s
  else
    let rec go (indent : Int) (outer : List Int) (tokens : Array Token) : Scanner :=
      match outer with
      | [] => { s with indent := indent, outer := [], tokens := tokens }
      | i :: rest =>
        if column < indent then go i rest (tokens.push .blockEnd)
        else { s with indent := indent, outer := outer, tokens := tokens }
    go s.indent s.outer s.tokens

/-- Gives the innermost candidate for a key up; it must not be required. -/
def dropKey : Scan Unit := do
  let s ← get
  match s.keys with
  | some k :: keys => if k.required then failure else set { s with keys := none :: keys }
  | _ => pure ()

/-- A key may begin here. -/
def offerKey : Scan Unit := do
  if (← get).keyAllowed then
    dropKey
    modify fun s =>
      let c := s.cursor
      let start : KeyStart :=
        ⟨s.tokens.size, c.line, c.column, c.index, !flow s && s.indent == (c.column : Int)⟩
      { s with keys := some start :: s.keys.drop 1 }

/-- Keys have to end on their line, within this many characters. -/
def maxKeyLength : Nat := 1024

/-- Gives up the candidates that a key can no longer have begun at. -/
def dropStaleKeys : Scan Unit := do
  let s ← get
  let keys ← s.keys.mapM fun
    | none => pure none
    | some k =>
      if k.line < s.cursor.line || k.index + maxKeyLength < s.cursor.index then
        if k.required then (failure : Scan (Option KeyStart)) else pure none
      else pure (some k)
  set { s with keys := keys }

/-- Past blanks, comments and line breaks. -/
def toNextToken : Nat → Scan Unit
  | 0 => failure
  | fuel + 1 => do
    let s ← get
    let tabs := flow s || !s.keyAllowed
    let c := s.cursor.skipWhile (fun x => x == ' ' || (tabs && x == '\t'))
    let c := if c.peek == some '#' then c.skipWhile (fun x => !isBreak x) else c
    advance c
    if (c.peek).any isBreak then
      advance c.skipBreak
      if !flow s then allowKey true
      toNextToken fuel

/-- A colon behind a key or in front of a value. -/
def fetchValue : Scan Unit := do
  let s ← get
  match s.keys with
  | some k :: keys =>
    set { s with
      tokens := s.tokens.insertIdxIfInBounds k.token .key
      keys := none :: keys, keyAllowed := false }
    openBlock k.column (some k.token) .blockMapping
  | _ =>
    if !flow s then
      if !s.keyAllowed then failure
      openBlock s.cursor.column none .blockMapping
    allowKey (!flow s)
  emitSkip 1 .value

/-- A question mark in front of a key. -/
def fetchKey : Scan Unit := do
  let s ← get
  if !flow s then
    if !s.keyAllowed then failure
    openBlock s.cursor.column none .blockMapping
  dropKey
  allowKey (!flow s)
  emitSkip 1 .key

/-- A dash in front of an item. -/
def fetchBlockEntry : Scan Unit := do
  let s ← get
  if !flow s then
    if !s.keyAllowed then failure
    openBlock s.cursor.column none .blockSequence
  dropKey
  allowKey true
  emitSkip 1 .blockEntry

def fetchFlowStart (t : Token) : Scan Unit := do
  offerKey
  modify fun s => { s with keys := none :: s.keys }
  allowKey true
  emitSkip 1 t

def fetchFlowEnd (t : Token) : Scan Unit := do
  dropKey
  modify fun s => if flow s then { s with keys := s.keys.drop 1 } else s
  allowKey false
  emitSkip 1 t

def fetchFlowEntry : Scan Unit := do
  dropKey
  allowKey true
  emitSkip 1 .flowEntry

/-- The start or the end of a document. -/
def fetchMarker (t : Token) : Scan Unit := do
  closeBlocks (-1)
  dropKey
  allowKey false
  emitSkip 3 t

def fetchDirective : Scan Unit := do
  closeBlocks (-1)
  dropKey
  allowKey false
  let (t, c) ← (directive (← get).cursor.skip : Option _)
  advance c
  emit t

/-- A name after `&` or `*`. -/
def fetchName (token : String → Token) : Scan Unit := do
  offerKey
  allowKey false
  let c := (← get).cursor.skip
  let name := c.rest.takeWhile isWord
  let c := c.skipN name.length
  let ends := c.spacingAt 0 ||
    (c.peek).any (fun x => ['?', ':', ',', ']', '\x7d', '%', '@', Char.ofNat 0x60].contains x)
  if name.isEmpty || !ends then failure
  advance c
  emit (token (String.ofList name))

def fetchTag : Scan Unit := do
  offerKey
  allowKey false
  let s ← get
  let (handle, suffix, c) ← (tagParts s.cursor : Option _)
  if !(c.spacingAt 0 || (flow s && c.peek == some ',')) then failure
  advance c
  emit (.tag handle suffix)

def fetchBlockScalar (literal : Bool) : Scan Unit := do
  dropKey
  allowKey true
  let s ← get
  let (text, c) ← (blockText literal s.indent s.cursor.skip : Option _)
  advance c
  emit (.scalar false (String.ofList text))

def fetchQuoted (single : Bool) : Scan Unit := do
  offerKey
  allowKey false
  let c := (← get).cursor.skip
  let (text, c) ← (quotedText single (c.rest.length + 1) [] c : Option _)
  advance c
  emit (.scalar false (String.ofList text))

def fetchPlain : Scan Unit := do
  offerKey
  allowKey false
  let s ← get
  let c := s.cursor
  let (text, ended, c) ←
    (plainText (flow s) (s.indent + 1).toNat (c.rest.length + 1) [] Gap.none c : Option _)
  advance c
  if ended then allowKey true
  emit (.scalar true (String.ofList text))

/-- Whether unquoted text can start with a character that the given one follows. -/
def startsPlain (flow : Bool) (c : Cursor) (x : Char) : Bool :=
  let indicators := ['-', '?', ':', ',', '[', ']', '\x7b', '\x7d', '#', '&', '*', '!', '|', '>',
    apostrophe, '"', '%', '@', Char.ofNat 0x60]
  !(isSpacing x || indicators.contains x) ||
    (x == '-' && !(c.peekAt 1).any isSpaceOrTab) ||
    (!flow && (x == '?' || x == ':') && !c.spacingAt 1)

/-- The next token, or several; false at the end of the text. -/
def fetchNext : Scan Bool := do
  toNextToken ((← get).cursor.rest.length + 1)
  dropStaleKeys
  let s ← get
  let c := s.cursor
  closeBlocks c.column
  match c.peek with
  | none =>
    closeBlocks (-1)
    dropKey
    emit .streamEnd
    return false
  | some x =>
    let inFlow := flow s
    if c.column == 0 && x == '%' then fetchDirective
    else if c.atMarker then
      fetchMarker (if x == '-' then .documentStart else .documentEnd)
    else if x == '[' then fetchFlowStart .flowSequence
    else if x == '\x7b' then fetchFlowStart .flowMapping
    else if x == ']' then fetchFlowEnd .flowSequenceEnd
    else if x == '\x7d' then fetchFlowEnd .flowMappingEnd
    else if x == ',' then fetchFlowEntry
    else if x == '-' && c.spacingAt 1 then fetchBlockEntry
    else if x == '?' && (inFlow || c.spacingAt 1) then fetchKey
    else if x == ':' && (inFlow || c.spacingAt 1) then fetchValue
    else if x == '*' then fetchName .alias
    else if x == '&' then fetchName .anchor
    else if x == '!' then fetchTag
    else if x == '|' && !inFlow then fetchBlockScalar true
    else if x == '>' && !inFlow then fetchBlockScalar false
    else if x == apostrophe then fetchQuoted true
    else if x == '"' then fetchQuoted false
    else if startsPlain inFlow c x then fetchPlain
    else failure
    return true

def fetchAll : Nat → Scan Unit
  | 0 => failure
  | fuel + 1 => do if ← fetchNext then fetchAll fuel

end Scan

/-- The tokens of a text, if it has no lexical fault. -/
def tokens? (text : String) : Option (List Token) :=
  let cs := text.toList
  if cs.all isAllowed then
    let start : Scanner := ⟨⟨cs, 0, 0, 0⟩, #[], -1, [], [none], true⟩
    (Scan.fetchAll (cs.length + 2) start).map fun (_, s) => s.tokens.toList
  else none

end AccessiblePdf.Yaml
