import AccessiblePdf.Data.Yaml.Scalar
import AccessiblePdf.Data.Yaml.Token

/-!
YAML documents as data. A text holds one document; a table may not have a key twice; an alias stands
for the value of the anchor last set.
-/
namespace AccessiblePdf.Yaml

/-- What is left of the tokens, and what the document has named so far. -/
structure Reader where
  tokens : List Token
  /-- The values of anchors, latest first; nothing for one whose value is not complete. -/
  anchors : List (String × Option Data)
  /-- What tag handles stand for. -/
  handles : List (String × String)

abbrev Read := StateT Reader Option

namespace Read

def peek : Read Token := do return (← get).tokens.head?.getD .streamEnd

def next : Read Unit := modify fun s => { s with tokens := s.tokens.drop 1 }

/-- Whether the next token is one of these. -/
def isNext (ts : List Token) : Read Bool := do return ts.contains (← peek)

/-- Past a token if it is next. -/
def accept (t : Token) : Read Bool := do
  if (← peek) = t then next; return true else return false

def expect (t : Token) : Read Unit := do if !(← accept t) then failure

/-- The anchor and the tag in front of a node, in either order and each at most once. -/
def properties : Read (Option String × Option (String × String)) := do
  match ← peek with
  | .anchor a => do
    next
    match ← peek with
    | .tag h s => do next; return (some a, some (h, s))
    | _ => return (some a, none)
  | .tag h s => do
    next
    match ← peek with
    | .anchor a => do next; return (some a, some (h, s))
    | _ => return (none, some (h, s))
  | _ => return (none, none)

/-- The full text of a tag. -/
def resolveTag : Option (String × String) → Read (Option String)
  | none => return none
  | some ("", suffix) => return some suffix
  | some (handle, suffix) => do
    match (← get).handles.lookup handle with
    | some lead => return some (lead ++ suffix)
    | none => failure

/-- Marks the collections of the document's own types. -/
def withTag (tag : Option String) (d : Data) : Data :=
  match tag.bind localTag? with
  | some name => .tagged name d
  | none => d

/-- A table without a key twice. -/
def tableOf (entries : List (Data × Data)) : Read Data :=
  let rec distinct : List Data → Bool
    | [] => true
    | k :: ks => !ks.any k.same && distinct ks
  if distinct (entries.map (·.1)) then return .table entries else failure

mutual

/-- A node; `block` allows block collections, `indentless` a sequence that is not indented. -/
def node : Nat → Bool → Bool → Read Data
  | 0, _, _ => failure
  | fuel + 1, block, indentless => do
    match ← peek with
    | .alias name => do
      next
      match (← get).anchors.lookup name with
      | some (some d) => return d
      | _ => failure
    | _ => do
      let (anchor, tagParts) ← properties
      let tag ← resolveTag tagParts
      if let some a := anchor then
        modify fun s => { s with anchors := (a, none) :: s.anchors }
      let d ← match ← peek with
        | .blockEntry =>
          if indentless then do pure (withTag tag (.list (← items fuel [])))
          else if anchor.isSome || tag.isSome then (scalar? tag true "" : Option Data)
          else failure
        | .scalar unquoted text => do next; (scalar? tag unquoted text : Option Data)
        | .flowSequence => do next; pure (withTag tag (.list (← flowItems fuel true [])))
        | .flowMapping => do
          next
          pure (withTag tag (← tableOf (← flowEntries fuel true [])))
        | .blockSequence =>
          if block then do
            next
            let l ← items fuel []
            expect .blockEnd
            pure (withTag tag (.list l))
          else if anchor.isSome || tag.isSome then (scalar? tag true "" : Option Data)
          else failure
        | .blockMapping =>
          if block then do next; pure (withTag tag (← tableOf (← entries fuel [])))
          else if anchor.isSome || tag.isSome then (scalar? tag true "" : Option Data)
          else failure
        | _ =>
          if anchor.isSome || tag.isSome then (scalar? tag true "" : Option Data) else failure
      if let some a := anchor then
        modify fun s => { s with anchors := (a, some d) :: s.anchors }
      return d

/-- A node, or null in front of one of some tokens. -/
def nodeUnless : Nat → List Token → Bool → Bool → Read Data
  | 0, _, _, _ => failure
  | fuel + 1, stops, block, indentless => do
    if ← isNext stops then return .null else node fuel block indentless

/-- The items of a block sequence. -/
def items : Nat → List Data → Read (List Data)
  | 0, _ => failure
  | fuel + 1, acc => do
    if ← accept .blockEntry then
      let d ← nodeUnless fuel [.blockEntry, .blockEnd, .key, .value] true false
      items fuel (d :: acc)
    else return acc.reverse

/-- The entries of a block mapping, with its end. -/
def entries : Nat → List (Data × Data) → Read (List (Data × Data))
  | 0, _ => failure
  | fuel + 1, acc => do
    if ← accept .key then
      let k ← nodeUnless fuel [.key, .value, .blockEnd] true true
      let d ← valueAfter fuel [.key, .value, .blockEnd] true
      entries fuel ((k, d) :: acc)
    else
      expect .blockEnd
      return acc.reverse

/-- The value behind a key, or null where there is none. -/
def valueAfter : Nat → List Token → Bool → Read Data
  | 0, _, _ => failure
  | fuel + 1, stops, block => do
    if ← accept .value then nodeUnless fuel stops block block else return .null

/-- The items of a flow sequence, with its end; a key makes a table of one entry. -/
def flowItems : Nat → Bool → List Data → Read (List Data)
  | 0, _, _ => failure
  | fuel + 1, first, acc => do
    if ← accept .flowSequenceEnd then return acc.reverse
    else
      if !first then expect .flowEntry
      if ← accept .key then
        let k ← nodeUnless fuel [.value, .flowEntry, .flowSequenceEnd] false false
        let d ← valueAfter fuel [.flowEntry, .flowSequenceEnd] false
        flowItems fuel false (.table [(k, d)] :: acc)
      else if (← peek) = .flowSequenceEnd then flowItems fuel false acc
      else
        let d ← node fuel false false
        flowItems fuel false (d :: acc)

/-- The entries of a flow mapping, with its end. -/
def flowEntries : Nat → Bool → List (Data × Data) → Read (List (Data × Data))
  | 0, _, _ => failure
  | fuel + 1, first, acc => do
    if ← accept .flowMappingEnd then return acc.reverse
    else
      if !first then expect .flowEntry
      if ← accept .key then
        let k ← nodeUnless fuel [.value, .flowEntry, .flowMappingEnd] false false
        let d ← valueAfter fuel [.flowEntry, .flowMappingEnd] false
        flowEntries fuel false ((k, d) :: acc)
      else if (← peek) = .flowMappingEnd then flowEntries fuel false acc
      else
        let k ← node fuel false false
        flowEntries fuel false ((k, .null) :: acc)

end

/-- What the usual tag handles stand for. -/
def usualHandles : List (String × String) := [("!", "!"), ("!!", coreTag)]

/-- The directives in front of a document: whether there is a version, and the handles. -/
def directives : Nat → Bool → List (String × String) → Read (Bool × List (String × String))
  | 0, _, _ => failure
  | fuel + 1, versioned, handles => do
    match ← peek with
    | .version major minor => do
      next
      if versioned || major ≠ 1 || (minor ≠ 1 && minor ≠ 2) then failure
      directives fuel true handles
    | .tagHandle handle lead => do
      next
      if (handles.lookup handle).isSome then failure
      directives fuel versioned ((handle, lead) :: handles)
    | _ => return (versioned, handles)

/-- Past the marks of a document's end. -/
def skipEnds : Nat → Read Unit
  | 0 => failure
  | fuel + 1 => do if ← accept .documentEnd then skipEnds fuel

/-- The only document of a text; an empty text is a null. -/
def document (fuel : Nat) : Read Data := do
  let (versioned, handles) ← directives fuel false []
  let directed := versioned || !handles.isEmpty
  modify fun s => { s with handles := handles ++ usualHandles }
  let explicit ← accept .documentStart
  if directed && !explicit then failure
  let d ← nodeUnless fuel (if explicit then [.documentStart, .documentEnd, .streamEnd]
    else [.streamEnd]) true false
  skipEnds fuel
  expect .streamEnd
  return d

end Read

/-- The data of a text, if it is one document that is not nested too deep. -/
def read? (text : String) : Option Data := do
  let tokens ← tokens? text
  let (d, _) ← (Read.document (4 * tokens.length + 8)).run ⟨tokens, [], []⟩
  if d.depth ≤ Data.maxDepth then some d else none

end AccessiblePdf.Yaml
