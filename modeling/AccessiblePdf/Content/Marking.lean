import AccessiblePdf.Content.Scan
import AccessiblePdf.Geometry.Region

/-!
Putting marked-content brackets around what a region holds, and taking the brackets with MCIDs away
again.
-/
namespace AccessiblePdf.Marking

/-! ## What a region holds -/

/-- The positions of drawn operators that are not tagged, counted from `i`, with the operators. -/
def untagged : Nat → List Drawn → List (Nat × Drawn)
  | _, [] => []
  | i, d :: ds => if d.marks.isTagged then untagged (i + 1) ds else (i, d) :: untagged (i + 1) ds

/-- The positions of the untagged operators in a region, or of all of them. -/
def select (m : Matching Float) (scan : PageScan) (target : Option (Box Float)) : List Nat :=
  let candidates := untagged 0 scan.operators
  match target with
  | none => candidates.map (·.1)
  | some target =>
    (m.resolve (candidates.map (·.2.figure.box)) target).filterMap fun i =>
      candidates[i]?.map (·.1)

/-! ## Ranges of operations -/

/-- The operations from `first` to `last`. -/
structure Span where
  first : Nat
  last : Nat
deriving DecidableEq, Repr

/-- Whether an operator continues the sequence of the one before it: both show text in one text
object and one marked-content sequence. -/
def continues (before after : Drawn) : Bool :=
  after.figure.kind == .text && before.figure.kind == .text && after.figure.textObject.isSome &&
    after.figure.textObject == before.figure.textObject &&
    after.marks.scope == before.marks.scope

/-- The spans of operators given by position. Neighbours that continue each other share a span; the
last span and the operator that it ends with come first. -/
def spansOnto (operators : List Drawn) :
    Option (Nat × Drawn) → List Span → List Nat → List Span
  | _, spans, [] => spans.reverse
  | before, spans, position :: rest =>
    match operators[position]? with
    | none => spansOnto operators before spans rest
    | some d =>
      let joins := before.any fun b => b.1 + 1 == position && continues b.2 d
      let spans :=
        match joins, spans with
        | true, s :: done => ⟨s.first, d.index⟩ :: done
        | _, _ => ⟨d.start, d.index⟩ :: spans
      spansOnto operators (some (position, d)) spans rest

/-- The spans to bracket for the operators at some positions. -/
def spans (scan : PageScan) (positions : List Nat) : List Span :=
  spansOnto scan.operators none [] positions

/-! ## Brackets -/

/-- The end of a marked-content sequence. -/
def close : Operation := ⟨"EMC", []⟩

/-- The start of a marked-content sequence with a property list. -/
def openWith (tag : String) (properties : Dict Object) : Operation :=
  ⟨"BDC", [.name tag, .dictionary properties]⟩

/-- Puts openers before the operations that they are for, in the order of the list, and an end
behind every operation that the sorted list `ends` names, as often as it names it. -/
def insertBrackets : Nat → List (Nat × Operation) → List Nat → List Operation → List Operation
  | _, _, _, [] => []
  | i, openers, ends, op :: ops =>
    let here := openers.takeWhile (·.1 == i)
    let closing := ends.takeWhile (· == i)
    here.map (·.2) ++ op :: closing.map (fun _ => close) ++
      insertBrackets (i + 1) (openers.drop here.length) (ends.drop closing.length) ops

/-- The openers of spans, the first of which has number `n`. -/
def openersFrom (opener : Nat → Operation) : Nat → List Span → List (Nat × Operation)
  | _, [] => []
  | n, s :: ss => (s.first, opener n) :: openersFrom opener (n + 1) ss

/-- Brackets spans of operations; `opener n` starts the `n`-th. -/
def wrap (ops : List Operation) (ss : List Span) (opener : Nat → Operation) : List Operation :=
  insertBrackets 0 (openersFrom opener 0 ss) ((ss.map (·.last)).mergeSort (· ≤ ·)) ops

/-- Drops the brackets that carry an MCID, and counts them. `brackets` tells, innermost first, which
open sequences carry one. -/
def unwrapFrom (r : ContentResources) : List Bool → List Operation → List Operation × Nat
  | _, [] => ([], 0)
  | brackets, op :: ops =>
    match op.command with
    | .endMarked =>
      let (kept, n) := unwrapFrom r (brackets.drop 1) ops
      if brackets.head? = some true then (kept, n) else (op :: kept, n)
    | .beginMarked _ properties =>
      let tagged := (properties.bind (ContentResources.mcid? r.doc r.entries)).isSome
      let (kept, n) := unwrapFrom r (tagged :: brackets) ops
      if tagged then (kept, n + 1) else (op :: kept, n)
    | _ =>
      let (kept, n) := unwrapFrom r brackets ops
      (op :: kept, n)

/-- Operations without the brackets that carry an MCID, and how many of these there were. -/
def unwrap (r : ContentResources) (ops : List Operation) : List Operation × Nat :=
  unwrapFrom r [] ops

end AccessiblePdf.Marking
