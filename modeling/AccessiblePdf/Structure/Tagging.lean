import AccessiblePdf.Instruction.Set
import AccessiblePdf.Content.Marking
import AccessiblePdf.Remedy.Options
import AccessiblePdf.Structure.ParentTree

/-!
Binding the content of regions to structure elements, and marking it as artifacts.
-/
namespace AccessiblePdf.Edit

/-- Fails for a region that holds nothing, unless such regions are passed over. -/
def unresolved (o : Options) (page : Int) (region : Box Float) : Edit Unit :=
  if o.lenient then pure () else throw (.unresolvedRegion page.toNat region)

/-- What a region of a page holds. -/
structure Selection where
  page : ObjectId
  operations : List Operation
  scan : PageScan
  /-- The region in user space. -/
  target : Option (Box Float)
  pageBox : Box Float
  positions : List Nat

/-- Finds what a declared region of a page holds. -/
def selectRegion (o : Options) (number : Int) (declared : Option (Box Float)) : Edit Selection := do
  let page ← Edit.page number
  let doc ← doc
  let pageBox := doc.pageBox page
  let target := declared.map (o.matching.toUserSpace · pageBox)
  let operations ← lift (doc.pageOperations page)
  let scan := doc.scan page operations
  return { page, operations, scan, target, pageBox
           positions := Marking.select o.matching scan target }

/-- Lists an MCID among the kids of an element: as a number on the page of the element, as a
reference elsewhere. -/
def addContentKid (element page : ObjectId) (mcid : Int) : Edit Unit := do
  let own ← match (← dict element).get? "Pg" with
    | some (.reference pg) => pure (pg == page)
    | _ => do
      setEntry element "Pg" (.reference page)
      pure true
  let kid : Object :=
    if own then .integer mcid
    else .ofEntries [(utf8 "Type", .name "MCR"), (utf8 "Pg", .reference page),
      (utf8 "MCID", .integer mcid)]
  appendKid element kid

/-- Records MCIDs from `mcid` on as the content of an element. -/
def recordMcids (root page element : ObjectId) (key : Int) : Nat → Int → Edit Unit
  | 0, _ => pure ()
  | n + 1, mcid => do
    setMcidParent root key mcid element
    addContentKid element page mcid
    recordMcids root page element key n (mcid + 1)

/-- Binds what a region holds to its structure element. -/
def tagRegion (o : Options) (root : ObjectId) (r : TagRegion) : Edit Unit := do
  let element ← node r.node
  let role ← elementRole element
  let s ← selectRegion o r.page r.box
  if s.positions.isEmpty then unresolved o r.page (s.target.getD s.pageBox)
  else
    let spans := Marking.spans s.scan s.positions
    let first ← match s.scan.nextMcid? with
      | some first => pure first
      | none => throw (.noFreeMcid r.page.toNat)
    let _ ← checkMcid ((← checkMcid first) + spans.length - 1)
    setOperations s.page (Marking.wrap s.operations spans fun n =>
      Marking.openWith role (.ofList [(utf8 "MCID", .integer (first + n))]))
    let key ← pageKey root s.page
    recordMcids root s.page element key spans.length first

def applyRegions (o : Options) (regions : List TagRegion) : Edit Unit := do
  let root ← ensureRoot
  for r in regions do tagRegion o root r
  setMarked true

/-! ## Artifacts -/

/-- The property list of an artifact. -/
def artifactProperties (kind : ArtifactKind) (target : Option (Box Float)) : Dict Object :=
  .ofList ([(utf8 "Type", .name kind.type)] ++
    kind.subtype?.toList.map (fun s => (utf8 "Subtype", .name s)) ++
    target.toList.map fun b => (utf8 "BBox", .ofBox b))

/-- Marks what a region holds as an artifact. -/
def markArtifact (o : Options) (r : ArtifactRegion) : Edit Unit := do
  let kind := (ArtifactKind.ofName? r.kind).getD .layout
  let s ← selectRegion o r.page r.box
  if s.positions.isEmpty then unresolved o r.page (s.target.getD s.pageBox)
  else
    setOperations s.page (Marking.wrap s.operations (Marking.spans s.scan s.positions) fun _ =>
      Marking.openWith MarkStack.artifactTag (artifactProperties kind s.target))

def applyArtifacts (o : Options) (regions : List ArtifactRegion) : Edit Unit := do
  for r in regions do markArtifact o r

end AccessiblePdf.Edit
