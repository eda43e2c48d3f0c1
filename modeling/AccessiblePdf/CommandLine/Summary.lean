import AccessiblePdf.Header
import AccessiblePdf.Instruction.Set
import AccessiblePdf.Instruction.Violation
import AccessiblePdf.Report.Basic

/-!
Summaries for people: what an instruction set holds, and how accessible a document is.
-/
namespace AccessiblePdf

/-- A label and what it is about. -/
def Summary.line (label value : String) : String := label ++ ": " ++ value

/-- What an instruction set holds. -/
def InstructionSet.summary (set : InstructionSet) : List String :=
  let rows := [("Structure nodes", set.allTags.length), ("Content bindings", set.regions.length),
    ("Artifacts", set.artifacts.length), ("Annotation operations", set.annotations.length),
    ("Font operations", set.fonts.length), ("OCR pages", set.ocr.length)]
  let counts := (rows.filter (·.2 != 0)).map fun (label, count) =>
    Summary.line label (toString count)
  let metadata := if set.metadata.isSome then [Summary.line "Metadata" "yes"] else []
  let outline := if set.bookmarks.any (·.fromHeadings) then
    [Summary.line "Bookmarks" "from headings"] else []
  counts ++ metadata ++ outline

namespace Report

/-- The elements of the structure tree. -/
def elementCount (r : Report) : Nat := (r.structureTree.map (Tree.sizeAll ·.elements)).getD 0

/-- The fonts whose characters have no Unicode text stated. -/
def fontsWithoutUnicode (r : Report) : Nat := (r.fonts.filter (·.toUnicode.isNone)).length

/-- MCIDs that no element of the structure tree claims. -/
def orphanMcids (r : Report) : Nat :=
  r.pages.foldl (fun n p => n + (p.scan.mcids.length - p.structuredMcids.length)) 0

/-- The least contrast that text needs. -/
def leastContrast : Float := 4.5

/-- The colour pairs with less contrast than text needs. -/
def lowContrastPairs (r : Report) : Nat :=
  (r.colorPairs.filter (·.contrast < leastContrast)).length

/-- A count that is told only when there is something to count. -/
def warning (label : String) (count : Nat) : List String :=
  if count = 0 then [] else [Summary.line label (toString count)]

def yesNo (b : Bool) : String := if b then "Yes" else "No"

/-- The facts about the file. -/
def fileSummary (r : Report) (file : String) : List String :=
  let d := r.document
  let size := (d.file.map List.length).getD 0
  let stated (label key : String) : List String :=
    (d.info[key]?).toList.map fun value => Summary.line label value
  [Summary.line "File" file, Summary.line "Format" (Header.formatName d.version),
    Summary.line "Pages" (toString d.pageCount),
    Summary.line "Size" (toString size ++ " bytes")] ++
    stated "Title" "Title" ++
    d.modified.toList.map (fun date => Summary.line "Modified" date.minuteText) ++
    stated "Processor" "Processor"

/-- The facts that tell how accessible the document is. -/
def accessSummary (r : Report) : List String :=
  let d := r.document
  [Summary.line "Tagged" (yesNo d.tagged), Summary.line "Language" (d.language.getD "(none)"),
    Summary.line "Display title" (yesNo (d.displayTitle == some true)),
    Summary.line "PDF/UA part" ((d.pdfuaPart.map toString).getD "none"),
    Summary.line "Structure elements" (toString r.elementCount),
    Summary.line "Fonts"
      (toString r.fonts.length ++ " (" ++ toString r.fontsWithoutUnicode ++ " without ToUnicode)")] ++
    warning "MCIDs without parent" r.orphanMcids ++
    [Summary.line "Bookmarks" (toString (Tree.sizeAll r.outline))] ++
    warning "Low contrast pairs" r.lowContrastPairs

/-- The summary of a report on a file. -/
def summary (r : Report) (file : String) : List String :=
  let rule := String.ofList (List.replicate 40 '─')
  ["Document Information", rule] ++ r.fileSummary file ++ ["", "Accessibility", rule] ++
    r.accessSummary

end Report

end AccessiblePdf
