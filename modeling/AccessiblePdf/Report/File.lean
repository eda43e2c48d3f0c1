import AccessiblePdf.File.Read
import AccessiblePdf.Report.Basic

/-!
Reports on files.
-/
namespace AccessiblePdf.Report

/-- Reports on the document in a file, on the file itself and on the version that its header states.
-/
def ofFile (o : ReportOptions) (file : Bytes) : Except Fault Report := do
  let version ← Header.version file
  let r ← (← File.read file).report o
  return { r with document := { r.document with file := some file, version } }

end AccessiblePdf.Report
