import AccessiblePdf.CommandLine.Arguments
import AccessiblePdf.CommandLine.Summary
import AccessiblePdf.Instruction.Read
import AccessiblePdf.Remedy.File
import AccessiblePdf.Report.File
import AccessiblePdf.Report.Format
import Std.Time.Format

/-!
The program: reads files, carries out a request, and writes files and texts.
-/
namespace AccessiblePdf.CommandLine

/-- An action of the program, or what is said when it fails. -/
abbrev Run (α : Type) := ExceptT String IO α

/-- An action on files. -/
def file {α : Type} (action : IO α) : Run α :=
  ExceptT.mk do
    try return .ok (← action)
    catch e => return .error ("I/O error: " ++ toString e)

def fault {α : Type} : Except Fault α → Run α
  | .ok a => return a
  | .error f => throw f.message

def readBytes (path : String) : Run Bytes := do
  return (← file (IO.FS.readBinFile path)).data.toList

def writeBytes (path : String) (bytes : Bytes) : Run Unit :=
  file (IO.FS.writeBinFile path ⟨bytes.toArray⟩)

/-- The date and time of day, where the program runs. -/
def now : Run Date := file do
  let t ← Std.Time.DateTime.now
  let d := t.toPlainDateTime
  return {
    year := d.date.year.toInt.toNat
    month := d.date.month.val.toNat
    day := d.date.day.val.toNat
    hour := d.time.hour.val.toNat
    minute := d.time.minute.val.toNat
    second := d.time.second.val.toNat
    offset := t.offset.second.val }

/-- The last part of a path. -/
def fileName (path : String) : String := (Text.splitOn '/' path).getLastD path

/-- An instruction set that breaks no rule; the rules that it breaks are told. -/
def instructions (path : String) : Run InstructionSet := do
  let set ← fault (InstructionSet.ofFile (fileName path) (← readBytes path))
  let violations := set.violations
  if !violations.isEmpty then
    IO.eprintln ("Invalid: " ++ toString violations.length ++ " error(s) in " ++ path)
    for v in violations do
      IO.eprintln ("  - " ++ v.text)
    throw (Fault.invalid violations).message
  return set

/-- Where a remedied file goes that was given no place. -/
def besides (path : String) : String :=
  let name := fileName path
  let folder := String.ofList (path.toList.take (path.length - name.length))
  let stem := match (Text.splitOn '.' name).dropLast with
    | [] => name
    | [""] => name
    | parts => ".".intercalate parts
  folder ++ stem ++ ".remediated.pdf"

def run : Request → Run Unit
  | .validate path => do
    let set ← instructions path
    IO.println ("Valid: " ++ path)
    for line in set.summary do
      IO.println ("  " ++ line)
  | .apply input path output lenient topLeft compress => do
    let set ← instructions path
    let matching := if topLeft then Matching.default.withOrigin .topLeft else Matching.default
    let modified ← now
    let bytes ← fault <| remediate
      { lenient, matching, compress, compressor := .stored, modified := some modified } set (← readBytes input)
    let output := output.getD (besides input)
    writeBytes output bytes
    IO.println ("Saved to " ++ output ++ " (" ++ toString bytes.length ++ " bytes)")
  | .inspect input output compact fontPrograms => do
    let report ← fault (Report.ofFile { fontPrograms } (← readBytes input))
    let text := report.json (if compact then .compact else .indented)
    match output with
    | some path =>
      writeBytes path (utf8 text)
      IO.println ("Saved to " ++ path)
    | none => IO.println text
  | .info input => do
    let report ← fault (Report.ofFile { operators := false } (← readBytes input))
    for line in report.summary input do
      IO.println line
  | .help => IO.println usage
  | .version => IO.println "pdfremedy 0.1.0"

end AccessiblePdf.CommandLine

open AccessiblePdf

def main (arguments : List String) : IO UInt32 := do
  match CommandLine.read arguments with
  | .error misuse =>
    IO.eprintln ("error: " ++ misuse.message ++ "\n\n" ++ CommandLine.usage)
    return 2
  | .ok request =>
    match ← (CommandLine.run request).run with
    | .ok () => return 0
    | .error message =>
      IO.eprintln ("Error: " ++ message)
      return 1
