import AccessiblePdf.File.Read
import AccessiblePdf.File.Write
import AccessiblePdf.Instruction.Validate
import AccessiblePdf.Remedy.Stage

/-!
Carrying out instruction sets on files.
-/
namespace AccessiblePdf

/-- Reads a file, carries out an instruction set that breaks no rule, and writes the document again.
-/
def remediate (o : Options) (set : InstructionSet) (file : Bytes) : Except Fault Bytes := do
  if set.violations.isEmpty then
    let all : Edit Unit := do
      Edit.stages o set Stage.standard
      Edit.finish
    let after ← all.result { doc := ← File.read file }
    return File.write after.doc
  else .error (.invalid set.violations)

end AccessiblePdf
