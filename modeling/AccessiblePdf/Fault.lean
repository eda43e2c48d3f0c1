import AccessiblePdf.Decimal.Layout
import AccessiblePdf.Geometry.Box
import AccessiblePdf.Instruction.Violation

/-!
Why an operation of the library fails, and what it says then.
-/
namespace AccessiblePdf

/-- Why the text of an instruction document has no reading. -/
inductive Malformed where
  | notAnObject
  | notAMapping
  | codeOutOfRange (code : Int)
  | notACode (text : String)
  /-- The text breaks the notation, or a value has the wrong type. -/
  | illFormed
deriving DecidableEq, Repr

def Malformed.message : Malformed → String
  | .notAnObject => "instruction document must be a JSON object"
  | .notAMapping => "instruction document must be a YAML mapping"
  | .codeOutOfRange code => "character code " ++ toString code ++ " out of range"
  | .notACode text => "invalid character code '" ++ text ++ "'"
  | .illFormed => "malformed document"

/-- A part that every document, or every request, has to have. -/
inductive Part where
  | catalog
  | widgetRectangle
  | structureType (number generation : Nat)
deriving DecidableEq, Repr

def Part.message : Part → String
  | .catalog => "document catalog"
  | .widgetRectangle => "widget rectangle"
  | .structureType number generation =>
    "structure type of element (" ++ toString number ++ ", " ++ toString generation ++ ")"

/-- Why an operation fails. -/
inductive Fault where
  | file
  | unknownFormat
  | unsupportedVersion (version : String)
  | emptyInstructions
  | malformed (why : Malformed)
  | invalid (violations : List Violation)
  /-- An object is missing, or is not what its place asks for. -/
  | unreadable
  | encrypted
  | missing (part : Part)
  | pageOutOfRange (page count : Nat)
  | fontNotFound (name : String)
  | annotationNotFound (page index : Nat)
  | unknownNode (id : String)
  | unresolvedRegion (page : Nat) (region : Box Float)
  | noFreeMcid (page : Nat)
  | mcidOutOfRange (mcid : Int) (limit : Nat)
  | notACMap
  | codeOutsideFont (op font : String) (code limit : Nat)
  | noDescendantFont (number generation : Nat)
  | content
deriving Repr

/-- What is said about a failure. -/
def Fault.message : Fault → String
  | .file => "I/O error"
  | .unknownFormat => "Unknown file format: not a valid PDF"
  | .unsupportedVersion version => "Unsupported PDF version: " ++ version
  | .emptyInstructions => "Instruction document is empty"
  | .malformed why => "Invalid instruction document: " ++ why.message
  | .invalid violations =>
    "Instruction set failed validation with " ++ toString violations.length ++ " error(s)"
  | .unreadable => "PDF parsing error"
  | .encrypted => "Document is encrypted"
  | .missing part => "Missing required object: " ++ part.message
  | .pageOutOfRange page count =>
    "Page " ++ toString page ++ " is out of range (document has " ++ toString count ++ " pages)"
  | .fontNotFound name => "Resource not found: font /" ++ name
  | .annotationNotFound page index =>
    "Annotation " ++ toString index ++ " not found on page " ++ toString page
  | .unknownNode id => "Unknown structure node: " ++ id
  | .unresolvedRegion page region =>
    "No content found on page " ++ toString page ++ " inside [" ++
      ", ".intercalate
        [Decimal.ofDouble region.x, Decimal.ofDouble region.y, Decimal.ofDouble region.width,
          Decimal.ofDouble region.height] ++ "]"
  | .noFreeMcid page => "Structure error: page " ++ toString page ++ " has no free MCID"
  | .mcidOutOfRange mcid limit =>
    "Structure error: MCID " ++ toString mcid ++ " is outside 0..=" ++ toString limit
  | .notACMap => "Font error: not a CMap stream"
  | .codeOutsideFont op font code limit =>
    "Font error: " ++ op ++ ": code " ++ toString code ++ " is outside the codespace of font /" ++
      font ++ " (0 to " ++ toString limit ++ ")"
  | .noDescendantFont number generation =>
    "Font error: Type0 font (" ++ toString number ++ ", " ++ toString generation ++
      ") has no descendant font"
  | .content => "Content stream error"

end AccessiblePdf
