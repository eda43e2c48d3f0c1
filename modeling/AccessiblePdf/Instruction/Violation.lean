/-!
What an instruction set can do wrong: a rule and the path of the field that breaks it.
-/
namespace AccessiblePdf

/-- The rules that instruction sets have to keep, each with what broke it. -/
inductive Rule where
  | required
  | versionRequired (supported : String)
  | unsupportedVersion (version supported : String)
  | oneOrTwo
  | knownTabOrder (value : String)
  | languageTag (value : String)
  | idNotEmpty
  | idUnique (id : String)
  | knownRole (role : String)
  | knownScope (scope : String)
  | positive
  | nonNegative
  | declaredNode (id : String)
  | knownArtifactType (value : String)
  | knownAnnotationOp (op : String)
  | knownFieldType (value : String)
  | knownFontOp (op : String)
  | someCid
  | cidRange
  | someGlyphName
  | glyphNamesUnbroken
  | knownEncoding (value : String)
  | tableNotEmpty
  | codeAtMost (code : Nat) (limit : String)
  | glyphNamesNotEmpty
  | widthsFinite
  | shareOfOne
deriving DecidableEq, Repr

/-- What a report says about a broken rule. -/
def Rule.message : Rule → String
  | .required => "is required"
  | .versionRequired supported => "is required (\"" ++ supported ++ "\")"
  | .unsupportedVersion version supported =>
    "unsupported version '" ++ version ++ "', expected \"" ++ supported ++ "\""
  | .oneOrTwo => "must be 1 or 2"
  | .knownTabOrder value => "'" ++ value ++ "' is not one of S, R, C"
  | .languageTag value => "'" ++ value ++ "' is not a valid language tag"
  | .idNotEmpty => "must not be empty"
  | .idUnique id => "duplicate structure id '" ++ id ++ "'"
  | .knownRole role => "'" ++ role ++ "' is not a recognised structure role"
  | .knownScope scope => "'" ++ scope ++ "' is not one of Row, Column, Both"
  | .positive => "must be greater than 0"
  | .nonNegative => "must be non-negative"
  | .declaredNode id => "references unknown structure id '" ++ id ++ "'"
  | .knownArtifactType value =>
    "'" ++ value ++ "' is not one of layout, header, footer, pagination, background"
  | .knownAnnotationOp op => "'" ++ op ++ "' is not a recognised annotation operation"
  | .knownFieldType value => "'" ++ value ++ "' is not one of Tx, Btn, Ch"
  | .knownFontOp op => "'" ++ op ++ "' is not a recognised font operation"
  | .someCid => "must list at least one CID"
  | .cidRange => "CIDs must be between 0 and 65535"
  | .someGlyphName => "must list at least one glyph name"
  | .glyphNamesUnbroken => "glyph names must be non-empty and contain no whitespace"
  | .knownEncoding value => "'" ++ value ++ "' is not a recognised encoding"
  | .tableNotEmpty => "must not be empty"
  | .codeAtMost code limit => "character code " ++ toString code ++ " is above " ++ limit
  | .glyphNamesNotEmpty => "glyph names must not be empty"
  | .widthsFinite => "widths must be finite and non-negative"
  | .shareOfOne => "must be between 0 and 1"

/-- A broken rule and where it was broken, as a path such as `structure.children[1].colspan`. -/
structure Violation where
  field : String
  rule : Rule
deriving DecidableEq, Repr

namespace Violation

def message (v : Violation) : String := v.rule.message

/-- The violation on one line. -/
def text (v : Violation) : String := v.field ++ ": " ++ v.message

end Violation

end AccessiblePdf
