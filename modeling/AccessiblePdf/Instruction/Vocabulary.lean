import AccessiblePdf.Text.Blank
import AccessiblePdf.Text.Numeral

/-!
The words that instruction sets use: roles, scopes, kinds of artifacts, tab orders, operations, and
the spellings of character codes.
-/
namespace AccessiblePdf

/-- The version of instruction sets that this library carries out. -/
def supportedVersion : String := "1.0"

/-- The roles of structure elements. -/
def knownRoles : List String :=
  ["Document", "DocumentFragment", "Part", "Art", "Sect", "Div", "Aside", "NonStruct", "Private",
    "BlockQuote", "Caption", "TOC", "TOCI", "Index", "Title", "P", "H", "H1", "H2", "H3", "H4", "H5",
    "H6", "L", "LI", "Lbl", "LBody", "Table", "TR", "TH", "TD", "THead", "TBody", "TFoot", "Span",
    "Quote", "Note", "FENote", "Reference", "BibEntry", "Code", "Link", "Annot", "Ruby", "RB", "RT",
    "RP", "Warichu", "WT", "WP", "Figure", "Formula", "Form", "Sub", "Em", "Strong", "Artifact"]

/-- The scopes of header cells. -/
def knownScopes : List String := ["Row", "Column", "Both"]

/-- The types of form fields that can be created. -/
def knownFieldTypes : List String := ["Tx", "Btn", "Ch"]

/-- The encodings that a font can be given. -/
def knownEncodings : List String :=
  ["StandardEncoding", "WinAnsiEncoding", "MacRomanEncoding", "MacExpertEncoding", "Identity-H",
    "Identity-V"]

/-- The level of a numbered heading, 1 to 6. -/
def headingLevel? (role : String) : Option Nat :=
  match role.toList with
  | ['H', d] => if '1' ≤ d ∧ d ≤ '6' then some (d.toNat - 0x30) else none
  | _ => none

/-- What a part of a page that is not content is. -/
inductive ArtifactKind where
  | layout
  | header
  | footer
  | pagination
  | background
deriving DecidableEq, Repr

namespace ArtifactKind

/-- The kind with a name, in any case of its letters. -/
def ofName? (name : String) : Option ArtifactKind :=
  match Text.toAsciiLower name with
  | "layout" => some .layout
  | "header" => some .header
  | "footer" => some .footer
  | "pagination" => some .pagination
  | "background" => some .background
  | _ => none

/-- The type that the property list of an artifact gives. -/
def type : ArtifactKind → String
  | layout => "Layout"
  | header | footer | pagination => "Pagination"
  | background => "Background"

/-- The subtype that the property list of an artifact gives. -/
def subtype? : ArtifactKind → Option String
  | header => some "Header"
  | footer => some "Footer"
  | _ => none

end ArtifactKind

/-- The order in which the fields and links of a page are visited. -/
inductive TabOrder where
  | structural
  | row
  | column
deriving DecidableEq, Repr

namespace TabOrder

/-- The order with a name, short or long, in any case of its letters. -/
def ofName? (name : String) : Option TabOrder :=
  match Text.toAsciiLower name with
  | "s" | "structure" => some .structural
  | "r" | "row" => some .row
  | "c" | "column" => some .column
  | _ => none

/-- The order as the entry `/Tabs` of a page has it. -/
def name : TabOrder → String
  | structural => "S"
  | row => "R"
  | column => "C"

end TabOrder

/-- What is done to an annotation. -/
inductive AnnotationOp where
  | setContents
  | setTooltip
  | associate
  | createWidget
deriving DecidableEq, Repr

def AnnotationOp.ofName? : String → Option AnnotationOp
  | "set_contents" => some .setContents
  | "set_tu" => some .setTooltip
  | "associate" => some .associate
  | "create_widget" => some .createWidget
  | _ => none

/-- What is done to a font. -/
inductive FontOp where
  | writeCidSet
  | writeCharSet
  | setEncoding
  | setDifferences
  | writeToUnicode
  | setWidths
  | addDescriptor
deriving DecidableEq, Repr

def FontOp.ofName? : String → Option FontOp
  | "write_cidset" => some .writeCidSet
  | "write_charset" => some .writeCharSet
  | "set_encoding" => some .setEncoding
  | "set_differences" => some .setDifferences
  | "write_tounicode" => some .writeToUnicode
  | "set_widths" => some .setWidths
  | "add_font_descriptor" => some .addDescriptor
  | _ => none

namespace CharCode

/-- Character codes stay below this bound. -/
def limit : Nat := 0x100000000

/-- The code that a text spells: decimal, hexadecimal after `0x`, or hexadecimal between angle
brackets. -/
def ofText? (text : String) : Option Nat :=
  match Text.trimList text.toList with
  | '0' :: 'x' :: ds | '0' :: 'X' :: ds => Numeral.hex? limit (utf8 (String.ofList ds))
  | '<' :: ds =>
    if ds.getLast? = some '>' then Numeral.hex? limit (utf8 (String.ofList ds.dropLast)) else none
  | ds => Numeral.decimal? limit (utf8 (String.ofList ds))

end CharCode

end AccessiblePdf
