import AccessiblePdf.Decimal.Layout
import AccessiblePdf.Object.TextString

/-!
Objects as short texts for reports.
-/
namespace AccessiblePdf.Object

mutual

/-- A short text for an object: strings as their text, names with a slash, and references as such.
-/
def display : Object → String
  | .null => "null"
  | .boolean b => toString b
  | .integer n => toString n
  | .real x => Decimal.ofSingle x
  | .name bytes => "/" ++ Utf8.decodeLossy bytes
  | .string bytes _ => TextString.decode bytes
  | .array items => "[" ++ " ".intercalate (displayAll items) ++ "]"
  | .dictionary d => "<<" ++ " ".intercalate (displayEntries d.entries) ++ ">>"
  | .stream _ content => "stream(" ++ toString content.length ++ " bytes)"
  | .reference id => id.label ++ " R"

def displayAll : List Object → List String
  | [] => []
  | o :: os => display o :: displayAll os

def displayEntries : List (Bytes × Object) → List String
  | [] => []
  | (key, o) :: rest => ("/" ++ Utf8.decodeLossy key ++ " " ++ display o) :: displayEntries rest

end

end AccessiblePdf.Object
