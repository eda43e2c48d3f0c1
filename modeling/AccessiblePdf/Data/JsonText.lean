import AccessiblePdf.Data.Basic
import AccessiblePdf.Decimal.Layout

/-!
Data as JSON text, on one line or indented.
-/
namespace AccessiblePdf.JsonText

/-- A double has a point or an exponent; below 10^-5 it has an exponent, and exponents have a sign.
-/
def floatStyle : Decimal.PointedStyle := ⟨.toEven, -5, true⟩

/-- The hexadecimal digit of a value below 16. -/
def hexDigit (n : Nat) : Char := (Nat.digitChar n)

/-- A character in a string: quotes, backslashes and control characters are escaped. -/
def escape (c : Char) : List Char :=
  if c = '"' then ['\\', '"']
  else if c = '\\' then ['\\', '\\']
  else if c.toNat = 8 then ['\\', 'b']
  else if c.toNat = 9 then ['\\', 't']
  else if c.toNat = 10 then ['\\', 'n']
  else if c.toNat = 12 then ['\\', 'f']
  else if c.toNat = 13 then ['\\', 'r']
  else if c.toNat < 32 then
    ['\\', 'u', '0', '0', hexDigit (c.toNat / 16), hexDigit (c.toNat % 16)]
  else [c]

def quoted (s : String) : List Char := '"' :: s.toList.flatMap escape ++ ['"']

/-- A double; what is not finite has no number and becomes null. -/
def float (x : Float) : List Char :=
  if x.isFinite then ((Decimal.Reading.ofDouble x).pointed floatStyle).toList else "null".toList

/-- How the parts of lists and tables are laid out. -/
inductive Layout where
  | compact
  | indented
deriving DecidableEq, Repr

/-- The start of a line at a depth. -/
def line : Layout → Nat → List Char
  | .compact, _ => []
  | .indented, depth => '\n' :: List.replicate (2 * depth) ' '

/-- What stands between a key and its value. -/
def colon : Layout → List Char
  | .compact => [':']
  | .indented => [':', ' ']

/-- Parts between brackets at a depth. -/
def bracketed (l : Layout) (depth : Nat) (opening closing : Char) (parts : List (List Char)) :
    List Char :=
  match parts with
  | [] => [opening, closing]
  | part :: rest =>
    opening :: line l (depth + 1) ++ part ++ rest.flatMap (fun p => ',' :: line l (depth + 1) ++ p) ++
      line l depth ++ [closing]

mutual

/-- A value at a depth. Keys are texts; a key of another kind, and a tag, are left out. -/
def value (l : Layout) (depth : Nat) : Data → List Char
  | .null => "null".toList
  | .bool b => (toString b).toList
  | .int n => (toString n).toList
  | .float x => float x
  | .text s => quoted s
  | .list items => bracketed l depth '[' ']' (values l (depth + 1) items)
  | .table entries => bracketed l depth '\x7b' '\x7d' (fields l (depth + 1) entries)
  | .tagged _ d => value l depth d

def values (l : Layout) (depth : Nat) : List Data → List (List Char)
  | [] => []
  | d :: ds => value l depth d :: values l depth ds

def fields (l : Layout) (depth : Nat) : List (Data × Data) → List (List Char)
  | [] => []
  | (.text key, d) :: rest => (quoted key ++ colon l ++ value l depth d) :: fields l depth rest
  | _ :: rest => fields l depth rest

end

/-- Data as JSON text. -/
def ofData (l : Layout) (d : Data) : String := String.ofList (value l 0 d)

end AccessiblePdf.JsonText
