import AccessiblePdf.Data.Basic
import AccessiblePdf.Decimal.Read

/-!
What the text of a YAML scalar stands for. Unquoted text may be a null, a truth value, a whole
number (decimal, `0x`, `0o` or `0b`) or a floating-point number; digits with a leading zero are
text.
-/
namespace AccessiblePdf.Yaml

/-- Digits of a base, at least one. -/
def digits? (base : Nat) (cs : List Char) : Option Nat :=
  let digit (c : Char) : Option Nat :=
    let d :=
      if c.isDigit then c.toNat - 0x30
      else if 'a' ≤ c ∧ c ≤ 'f' then c.toNat - 'a'.toNat + 10
      else if 'A' ≤ c ∧ c ≤ 'F' then c.toNat - 'A'.toNat + 10
      else base
    if d < base then some d else none
  if cs.isEmpty then none else cs.foldlM (fun n c => (digit c).map (n * base + ·)) 0

/-- Whether a text is a zero with more digits behind, which is no number. -/
def leadsWithZero (cs : List Char) : Bool :=
  match (Decimal.takeSign cs).2 with
  | '0' :: d :: ds => (d :: ds).all Char.isDigit
  | _ => false

/-- The size of a whole number without sign. -/
def magnitude? : List Char → Option Nat
  | '0' :: 'x' :: ds => digits? 16 ds
  | '0' :: 'o' :: ds => digits? 8 ds
  | '0' :: 'b' :: ds => digits? 2 ds
  | cs => if leadsWithZero cs then none else digits? 10 cs

/-- A whole number of any size. -/
def whole? : List Char → Option Int
  | '+' :: cs => (magnitude? cs).map (fun n => (n : Int))
  | '-' :: cs => (magnitude? cs).map (fun n => -(n : Int))
  | cs => (magnitude? cs).map (fun n => (n : Int))

/-- A floating-point number; infinity and not-a-number have names of their own. -/
def float? (text : String) : Option Float :=
  let inf : Float := 1.0 / 0.0
  match text with
  | ".inf" | ".Inf" | ".INF" | "+.inf" | "+.Inf" | "+.INF" => some inf
  | "-.inf" | "-.Inf" | "-.INF" => some (-inf)
  | ".nan" | ".NaN" | ".NAN" => some (0.0 / 0.0)
  | _ => (Decimal.written? text.toList).map (·.toDouble) |>.filter Float.isFinite

def bool? : String → Option Bool
  | "true" | "True" | "TRUE" => some true
  | "false" | "False" | "FALSE" => some false
  | _ => none

def isNull : String → Bool
  | "null" | "Null" | "NULL" | "~" => true
  | _ => false

/-- How large a whole number is. -/
inductive Extent where
  /-- It fits 64 bits, with or without sign. -/
  | word
  /-- It fits 128 bits; such numbers are refused. -/
  | wide
  | beyond
deriving DecidableEq

def extent (n : Int) : Extent :=
  if -0x8000000000000000 ≤ n ∧ n < 0x10000000000000000 then .word
  else if -0x80000000000000000000000000000000 ≤ n ∧ n < 0x100000000000000000000000000000000 then .wide
  else .beyond

/-- The value of a whole number that is not beyond 128 bits; one that is not within 64 bits is
refused. -/
def intOr (text : String) (otherwise : Option Data) : Option Data :=
  match whole? text.toList with
  | some n =>
    match extent n with
    | .word => some (.int n)
    | .wide => none
    | .beyond => otherwise
  | none => otherwise

/-- The value of unquoted text. -/
def plain? (text : String) : Option Data :=
  if text.isEmpty || isNull text then some .null
  else
    match bool? text with
    | some b => some (.bool b)
    | none =>
      intOr text <|
        if leadsWithZero text.toList then some (.text text)
        else
          match float? text with
          | some x => some (.float x)
          | none => some (.text text)

/-- The tags of the core scalar types start like this. -/
def coreTag : String := "tag:yaml.org,2002:"

/-- The tag of a value of the document's own, without the mark in front. -/
def localTag? (tag : String) : Option String :=
  match tag.toList with
  | ['!'] => some tag
  | '!' :: name => some (String.ofList name)
  | _ => none

/-- The value of a scalar, unquoted or not, with the full text of its tag if it has one. -/
def scalar? (tag : Option String) (unquoted : Bool) (text : String) : Option Data :=
  let untagged := if unquoted then plain? text else some (.text text)
  match tag with
  | none => untagged
  | some tag =>
    if tag = coreTag ++ "bool" then (bool? text).map .bool
    else if tag = coreTag ++ "int" then intOr text none
    else if tag = coreTag ++ "float" then (float? text).map .float
    else if tag = coreTag ++ "null" then (if isNull text then some .null else none)
    else
      match localTag? tag with
      | some name => untagged.map (.tagged name)
      | none => some (.text text)

end AccessiblePdf.Yaml
