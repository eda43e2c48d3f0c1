import AccessiblePdf.Font.GlyphNames
import AccessiblePdf.Text.Numeral
import AccessiblePdf.Text.Utf16

/-!
What glyph names say about text. A name is read up to its first point; underscores join the names of
the parts of a ligature; `uni` and `u` introduce code points in hexadecimal. The digits after `uni` are
taken four bytes at a time, and reading breaks off where that cuts a character.
-/
namespace AccessiblePdf.Glyph

/-- Why the reading of a name breaks off. -/
inductive Cut where
  /-- Four bytes of the text after `uni` start or end within a character. -/
  | withinCharacter
deriving DecidableEq, Repr

/-- Whether bytes of a text start between two characters: the first of them, if there is one, continues
no character. -/
def isBoundary : Bytes → Bool
  | [] => true
  | b :: _ => !Utf8.isTail b

/-- Code units of four hexadecimal digits each, up to four bytes that are no number. -/
def units : Bytes → Except Cut (Option (List Nat))
  | a :: b :: c :: d :: rest =>
    if isBoundary (a :: b :: c :: d :: rest) && isBoundary rest then
      match Numeral.hex? 65536 [a, b, c, d] with
      | some unit => (units rest).map (Option.map (unit :: ·))
      | none => .ok none
    else .error .withinCharacter
  | _ => .ok (some [])

/-- The text of digits in groups of four, when it has no replacement character. There has to be a group,
and the last one has to be complete. -/
def unitsText (digits : Bytes) : Except Cut (Option String) :=
  if digits.isEmpty || digits.length % 4 != 0 then .ok none
  else (units digits).map fun us =>
    (us.map Utf16.decodeLossy).filter fun text => !text.toList.contains Utf8.replacement

/-- The text of `uni` and groups of four digits. -/
def uniText (name : Bytes) : Except Cut (Option String) :=
  match Bytes.dropLead? "uni" name with
  | some digits => unitsText digits
  | none => .ok none

/-- The text of `u` and four to six digits. -/
def uText? (name : Bytes) : Option String := do
  let digits ← Bytes.dropLead? "u" name
  if digits.length < 4 ∨ 6 < digits.length then none
  else
    let n ← Numeral.hex? (0x100000000) digits
    if Nat.isValidChar n then some (String.singleton (Char.ofNat n)) else none

/-- The text of a glyph that stands in the tables. -/
def namedText? (name : String) : Option String :=
  match asciiNames.findIdx? (· == name) with
  | some i => some (String.singleton (Char.ofNat (0x20 + i)))
  | none =>
    match latin1Names.findIdx? (· == name) with
    | some i => some (String.singleton (Char.ofNat (0xA0 + i)))
    | none =>
      match winAnsiHigh.find? (·.2.2 == name) with
      | some (_, c, _) => some (String.singleton c)
      | none => (extraNames.find? (·.1 == name)).map (fun e => String.singleton e.2)

/-- The text of one part of a name. -/
def partText (name : String) : Except Cut (Option String) :=
  (uniText (utf8 name)).map fun text => text <|> uText? (utf8 name) <|> namedText? name

/-- The pieces of a text between the places where a character stands; there is always one. -/
def split (sep : Char) : List Char → List (List Char)
  | [] => [[]]
  | c :: cs =>
    match split sep cs with
    | [] => [[c]]
    | piece :: more => if c = sep then [] :: piece :: more else (c :: piece) :: more

/-- The texts of parts, up to a part without one. -/
def partTexts : List (List Char) → Except Cut (Option (List String))
  | [] => .ok (some [])
  | part :: parts =>
    match partText (String.ofList part) with
    | .ok (some text) => (partTexts parts).map (Option.map (text :: ·))
    | .ok none => .ok none
    | .error cut => .error cut

/-- What is read of a name: everything in front of the first point. -/
def base (name : String) : List Char := name.toList.takeWhile (· != '.')

/-- Reads a glyph name: its text, if it has one. -/
def read (name : String) : Except Cut (Option String) :=
  if (base name).isEmpty then .ok none
  else (partTexts (split '_' (base name))).map (Option.map String.join)

/-- The text of a glyph name that can be read and has one. -/
def text? (name : String) : Option String := (read name).toOption.join

end AccessiblePdf.Glyph
