import AccessiblePdf.Document.Basic
import AccessiblePdf.Font.Glyph
import Std.Data.TreeMap

/-!
Encodings of simple fonts: WinAnsiEncoding in both directions, the base encodings by name, and the
differences from them.
-/
namespace AccessiblePdf

/-- Tables from character codes, or from character ids, to something. -/
abbrev CodeTable (α : Type) := Std.TreeMap Nat α

namespace WinAnsi

/-- Codes that stand for the character of the same number. -/
def isPlain (n : Nat) : Bool := (0x20 ≤ n && n ≤ 0x7E) || (0xA0 ≤ n && n ≤ 0xFF)

/-- The character of a code. -/
def decode? (code : UInt8) : Option Char :=
  if isPlain code.toNat then some (Char.ofNat code.toNat)
  else (Glyph.winAnsiHigh.find? (·.1 == code)).map (·.2.1)

/-- The code of a character. -/
def encode? (c : Char) : Option UInt8 :=
  if isPlain c.toNat then some (UInt8.ofNat c.toNat)
  else (Glyph.winAnsiHigh.find? (·.2.1 == c)).map (·.1)

/-- The codes of a text, if all its characters have one. -/
def encodeText? (s : String) : Option Bytes := s.toList.mapM encode?

/-- The glyph of a code. -/
def glyph? (code : UInt8) : Option String :=
  let n := code.toNat
  if 0x20 ≤ n ∧ n ≤ 0x7E then Glyph.asciiNames[n - 0x20]?
  else if 0xA0 ≤ n then Glyph.latin1Names[n - 0xA0]?
  else (Glyph.winAnsiHigh.find? (·.1 == code)).map (·.2.2)

end WinAnsi

namespace Encoding

/-- The character of a code in an encoding given by name. Of the encodings other than
WinAnsiEncoding only ASCII is read; the standard encoding, which also stands for unknown ones, has
curved quotes. -/
def decode? (encoding : Option String) (code : Nat) : Option Char :=
  if 256 ≤ code then none
  else if encoding = some "WinAnsiEncoding" then WinAnsi.decode? (UInt8.ofNat code)
  else if code < 0x20 ∨ 0x7E < code then none
  else if encoding = some "MacRomanEncoding" ∨ encoding = some "MacExpertEncoding" then
    some (Char.ofNat code)
  else if code = 0x27 then some '\u2019'
  else if code = 0x60 then some '\u2018'
  else some (Char.ofNat code)

/-! ## Differences -/

/-- A number as a code of 32 bits; codes outside are the nearest one inside. -/
def codeOf (n : Number) : Nat := min n.truncated.toNat (0x100000000 - 1)

/-- The code after another one; codes have 32 bits. -/
def succ (code : Nat) : Nat := (code + 1) % 0x100000000

/-- Whether a number may start a run of glyphs. -/
def startsRun : Number → Bool
  | .whole n => 0 ≤ n
  | .real x => x ≥ 0

/-- The codes and glyphs of a differences array in order: a number is the code of the glyph after
it, and the codes count on from there. -/
def differencePairs (doc : Document) : Option Nat → List Object → List (Nat × String)
  | _, [] => []
  | code, o :: rest =>
    let o := doc.resolve o
    match o.number? with
    | some n => differencePairs doc (if startsRun n then some (codeOf n) else code) rest
    | none =>
      match code, o.nameText? with
      | some c, some glyph => (c, glyph) :: differencePairs doc (some (succ c)) rest
      | code, _ => differencePairs doc code rest

/-- A differences array as a table; of two glyphs for one code the later counts. -/
def differences (doc : Document) (array : List Object) : CodeTable String :=
  (differencePairs doc none array).foldl (fun t e => t.insert e.1 e.2) ∅

/-- Codes and glyphs as an array, with a number wherever the codes do not count on from `next`. -/
def runs (next : Option Nat) : List (Nat × String) → List Object
  | [] => []
  | (code, glyph) :: rest =>
    if next = some code then .name (utf8 glyph) :: runs (some (succ code)) rest
    else .integer code :: .name (utf8 glyph) :: runs (some (succ code)) rest

/-- A table as a differences array. -/
def differencesArray (t : CodeTable String) : List Object := runs none t.toList

end Encoding

end AccessiblePdf
