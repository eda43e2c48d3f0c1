/-!
White space in texts: the characters with the property White_Space, and texts without the white
space around them. The decimal digits of all scripts, which have the property Decimal_Number, come in
runs of ten from a zero on.
-/
namespace AccessiblePdf.Text

/-- The characters with the property White_Space. -/
def isBlank (c : Char) : Bool :=
  let n := c.toNat
  (9 ≤ n && n ≤ 13) || n == 0x20 || n == 0x85 || n == 0xA0 || n == 0x1680 ||
    (0x2000 ≤ n && n ≤ 0x200A) || n == 0x2028 || n == 0x2029 || n == 0x202F || n == 0x205F ||
    n == 0x3000

/-- Without the white space in front. -/
def trimStartList (cs : List Char) : List Char := cs.dropWhile isBlank

/-- Without the white space at the end. -/
def trimEndList (cs : List Char) : List Char := (cs.reverse.dropWhile isBlank).reverse

def trimList (cs : List Char) : List Char := trimEndList (trimStartList cs)

/-- Without the white space at both ends. -/
def trim (s : String) : String := String.ofList (trimList s.toList)

/-- Whether there is nothing but white space. -/
def isEmptyOrBlank (s : String) : Bool := s.toList.all isBlank

/-- The stretches between white space. -/
def words (s : String) : List String :=
  let rec go (word : List Char) : List Char → List String
    | [] => if word.isEmpty then [] else [String.ofList word.reverse]
    | c :: cs =>
      if isBlank c then
        if word.isEmpty then go [] cs else String.ofList word.reverse :: go [] cs
      else go (c :: word) cs
  go [] s.toList

/-- U+FEFF, which may mark the start of a text. -/
def byteOrderMark : Char := '\uFEFF'

/-- Without byte-order marks in front. -/
def dropMarks (s : String) : String := String.ofList (s.toList.dropWhile (· == byteOrderMark))

/-- The control characters, U+0000 to U+001F and U+007F to U+009F. -/
def isControl (c : Char) : Bool := c.toNat < 0x20 || (0x7F ≤ c.toNat && c.toNat ≤ 0x9F)

/-- ASCII capitals become small; every other character stays. -/
def toAsciiLower (s : String) : String := String.ofList (s.toList.map Char.toLower)

/-- The pieces between the places where a character stands. -/
def splitOn (sep : Char) (s : String) : List String := (s.toList.splitOn sep).map String.ofList

/-- The zeros of the decimal digits. -/
def digitZeros : List Nat :=
  [0x30, 0x660, 0x6F0, 0x7C0, 0x966, 0x9E6, 0xA66, 0xAE6, 0xB66, 0xBE6, 0xC66, 0xCE6, 0xD66, 0xDE6,
    0xE50, 0xED0, 0xF20, 0x1040, 0x1090, 0x17E0, 0x1810, 0x1946, 0x19D0, 0x1A80, 0x1A90, 0x1B50,
    0x1BB0, 0x1C40, 0x1C50, 0xA620, 0xA8D0, 0xA900, 0xA9D0, 0xA9F0, 0xAA50, 0xABF0, 0xFF10, 0x104A0,
    0x10D30, 0x10D40, 0x11066, 0x110F0, 0x11136, 0x111D0, 0x112F0, 0x11450, 0x114D0, 0x11650,
    0x116C0, 0x116D0, 0x116DA, 0x11730, 0x118E0, 0x11950, 0x11BF0, 0x11C50, 0x11D50, 0x11DA0,
    0x11F50, 0x16130, 0x16A60, 0x16AC0, 0x16B50, 0x16D70, 0x1CCF0, 0x1D7CE, 0x1D7D8, 0x1D7E2,
    0x1D7EC, 0x1D7F6, 0x1E140, 0x1E2F0, 0x1E4F0, 0x1E5F1, 0x1E950, 0x1FBF0]

/-- Whether a character is a decimal digit of some script. -/
def isDecimalDigit (c : Char) : Bool :=
  digitZeros.any fun z => z ≤ c.toNat && c.toNat < z + 10

end AccessiblePdf.Text
