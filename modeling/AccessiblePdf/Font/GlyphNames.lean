import AccessiblePdf.Bytes

/-!
The names of glyphs: those of the Latin characters by code, and a few more.
-/
namespace AccessiblePdf.Glyph

/-- The glyphs of printable ASCII, 0x20 to 0x7E. -/
def asciiNames : List String :=
  [
    "space", "exclam", "quotedbl", "numbersign", "dollar", "percent", "ampersand", "quotesingle",
    "parenleft", "parenright", "asterisk", "plus", "comma", "hyphen", "period", "slash", "zero",
    "one", "two", "three", "four", "five", "six", "seven", "eight", "nine", "colon", "semicolon",
    "less", "equal", "greater", "question", "at", "A", "B", "C", "D", "E", "F", "G", "H", "I", "J",
    "K", "L", "M", "N", "O", "P", "Q", "R", "S", "T", "U", "V", "W", "X", "Y", "Z", "bracketleft",
    "backslash", "bracketright", "asciicircum", "underscore", "grave", "a", "b", "c", "d", "e",
    "f", "g", "h", "i", "j", "k", "l", "m", "n", "o", "p", "q", "r", "s", "t", "u", "v", "w", "x",
    "y", "z", "braceleft", "bar", "braceright", "asciitilde"
  ]

/-- The glyphs of Latin-1, 0xA0 to 0xFF. -/
def latin1Names : List String :=
  [
    "nbspace", "exclamdown", "cent", "sterling", "currency", "yen", "brokenbar", "section",
    "dieresis", "copyright", "ordfeminine", "guillemotleft", "logicalnot", "sfthyphen",
    "registered", "macron", "degree", "plusminus", "twosuperior", "threesuperior", "acute", "mu",
    "paragraph", "periodcentered", "cedilla", "onesuperior", "ordmasculine", "guillemotright",
    "onequarter", "onehalf", "threequarters", "questiondown", "Agrave", "Aacute", "Acircumflex",
    "Atilde", "Adieresis", "Aring", "AE", "Ccedilla", "Egrave", "Eacute", "Ecircumflex",
    "Edieresis", "Igrave", "Iacute", "Icircumflex", "Idieresis", "Eth", "Ntilde", "Ograve",
    "Oacute", "Ocircumflex", "Otilde", "Odieresis", "multiply", "Oslash", "Ugrave", "Uacute",
    "Ucircumflex", "Udieresis", "Yacute", "Thorn", "germandbls", "agrave", "aacute", "acircumflex",
    "atilde", "adieresis", "aring", "ae", "ccedilla", "egrave", "eacute", "ecircumflex",
    "edieresis", "igrave", "iacute", "icircumflex", "idieresis", "eth", "ntilde", "ograve",
    "oacute", "ocircumflex", "otilde", "odieresis", "divide", "oslash", "ugrave", "uacute",
    "ucircumflex", "udieresis", "yacute", "thorn", "ydieresis"
  ]

/-- The codes 0x80 to 0x9F of WinAnsiEncoding with their characters and glyphs. -/
def winAnsiHigh : List (UInt8 × Char × String) :=
  [
    (0x80, '\u20AC', "Euro"), (0x82, '\u201A', "quotesinglbase"), (0x83, '\u0192', "florin"),
    (0x84, '\u201E', "quotedblbase"), (0x85, '\u2026', "ellipsis"), (0x86, '\u2020', "dagger"),
    (0x87, '\u2021', "daggerdbl"), (0x88, '\u02C6', "circumflex"), (0x89, '\u2030', "perthousand"),
    (0x8A, '\u0160', "Scaron"), (0x8B, '\u2039', "guilsinglleft"), (0x8C, '\u0152', "OE"),
    (0x8E, '\u017D', "Zcaron"), (0x91, '\u2018', "quoteleft"), (0x92, '\u2019', "quoteright"),
    (0x93, '\u201C', "quotedblleft"), (0x94, '\u201D', "quotedblright"),
    (0x95, '\u2022', "bullet"), (0x96, '\u2013', "endash"), (0x97, '\u2014', "emdash"),
    (0x98, '\u02DC', "tilde"), (0x99, '\u2122', "trademark"), (0x9A, '\u0161', "scaron"),
    (0x9B, '\u203A', "guilsinglright"), (0x9C, '\u0153', "oe"), (0x9E, '\u017E', "zcaron"),
    (0x9F, '\u0178', "Ydieresis")
  ]

/-- Common glyphs that WinAnsiEncoding lacks. -/
def extraNames : List (String × Char) :=
  [
    ("fi", '\uFB01'), ("fl", '\uFB02'), ("ff", '\uFB00'), ("ffi", '\uFB03'), ("ffl", '\uFB04'),
    ("minus", '\u2212'), ("dotlessi", '\u0131'), ("Lslash", '\u0141'), ("lslash", '\u0142'),
    ("fraction", '\u2044')
  ]

end AccessiblePdf.Glyph
