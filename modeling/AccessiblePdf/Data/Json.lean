import AccessiblePdf.Bytes
import AccessiblePdf.Data.Basic

/-!
JSON documents as data. Of several entries with one key the last counts, and the keys of an object
come in order of their bytes. A number without point and exponent is whole when it fits 64 bits; any
other is the product of a whole number of 64 bits and a power of ten, each rounded to a double.
-/
namespace AccessiblePdf.Json

/-! ## Space and numbers -/

def isSpace (c : Char) : Bool := c == ' ' || c == '\n' || c == '\t' || c == '\r'

def skipSpace (cs : List Char) : List Char := cs.dropWhile isSpace

/-- Significands stay below this bound. -/
def significandLimit : Nat := 0x10000000000000000

/-- Reads digits on from a significand as long as it stays below the limit: the significand, how
many digits it took, and the rest. -/
def takeDigits (significand : Nat) : List Char → Nat × Nat × List Char
  | [] => (significand, 0, [])
  | c :: cs =>
    let next := significand * 10 + (c.toNat - 0x30)
    if c.isDigit && next < significandLimit then
      let (s, n, rest) := takeDigits next cs
      (s, n + 1, rest)
    else (significand, 0, c :: cs)

/-- Powers of ten that doubles have. -/
def maxPower : Nat := 308

def tenToThe (n : Nat) : Float := Float.ofScientific 1 false n

/-- Divides by the largest power of ten as often as a number needs it. -/
def scaleDown (x : Float) (n : Nat) : Float :=
  if n ≤ maxPower then x / tenToThe n
  else if x == 0 then x
  else scaleDown (x / tenToThe maxPower) (n - maxPower)
termination_by n
decreasing_by simp only [maxPower] at *; omega

/-- A significand times a power of ten; nothing when it is out of range. -/
def scaled? (significand : Nat) (exponent : Int) : Option Float :=
  let x := Float.ofNat significand
  if exponent < 0 then some (scaleDown x exponent.natAbs)
  else if exponent.toNat ≤ maxPower then
    let y := x * tenToThe exponent.toNat
    if y.isInf then none else some y
  else if significand = 0 then some 0 else none

/-- Exponents are read as far as they stay within this bound. -/
def maxExponent : Nat := 0x80000000 - 1

/-- An exponent after its letter: its value and the rest. -/
def exponent? (cs : List Char) : Option (Int × List Char) :=
  let (negative, cs) : Bool × List Char := match cs with
    | '+' :: cs => (false, cs)
    | '-' :: cs => (true, cs)
    | cs => (false, cs)
  let digits := cs.takeWhile Char.isDigit
  if digits.isEmpty then none
  else
    let n : Nat := digits.foldl (fun n c => n * 10 + (c.toNat - 0x30)) 0
    some (if negative then -(n : Int) else (n : Int), cs.dropWhile Char.isDigit)

/-- Applies an exponent, if one follows, to a significand. -/
def real? (significand : Nat) (exponent : Int) (cs : List Char) : Option (Float × List Char) :=
  match cs with
  | c :: rest =>
    if c == 'e' || c == 'E' then do
      let (e, rest) ← exponent? rest
      if maxExponent < e.natAbs then
        if significand ≠ 0 ∧ 0 < e then none else some (0, rest)
      else some (← scaled? significand (exponent + e), rest)
    else do some (← scaled? significand exponent, cs)
  | [] => do some (← scaled? significand exponent, [])

/-- A number without its sign: whole, or a double. -/
def unsigned? (cs : List Char) : Option ((Nat ⊕ Float) × List Char) := do
  let whole := cs.takeWhile Char.isDigit
  if whole.isEmpty || (whole.head? == some '0' && 1 < whole.length) then failure
  let (significand, _, dropped) := takeDigits 0 whole
  match cs.dropWhile Char.isDigit with
  | '.' :: rest =>
    let places := rest.takeWhile Char.isDigit
    if places.isEmpty then failure
    let (significand, taken, _) := takeDigits significand places
    let (x, rest) ← real? significand (dropped.length - taken) (rest.dropWhile Char.isDigit)
    some (.inr x, rest)
  | rest =>
    let exponential := rest.head? == some 'e' || rest.head? == some 'E'
    if dropped.isEmpty && !exponential then some (.inl significand, rest)
    else do
      let (x, rest) ← real? significand dropped.length rest
      some (.inr x, rest)

def number? (cs : List Char) : Option (Data × List Char) :=
  match cs with
  | '-' :: cs => do
    match ← unsigned? cs with
    | (.inl n, rest) =>
      some (if 0 < n ∧ n ≤ 0x8000000000000000 then .int (-n) else .float (-Float.ofNat n), rest)
    | (.inr x, rest) => some (.float (-x), rest)
  | cs => do
    match ← unsigned? cs with
    | (.inl n, rest) => some (.int n, rest)
    | (.inr x, rest) => some (.float x, rest)

/-! ## Strings -/

/-- Four hexadecimal digits. -/
def unit? : List Char → Option (Nat × List Char)
  | a :: b :: c :: d :: rest => do
    let digit (c : Char) : Option Nat :=
      if c.toNat < 0x80 then (Byte.hexValue? c.toNat.toUInt8).map (·.toNat) else none
    some ((((← digit a) * 16 + (← digit b)) * 16 + (← digit c)) * 16 + (← digit d), rest)
  | _ => none

/-- The character of a `\u` escape, which may be a pair of surrogates. -/
def escapedUnit? (cs : List Char) : Option (Char × List Char) := do
  let (high, rest) ← unit? cs
  if 0xDC00 ≤ high ∧ high ≤ 0xDFFF then none
  else if 0xD800 ≤ high ∧ high ≤ 0xDBFF then
    match rest with
    | '\\' :: 'u' :: rest => do
      let (low, rest) ← unit? rest
      if low < 0xDC00 ∨ 0xDFFF < low then none
      else some (Char.ofNat (0x10000 + (high - 0xD800) * 0x400 + (low - 0xDC00)), rest)
    | _ => none
  else some (Char.ofNat high, rest)

/-- The character after a backslash and what follows it. -/
def escaped? : List Char → Option (Char × List Char)
  | '"' :: cs => some ('"', cs)
  | '\\' :: cs => some ('\\', cs)
  | '/' :: cs => some ('/', cs)
  | 'b' :: cs => some ('\x08', cs)
  | 'f' :: cs => some ('\x0C', cs)
  | 'n' :: cs => some ('\n', cs)
  | 'r' :: cs => some ('\r', cs)
  | 't' :: cs => some ('\t', cs)
  | 'u' :: cs => escapedUnit? cs
  | _ => none

/-- The characters up to the closing quote. -/
def characters? : Nat → List Char → Option (List Char × List Char)
  | 0, _ => none
  | fuel + 1, cs =>
    match cs with
    | [] => none
    | '"' :: rest => some ([], rest)
    | '\\' :: rest => do
      let (c, rest) ← escaped? rest
      let (s, rest) ← characters? fuel rest
      some (c :: s, rest)
    | c :: rest => do
      if c.toNat < 0x20 then none
      else
        let (s, rest) ← characters? fuel rest
        some (c :: s, rest)

/-- A string after its opening quote. -/
def string? (cs : List Char) : Option (String × List Char) :=
  (characters? (cs.length + 1) cs).map fun (s, rest) => (String.ofList s, rest)

/-! ## Values -/

/-- Sets a key in a table whose keys are in order. -/
def insertSorted (k : String) (v : Data) : List (String × Data) → List (String × Data)
  | [] => [(k, v)]
  | (l, w) :: rest =>
    if k = l then (k, v) :: rest
    else if k < l then (k, v) :: (l, w) :: rest
    else (l, w) :: insertSorted k v rest

/-- An object with these entries, the last of each key. -/
def ofEntries (entries : List (String × Data)) : Data :=
  .table ((entries.foldl (fun t e => insertSorted e.1 e.2 t) []).map fun e => (.text e.1, e.2))

mutual

/-- A value with at most `depth` levels of lists and objects left, and the rest. -/
def value? : Nat → Nat → List Char → Option (Data × List Char)
  | 0, _, _ => none
  | fuel + 1, depth, cs =>
    match skipSpace cs with
    | 'n' :: 'u' :: 'l' :: 'l' :: rest => some (.null, rest)
    | 't' :: 'r' :: 'u' :: 'e' :: rest => some (.bool true, rest)
    | 'f' :: 'a' :: 'l' :: 's' :: 'e' :: rest => some (.bool false, rest)
    | '"' :: rest => (string? rest).map fun (s, rest) => (.text s, rest)
    | '[' :: rest =>
      if depth ≤ 1 then none
      else
        match skipSpace rest with
        | ']' :: rest => some (.list [], rest)
        | rest => (items? fuel (depth - 1) rest).map fun (items, rest) => (.list items, rest)
    | '\x7b' :: rest =>
      if depth ≤ 1 then none
      else
        match skipSpace rest with
        | '\x7d' :: rest => some (.table [], rest)
        | rest => (entries? fuel (depth - 1) rest).map fun (es, rest) => (ofEntries es, rest)
    | cs => number? cs

/-- The items of a list that has one, up to its closing bracket. -/
def items? : Nat → Nat → List Char → Option (List Data × List Char)
  | 0, _, _ => none
  | fuel + 1, depth, cs => do
    let (item, rest) ← value? fuel depth cs
    match skipSpace rest with
    | ',' :: rest =>
      let (items, rest) ← items? fuel depth rest
      some (item :: items, rest)
    | ']' :: rest => some ([item], rest)
    | _ => none

/-- The entries of an object that has one, up to its closing brace. -/
def entries? : Nat → Nat → List Char → Option (List (String × Data) × List Char)
  | 0, _, _ => none
  | fuel + 1, depth, cs => do
    match skipSpace cs with
    | '"' :: rest =>
      let (key, rest) ← string? rest
      match skipSpace rest with
      | ':' :: rest =>
        let (value, rest) ← value? fuel depth rest
        match skipSpace rest with
        | ',' :: rest =>
          let (entries, rest) ← entries? fuel depth rest
          some ((key, value) :: entries, rest)
        | '\x7d' :: rest => some ([(key, value)], rest)
        | _ => none
      | _ => none
    | _ => none

end

/-- A document: one value with nothing but space around it. -/
def read? (text : String) : Option Data := do
  let cs := text.toList
  let (value, rest) ← value? (2 * cs.length + 2) Data.maxDepth cs
  if (skipSpace rest).isEmpty then some value else none

end AccessiblePdf.Json
