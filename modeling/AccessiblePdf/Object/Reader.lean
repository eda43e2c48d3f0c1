import AccessiblePdf.Decimal.Read
import AccessiblePdf.Object.Basic

/-!
Reading objects from bytes. Each reader gives what it read and the bytes after it, or nothing; the
alternatives at one place are tried in a fixed order.
-/
namespace AccessiblePdf.Reader

/-- What a reader found in front, and the rest. -/
abbrev Found (α : Type) := Option (α × Bytes)

/-! ## White space -/

mutual

/-- After white space and comments; a comment that no line end closes stays. -/
def space : Bytes → Bytes
  | [] => []
  | b :: rest =>
    if Byte.isWhite b then space rest
    else if b = 0x25 then comment (b :: rest) rest
    else b :: rest

/-- Inside a comment that starts at `start`. -/
def comment (start : Bytes) : Bytes → Bytes
  | [] => start
  | b :: rest => if b = 0x0A ∨ b = 0x0D then space rest else comment start rest

end

/-! ## Numbers -/

/-- A sign in front, and the rest. -/
def takeSign : Bytes → Bytes × Bytes
  | b :: rest => if b = 0x2B ∨ b = 0x2D then ([b], rest) else ([], b :: rest)
  | [] => ([], [])

/-- The digits in front, and the rest. -/
def takeDigits (bs : Bytes) : Bytes × Bytes :=
  (bs.takeWhile Byte.isDigit, bs.dropWhile Byte.isDigit)

/-- The number that digits write. -/
def natOfDigits (ds : Bytes) : Nat := ds.foldl (fun n d => n * 10 + (d - 0x30).toNat) 0

/-- A number without sign below a limit. -/
def natural (limit : Nat) (bs : Bytes) : Found Nat :=
  let (ds, rest) := takeDigits bs
  if ds.isEmpty || limit ≤ natOfDigits ds then none else some (natOfDigits ds, rest)

/-- A whole number of 64 bits. -/
def integer (bs : Bytes) : Found Int :=
  let (sign, bs) := takeSign bs
  let (ds, rest) := takeDigits bs
  if ds.isEmpty then none
  else
    let n : Int := if sign = [0x2D] then -(natOfDigits ds : Int) else natOfDigits ds
    if n < minInt64 ∨ maxInt64 < n then none else some (n, rest)

/-- A number with a point, which has a digit on one side of it at least. -/
def real (bs : Bytes) : Found Float32 :=
  let (sign, bs) := takeSign bs
  let (whole, rest) := takeDigits bs
  match rest with
  | 0x2E :: rest =>
    let (places, rest) := takeDigits rest
    if whole.isEmpty && places.isEmpty then none
    else
      let written : Decimal.Written :=
        ⟨sign = [0x2D], natOfDigits (whole ++ places), -(places.length : Int)⟩
      some (written.toSingle, rest)
  | _ => none

/-- An object id and the letter that makes a reference of it. -/
def reference (bs : Bytes) : Option (ObjectId × Bytes) := do
  let (number, bs) ← natural (0x100000000) bs
  let (generation, bs) ← natural (0x10000) (space bs)
  match space bs with
  | 0x52 :: rest => some (⟨number, generation⟩, rest)
  | _ => none

/-! ## Names and strings -/

/-- The characters of a name, with `#` and two digits for any byte, added to those read before. -/
def nameFrom (done : Bytes) : Bytes → Bytes × Bytes
  | [] => (done.reverse, [])
  | b :: rest =>
    if b = 0x23 then
      match rest with
      | h :: l :: rest' =>
        match Byte.hexValue? h, Byte.hexValue? l with
        | some h, some l => nameFrom ((h * 16 + l) :: done) rest'
        | _, _ => (done.reverse, b :: rest)
      | _ => (done.reverse, b :: rest)
    else if Byte.isRegular b then nameFrom (b :: done) rest
    else (done.reverse, b :: rest)

def name : Bytes → Found Bytes
  | 0x2F :: rest => some (nameFrom [] rest)
  | _ => none

/-- Parentheses in a literal string may be nested this deep. -/
def nesting : Nat := 100

def isOctal (b : UInt8) : Bool := 0x30 ≤ b && b ≤ 0x37

/-- What stands for the characters after a backslash: a byte or nothing, and how many they are. -/
def escape : Bytes → Option UInt8 × Nat
  | [] => (none, 0)
  | b :: rest =>
    if isOctal b then
      let ds := (b :: rest).take 3 |>.takeWhile isOctal
      (some (UInt8.ofNat (ds.foldl (fun n d => n * 8 + (d - 0x30).toNat) 0)), ds.length)
    else if b = 0x0D then (none, if rest.head? = some 0x0A then 2 else 1)
    else if b = 0x0A then (none, 1)
    else if b = 0x6E then (some 0x0A, 1)
    else if b = 0x72 then (some 0x0D, 1)
    else if b = 0x74 then (some 0x09, 1)
    else if b = 0x62 then (some 0x08, 1)
    else if b = 0x66 then (some 0x0C, 1)
    else (some b, 1)

/-- The rest of a literal string in which `depth` parentheses are open, added to `done`. -/
def literalFrom (depth : Nat) (done : Bytes) (bs : Bytes) : Found Bytes :=
  match bs with
  | [] => none
  | b :: rest =>
    if b = 0x28 then
      if depth = nesting then none else literalFrom (depth + 1) (b :: done) rest
    else if b = 0x29 then
      if depth = 0 then some (done.reverse, rest) else literalFrom (depth - 1) (b :: done) rest
    else if b = 0x5C then
      if rest.isEmpty then none
      else literalFrom depth ((escape rest).1.toList ++ done) (rest.drop (escape rest).2)
    else literalFrom depth (b :: done) rest
termination_by bs.length
decreasing_by all_goals simp_all; try omega

def literal : Bytes → Found Bytes
  | 0x28 :: rest => literalFrom 0 [] rest
  | _ => none

/-- The bytes of hexadecimal digits; a last digit without partner counts as a high one. -/
def hexBytes : List UInt8 → Bytes
  | h :: l :: rest => (h * 16 + l) :: hexBytes rest
  | [h] => [h * 16]
  | [] => []

/-- The rest of a hexadecimal string, added to the digits read before. -/
def hexFrom (digits : List UInt8) : Bytes → Found Bytes
  | [] => none
  | b :: rest =>
    if Byte.isWhite b then hexFrom digits rest
    else if b = 0x3E then some (hexBytes digits.reverse, rest)
    else match Byte.hexValue? b with
      | some v => hexFrom (v :: digits) rest
      | none => none

def hexadecimal : Bytes → Found Bytes
  | 0x3C :: rest => hexFrom [] rest
  | _ => none

/-! ## Objects -/

/-- A word in front. -/
def word (w : Bytes) (o : Object) (bs : Bytes) : Found Object :=
  (Bytes.dropLead? w bs).map (fun rest => (o, rest))

def as (f : α → Object) (r : Found α) : Found Object := r.map fun (a, rest) => (f a, rest)

/-- Objects without parts: words, numbers, names and strings, and references where `references`
says so. -/
def atom (references : Bool) (bs : Bytes) : Found Object :=
  word "null" .null bs <|> word "true" (.boolean true) bs <|> word "false" (.boolean false) bs <|>
    (if references then as .reference (reference bs) else none) <|>
    as .real (real bs) <|> as .integer (integer bs) <|> as .name (name bs) <|>
    as (.string · .literal) (literal bs) <|> as (.string · .hexadecimal) (hexadecimal bs)

mutual

/-- An object; each step of the recursion takes one unit of `fuel`. -/
def objectFrom (references : Bool) (fuel : Nat) (bs : Bytes) : Found Object :=
  match fuel with
  | 0 => none
  | fuel + 1 =>
    match atom references bs with
    | some found => some found
    | none =>
      match bs with
      | 0x5B :: rest =>
        match itemsFrom fuel (space rest) with
        | (items, 0x5D :: rest) => some (.array items, rest)
        | _ => none
      | 0x3C :: 0x3C :: rest =>
        match entriesFrom fuel ∅ (space rest) with
        | (d, 0x3E :: 0x3E :: rest) => some (.dictionary d, rest)
        | _ => none
      | _ => none

/-- As many objects as can be read, each followed by white space. -/
def itemsFrom (fuel : Nat) (bs : Bytes) : List Object × Bytes :=
  match fuel with
  | 0 => ([], bs)
  | fuel + 1 =>
    match objectFrom true fuel bs with
    | none => ([], bs)
    | some (o, rest) =>
      let (os, rest) := itemsFrom fuel (space rest)
      (o :: os, rest)

/-- As many names with objects as can be read; of a repeated name the last object counts. -/
def entriesFrom (fuel : Nat) (d : Dict Object) (bs : Bytes) : Dict Object × Bytes :=
  match fuel with
  | 0 => (d, bs)
  | fuel + 1 =>
    match name bs with
    | none => (d, bs)
    | some (key, rest) =>
      match objectFrom true fuel (space rest) with
      | none => (d, bs)
      | some (o, rest) => entriesFrom fuel (d.insert key o) (space rest)

end

/-- The units of fuel that reading some bytes can take. -/
def fuelFor (bs : Bytes) : Nat := 2 * bs.length + 2

/-- An object, which may be or contain a reference. -/
def object (bs : Bytes) : Found Object := objectFrom true (fuelFor bs) bs

/-- The entries of a dictionary, without the brackets around them. -/
def entries (bs : Bytes) : Dict Object × Bytes := entriesFrom (fuelFor bs) ∅ bs

end AccessiblePdf.Reader
