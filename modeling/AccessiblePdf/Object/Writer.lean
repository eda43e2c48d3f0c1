import AccessiblePdf.Decimal.Layout
import AccessiblePdf.Object.Basic

/-!
Writing objects as bytes. A space separates an item from the one before only where the item starts
with a character that could continue a word: in front of null, booleans, numbers and references.
-/
namespace AccessiblePdf.Writer

/-- A byte of a name: itself, or `#` and two digits. -/
def nameByte (b : UInt8) : Bytes :=
  if b < 33 ∨ 126 < b ∨ Byte.isDelimiter b ∨ b = 0x23 then 0x23 :: Byte.hex b else [b]

def name (bs : Bytes) : Bytes := 0x2F :: bs.flatMap nameByte

/-! ## Strings -/

/-- Which closing parentheses have no partner before them, when `opened` are open. -/
def loneClosers (opened : Nat) : Bytes → List Bool
  | [] => []
  | b :: rest =>
    if b = 0x28 then false :: loneClosers (opened + 1) rest
    else if b = 0x29 then
      if opened = 0 then true :: loneClosers 0 rest else false :: loneClosers (opened - 1) rest
    else false :: loneClosers opened rest

/-- Which opening parentheses have no partner after them, and how many closing ones are left. -/
def loneOpeners : Bytes → List Bool × Nat
  | [] => ([], 0)
  | b :: rest =>
    let (marks, closers) := loneOpeners rest
    if b = 0x29 then (false :: marks, closers + 1)
    else if b = 0x28 then
      if closers = 0 then (true :: marks, 0) else (false :: marks, closers - 1)
    else (false :: marks, closers)

/-- A byte of a literal string. -/
def literalByte (lone : Bool) (b : UInt8) : Bytes :=
  if b = 0x0D then [0x5C, 0x72] else if lone ∨ b = 0x5C then [0x5C, b] else [b]

/-- The bytes of a literal string, each marked when it is a parenthesis without partner. -/
def literal (bs : Bytes) : Bytes :=
  let lone := (loneClosers 0 bs).zipWith (· || ·) (loneOpeners bs).1
  0x28 :: ((bs.zip lone).flatMap fun (b, l) => literalByte l b) ++ [0x29]

def string (bs : Bytes) : StringStyle → Bytes
  | .literal => literal bs
  | .hexadecimal => 0x3C :: Bytes.toHex bs ++ [0x3E]

/-! ## Objects -/

/-- Whether an item must not follow another one directly. -/
def needsSpace : Object → Bool
  | .null | .boolean _ | .integer _ | .real _ | .reference _ => true
  | _ => false

def spaced (o : Object) (bs : Bytes) : Bytes := if needsSpace o then 0x20 :: bs else bs

mutual

def object : Object → Bytes
  | .null => "null"
  | .boolean b => if b then "true" else "false"
  | .integer n => toString n
  | .real x => Decimal.ofSingle x
  | .name bs => name bs
  | .string bs style => string bs style
  | .array [] => "[]"
  | .array (o :: os) => 0x5B :: object o ++ items os ++ [0x5D]
  | .dictionary ⟨es⟩ => 0x3C :: 0x3C :: entries es ++ [0x3E, 0x3E]
  | .stream ⟨es⟩ content =>
    0x3C :: 0x3C :: entries es ++ utf8 ">>stream\n" ++ content ++ utf8 "\nendstream"
  | .reference id => toString id.number ++ " " ++ toString id.generation ++ " R"

/-- The items of an array after the first one. -/
def items : List Object → Bytes
  | [] => []
  | o :: os => spaced o (object o) ++ items os

/-- The entries of a dictionary. -/
def entries : List (Bytes × Object) → Bytes
  | [] => []
  | (key, o) :: es => name key ++ spaced o (object o) ++ entries es

end

end AccessiblePdf.Writer
