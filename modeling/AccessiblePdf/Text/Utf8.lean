import AccessiblePdf.Bytes

/-!
UTF-8 read strictly and leniently. Both readers take one step at a time: a step gives the character
that a well-formed sequence at the front encodes, or nothing and the number of bytes that could have
started one. The strict reader refuses the whole text then; the lenient one writes U+FFFD for them.
-/
namespace AccessiblePdf.Utf8

/-- U+FFFD, which stands for what cannot be read. -/
def replacement : Char := '\uFFFD'

/-- A continuation byte, 10xxxxxx. -/
def isTail (b : UInt8) : Bool := 0x80 ≤ b && b ≤ 0xBF

/-- The six bits that a continuation byte carries. -/
def tailBits (b : UInt8) : Nat := (b &&& 0x3F).toNat

/-- Which second bytes may follow a lead byte of three or four: no overlong form, no surrogate,
nothing beyond U+10FFFF. -/
def secondOk (lead b : UInt8) : Bool :=
  if lead == 0xE0 then 0xA0 ≤ b && b ≤ 0xBF
  else if lead == 0xED then 0x80 ≤ b && b ≤ 0x9F
  else if lead == 0xF0 then 0x90 ≤ b && b ≤ 0xBF
  else if lead == 0xF4 then 0x80 ≤ b && b ≤ 0x8F
  else isTail b

/-- The character at the front, if it is well formed, and how many bytes after the first belong to
it or to the longest start of a well-formed sequence. -/
def step (lead : UInt8) (rest : Bytes) : Option Char × Nat :=
  if lead < 0x80 then (some (Char.ofNat lead.toNat), 0)
  else if 0xC2 ≤ lead && lead ≤ 0xDF then
    match rest with
    | b :: _ =>
      if isTail b then (some (Char.ofNat ((lead &&& 0x1F).toNat * 64 + tailBits b)), 1) else (none, 0)
    | [] => (none, 0)
  else if 0xE0 ≤ lead && lead ≤ 0xEF then
    match rest with
    | b :: c :: _ =>
      if !secondOk lead b then (none, 0)
      else if isTail c then
        (some (Char.ofNat (((lead &&& 0x0F).toNat * 64 + tailBits b) * 64 + tailBits c)), 2)
      else (none, 1)
    | [b] => (none, if secondOk lead b then 1 else 0)
    | [] => (none, 0)
  else if 0xF0 ≤ lead && lead ≤ 0xF4 then
    match rest with
    | b :: c :: d :: _ =>
      if !secondOk lead b then (none, 0)
      else if !isTail c then (none, 1)
      else if isTail d then
        (some (Char.ofNat ((((lead &&& 0x07).toNat * 64 + tailBits b) * 64 + tailBits c) * 64 +
          tailBits d)), 3)
      else (none, 2)
    | [b, c] => (none, if !secondOk lead b then 0 else if isTail c then 2 else 1)
    | [b] => (none, if secondOk lead b then 1 else 0)
    | [] => (none, 0)
  else (none, 0)

/-- The steps of a byte string, one option per character or unreadable stretch, in reverse order
onto `done`. -/
def stepsOnto (done : List (Option Char)) : Bytes → List (Option Char)
  | [] => done
  | b :: rest => stepsOnto ((step b rest).1 :: done) (rest.drop (step b rest).2)
termination_by bs => bs.length
decreasing_by simp only [List.length_drop, List.length_cons]; omega

/-- One option per character or unreadable stretch. -/
def steps (bs : Bytes) : List (Option Char) := (stepsOnto [] bs).reverse

/-- The text that a byte string encodes, if all of it is well formed. -/
def decode? (bs : Bytes) : Option String :=
  ((steps bs).mapM id).map String.ofList

/-- The text of a byte string, with U+FFFD for each unreadable stretch. -/
def decodeLossy (bs : Bytes) : String :=
  String.ofList ((steps bs).map (·.getD replacement))

end AccessiblePdf.Utf8
