import AccessiblePdf.Text.Decomposition

/-!
The composed form of texts (Normalization Form C): characters are decomposed, marks are put in the
order of their classes, and what composes is composed again.
-/
namespace AccessiblePdf.Text

/-- Puts a mark in front of a text in canonical order, behind the marks of lower classes. -/
def insertMark (c : Nat) : List Nat → List Nat
  | [] => [c]
  | d :: ds =>
    if combiningClass d ≠ 0 ∧ combiningClass d < combiningClass c then d :: insertMark c ds
    else c :: d :: ds

/-- Characters with the marks after each letter in the order of their classes. -/
def canonicalOrder (cs : List Nat) : List Nat :=
  cs.foldr (fun c ordered => if combiningClass c = 0 then c :: ordered else insertMark c ordered) []

/-- Composes characters with the letter before them. The letter and the marks between it and the
next character, latest first, come first; a mark is kept apart by a mark of its class or a higher
one. -/
def composeFrom (letter : Nat) (marks : List Nat) : List Nat → List Nat
  | [] => letter :: marks.reverse
  | c :: cs =>
    let reached := match marks with
      | [] => true
      | m :: _ => combiningClass m < combiningClass c
    match if reached then compose? letter c else none with
    | some composed => composeFrom composed marks cs
    | none =>
      if combiningClass c = 0 then letter :: marks.reverse ++ composeFrom c [] cs
      else composeFrom letter (c :: marks) cs

/-- Composes characters in canonical order. -/
def composeAll : List Nat → List Nat
  | [] => []
  | c :: cs => if combiningClass c = 0 then composeFrom c [] cs else c :: composeAll cs

/-- The composed form of a text. -/
def composed (s : String) : String :=
  let codes := s.toList.map Char.toNat
  String.ofList ((composeAll (canonicalOrder (codes.flatMap decompose))).map Char.ofNat)

end AccessiblePdf.Text
