import AccessiblePdf.Proofs.Checked
import AccessiblePdf.Text.Date

/-!
Distances from UTC in 32 bits. A date is read up to its offset first, and then hours and minutes are made
seconds (`Date.ofTextBy`, with the arithmetic as a parameter). Cut to 32 bits the results are those of
`Date.ofText?`; checked, they fail just for texts that state so many hours or minutes that a product, the
sum or its negation needs more than 32 bits (`Date.ofText?_fits_iff`).
-/
namespace AccessiblePdf

namespace Date

/-! ## Reading with an arithmetic -/

/-- A distance from UTC as a text states it. -/
structure Stated where
  negative : Bool
  hours : Int
  minutes : Int

/-- The offset that the text after the digits states, if there is one. Hours have to follow a sign. -/
def stated? : List Char → Option (Option Stated)
  | c :: cs =>
    if c = '+' ∨ c = '-' then do
      let parts := pieces cs
      let hours ← int32? (← parts.head?)
      let minutes ← match parts[1]? with
        | some part => int32? part
        | none => some 0
      return some { negative := c = '-', hours, minutes }
    else some none
  | [] => some none

/-- The moment in UTC that the digits of a date name. -/
def ofDigits (ds : List Char) : Date :=
  { year := numberOf (ds.take 4), month := field ds 4 1, day := field ds 6 1,
    hour := field ds 8 0, minute := field ds 10 0, second := field ds 12 0, offset := 0 }

/-- The fields of a date, if there is such a day and time, and the offset after them. -/
def fields? (cs : List Char) : Option (Date × Option Stated) :=
  let ds := cs.takeWhile Char.isDigit
  if ds.length < 4 || ds.length % 2 != 0 || 14 < ds.length then none
  else if (ofDigits ds).isValid then (stated? (cs.dropWhile Char.isDigit)).map (ofDigits ds, ·)
  else none

/-- The characters of a PDF date behind `D:`, if it starts so. -/
def unlabelled : List Char → List Char
  | 'D' :: ':' :: cs => cs
  | cs => cs

/-- The fields of a PDF date. -/
def textFields? (s : String) : Option (Date × Option Stated) :=
  fields? (unlabelled (Text.trimList s.toList))

/-- A result cut to 32 bits. -/
def cut (n : Int) : Id Int := pure (n.bmod 0x100000000)

/-- A number of 32 bits with a sign. -/
def Word (n : Int) : Prop := -0x80000000 ≤ n ∧ n < 0x80000000

instance (n : Int) : Decidable (Word n) := inferInstanceAs (Decidable (_ ∧ _))

/-- A result that has to have 32 bits. -/
def checked (n : Int) : Option Int := if Word n then some n else none

variable {m : Type → Type} [Monad m] (fit : Int → m Int)

/-- An offset in seconds, with each result of the arithmetic brought to 32 bits. -/
def Stated.secondsBy (o : Stated) : m Int := do
  let hours ← fit (o.hours * 3600)
  let minutes ← fit (o.minutes * 60)
  let seconds ← fit (hours + minutes)
  if o.negative then fit (-seconds) else return seconds

/-- Reads a PDF date: the offset is computed when all the rest has been read. -/
def ofTextBy (s : String) : m (Option Date) :=
  match textFields? s with
  | none => return none
  | some (d, o) => do
    let seconds ← match o with
      | some o => o.secondsBy fit
      | none => pure 0
    let d := { d with offset := seconds }
    return if d.isValid then some d else none

/-! ## Results cut to 32 bits -/

theorem isValid_offset (d : Date) (n : Int) : { d with offset := n }.isValid =
    ({ d with offset := 0 }.isValid && decide (n.natAbs < 86400)) := by
  simp [isValid]

/-- What is left of an offset within 32 bits. -/
def Stated.seconds (o : Stated) : Int :=
  if o.negative then (-offsetSeconds o.hours o.minutes).bmod 0x100000000
  else offsetSeconds o.hours o.minutes

theorem Stated.secondsBy_cut (o : Stated) : o.secondsBy cut = pure o.seconds := by
  rw [secondsBy, seconds, offsetSeconds]
  simp only [cut, pure_bind, Int.bmod_add_bmod, Int.add_bmod_bmod]
  split <;> rfl

theorem offset?_eq (cs : List Char) :
    offset? cs = (stated? cs).map fun o => (o.map Stated.seconds).getD 0 := by
  cases cs with
  | nil => rfl
  | cons c cs =>
    rw [offset?, stated?]
    split
    · dsimp only
      cases (pieces cs).head? with
      | none => rfl
      | some hours =>
        cases hhours : int32? hours with
        | none => simp [hhours]
        | some h =>
          cases (pieces cs)[1]? with
          | none => simp [hhours, Stated.seconds]
          | some minutes => cases hminutes : int32? minutes <;> simp [hhours, hminutes, Stated.seconds]
    · rfl

/-- The moment that fields and an offset name, if it is a day of the calendar less than a day away from
UTC. -/
def moment? (d : Date) (o : Option Stated) : Option Date :=
  let d := { d with offset := (o.map Stated.seconds).getD 0 }
  if d.isValid then some d else none

theorem ofChars?_eq (cs : List Char) : ofChars? cs = (fields? cs).bind fun e => moment? e.1 e.2 := by
  rw [ofChars?, fields?]
  split
  · rfl
  · rw [offset?_eq]
    cases stated? (cs.dropWhile Char.isDigit) with
    | none => simp
    | some o =>
      show moment? (ofDigits (cs.takeWhile Char.isDigit)) o = _
      cases hvalid : (ofDigits (cs.takeWhile Char.isDigit)).isValid with
      | true => rfl
      | false =>
        -- Fields that name no moment in UTC name none with an offset either.
        have hutc : { ofDigits (cs.takeWhile Char.isDigit) with offset := 0 }.isValid = false := hvalid
        rw [moment?, isValid_offset, hutc, Bool.false_and]
        rfl

theorem apply_unlabelled {α : Type} (f : List Char → α) (cs : List Char) :
    (match cs with
      | 'D' :: ':' :: cs => f cs
      | cs => f cs) = f (unlabelled cs) := by
  unfold unlabelled
  split <;> rfl

theorem ofText?_eq (s : String) : ofText? s = (textFields? s).bind fun e => moment? e.1 e.2 := by
  calc ofText? s = ofChars? (unlabelled (Text.trimList s.toList)) := apply_unlabelled ofChars? _
    _ = (textFields? s).bind fun e => moment? e.1 e.2 := ofChars?_eq _

theorem ofTextBy_cut (s : String) : ofTextBy cut s = pure (ofText? s) := by
  rw [ofTextBy, ofText?_eq]
  match textFields? s with
  | none => rfl
  | some (d, none) => rfl
  | some (d, some o) =>
    simp only [Stated.secondsBy_cut, pure_bind]
    rfl

/-! ## Results that are checked -/

/-- The seconds that hours and minutes with their sign are. -/
def Stated.exact (o : Stated) : Int :=
  if o.negative then -(o.hours * 3600 + o.minutes * 60) else o.hours * 3600 + o.minutes * 60

/-- Every result on the way from hours and minutes to seconds has 32 bits. -/
structure Stated.Fits (o : Stated) : Prop where
  hours : Word (o.hours * 3600)
  minutes : Word (o.minutes * 60)
  sum : Word (o.hours * 3600 + o.minutes * 60)
  negation : o.negative = true → Word (-(o.hours * 3600 + o.minutes * 60))

theorem gives_checked (n : Int) : Gives (checked n) (Word n) n where
  some h := if_pos h
  none h := if_neg h

theorem bmod_of_word {n : Int} (h : Word n) : n.bmod 0x100000000 = n :=
  Int.bmod_eq_of_le h.1 h.2

theorem Stated.seconds_of_fits {o : Stated} (h : o.Fits) : o.seconds = o.exact := by
  rw [seconds, exact, offsetSeconds, bmod_of_word h.sum]
  split
  · next hnegative => exact bmod_of_word (h.negation hnegative)
  · rfl

theorem Stated.gives_secondsBy (o : Stated) : Gives (o.secondsBy checked) o.Fits o.seconds := by
  have hsum : Gives (pure (o.hours * 3600 + o.minutes * 60)) True (o.hours * 3600 + o.minutes * 60) :=
    Gives.of_eq rfl
  have hsteps : Gives (o.secondsBy checked) (Word (o.hours * 3600) ∧ Word (o.minutes * 60) ∧
      Word (o.hours * 3600 + o.minutes * 60) ∧
      (o.negative = true → Word (-(o.hours * 3600 + o.minutes * 60))) ∧ (¬o.negative = true → True))
      o.exact :=
    (gives_checked _).bind fun _ => (gives_checked _).bind fun _ => (gives_checked _).bind fun _ =>
      (gives_checked _).ite hsum
  refine (hsteps.congr ?_).value fun h => (seconds_of_fits h).symm
  exact ⟨fun ⟨hhours, hminutes, hsum, hnegation, _⟩ => ⟨hhours, hminutes, hsum, hnegation⟩,
    fun h => ⟨h.hours, h.minutes, h.sum, h.negation, fun _ => trivial⟩⟩

theorem gives_ofTextBy (s : String) : Gives (ofTextBy checked s)
    (∀ d o, textFields? s = some (d, some o) → o.Fits) (ofText? s) := by
  rw [ofTextBy, ofText?_eq]
  match textFields? s with
  | none => exact (Gives.of_eq rfl).congr (by simp)
  | some (d, none) => exact (Gives.of_eq rfl).congr (by simp)
  | some (d, some o) => exact (o.gives_secondsBy.map _).congr (by simp)

/-- A date is read with an offset that is cut to 32 bits. Checked arithmetic reads the same just if every
result on the way from the stated hours and minutes to seconds has 32 bits, and fails in all other cases. -/
theorem ofText?_fits_iff (s : String) :
    Id.run (ofTextBy cut s) = ofText? s ∧
      (ofTextBy checked s = some (ofText? s) ↔ ∀ d o, textFields? s = some (d, some o) → o.Fits) ∧
      (ofTextBy checked s = none ↔ ¬∀ d o, textFields? s = some (d, some o) → o.Fits) :=
  ⟨congrArg Id.run (ofTextBy_cut s), (gives_ofTextBy s).eq_some_iff, (gives_ofTextBy s).eq_none_iff⟩

/-- So many hours are cut to half an hour. -/
theorem ofTextBy_checked_hours : ofTextBy checked "D:20240101000000+1193047" = none ∧
    ofText? "D:20240101000000+1193047" = some ⟨2024, 1, 1, 0, 0, 0, 1904⟩ := by
  have hfields : textFields? "D:20240101000000+1193047" =
      some (⟨2024, 1, 1, 0, 0, 0, 0⟩, some ⟨false, 1193047, 0⟩) := by rfl
  rw [ofText?_eq, hfields]
  refine ⟨(gives_ofTextBy _).none fun h => ?_, by decide⟩
  exact absurd (h _ _ hfields).hours (by decide)

end Date

end AccessiblePdf
