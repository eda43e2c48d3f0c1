import AccessiblePdf.Text.Blank
import AccessiblePdf.Text.Numeral

/-!
Dates as PDF writes them, `D:YYYYMMDDHHmmSS+HH'mm'`, and as RFC 3339 writes them. All parts after
the year are optional; a date without an offset is in UTC.
-/
namespace AccessiblePdf

/-- A local time with its distance from UTC in seconds. -/
structure Date where
  year : Nat
  month : Nat
  day : Nat
  hour : Nat
  minute : Nat
  second : Nat
  offset : Int
deriving DecidableEq, Repr

namespace Date

/-! ## The calendar -/

def isLeap (year : Nat) : Bool := (year % 4 == 0 && year % 100 != 0) || year % 400 == 0

def daysIn (year month : Nat) : Nat :=
  if month = 2 then (if isLeap year then 29 else 28)
  else if month ∈ [4, 6, 9, 11] then 30
  else if 1 ≤ month ∧ month ≤ 12 then 31
  else 0

/-- Whether the fields name a moment of a day of the calendar, less than a day away from UTC. -/
def isValid (d : Date) : Bool :=
  1 ≤ d.day && d.day ≤ daysIn d.year d.month && d.hour < 24 && d.minute < 60 && d.second < 60 &&
    d.offset.natAbs < 86400

/-! ## Reading -/

def digitValue (c : Char) : Nat := c.toNat - '0'.toNat

/-- The number that a row of digits writes. -/
def numberOf (ds : List Char) : Nat := ds.foldl (fun n d => n * 10 + digitValue d) 0

/-- The two digits from a place on, or a default where the digits have ended. -/
def field (ds : List Char) (start default : Nat) : Nat :=
  match ds.drop start with
  | a :: b :: _ => numberOf [a, b]
  | _ => default

/-- A whole number of 32 bits with an optional sign. -/
def int32? (cs : List Char) : Option Int :=
  let (negative, ds) : Bool × List Char := match cs with
    | '-' :: r => (true, r)
    | '+' :: r => (false, r)
    | r => (false, r)
  if ds.isEmpty || !ds.all Char.isDigit then none
  else
    let n : Int := if negative then -(numberOf ds : Int) else numberOf ds
    if n < -0x80000000 || 0x80000000 ≤ n then none else some n

/-- The nonempty pieces between apostrophes. -/
def pieces (cs : List Char) : List (List Char) :=
  let rec go (piece : List Char) : List Char → List (List Char)
    | [] => if piece.isEmpty then [] else [piece.reverse]
    | c :: cs =>
      if c.toNat = 0x27 then
        if piece.isEmpty then go [] cs else piece.reverse :: go [] cs
      else go (c :: piece) cs
  go [] cs

/-- Hours and minutes as seconds, in 32 bits. -/
def offsetSeconds (hours minutes : Int) : Int := (hours * 3600 + minutes * 60).bmod (0x100000000)

/-- The distance from UTC that the text after the digits states. -/
def offset? : List Char → Option Int
  | c :: cs =>
    if c = '+' ∨ c = '-' then do
      let parts := pieces cs
      let hours ← int32? (← parts.head?)
      let minutes ← match parts[1]? with
        | some part => int32? part
        | none => some 0
      let seconds := offsetSeconds hours minutes
      return if c = '-' then (-seconds).bmod (0x100000000) else seconds
    else some 0
  | [] => some 0

/-- Reads a date from the characters after `D:`. -/
def ofChars? (cs : List Char) : Option Date :=
  let ds := cs.takeWhile Char.isDigit
  if ds.length < 4 || ds.length % 2 != 0 || 14 < ds.length then none
  else
    match offset? (cs.dropWhile Char.isDigit) with
    | none => none
    | some offset =>
      let d : Date :=
        { year := numberOf (ds.take 4), month := field ds 4 1, day := field ds 6 1,
          hour := field ds 8 0, minute := field ds 10 0, second := field ds 12 0, offset }
      if d.isValid then some d else none

/-- Reads a PDF date; white space around it does not count. -/
def ofText? (s : String) : Option Date :=
  match Text.trimList s.toList with
  | 'D' :: ':' :: cs => ofChars? cs
  | cs => ofChars? cs

/-! ## Writing -/

/-- The offset as `+hh:mm`, to the nearest minute. -/
def offsetText (offset : Int) : List Char :=
  let minutes := (offset.natAbs + 30) / 60
  (if offset < 0 then '-' else '+') ::
    (Numeral.padded 2 (minutes / 60) ++ ':' :: Numeral.padded 2 (minutes % 60))

/-- The local time as `YYYY-MM-DDThh:mm:ss`. -/
def localText (d : Date) : List Char :=
  Numeral.padded 4 d.year ++ '-' :: Numeral.padded 2 d.month ++ '-' :: Numeral.padded 2 d.day ++
    'T' :: Numeral.padded 2 d.hour ++ ':' :: Numeral.padded 2 d.minute ++
    ':' :: Numeral.padded 2 d.second

/-- The date as RFC 3339 with a numeric offset. -/
def rfc3339 (d : Date) : String := String.ofList (d.localText ++ offsetText d.offset)

/-- The date as RFC 3339 with `Z` for UTC. -/
def rfc3339Zulu (d : Date) : String :=
  String.ofList (d.localText ++ if d.offset = 0 then ['Z'] else offsetText d.offset)

/-- The date to the minute, as `YYYY-MM-DD hh:mm +hh:mm`. -/
def minuteText (d : Date) : String :=
  String.ofList ((d.localText.take 16).map (fun c => if c = 'T' then ' ' else c) ++
    ' ' :: offsetText d.offset)

/-- A PDF date, `D:` and all fields. -/
def pdf (d : Date) : String :=
  let minutes := d.offset.natAbs / 60
  let mark := Char.ofNat 0x27
  String.ofList ('D' :: ':' :: Numeral.padded 4 d.year ++ Numeral.padded 2 d.month ++
    Numeral.padded 2 d.day ++ Numeral.padded 2 d.hour ++ Numeral.padded 2 d.minute ++ Numeral.padded 2 d.second ++
    (if d.offset < 0 then '-' else '+') :: Numeral.padded 2 (minutes / 60) ++ mark ::
    Numeral.padded 2 (minutes % 60) ++ [mark])

end Date

end AccessiblePdf
