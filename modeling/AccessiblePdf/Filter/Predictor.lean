import AccessiblePdf.Bytes

/-!
The PNG predictors: each row starts with a byte that says from which neighbours its bytes were
predicted.
-/
namespace AccessiblePdf.Predictor

/-- The neighbour that is nearest to left + above - upper left. -/
def paeth (a b c : UInt8) : UInt8 :=
  let p : Int := (a.toNat : Int) + b.toNat - c.toNat
  let da := (p - a.toNat).natAbs
  let db := (p - b.toNat).natAbs
  let dc := (p - c.toNat).natAbs
  if da ≤ db ∧ da ≤ dc then a else if db ≤ dc then b else c

/-- What a byte was predicted to be. -/
def predicted (kind : UInt8) (left above corner : UInt8) : UInt8 :=
  if kind = 0 then 0
  else if kind = 1 then left
  else if kind = 2 then above
  else if kind = 3 then UInt8.ofNat ((left.toNat + above.toNat) / 2)
  else paeth left above corner

/-- One row, given the row above it and the number of bytes of a pixel. -/
def row (kind : UInt8) (pixel : Nat) (above : Array UInt8) (data : List UInt8) : Array UInt8 :=
  data.foldl (fun out b =>
    let i := out.size
    let left := if i < pixel then 0 else out.getD (i - pixel) 0
    let corner := if i < pixel then 0 else above.getD (i - pixel) 0
    out.push (b + predicted kind left (above.getD i 0) corner)) #[]

/-- All rows, at most `fuel` of them; none when the last one is not complete. -/
def rows (pixel width : Nat) : Nat → Array UInt8 → Bytes → Option Bytes
  | 0, _, _ => some []
  | _ + 1, _, [] => some []
  | fuel + 1, above, kind :: data =>
    if data.length < width || 4 < kind then none
    else
      let current := row kind pixel above (data.take width)
      (rows pixel width fuel current (data.drop width)).map (current.toList ++ ·)

/-- Takes the prediction back, for rows of `columns` pixels of `pixel` bytes. -/
def decode? (pixel columns : Nat) (data : Bytes) : Option Bytes :=
  let width := pixel * columns
  rows pixel width data.length (Array.replicate width 0) data

end AccessiblePdf.Predictor
