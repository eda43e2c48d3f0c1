import AccessiblePdf.Proofs.Text.Offset
import Mathlib.Algebra.Group.Nat.Defs

/-!
Dates as they are written, with all fields and an offset, and dates cut off behind one of their fields.
A number of a fixed width is read as itself (`numberOf_padded`), so each field is read from its own two
digits, and a missing one has its default (`field_parts`). A text is then read as the local time and the
offset that it was written for, and a text without an offset as a time in UTC (`ofText?_written`).
-/
namespace AccessiblePdf

/-! ## Numbers of a fixed width -/

namespace Numeral

theorem isDigit_padded (width n : Nat) : ∀ c ∈ padded width n, c.isDigit = true := by
  intro c hc
  rcases List.mem_append.mp hc with hc | hc
  · rw [List.eq_of_mem_replicate hc]
    rfl
  · exact Nat.isDigit_of_mem_toDigits (by decide) (by decide) hc

theorem padded_ne_nil (width n : Nat) : padded width n ≠ [] :=
  List.append_ne_nil_of_right_ne_nil _ (List.ne_nil_of_length_pos Nat.length_toDigits_pos)

theorem length_padded {width n : Nat} (pos : 0 < width) (h : n < 10 ^ width) :
    (padded width n).length = width := by
  have hlength := (Nat.length_toDigits_le_iff (by decide) pos).mpr h
  rw [padded, List.length_append, List.length_replicate]
  omega

end Numeral

open Numeral

/-! ## Texts without white space -/

theorem Text.trimList_eq_self {cs : List Char} (h : ∀ c ∈ cs, isBlank c = false) : trimList cs = cs := by
  have hkeep : ∀ {cs : List Char}, (∀ c ∈ cs, isBlank c = false) → cs.dropWhile isBlank = cs := by
    intro cs h
    cases cs with
    | nil => rfl
    | cons c cs => rw [List.dropWhile_cons_of_neg (by simp [h c List.mem_cons_self])]
  rw [trimList, trimStartList, hkeep h, trimEndList,
    hkeep fun c hc => h c (List.mem_reverse.mp hc), List.reverse_reverse]

theorem Text.isBlank_of_isDigit {c : Char} (h : c.isDigit = true) : isBlank c = false := by
  have hrange : 48 ≤ c.toNat ∧ c.toNat ≤ 57 := Char.isDigit_iff_toNat.mp h
  simp only [isBlank, Bool.or_eq_false_iff, Bool.and_eq_false_iff, decide_eq_false_iff_not, beq_eq_false_iff_ne]
  omega

namespace Date

variable {d : Date}

/-! ## What is written -/

/-- The fields after the year. -/
def parts (d : Date) : List Nat := [d.month, d.day, d.hour, d.minute, d.second]

/-- The year and the first `k` fields after it. -/
def digits (k : Nat) (d : Date) : List Char := padded 4 d.year ++ (d.parts.take k).flatMap (padded 2)

/-- An offset, with apostrophes behind the hours and behind the minutes. -/
def zone (negative : Bool) (hours minutes : Nat) : List Char :=
  (if negative then '-' else '+') ::
    (padded 2 hours ++ Char.ofNat 0x27 :: (padded 2 minutes ++ [Char.ofNat 0x27]))

/-- A time in UTC with the first `k` fields after the year of a date, and the least values of the others. -/
def upTo (k : Nat) (d : Date) : Date :=
  { year := d.year, month := if 0 < k then d.month else 1, day := if 1 < k then d.day else 1,
    hour := if 2 < k then d.hour else 0, minute := if 3 < k then d.minute else 0,
    second := if 4 < k then d.second else 0, offset := 0 }

theorem month_le {year month : Nat} (h : 1 ≤ daysIn year month) : month ≤ 12 := by
  unfold daysIn at h
  split at h
  · omega
  · split at h
    · next hmem =>
      simp only [List.mem_cons, List.not_mem_nil, or_false] at hmem
      omega
    · split at h <;> omega

theorem daysIn_le (year month : Nat) : daysIn year month ≤ 31 := by
  unfold daysIn
  grind

theorem parts_lt (valid : d.isValid = true) : ∀ n ∈ d.parts, n < 100 := by
  simp only [isValid, Bool.and_eq_true, decide_eq_true_eq] at valid
  obtain ⟨⟨⟨⟨⟨hday, hdays⟩, hhour⟩, hminute⟩, hsecond⟩, -⟩ := valid
  have hmonth := month_le (Nat.le_trans hday hdays)
  have := daysIn_le d.year d.month
  simp only [parts, List.forall_mem_cons, List.not_mem_nil, false_implies, implies_true, and_true]
  omega

theorem isValid_upTo (valid : d.isValid = true) (k : Nat) : (d.upTo k).isValid = true := by
  simp only [isValid, Bool.and_eq_true, decide_eq_true_eq] at valid ⊢
  obtain ⟨⟨⟨⟨⟨hday, hdays⟩, hhour⟩, hminute⟩, hsecond⟩, -⟩ := valid
  have hjanuary : daysIn d.year 1 = 31 := rfl
  unfold upTo
  dsimp only
  refine ⟨⟨⟨⟨⟨?_, ?_⟩, ?_⟩, ?_⟩, ?_⟩, by decide⟩
  · split <;> omega
  · by_cases hmonth : 0 < k
    · rw [if_pos hmonth]
      split <;> omega
    · rw [if_neg hmonth, if_neg (by omega)]
      omega
  all_goals split <;> omega

/-! ## Reading the digits -/

theorem numberOf_padded (width n : Nat) : numberOf (padded width n) = n := by
  have hfold (ds : List Char) : numberOf ds = Nat.ofDigitChars 10 ds 0 := by
    rw [numberOf, Nat.ofDigitChars_eq_foldl]
    simp only [Nat.mul_comm, digitValue]
  rw [hfold, padded, Nat.ofDigitChars_append, Nat.ofDigitChars_replicate_zero, Nat.mul_zero,
    Nat.ofDigitChars_toDigits (by decide) (by decide)]

/-- Fields that are written are read from their places, and a default where there are no more. -/
theorem field_parts (front : List Char) {ns : List Nat} (small : ∀ n ∈ ns, n < 100) (i default : Nat) :
    field (front ++ ns.flatMap (padded 2)) (front.length + 2 * i) default = ns[i]?.getD default := by
  rw [field, List.drop_length_add_append]
  induction ns generalizing i with
  | nil => rw [List.flatMap_nil, List.drop_nil, List.getElem?_nil, Option.getD_none]
  | cons n ns ih =>
    rw [List.forall_mem_cons] at small
    have hlength : (padded 2 n).length = 2 := length_padded (by decide) small.1
    rw [List.flatMap_cons]
    cases i with
    | zero =>
      obtain ⟨a, b, hab⟩ := List.length_eq_two.mp hlength
      have hnumber : numberOf [a, b] = n := by rw [← hab, numberOf_padded]
      rw [hab]
      exact hnumber
    | succ i =>
      have hdrop : (padded 2 n ++ ns.flatMap (padded 2)).drop (2 * (i + 1)) =
          (ns.flatMap (padded 2)).drop (2 * i) := by
        rw [Nat.mul_succ, Nat.add_comm]
        nth_rewrite 1 [← hlength]
        exact List.drop_length_add_append _
      rw [hdrop, List.getElem?_cons_succ]
      exact ih small.2 i

theorem isDigit_digits (k : Nat) (d : Date) : ∀ c ∈ d.digits k, c.isDigit = true := by
  intro c hc
  rcases List.mem_append.mp hc with hc | hc
  · exact isDigit_padded _ _ c hc
  · obtain ⟨n, -, hc⟩ := List.mem_flatMap.mp hc
    exact isDigit_padded _ _ c hc

theorem length_flatMap_padded {ns : List Nat} (small : ∀ n ∈ ns, n < 100) :
    (ns.flatMap (padded 2)).length = 2 * ns.length := by
  induction ns with
  | nil => rfl
  | cons n ns ih =>
    rw [List.forall_mem_cons] at small
    rw [List.flatMap_cons, List.length_append, length_padded (by decide) small.1, ih small.2,
      List.length_cons]
    omega

theorem length_digits (year : d.year < 10000) (valid : d.isValid = true) (k : Nat) :
    (d.digits k).length = 4 + 2 * min k 5 := by
  rw [digits, List.length_append, length_padded (by decide) year,
    length_flatMap_padded fun n hn => parts_lt valid n (List.mem_of_mem_take hn), List.length_take]
  rfl

theorem ofDigits_digits (year : d.year < 10000) (valid : d.isValid = true) (k : Nat) :
    ofDigits (d.digits k) = d.upTo k := by
  have hlength : (padded 4 d.year).length = 4 := length_padded (by decide) year
  have hyear : numberOf ((d.digits k).take 4) = d.year := by
    rw [digits, List.take_left' hlength, numberOf_padded]
  have hfield (i default : Nat) {a : Nat} (ha : d.parts[i]? = some a) :
      field (d.digits k) (4 + 2 * i) default = if i < k then a else default := by
    have hsmall : ∀ n ∈ d.parts.take k, n < 100 := fun n hn => parts_lt valid n (List.mem_of_mem_take hn)
    have hread := field_parts (padded 4 d.year) hsmall i default
    rw [hlength, List.getElem?_take, ha] at hread
    rw [digits, hread]
    split <;> rfl
  have hmonth : field (d.digits k) 4 1 = if 0 < k then d.month else 1 := hfield 0 1 rfl
  have hday : field (d.digits k) 6 1 = if 1 < k then d.day else 1 := hfield 1 1 rfl
  have hhour : field (d.digits k) 8 0 = if 2 < k then d.hour else 0 := hfield 2 0 rfl
  have hminute : field (d.digits k) 10 0 = if 3 < k then d.minute else 0 := hfield 3 0 rfl
  have hsecond : field (d.digits k) 12 0 = if 4 < k then d.second else 0 := hfield 4 0 rfl
  rw [ofDigits, upTo, hyear, hmonth, hday, hhour, hminute, hsecond]

theorem fields?_digits (year : d.year < 10000) (valid : d.isValid = true) (k : Nat) {rest : List Char}
    (stops : ∀ c ∈ rest.head?, c.isDigit = false) :
    fields? (d.digits k ++ rest) = (stated? rest).map (d.upTo k, ·) := by
  have hlength := length_digits year valid k
  have htake : rest.takeWhile Char.isDigit = [] := by
    cases rest with
    | nil => rfl
    | cons c rest => exact List.takeWhile_cons_of_neg (by simp [stops c rfl])
  have hdrop : rest.dropWhile Char.isDigit = rest := by
    cases rest with
    | nil => rfl
    | cons c rest => exact List.dropWhile_cons_of_neg (by simp [stops c rfl])
  rw [fields?, List.takeWhile_append_of_pos (isDigit_digits k d),
    List.dropWhile_append_of_pos (isDigit_digits k d), htake, hdrop, List.append_nil,
    ofDigits_digits year valid, isValid_upTo valid, if_pos rfl, if_neg]
  simp only [Bool.or_eq_true, decide_eq_true_eq, bne_iff_ne, hlength]
  omega

/-! ## Reading the offset -/

theorem int32?_digits {ds : List Char} (digits : ∀ c ∈ ds, c.isDigit = true) (nonempty : ds ≠ [])
    (word : numberOf ds < 0x80000000) : int32? ds = some (numberOf ds : Int) := by
  have hbody : int32? ds = (if ds.isEmpty || !ds.all Char.isDigit then none
      else if (numberOf ds : Int) < -0x80000000 || 0x80000000 ≤ (numberOf ds : Int) then none
        else some (numberOf ds : Int)) := by
    unfold int32?
    split
    next heq =>
      split at heq
      · exact absurd (digits '-' List.mem_cons_self) (by decide)
      · exact absurd (digits '+' List.mem_cons_self) (by decide)
      · cases heq
        rfl
  have hall : ds.all Char.isDigit = true := List.all_eq_true.mpr digits
  rw [hbody, if_neg (by simp [hall, nonempty]), if_neg]
  simp only [Bool.or_eq_true, decide_eq_true_eq]
  omega

theorem go_append (piece : List Char) {cs : List Char} (rest : List Char) (plain : ∀ c ∈ cs, c.toNat ≠ 0x27)
    (nonempty : piece.reverse ++ cs ≠ []) :
    pieces.go piece (cs ++ Char.ofNat 0x27 :: rest) = (piece.reverse ++ cs) :: pieces.go [] rest := by
  induction cs generalizing piece with
  | nil =>
    have hpiece : piece.isEmpty = false := by
      cases piece with
      | nil => exact absurd rfl nonempty
      | cons => rfl
    rw [List.nil_append, List.append_nil, pieces.go, if_pos (by decide), hpiece, if_neg Bool.false_ne_true]
  | cons c cs ih =>
    rw [List.forall_mem_cons] at plain
    rw [List.cons_append, pieces.go, if_neg plain.1, ih _ plain.2 (by simp), List.reverse_cons,
      List.append_assoc, List.singleton_append]

theorem pieces_zone (hours minutes : Nat) :
    pieces (padded 2 hours ++ Char.ofNat 0x27 :: (padded 2 minutes ++ [Char.ofNat 0x27])) =
      [padded 2 hours, padded 2 minutes] := by
  have hplain (n : Nat) : ∀ c ∈ padded 2 n, c.toNat ≠ 0x27 := by
    intro c hc
    have hrange : 48 ≤ c.toNat ∧ c.toNat ≤ 57 := Char.isDigit_iff_toNat.mp (isDigit_padded 2 n c hc)
    omega
  rw [pieces, go_append [] _ (hplain hours) (padded_ne_nil 2 hours),
    go_append [] _ (hplain minutes) (padded_ne_nil 2 minutes)]
  rfl

theorem stated?_zone (negative : Bool) {hours minutes : Nat} (hhours : hours < 100)
    (hminutes : minutes < 100) :
    stated? (zone negative hours minutes) = some (some ⟨negative, hours, minutes⟩) := by
  have hnumber {n : Nat} (h : n < 100) : int32? (padded 2 n) = some (n : Int) := by
    have hvalue := numberOf_padded 2 n
    rw [int32?_digits (isDigit_padded 2 n) (padded_ne_nil 2 n) (by omega), hvalue]
  rw [zone, stated?, pieces_zone, if_pos (by cases negative <;> simp)]
  cases negative <;> simp [hnumber hhours, hnumber hminutes]

theorem seconds_eq_exact {o : Stated} (hours : 0 ≤ o.hours ∧ o.hours < 24)
    (minutes : 0 ≤ o.minutes ∧ o.minutes < 60) : o.seconds = o.exact :=
  o.seconds_of_fits ⟨by unfold Word; omega, by unfold Word; omega, by unfold Word; omega,
    fun _ => by unfold Word; omega⟩

/-! ## Whole texts -/

theorem ofText?_digits (year : d.year < 10000) (valid : d.isValid = true) (k : Nat) {rest : List Char}
    (stops : ∀ c ∈ rest.head?, c.isDigit = false) (plain : ∀ c ∈ rest, Text.isBlank c = false) :
    ofText? (String.ofList ('D' :: ':' :: (d.digits k ++ rest))) =
      (stated? rest).bind (moment? (d.upTo k)) := by
  have hplain : ∀ c ∈ 'D' :: ':' :: (d.digits k ++ rest), Text.isBlank c = false := by
    rw [List.forall_mem_cons, List.forall_mem_cons, List.forall_mem_append]
    exact ⟨rfl, rfl, fun c hc => Text.isBlank_of_isDigit (isDigit_digits k d c hc), plain⟩
  rw [ofText?_eq, textFields?, String.toList_ofList, Text.trimList_eq_self hplain, unlabelled,
    fields?_digits year valid k stops, Option.bind_map]
  rfl

theorem ofText?_zone (year : d.year < 10000) (valid : d.isValid = true) (negative : Bool)
    {hours minutes : Nat} (hhours : hours < 24) (hminutes : minutes < 60) :
    ofText? (String.ofList ('D' :: ':' :: (d.digits 5 ++ zone negative hours minutes))) =
      some { d with offset := Stated.exact ⟨negative, hours, minutes⟩ } := by
  have hstops : ∀ c ∈ (zone negative hours minutes).head?, c.isDigit = false := by
    cases negative <;> simp [zone]
  have hplain : ∀ c ∈ zone negative hours minutes, Text.isBlank c = false := by
    have hdigit (n : Nat) : ∀ c ∈ padded 2 n, Text.isBlank c = false :=
      fun c hc => Text.isBlank_of_isDigit (isDigit_padded 2 n c hc)
    rw [zone, List.forall_mem_cons, List.forall_mem_append, List.forall_mem_cons, List.forall_mem_append,
      List.forall_mem_singleton]
    exact ⟨by cases negative <;> rfl, hdigit hours, rfl, hdigit minutes, rfl⟩
  have hexact : Stated.seconds ⟨negative, hours, minutes⟩ = Stated.exact ⟨negative, hours, minutes⟩ :=
    seconds_eq_exact (by simp; omega) (by simp; omega)
  have hday : (Stated.exact ⟨negative, hours, minutes⟩).natAbs < 86400 := by
    unfold Stated.exact
    dsimp only
    split <;> omega
  rw [ofText?_digits year valid 5 hstops hplain, stated?_zone negative (by omega) (by omega),
    Option.bind_some, moment?, Option.map_some, Option.getD_some, hexact]
  refine if_pos ?_
  rw [isValid_offset, Bool.and_eq_true, decide_eq_true_eq]
  exact ⟨isValid_upTo valid 5, hday⟩

theorem exact_minutes (n : Int) :
    Stated.exact ⟨n < 0, ↑(n.natAbs / 3600), ↑(n.natAbs / 60 % 60)⟩ = n.tdiv 60 * 60 := by
  have hminutes (m : Nat) : (m : Int).tdiv 60 = ↑(m / 60) := (Int.ofNat_tdiv m 60).symm
  have hsum (m : Nat) : (↑(m / 3600) * 3600 + ↑(m / 60 % 60) * 60 : Int) = ↑(m / 60) * 60 := by omega
  obtain ⟨m, rfl | rfl⟩ := n.eq_nat_or_neg
  · rw [Stated.exact, hminutes, Int.natAbs_natCast, if_neg (by simp)]
    exact hsum m
  · rcases Nat.eq_zero_or_pos m with rfl | hpos
    · rfl
    · rw [Stated.exact, Int.neg_tdiv, hminutes, Int.natAbs_neg, Int.natAbs_natCast, if_pos (by simpa),
        Int.neg_mul]
      exact congrArg Neg.neg (hsum m)

theorem pdf_eq (d : Date) : d.pdf = String.ofList ('D' :: ':' :: (d.digits 5 ++
    zone (d.offset < 0) (d.offset.natAbs / 3600) (d.offset.natAbs / 60 % 60))) := by
  rw [pdf, Nat.div_div_eq_div_mul]
  simp [digits, parts, zone]

/-- A date with all its fields and an offset is read as it is, and without an offset and some of its last
fields as a time in UTC, with the least values for these fields. The first is the form that dates are
written in; seconds of an offset are not written. -/
theorem ofText?_written (year : d.year < 10000) (valid : d.isValid = true) :
    (∀ (negative : Bool) (hours minutes : Nat), hours < 24 → minutes < 60 →
      ofText? (String.ofList ('D' :: ':' :: (d.digits 5 ++ zone negative hours minutes))) =
        some { d with offset := if negative then -(hours * 3600 + minutes * 60 : Int)
                                else hours * 3600 + minutes * 60 }) ∧
      (∀ k, ofText? (String.ofList ('D' :: ':' :: d.digits k)) = some (d.upTo k)) ∧
      ofText? d.pdf = some { d with offset := d.offset.tdiv 60 * 60 } := by
  refine ⟨fun negative hours minutes hhours hminutes => ofText?_zone year valid negative hhours hminutes,
    fun k => ?_, ?_⟩
  · calc ofText? (String.ofList ('D' :: ':' :: d.digits k))
        = ofText? (String.ofList ('D' :: ':' :: (d.digits k ++ []))) := by rw [List.append_nil]
      _ = moment? (d.upTo k) none := ofText?_digits year valid k (by simp) (by simp)
      _ = some (d.upTo k) := if_pos (isValid_upTo valid k)
  · have hoffset : d.offset.natAbs < 86400 := by
      simp only [isValid, Bool.and_eq_true, decide_eq_true_eq] at valid
      exact valid.2
    rw [pdf_eq, ofText?_zone year valid _ (by omega) (Nat.mod_lt _ (by decide)), exact_minutes]

/-- An afternoon five hours, 30 minutes and 30 seconds behind UTC. -/
def leapDay : Date := ⟨2024, 2, 29, 14, 5, 7, -19830⟩

/-- The day of a leap year, in full, up to its month, and as it is written. -/
theorem ofText?_written_leapDay : leapDay.year < 10000 ∧ leapDay.isValid = true ∧
    ofText? "D:20240229140507-05\x2730\x27" = some ⟨2024, 2, 29, 14, 5, 7, -19800⟩ ∧
    ofText? "D:202402" = some ⟨2024, 2, 1, 0, 0, 0, 0⟩ ∧
    ofText? leapDay.pdf = some ⟨2024, 2, 29, 14, 5, 7, -19800⟩ := by
  have hyear : leapDay.year < 10000 := by decide
  have hvalid : leapDay.isValid = true := by decide
  obtain ⟨hzone, hcut, hpdf⟩ := ofText?_written hyear hvalid
  exact ⟨hyear, hvalid, hzone true 5 30 (by decide) (by decide), hcut 1, hpdf⟩

end Date

end AccessiblePdf
