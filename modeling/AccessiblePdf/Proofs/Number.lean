import AccessiblePdf.Number
import Mathlib.Algebra.Group.Nat.Defs
import Mathlib.Data.Nat.Log

/-!
Whole numbers that doubles can hold. A number of the form `q * 2 ^ e` with at most 53 bits in `q` is
not rounded (`roundBits_mul_two_pow`), so rounding twice is rounding once.
-/
namespace AccessiblePdf

theorem roundBits_eq_self_of_dvd {n : Nat} (h : 2 ^ (n.log2 - 52) ∣ n) : roundBits n = n := by
  unfold roundBits
  split
  · rfl
  · obtain ⟨q, hq⟩ := h
    have hpos : 0 < 2 ^ (n.log2 - 52) := Nat.two_pow_pos _
    have hmod : n % Nat.pow 2 (n.log2 - 52) = 0 := Nat.mod_eq_zero_of_dvd ⟨q, hq⟩
    have hne : (0 == Nat.pow 2 (n.log2 - 52)) = false := beq_false_of_ne (Nat.ne_of_lt hpos)
    simp only [hmod, Nat.mul_zero, Nat.not_lt_zero, decide_false, hne, Bool.false_and,
      Bool.or_self, Bool.false_eq_true, if_false]
    exact Nat.div_mul_cancel ⟨q, hq⟩

theorem roundBits_mul_two_pow {q e : Nat} (h : q ≤ 2 ^ 53) : roundBits (q * 2 ^ e) = q * 2 ^ e := by
  apply roundBits_eq_self_of_dvd
  by_cases hq : q = 0
  · rw [hq, Nat.zero_mul]
    exact Nat.dvd_zero _
  rcases Nat.lt_or_eq_of_le h with h | rfl
  · have hlog : (q * 2 ^ e).log2 < 53 + e := by
      rw [Nat.log2_lt (Nat.mul_ne_zero hq (Nat.two_pow_pos e).ne'), Nat.pow_add]
      exact Nat.mul_lt_mul_of_pos_right h (Nat.two_pow_pos e)
    exact Nat.dvd_mul_left_of_dvd (Nat.pow_dvd_pow 2 (by omega)) q
  · rw [← Nat.pow_add, Nat.log2_two_pow]
    exact Nat.pow_dvd_pow 2 (by omega)

theorem exists_roundBits_eq (n : Nat) : ∃ q e, q ≤ 2 ^ 53 ∧ roundBits n = q * 2 ^ e := by
  unfold roundBits
  split
  · next h => exact ⟨n, 0, Nat.le_of_lt h, (Nat.mul_one n).symm⟩
  · next h =>
    have hn : n ≠ 0 := by omega
    have hlow : n / 2 ^ (n.log2 - 52) < 2 ^ 53 := by
      rw [Nat.div_lt_iff_lt_mul (Nat.two_pow_pos _), ← Nat.pow_add]
      have hlog : 52 ≤ n.log2 := (Nat.le_log2 hn).mpr (by omega)
      have := Nat.lt_log2_self (n := n)
      rw [show 53 + (n.log2 - 52) = n.log2 + 1 by omega]
      exact this
    refine ⟨_, n.log2 - 52, ?_, rfl⟩
    show (if _ then n / 2 ^ (n.log2 - 52) + 1 else n / 2 ^ (n.log2 - 52)) ≤ 2 ^ 53
    generalize n / 2 ^ (n.log2 - 52) = low at hlow ⊢
    split
    · exact hlow
    · exact Nat.le_of_lt hlow

theorem roundBits_roundBits (n : Nat) : roundBits (roundBits n) = roundBits n := by
  obtain ⟨q, e, hq, h⟩ := exists_roundBits_eq n
  rw [h, roundBits_mul_two_pow hq]

theorem nearestDouble_nearestDouble (n : Int) :
    nearestDouble (nearestDouble n) = nearestDouble n := by
  unfold nearestDouble
  by_cases h : n < 0
  · simp only [if_pos h]
    by_cases hz : roundBits n.natAbs = 0
    · rw [hz]
      decide
    · rw [if_pos (by omega), Int.natAbs_neg, Int.natAbs_natCast, roundBits_roundBits]
  · simp only [if_neg h]
    rw [if_neg (by omega), Int.natAbs_natCast, roundBits_roundBits]

/-- The whole number that a whole number is read as: the nearest double, within 64 bits. -/
def readKey (n : Int) : Int := saturate (nearestDouble n)

theorem readKey_readKey (n : Int) : readKey (readKey n) = readKey n := by
  unfold readKey
  generalize hm : nearestDouble n = m
  have hself : nearestDouble m = m := by rw [← hm, nearestDouble_nearestDouble]
  by_cases hlow : m < minInt64
  · have hsat : saturate m = minInt64 := by rw [saturate, if_pos hlow]
    rw [hsat]
    decide
  · by_cases hhigh : maxInt64 < m
    · have hsat : saturate m = maxInt64 := by rw [saturate, if_neg hlow, if_pos hhigh]
      rw [hsat]
      decide
    · have hsat : saturate m = m := by rw [saturate, if_neg hlow, if_neg hhigh]
      rw [hsat, hself, hsat]

theorem readKey_eq_self {n : Int} (h : n.natAbs < 0x20000000000000) : readKey n = n := by
  rw [readKey, nearestDouble_eq_self h, saturate]
  have hmin : minInt64 = -0x8000000000000000 := rfl
  have hmax : maxInt64 = 0x8000000000000000 - 1 := rfl
  rw [if_neg (by omega), if_neg (by omega)]

theorem le_roundBits {n : Nat} (h : 0x20000000000000 ≤ n) : 0x20000000000000 ≤ roundBits n := by
  have hn : n ≠ 0 := by omega
  have hlog : 53 ≤ n.log2 := (Nat.le_log2 hn).mpr h
  have hlow : 2 ^ 52 ≤ n / 2 ^ (n.log2 - 52) := by
    rw [Nat.le_div_iff_mul_le (Nat.two_pow_pos _), ← Nat.pow_add]
    rw [show 52 + (n.log2 - 52) = n.log2 by omega]
    exact Nat.log2_self_le hn
  have hstep : 2 ≤ 2 ^ (n.log2 - 52) := by
    calc 2 = 2 ^ 1 := rfl
      _ ≤ 2 ^ (n.log2 - 52) := Nat.pow_le_pow_right (by decide) (by omega)
  unfold roundBits
  rw [if_neg (by omega)]
  show 0x20000000000000 ≤
    (if _ then n / 2 ^ (n.log2 - 52) + 1 else n / 2 ^ (n.log2 - 52)) * 2 ^ (n.log2 - 52)
  have hmul : 2 ^ 52 * 2 ≤ n / 2 ^ (n.log2 - 52) * 2 ^ (n.log2 - 52) := Nat.mul_le_mul hlow hstep
  split
  · rw [Nat.add_mul]
    omega
  · omega

theorem eq_of_readKey_eq {k n : Int} (h : readKey n = readKey k) (small : k.natAbs < 0x20000000000000) :
    n = k := by
  rw [readKey_eq_self small] at h
  by_cases hn : n.natAbs < 0x20000000000000
  · rw [← h, readKey_eq_self hn]
  · have hround := le_roundBits (Nat.le_of_not_lt hn)
    have hmin : minInt64 = -0x8000000000000000 := rfl
    have hmax : maxInt64 = 0x8000000000000000 - 1 := rfl
    rw [readKey, nearestDouble, saturate] at h
    split at h <;> split at h <;> (try split at h) <;> omega

theorem readKey_add_one {k : Int} (small : k.natAbs < 0x20000000000000) :
    readKey (k + 1) = k + 1 := by
  by_cases h : (k + 1).natAbs < 0x20000000000000
  · exact readKey_eq_self h
  · obtain rfl : k = 0x20000000000000 - 1 := by omega
    decide

end AccessiblePdf
