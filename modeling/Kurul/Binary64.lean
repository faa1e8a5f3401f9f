import Mathlib.Data.Int.Basic
import Mathlib.Algebra.Order.Ring.Int
import Mathlib.Tactic.Positivity
import Mathlib.Tactic.Linarith
import Mathlib.Tactic.Zify

/-!
# Kurul.Binary64

Whole numbers in binary64: what an operation makes of an exact result that is one. It is rounded to 53
significant bits, to the nearest and ties to even, and is infinite from `2 ^ 1024` on.

* `round_exact` — a number with at most 53 significant bits is its own rounding.
* `le_round`    — a number keeps its power of two.
* `round_half`  — and so loses less than half of itself.
-/

namespace Binary64

/-- How many bits a number has beyond 53. -/
def excess (n : Nat) : Nat := n.log2 - 52

def roundMag (n : Nat) : Nat :=
  let unit := 2 ^ excess n
  let q := n / unit
  let r := n % unit
  (if unit < 2 * r ∨ (unit = 2 * r ∧ q % 2 = 1) then q + 1 else q) * unit

/-- `none` is infinite, with the sign of the number. -/
def round (z : Int) : Option Int :=
  if (roundMag z.natAbs).log2 < 1024 then some (z.sign * roundMag z.natAbs) else none

section Mag

variable {n k : Nat}

theorem excess_le (h : n < 2 ^ (53 + k)) : excess n ≤ k := by
  rcases Nat.eq_zero_or_pos n with rfl | hpos
  · simp [excess]
  · have hlog : n.log2 < 53 + k := (Nat.log2_lt (Nat.ne_of_gt hpos)).mpr h
    unfold excess
    omega

theorem roundMag_exact (hdvd : 2 ^ k ∣ n) (hlt : n < 2 ^ (53 + k)) : roundMag n = n := by
  have hunit : 2 ^ excess n ∣ n := (Nat.pow_dvd_pow 2 (excess_le hlt)).trans hdvd
  have hpos : 0 < 2 ^ excess n := Nat.two_pow_pos _
  have hmod : n % 2 ^ excess n = 0 := Nat.mod_eq_zero_of_dvd hunit
  have hdown : ¬ (2 ^ excess n < 2 * 0 ∨ (2 ^ excess n = 2 * 0 ∧ n / 2 ^ excess n % 2 = 1)) := by
    omega
  simp only [roundMag, hmod, if_neg hdown]
  exact Nat.div_mul_cancel hunit

/-- Rounding does not go below a power of two. -/
theorem le_roundMag (h : 2 ^ k ≤ n) : 2 ^ k ≤ roundMag n := by
  have hne : n ≠ 0 := Nat.ne_of_gt (Nat.lt_of_lt_of_le (Nat.two_pow_pos k) h)
  have hk : k ≤ n.log2 := (Nat.le_log2 hne).mpr h
  rcases Nat.lt_or_ge n (2 ^ 53) with hlt | hge
  · rw [roundMag_exact (n := n) (k := 0) (by simp) hlt]
    exact h
  · have hlog : 53 ≤ n.log2 := (Nat.le_log2 hne).mpr hge
    have hexp : n.log2 = 52 + excess n := by unfold excess; omega
    have hq : 2 ^ 52 ≤ n / 2 ^ excess n := by
      rw [Nat.le_div_iff_mul_le (Nat.two_pow_pos _), ← Nat.pow_add, ← hexp]
      exact Nat.log2_self_le hne
    calc 2 ^ k ≤ 2 ^ n.log2 := Nat.pow_le_pow_right (by decide) hk
      _ = 2 ^ 52 * 2 ^ excess n := by rw [← Nat.pow_add, ← hexp]
      _ ≤ n / 2 ^ excess n * 2 ^ excess n := Nat.mul_le_mul_right _ hq
      _ ≤ roundMag n := by
        refine Nat.mul_le_mul_right _ ?_
        split
        · exact Nat.le_succ _
        · exact le_rfl

theorem le_two_roundMag (n : Nat) : n ≤ 2 * roundMag n := by
  rcases Nat.eq_zero_or_pos n with rfl | hpos
  · exact Nat.zero_le _
  · have hle := le_roundMag (Nat.log2_self_le (Nat.ne_of_gt hpos))
    have hlt : n < 2 ^ (n.log2 + 1) := Nat.lt_log2_self
    rw [Nat.pow_succ] at hlt
    omega

end Mag

section Round

variable {z w : Int} {k : Nat}

theorem round_exact (hk : k ≤ 971) (hdvd : 2 ^ k ∣ z.natAbs) (hlt : z.natAbs < 2 ^ (53 + k)) :
    round z = some z := by
  have hlog := excess_le hlt
  have hfinite : z.natAbs.log2 < 1024 := by
    unfold excess at hlog
    omega
  rw [round, roundMag_exact hdvd hlt, if_pos hfinite, Int.sign_mul_natAbs]

/-- Up to `2 ^ 53` the whole numbers are exact. -/
theorem round_small (h : z.natAbs ≤ 2 ^ 53) : round z = some z := by
  rcases Nat.lt_or_eq_of_le h with hlt | heq
  · exact round_exact (Nat.zero_le _) (by simp) hlt
  · refine round_exact (k := 1) (by omega) ?_ ?_
    · rw [heq]
      exact Nat.pow_dvd_pow 2 (by omega)
    · rw [heq]
      exact Nat.pow_lt_pow_right (by decide) (by omega)

theorem round_natAbs (h : round z = some w) : w = z.sign * roundMag z.natAbs := by
  rw [round] at h
  split at h
  · exact (Option.some.inj h).symm
  · cases h

/-- Away from zero a number keeps its power of two, and its sign. -/
theorem le_round (h : round z = some w) (hz : z ≤ -2 ^ k) : w ≤ -2 ^ k := by
  have hpos : (0 : Int) < 2 ^ k := by positivity
  have hneg : z < 0 := by linarith
  have hnat : 2 ^ k ≤ z.natAbs := by
    zify
    rw [abs_of_neg hneg]
    linarith
  have hle : (2 : Int) ^ k ≤ roundMag z.natAbs := by exact_mod_cast le_roundMag hnat
  rw [round_natAbs h, Int.sign_eq_neg_one_of_neg hneg]
  linarith

/-- A number loses less than half of itself. -/
theorem round_half (h : round z = some w) (hz : 0 ≤ z) : z ≤ 2 * w := by
  rcases hz.eq_or_lt with rfl | hpos
  · have hzero := round_natAbs h
    simp at hzero
    omega
  · have hle := le_two_roundMag z.natAbs
    rw [round_natAbs h, Int.sign_eq_one_of_pos hpos]
    omega

end Round

end Binary64
