import Mathlib.Algebra.GroupWithZero.Nat
import Mathlib.Algebra.Order.Floor.Div
import Mathlib.Algebra.Ring.Int.Defs
import Mathlib.Order.CompletePartialOrder
import Mathlib.Tactic.Common

/-!
# Support — clock dividers

A clock `f` divided by `n` gives the rate `f / n`, and `redivide f n` is the divisor that this rate
gives again.  It is never below `n`, and it is above `n` when the remainder of the division is
large.

* `le_redivide`, `redivide_lt_iff`, `lt_redivide_iff` — where it lies.
* `le_even_iff` — when it is a divisor for a rate after its lowest bit was dropped.
* `le_even_div_iff` — the same for a rate that is divided into the clock once.

A quotient can be rounded to a nearest integer by adding half of the divisor to the dividend.

* `nearest_half_iff` — when adding half of an odd divisor, rounded up, is too much.
-/

namespace Support

variable {f n r : ℕ}

/-- The divisor for the rate that the divisor `n` gives. -/
def redivide (f n : ℕ) : ℕ := f / (f / n)

theorem rate_pos (hn : 0 < n) (hle : n ≤ f) : 0 < f / n := Nat.div_pos hle hn

theorem le_redivide (hn : 0 < n) (hle : n ≤ f) : n ≤ redivide f n := by
  rw [redivide, Nat.le_div_iff_mul_le (rate_pos hn hle), Nat.mul_comm]
  exact Nat.div_mul_le_self f n

theorem redivide_lt_iff (hn : 0 < n) (hle : n ≤ f) {m : ℕ} : redivide f n < m ↔ f < m * (f / n) :=
  Nat.div_lt_iff_lt_mul (rate_pos hn hle)

theorem lt_redivide_iff (hn : 0 < n) (hle : n ≤ f) : n < redivide f n ↔ (n + 1) * (f / n) ≤ f :=
  Nat.le_div_iff_mul_le (rate_pos hn hle)

/-- The divisors for a rate are the ones from the quotient on, rounded up. -/
theorem le_rate_mul_iff (hr : 0 < r) {m : ℕ} : f ≤ r * m ↔ (f + r - 1) / r ≤ m :=
  (ceilDiv_le_iff_le_mul hr).symm

theorem ceil_le (hr : 0 < r) : (f + r - 1) / r ≤ f :=
  (le_rate_mul_iff hr).mp (Nat.le_mul_of_pos_left f hr)

/-- A divisor for the rate is one after its lowest bit was dropped, if it is not the least and
odd. -/
theorem le_even_iff (hr : 0 < r) (hf : 0 < f) :
    f ≤ r * (redivide f ((f + r - 1) / r) / 2 * 2) ↔
      (f + r - 1) / r % 2 = 0 ∨ ((f + r - 1) / r + 1) * (f / ((f + r - 1) / r)) ≤ f := by
  have hpos : 0 < (f + r - 1) / r := Nat.div_pos (by omega) hr
  have hge := le_redivide hpos (ceil_le hr)
  rw [le_rate_mul_iff hr, ← lt_redivide_iff hpos (ceil_le hr)]
  omega

/-- The quotient is a divisor for the rate after its lowest bit was dropped, if the clock is an even
multiple of it. -/
theorem le_even_div_iff (hr : 0 < r) : f ≤ r * (f / r / 2 * 2) ↔ 2 * r ∣ f := by
  constructor
  · intro h
    have hle : r * (f / r / 2 * 2) ≤ r * (f / r) := Nat.mul_le_mul_left r (Nat.div_mul_le_self _ 2)
    have heq : f = r * (f / r / 2 * 2) := Nat.le_antisymm h (hle.trans (Nat.mul_div_le f r))
    refine ⟨f / r / 2, ?_⟩
    calc f = r * (f / r / 2 * 2) := heq
      _ = 2 * r * (f / r / 2) := by rw [Nat.mul_comm _ 2, ← Nat.mul_assoc, Nat.mul_comm r 2]
  · rintro ⟨k, rfl⟩
    have hquot : 2 * r * k / r = 2 * k := by
      rw [Nat.mul_comm 2 r, Nat.mul_assoc, Nat.mul_div_cancel_left _ hr]
    rw [hquot, Nat.mul_div_cancel_left _ (by decide), Nat.mul_comm 2 r, Nat.mul_assoc,
      Nat.mul_comm 2 k]

/-! ### Nearest integers -/

/-- `v` is an integer nearest to `n / d`. -/
def Nearest (n d v : ℕ) : Prop := 2 * (v * d) ≤ 2 * n + d ∧ 2 * n ≤ 2 * (v * d) + d

/-- A nearest integer stays one when a multiple of the divisor is added. -/
theorem nearest_add_mul_iff {d v : ℕ} (m : ℕ) : Nearest (n + m * d) d (v + m) ↔ Nearest n d v := by
  unfold Nearest
  rw [Nat.add_mul]
  omega

/-- With half of the divisor added, rounded up, the quotient is a nearest integer, unless the
divisor is odd and the remainder is just below half of it. -/
theorem nearest_half_iff {d : ℕ} (hd : 0 < d) :
    Nearest n d ((n + (d + 1) / 2) / d) ↔ 2 * (n % d) + 1 ≠ d := by
  have hsum := Nat.div_add_mod' (n + (d + 1) / 2) d
  have hlt : (n + (d + 1) / 2) % d < d := Nat.mod_lt _ hd
  have hrem : n % d < d := Nat.mod_lt n hd
  have hmod : (n + (d + 1) / 2) % d = (n % d + (d + 1) / 2) % d := (Nat.mod_add_mod n d _).symm
  have hzero : (n + (d + 1) / 2) % d = 0 ∧ d % 2 = 1 ↔ 2 * (n % d) + 1 = d := by
    rw [hmod]
    constructor
    · rintro ⟨hdvd, hodd⟩
      obtain ⟨k, hk⟩ := Nat.dvd_of_mod_eq_zero hdvd
      have hone : k = 1 := by
        rcases k with _ | _ | k
        · omega
        · rfl
        · rw [Nat.mul_add, Nat.mul_add] at hk
          omega
      rw [hone] at hk
      omega
    · intro h
      have hself : n % d + (d + 1) / 2 = d := by omega
      exact ⟨by rw [hself, Nat.mod_self], by omega⟩
  unfold Nearest
  rw [Ne, ← hzero]
  omega

end Support
