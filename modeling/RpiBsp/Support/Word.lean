import Mathlib.Algebra.GroupWithZero.Nat
import Mathlib.Algebra.Ring.Int.Defs
import Mathlib.Data.Nat.Bitwise
import Mathlib.Order.CompletePartialOrder
import Mathlib.Tactic.Common

/-!
# Support — words

Unsigned machine words as natural numbers below `2 ^ w`, with the wrap written out.  `trunc` and
`round` are the usual alignment macros, `x & ~(a - 1)` and `(x + (a - 1)) & ~(a - 1)`, at any `a`:
the lemmas that need a power of two say so.
-/

namespace Support

/-- `a + b` in `w` bits. -/
def addW (w a b : ℕ) : ℕ := (a + b) % 2 ^ w

/-- `a - b` in `w` bits, for `a` and `b` below `2 ^ w`. -/
def subW (w a b : ℕ) : ℕ := (a + (2 ^ w - b)) % 2 ^ w

/-- `~a` in `w` bits. -/
def notW (w a : ℕ) : ℕ := 2 ^ w - (a + 1)

theorem addW_of_lt {w a b : ℕ} (h : a + b < 2 ^ w) : addW w a b = a + b := Nat.mod_eq_of_lt h

theorem addW_lt (w a b : ℕ) : addW w a b < 2 ^ w := Nat.mod_lt _ (Nat.two_pow_pos w)

/-- A sum that wraps is below its first term. -/
theorem add_lt_of_le_addW {w a b : ℕ} (ha : a < 2 ^ w) (hb : b < 2 ^ w) (h : a ≤ addW w a b) :
    a + b < 2 ^ w := by
  by_contra hge
  rw [addW, Nat.mod_eq_sub_mod (Nat.not_lt.mp hge), Nat.mod_eq_of_lt (by omega)] at h
  omega

theorem subW_lt (w a b : ℕ) : subW w a b < 2 ^ w := Nat.mod_lt _ (Nat.two_pow_pos w)

theorem subW_of_le {w a b : ℕ} (h : b ≤ a) (ha : a < 2 ^ w) : subW w a b = a - b := by
  rw [subW, show a + (2 ^ w - b) = a - b + 2 ^ w by omega, Nat.add_mod_right,
    Nat.mod_eq_of_lt (by omega)]

/-- `x & ~(a - 1)`. -/
def trunc (w x a : ℕ) : ℕ := x &&& notW w (subW w a 1)

/-- `(x + (a - 1)) & ~(a - 1)`. -/
def round (w x a : ℕ) : ℕ := trunc w (addW w x (subW w a 1)) a

/-- Numbers with no bit in common are added bit by bit. -/
theorem add_eq_or {a b : ℕ} (h : a &&& b = 0) : a + b = a ||| b := by
  have hlt : a + b < 2 ^ (a + b) := Nat.lt_two_pow_self
  have ha : a < 2 ^ (a + b) := by omega
  have hb : b < 2 ^ (a + b) := by omega
  have hz : BitVec.ofNat (a + b) a &&& BitVec.ofNat (a + b) b = 0#(a + b) := by
    rw [← BitVec.ofNat_and, h]
  have := congrArg BitVec.toNat (BitVec.add_eq_or_of_and_eq_zero _ _ hz)
  rwa [BitVec.toNat_add, BitVec.toNat_or, BitVec.toNat_ofNat, BitVec.toNat_ofNat,
    Nat.mod_eq_of_lt ha, Nat.mod_eq_of_lt hb, Nat.mod_eq_of_lt hlt] at this

/-- A mask and its complement split a word. -/
theorem and_add_and_notW {w x m : ℕ} (hx : x < 2 ^ w) (hm : m < 2 ^ w) :
    (x &&& m) + (x &&& notW w m) = x := by
  have hdisj : (x &&& m) &&& (x &&& notW w m) = 0 := by
    apply Nat.eq_of_testBit_eq
    intro i
    simp only [notW, Nat.testBit_and, Nat.testBit_two_pow_sub_succ hm, Nat.zero_testBit]
    cases x.testBit i <;> cases m.testBit i <;> simp
  have hor : (x &&& m) ||| (x &&& notW w m) = x := by
    apply Nat.eq_of_testBit_eq
    intro i
    simp only [notW, Nat.testBit_and, Nat.testBit_or, Nat.testBit_two_pow_sub_succ hm]
    by_cases hi : i < w
    · cases x.testBit i <;> cases m.testBit i <;> simp [hi]
    · have : x.testBit i = false := Nat.testBit_lt_two_pow (hx.trans_le
        (Nat.pow_le_pow_right (by omega) (by omega)))
      simp [this]
  rw [add_eq_or hdisj, hor]

theorem trunc_eq_sub {w x a : ℕ} (hx : x < 2 ^ w) : trunc w x a = x - (x &&& subW w a 1) := by
  have := and_add_and_notW hx (subW_lt w a 1)
  rw [trunc]; omega

theorem trunc_le (w x a : ℕ) : trunc w x a ≤ x := Nat.and_le_left

theorem trunc_lt {w x a : ℕ} (hx : x < 2 ^ w) : trunc w x a < 2 ^ w := (trunc_le w x a).trans_lt hx

/-- Rounding up does not go down, unless it wraps.  Any `a` will do but 0. -/
theorem le_round {w x a : ℕ} (ha : 0 < a) (haw : a < 2 ^ w) (h : x + (a - 1) < 2 ^ w) :
    x ≤ round w x a := by
  have hs : subW w a 1 = a - 1 := subW_of_le ha haw
  rw [round, hs, addW_of_lt h, trunc_eq_sub h, hs]
  have : (x + (a - 1)) &&& (a - 1) ≤ a - 1 := Nat.and_le_right
  omega

theorem round_le {w x a : ℕ} (ha : 0 < a) (haw : a < 2 ^ w) (h : x + (a - 1) < 2 ^ w) :
    round w x a ≤ x + (a - 1) := by
  rw [round, subW_of_le ha haw, addW_of_lt h]; exact trunc_le ..

/-- To a power of two, `trunc` clears the remainder. -/
theorem trunc_two_pow {w x k : ℕ} (hk : k < w) (hx : x < 2 ^ w) :
    trunc w x (2 ^ k) = x - x % 2 ^ k := by
  have hkw : 2 ^ k < 2 ^ w := Nat.pow_lt_pow_right (by omega) hk
  rw [trunc_eq_sub hx, subW_of_le (Nat.two_pow_pos k) hkw, Nat.and_two_pow_sub_one_eq_mod]

theorem round_two_pow {w x k : ℕ} (hk : k < w) (h : x + (2 ^ k - 1) < 2 ^ w) :
    round w x (2 ^ k) = (x + (2 ^ k - 1)) / 2 ^ k * 2 ^ k := by
  have hkw : 2 ^ k < 2 ^ w := Nat.pow_lt_pow_right (by omega) hk
  rw [round, subW_of_le (Nat.two_pow_pos k) hkw, addW_of_lt h, trunc_two_pow hk h]
  have := Nat.div_add_mod (x + (2 ^ k - 1)) (2 ^ k)
  rw [Nat.mul_comm] at this; omega

/-! ### Fields -/

/-- A mask of `n` bits from bit `k` on cuts a field out of a word. -/
theorem and_field (x k n : ℕ) : x &&& ((2 ^ n - 1) * 2 ^ k) = x / 2 ^ k % 2 ^ n * 2 ^ k := by
  apply Nat.eq_of_testBit_eq
  intro i
  rw [Nat.testBit_and, Nat.testBit_mul_two_pow, Nat.testBit_mul_two_pow,
    Nat.testBit_two_pow_sub_one, Nat.testBit_mod_two_pow, Nat.testBit_div_two_pow]
  by_cases hi : k ≤ i
  · rw [Nat.sub_add_cancel hi]
    cases x.testBit i <;> simp [hi]
  · simp [hi]

/-- Setting a bit that is clear. -/
theorem or_two_pow {x k : ℕ} (h : x / 2 ^ k % 2 = 0) : x ||| 2 ^ k = x + 2 ^ k := by
  refine (add_eq_or ?_).symm
  have hbit : x.testBit k = false := by
    rw [Nat.testBit_eq_decide_div_mod_eq, h]
    rfl
  rw [Nat.and_two_pow, hbit]
  simp

/-- Clearing a bit that is set. -/
theorem and_notW_two_pow {w x k : ℕ} (hx : x < 2 ^ w) (hk : k < w) (h : x / 2 ^ k % 2 = 1) :
    x &&& notW w (2 ^ k) = x - 2 ^ k := by
  have hbit : x.testBit k = true := by
    rw [Nat.testBit_eq_decide_div_mod_eq, h]
    rfl
  have hsplit := and_add_and_notW hx (Nat.pow_lt_pow_right (by decide) hk)
  rw [Nat.and_two_pow, hbit] at hsplit
  simp only [Bool.toNat_true, Nat.one_mul] at hsplit
  omega

/-- The mask less one fills the bits below the field: `(m - 1) | m` is all ones up to the end of the
field. -/
theorem pred_or_field {j n : ℕ} (hn : 0 < n) :
    ((2 ^ n - 1) * 2 ^ j - 1) ||| (2 ^ n - 1) * 2 ^ j = 2 ^ (j + n) - 1 := by
  have h2 : 2 ≤ 2 ^ n := by
    calc 2 = 2 ^ 1 := (Nat.pow_one 2).symm
      _ ≤ 2 ^ n := Nat.pow_le_pow_right (by decide) hn
  have hpred : (2 ^ n - 1) * 2 ^ j - 1 = 2 ^ j * (2 ^ n - 2) + (2 ^ j - 1) := by
    obtain ⟨m, hm⟩ : ∃ m, 2 ^ n = m + 2 := ⟨2 ^ n - 2, by omega⟩
    have hj := Nat.two_pow_pos j
    rw [hm, Nat.add_sub_cancel, show m + 2 - 1 = m + 1 from rfl, Nat.add_mul, Nat.one_mul,
      Nat.mul_comm m]
    omega
  apply Nat.eq_of_testBit_eq
  intro i
  rw [Nat.testBit_or, hpred,
    Nat.testBit_two_pow_mul_add _ (Nat.sub_lt (Nat.two_pow_pos j) Nat.one_pos),
    Nat.testBit_mul_two_pow, Nat.testBit_two_pow_sub_one, Nat.testBit_two_pow_sub_one,
    Nat.testBit_two_pow_sub_one]
  by_cases hi : i < j
  · simp only [hi, if_true, decide_true, Bool.true_or]
    exact (decide_eq_true (by omega)).symm
  · have hji : j ≤ i := Nat.not_lt.mp hi
    simp only [hi, if_false, decide_true, Bool.true_and, hji]
    by_cases hin : i - j < n
    · rw [decide_eq_true hin, Bool.or_true, decide_eq_true (by omega)]
    · have hlt : 2 ^ n - 2 < 2 ^ (i - j) :=
        (by omega : 2 ^ n - 2 < 2 ^ n).trans_le
          (Nat.pow_le_pow_right (by decide) (Nat.not_lt.mp hin))
      rw [Nat.testBit_lt_two_pow hlt, decide_eq_false hin, Bool.or_false,
        decide_eq_false (by omega)]

/-- Nothing of a mask is left in its complement. -/
theorem and_notW_and {w x m : ℕ} (hm : m < 2 ^ w) : (x &&& notW w m) &&& m = 0 := by
  apply Nat.eq_of_testBit_eq
  intro i
  simp only [notW, Nat.testBit_and, Nat.testBit_two_pow_sub_succ hm, Nat.zero_testBit]
  cases m.testBit i <;> simp

theorem field_lt {j n w : ℕ} (h : j + n ≤ w) : (2 ^ n - 1) * 2 ^ j < 2 ^ w := by
  have hn := Nat.two_pow_pos n
  calc (2 ^ n - 1) * 2 ^ j < 2 ^ n * 2 ^ j :=
        Nat.mul_lt_mul_of_pos_right (by omega) (Nat.two_pow_pos j)
    _ = 2 ^ (j + n) := by rw [← Nat.pow_add, Nat.add_comm]
    _ ≤ 2 ^ w := Nat.pow_le_pow_right (by decide) h

end Support
