import Mathlib.Algebra.GroupWithZero.Nat
import Mathlib.Algebra.Ring.Int.Defs
import Mathlib.Order.CompletePartialOrder
import Mathlib.Tactic.Common

/-!
# Startup — ITS — Definitions

What the two functions that program the ITS share: `unsigned` arithmetic, the width of a
collection's number in GITS_TYPER, and the loop that waits until the ITS is quiescent.

* `exists_quiescent` — the loop ends just if some reading says quiescent.
-/

namespace Startup.Its

/-- `unsigned`. -/
def uint (x : ℕ) : ℕ := x % 2 ^ 32

def icid_bits (typer : ℕ) : ℕ :=
  if (typer >>> 36) &&& 1 = 1 then ((typer >>> 32) &&& 0xF) + 1 else 16

/-- The first of the readings of GITS_CTLR from `i` on that says quiescent. -/
def quiescent (ctlr : ℕ → ℕ) : ℕ → ℕ → Option ℕ
  | 0, _ => none
  | fuel + 1, i => if (ctlr i >>> 31) &&& 1 = 0 then quiescent ctlr fuel (i + 1) else some (ctlr i)

theorem uint_of_lt {x : ℕ} (h : x < 2 ^ 32) : uint x = x := Nat.mod_eq_of_lt h

theorem icid_bits_le (typer : ℕ) : icid_bits typer ≤ 16 := by
  rw [icid_bits]
  split
  · have := @Nat.and_le_right (typer >>> 32) 0xF
    omega
  · exact Nat.le_refl _

theorem exists_quiescent {ctlr : ℕ → ℕ} (k : ℕ) :
    (∃ fuel v, quiescent ctlr fuel k = some v) ↔ ∃ i, (ctlr (k + i) >>> 31) &&& 1 ≠ 0 := by
  constructor
  · rintro ⟨fuel, v, h⟩
    induction fuel generalizing k with
    | zero => simp [quiescent] at h
    | succ fuel ih =>
        simp only [quiescent] at h
        split at h
        · obtain ⟨i, hi⟩ := ih (k + 1) h
          exact ⟨i + 1, by rwa [Nat.add_right_comm, Nat.add_assoc] at hi⟩
        · exact ⟨0, ‹_›⟩
  · rintro ⟨i, hi⟩
    induction i generalizing k with
    | zero => exact ⟨1, ctlr k, by simp only [quiescent]; exact if_neg hi⟩
    | succ i ih =>
        by_cases hk : (ctlr k >>> 31) &&& 1 = 0
        · rw [show k + (i + 1) = k + 1 + i by omega] at hi
          obtain ⟨fuel, v, h⟩ := ih (k + 1) hi
          exact ⟨fuel + 1, v, by simp only [quiescent]; rw [if_pos hk]; exact h⟩
        · exact ⟨1, ctlr k, by simp only [quiescent]; exact if_neg hk⟩

end Startup.Its
