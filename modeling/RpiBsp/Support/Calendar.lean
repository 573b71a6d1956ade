import Mathlib.Algebra.GroupWithZero.Nat
import Mathlib.Algebra.Ring.Int.Defs
import Mathlib.Data.List.Basic
import Mathlib.Order.CompletePartialOrder
import Mathlib.Tactic.Common

/-!
# Support — the Gregorian calendar

Dates from 1970 on, and the number of days since 1970-01-01.

* `Date.Valid`, `Date.days` — the dates there are, and which day each is;
* `daysBefore_le`, `daysBefore_eq`, `daysBefore_lt` — against a calendar in which every fourth
  year is a leap year: never ahead of it, with it up to 2100, behind it from 2101 on.
-/

namespace Support

def IsLeap (year : ℕ) : Prop := year % 4 = 0 ∧ (year % 100 ≠ 0 ∨ year % 400 = 0)

instance (year : ℕ) : Decidable (IsLeap year) := inferInstanceAs (Decidable (_ ∧ _))

def monthLengths (leap : Bool) : List ℕ :=
  [31, if leap then 29 else 28, 31, 30, 31, 30, 31, 31, 30, 31, 30, 31]

/-- The days of a year before its month, counted from 0. -/
def monthStart (leap : Bool) (mon : ℕ) : ℕ := ((monthLengths leap).take mon).sum

/-- The days from 1970-01-01 to the first day of the year that is so many years later. -/
def daysBefore : ℕ → ℕ
  | 0 => 0
  | n + 1 => daysBefore n + if IsLeap (1970 + n) then 366 else 365

/-- A date; the year is counted from 1970, the month and the day of the month from 0. -/
structure Date where
  year : ℕ
  mon : ℕ
  day : ℕ
deriving DecidableEq, Repr

def Date.leap (d : Date) : Bool := IsLeap (1970 + d.year)

/-- The month has this day. -/
def Date.Valid (d : Date) : Prop := ∃ n, (monthLengths d.leap)[d.mon]? = some n ∧ d.day < n

/-- The day of the year, from 0. -/
def Date.yday (d : Date) : ℕ := monthStart d.leap d.mon + d.day

def Date.days (d : Date) : ℕ := daysBefore d.year + d.yday

/-! ### Against every fourth year -/

/-- The year before which a leap day of every fourth year is counted differently is 2100. -/
theorem isLeap_iff {n : ℕ} (h : n < 130) : IsLeap (1970 + n) ↔ (n + 2) % 4 = 0 := by
  simp only [IsLeap]
  omega

theorem IsLeap.mod_four {n : ℕ} (h : IsLeap (1970 + n)) : (n + 2) % 4 = 0 := by
  have h := h.1
  omega

theorem daysBefore_succ_le (n : ℕ) :
    daysBefore (n + 1) ≤ daysBefore n + 365 + ((n + 2) / 4 - (n + 1) / 4) := by
  simp only [daysBefore]
  split
  case isTrue h =>
    have h := h.mod_four
    omega
  case isFalse => omega

theorem daysBefore_le (n : ℕ) : daysBefore n ≤ 365 * n + (n + 1) / 4 := by
  induction n with
  | zero => simp [daysBefore]
  | succ n ih =>
    have h := daysBefore_succ_le n
    omega

theorem daysBefore_eq {n : ℕ} (h : n ≤ 130) : daysBefore n = 365 * n + (n + 1) / 4 := by
  induction n with
  | zero => simp [daysBefore]
  | succ n ih =>
    have hn := ih (by omega)
    have hl := isLeap_iff (n := n) (by omega)
    simp only [daysBefore, hl]
    split <;> omega

theorem daysBefore_lt {n : ℕ} (h : 131 ≤ n) : daysBefore n < 365 * n + (n + 1) / 4 := by
  induction h with
  | refl =>
    have h := daysBefore_eq (n := 130) (Nat.le_refl _)
    rw [daysBefore, if_neg (by decide), h]
    decide
  | @step m _ ih =>
    have h := daysBefore_succ_le m
    simp only [Nat.succ_eq_add_one]
    omega

/-! ### The days of a year -/

theorem monthStart_add_lt (leap : Bool) : ∀ mon n, (monthLengths leap)[mon]? = some n →
    monthStart leap mon + n ≤ 365 + leap.toNat := by
  intro mon n h
  obtain ⟨hlt, rfl⟩ := List.getElem?_eq_some_iff.mp h
  have hall : ∀ leap, ∀ mon, (hm : mon < (monthLengths leap).length) →
      monthStart leap mon + (monthLengths leap)[mon] ≤ 365 + leap.toNat := by decide
  exact hall leap mon hlt

/-- A day of a valid date comes before the first day of the next year. -/
theorem Date.Valid.days_lt {d : Date} (h : d.Valid) : d.days < daysBefore d.year + 366 := by
  obtain ⟨n, hn, hlt⟩ := h
  have h := monthStart_add_lt _ _ _ hn
  have hb : d.leap.toNat ≤ 1 := Bool.toNat_le _
  simp only [Date.days, Date.yday]
  omega

end Support
