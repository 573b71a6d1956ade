import Mathlib.Data.Int.Notation
import RpiBsp.Support.Calendar

/-!
# Startup — the time of day

`_gmtime` breaks a time down into a date, `calc_time_t` makes a time of one.

* `years_spec`, `months_spec` — what the two loops of `_gmtime` find;
* `utc_gmtime`, `calc_time_t_gmtime` — before 2100-03-01 the date is the right one, and gives the
time back;
* `utc_gmtime_lt` — from that day on the date is a wrong one;
* `time_round_trip_iff` — **main**: both hold just before 2100-03-01.
-/

namespace Startup.Time

open Support

/-! ### Definitions -/

/-- A value as `unsigned`, as `unsigned long`, and as `int`. -/
def uint (x : ℤ) : ℤ := x % 2 ^ 32
def ulong (x : ℤ) : ℤ := x % 2 ^ 64
def int (x : ℤ) : ℤ := (x + 2 ^ 31) % 2 ^ 32 - 2 ^ 31

/-- `struct tm`. -/
structure Tm where
  tm_sec : ℤ
  tm_min : ℤ
  tm_hour : ℤ
  tm_mday : ℤ
  tm_mon : ℤ
  tm_year : ℤ
  tm_wday : ℤ
  tm_yday : ℤ
deriving DecidableEq, Repr

def SEC_PER_MIN : ℤ := 60
def SEC_PER_HOUR : ℤ := 60 * SEC_PER_MIN
def SEC_PER_DAY : ℤ := 24 * SEC_PER_HOUR

def month_sec : List ℤ :=
  [0, 2678400, 5097600, 7776000, 10368000, 13046400, 15638400, 18316800, 20995200, 23587200,
    26265600, 28857600]

/-- `none` is the crash for a month out of bounds. -/
def calc_time_t (tm : Tm) : Option ℤ := do
  let year := uint (tm.tm_year - 70)
  let sec := ulong ((year * 365 + uint (year + 1) / 4) * SEC_PER_DAY)
  let month ← if 0 ≤ tm.tm_mon then month_sec[tm.tm_mon.toNat]? else none
  let sec := ulong (sec + month)
  let year := uint (tm.tm_year + 1900)
  let sec := if 2 ≤ tm.tm_mon ∧ year % 4 = 0 ∧ (year % 100 ≠ 0 ∨ year % 400 = 0) then
    ulong (sec + SEC_PER_DAY) else sec
  let sec := ulong (sec + ulong (tm.tm_mday - 1) * SEC_PER_DAY)
  let sec := ulong (sec + ulong tm.tm_hour * SEC_PER_HOUR)
  let sec := ulong (sec + ulong tm.tm_min * SEC_PER_MIN)
  return ulong (sec + ulong tm.tm_sec)

/-- `(year + 2) % 4 == 0`. -/
def leap (year : ℕ) : Bool := (year + 2) % 4 = 0

def mdays (leap : Bool) : List ℕ :=
  if leap then [31, 29, 31, 30, 31, 30, 31, 31, 30, 31, 30, 31]
  else [31, 28, 31, 30, 31, 30, 31, 31, 30, 31, 30, 31]

/-- The loop over the years: the year, and the days that are left in it. -/
def years (year days : ℕ) : ℕ × ℕ :=
  let t := 365 + (leap year).toNat
  if t > days then (year, days) else years (year + 1) (days - t)
termination_by days

/-- The loop over the months that are left. -/
def months : List ℕ → ℕ → ℕ → ℕ × ℕ
  | [], mon, days => (mon, days)
  | t :: ts, mon, days => if t > days then (mon, days) else months ts (mon + 1) (days - t)

def _gmtime (timer : ℕ) : Tm :=
  let days := timer / (60 * 60 * 24)
  let secs := timer % (60 * 60 * 24)
  let (year, yday) := years 0 days
  let (mon, mday) := months (mdays (leap year)) 0 yday
  { tm_wday := int ((days + 4) % 7 : ℕ)
    tm_yday := int yday
    tm_sec := int (secs % 60 : ℕ)
    tm_min := int ((secs / 60) % 60 : ℕ)
    tm_hour := int (secs / 60 / 60 : ℕ)
    tm_mday := int (mday + 1)
    tm_mon := int mon
    tm_year := int (year + 70) }

/-- A time broken down as the calendar has it. -/
structure Utc (t : ℕ) (tm : Tm) (d : Date) : Prop where
  valid : d.Valid
  days : d.days = t / 86400
  year : tm.tm_year + 1900 = 1970 + d.year
  mon : tm.tm_mon = d.mon
  mday : tm.tm_mday = d.day + 1
  yday : tm.tm_yday = d.yday
  wday : tm.tm_wday = (t / 86400 + 4) % 7
  hour : tm.tm_hour = t % 86400 / 3600
  min : tm.tm_min = t % 3600 / 60
  sec : tm.tm_sec = t % 60

/-! ### The loops -/

theorem years_spec (year days : ℕ) :
    ∃ y r, years year days = (y, r) ∧ year ≤ y ∧ r < 365 + (leap y).toNat ∧
    365 * year + (year + 1) / 4 + days = 365 * y + (y + 1) / 4 + r := by
  fun_induction years year days with
  | case1 year days t h => exact ⟨year, days, rfl, Nat.le_refl _, h, rfl⟩
  | case2 year days t h ih =>
    obtain ⟨y, r, he, hle, hr, hs⟩ := ih
    refine ⟨y, r, he, by omega, hr, ?_⟩
    have ht : t = 365 + ((year + 2) / 4 - (year + 1) / 4) := by
      simp only [t, leap]
      rcases Nat.decEq ((year + 2) % 4) 0 with h4 | h4 <;> simp [h4] <;> omega
    omega

theorem months_spec (ts : List ℕ) (mon days : ℕ) (h : days < ts.sum) :
    ∃ k n d, months ts mon days = (mon + k, d) ∧
    ts[k]? = some n ∧ d < n ∧ days = (ts.take k).sum + d := by
  fun_induction months ts mon days with
  | case1 mon days => simp at h
  | case2 t ts mon days ht => exact ⟨0, t, days, rfl, rfl, ht, by simp⟩
  | case3 t ts mon days ht ih =>
    rw [List.sum_cons] at h
    obtain ⟨k, n, d, he, hn, hd, hs⟩ := ih (by omega)
    refine ⟨k + 1, n, d, ?_, by simpa using hn, hd, ?_⟩
    · rw [he, Nat.add_assoc, Nat.add_comm 1 k]
    · rw [List.take_succ_cons, List.sum_cons]
      omega

theorem mdays_eq (l : Bool) : mdays l = monthLengths l := by
  cases l <;> rfl

theorem sum_mdays (l : Bool) : (mdays l).sum = 365 + l.toNat := by
  cases l <;> rfl

/-- **What `_gmtime` computes.**  The date of a calendar in which every fourth year is a leap
year. -/
theorem gmtime_spec (t : ℕ) : ∃ y mon mday n, (monthLengths (leap y))[mon]? = some n ∧ mday < n ∧
    t / 86400 = 365 * y + (y + 1) / 4 + (monthStart (leap y) mon + mday) ∧
    _gmtime t = { tm_wday := int ((t / 86400 + 4) % 7 : ℕ),
                  tm_yday := int (monthStart (leap y) mon + mday : ℕ)
                  tm_sec := int (t % 86400 % 60 : ℕ), tm_min := int (t % 86400 / 60 % 60 : ℕ)
                  tm_hour := int (t % 86400 / 60 / 60 : ℕ), tm_mday := int (mday + 1)
                  tm_mon := int mon, tm_year := int (y + 70) } := by
  obtain ⟨y, r, hy, -, hr, hs⟩ := years_spec 0 (t / 86400)
  obtain ⟨k, n, d, hm, hn, hd, hsum⟩ :=
    months_spec (mdays (leap y)) 0 r (by rw [sum_mdays]; exact hr)
  rw [mdays_eq] at hn hsum
  refine ⟨y, k, d, n, hn, hd, ?_, ?_⟩
  · rw [monthStart, ← hsum]
    omega
  · rw [_gmtime]
    simp only [hy, hm, Nat.zero_add, monthStart, ← hsum]

/-! ### Before 2100-03-01 -/

theorem int_of_lt {x : ℤ} (h₀ : 0 ≤ x) (h : x < 2 ^ 31) : int x = x := by
  simp only [int]
  omega

theorem ulong_of_lt {x : ℤ} (h₀ : 0 ≤ x) (h : x < 2 ^ 64) : ulong x = x := by
  simp only [ulong]
  omega

theorem ulong_add (x y : ℤ) : ulong (ulong x + y) = ulong (x + y) := by
  simp [ulong]

theorem ulong_add_ulong (x y : ℤ) : ulong (x + ulong y) = ulong (x + y) := by
  simp [ulong]

theorem ulong_add_mul (x y z : ℤ) : ulong (x + ulong y * z) = ulong (x + y * z) := by
  simp [ulong, Int.add_emod, Int.mul_emod]

theorem leap_eq {y : ℕ} (h : y < 130) : leap y = decide (IsLeap (1970 + y)) := by
  rw [leap, decide_eq_decide, isLeap_iff h]

/-- In the first 59 days of a year it makes no difference whether it is a leap year. -/
theorem month_of_lt {mon mday n : ℕ} (hn : (monthLengths true)[mon]? = some n) (hd : mday < n)
    (h : monthStart true mon + mday < 59) (l : Bool) :
    (∃ n, (monthLengths l)[mon]? = some n ∧ mday < n) ∧ monthStart l mon = monthStart true mon := by
  match mon with
  | 0 =>
    cases hn
    exact ⟨⟨31, rfl, hd⟩, rfl⟩
  | 1 =>
    have hd : mday < 28 := by
      simp only [monthStart, monthLengths] at h
      simp at h
      omega
    cases l with
    | false => exact ⟨⟨28, rfl, hd⟩, rfl⟩
    | true => exact ⟨⟨29, rfl, by omega⟩, rfl⟩
  | mon + 2 =>
    simp only [monthStart, monthLengths, List.take_succ_cons, List.sum_cons] at h
    simp at h
    omega

theorem date_of_lt {y mon mday n : ℕ} (hn : (monthLengths (leap y))[mon]? = some n) (hd : mday < n)
    (h : 365 * y + (y + 1) / 4 + (monthStart (leap y) mon + mday) < 47541) :
    y ≤ 130 ∧ (Date.mk y mon mday).Valid ∧
      (Date.mk y mon mday).yday = monthStart (leap y) mon + mday := by
  rcases Nat.lt_or_ge y 130 with hy | hy
  · simp only [Date.Valid, Date.yday, Date.leap, ← leap_eq hy]
    exact ⟨by omega, ⟨n, hn, hd⟩, trivial⟩
  · -- the year is 2100, which `_gmtime` takes for a leap year
    obtain rfl : y = 130 := by omega
    obtain ⟨hv, hs⟩ := month_of_lt hn hd (by have : leap 130 = true := rfl; rw [this] at h; omega)
      (Date.mk 130 mon mday).leap
    exact ⟨Nat.le_refl _, hv, by rw [Date.yday, hs]; rfl⟩

/-- Before 2100-03-01 the date is the right one. -/
theorem utc_gmtime {t : ℕ} (h : t < 4107542400) : ∃ d, d.year ≤ 130 ∧ Utc t (_gmtime t) d := by
  obtain ⟨y, mon, mday, n, hn, hd, ht, he⟩ := gmtime_spec t
  obtain ⟨hy, hv, hyd⟩ := date_of_lt hn hd (by omega)
  have hm := monthStart_add_lt _ _ _ hn
  have hb : (leap y).toNat ≤ 1 := Bool.toNat_le _
  have hmon : mon < 12 := by
    obtain ⟨hlt, -⟩ := List.getElem?_eq_some_iff.mp hn
    exact hlt
  refine ⟨⟨y, mon, mday⟩, hy, hv, ?_, ?_, ?_, ?_, ?_, ?_, ?_, ?_, ?_⟩
  · rw [Date.days, hyd, daysBefore_eq hy, ht]
  all_goals
    simp only [he, hyd]
    rw [int_of_lt (by omega) (by omega)] <;> omega

theorem month_sec_spec :
    ∀ (l : Bool) (mon : Fin 12), ∃ m, month_sec[mon.val]? = some m ∧ 0 ≤ m ∧ m < 28857601 ∧
    m + (if 2 ≤ mon.val ∧ l then 86400 else 0) = 86400 * monthStart l mon.val := by
  decide

theorem sec_per_day : SEC_PER_DAY = 86400 := rfl

theorem sec_per_hour : SEC_PER_HOUR = 3600 := rfl

theorem sec_per_min : SEC_PER_MIN = 60 := rfl

theorem seconds_eq (t : ℕ) :
    (t : ℤ) / 86400 * 86400 + t % 86400 / 3600 * 3600 + t % 3600 / 60 * 60 + t % 60 = t := by
  omega

/-- The seconds before a day. -/
theorem day_seconds_eq {y s day n : ℕ} {m l : ℤ} (h : 365 * y + (y + 1) / 4 + (s + day) = n)
    (hm : m + l = 86400 * s) :
    ((y : ℤ) * 365 + (y + 1) / 4) * 86400 + m + l + (day + 1 - 1) * 86400 = n * 86400 := by
  omega

/-- The years that `calc_time_t` computes with are in range. -/
theorem uint_year {y : ℕ} (h : y ≤ 130) : uint (y + 70 - 70) = y ∧ uint (y + 1) = y + 1 ∧
    uint (y + 70 + 1900) = (1970 + y : ℕ) := by
  simp only [uint]
  omega

theorem isLeap_cast (y : ℕ) :
    (y : ℤ) % 4 = 0 ∧ ((y : ℤ) % 100 ≠ 0 ∨ (y : ℤ) % 400 = 0) ↔ IsLeap y := by
  rw [IsLeap]
  omega

/-- The date gives the time back. -/
theorem calc_time_t_of_utc {t : ℕ} {tm : Tm} {d : Date} (hy : d.year ≤ 130) (h : Utc t tm d) :
    calc_time_t tm = some (t : ℤ) := by
  obtain ⟨n, hn, hd⟩ := h.valid
  obtain ⟨hmon, -⟩ := List.getElem?_eq_some_iff.mp hn
  have hlen := monthStart_add_lt _ _ _ hn
  have hb : d.leap.toNat ≤ 1 := Bool.toNat_le _
  obtain ⟨m, hm, hm₀, hm₁, hms⟩ := month_sec_spec d.leap ⟨d.mon, hmon⟩
  have hdays := h.days
  rw [Date.days, Date.yday, daysBefore_eq hy] at hdays
  have hyear : tm.tm_year = d.year + 70 := by
    have := h.year
    omega
  have hsum := day_seconds_eq hdays hms
  have ht : (t : ℤ) < 2 ^ 64 := by omega
  obtain ⟨hu, hu', hu''⟩ := uint_year hy
  have hl : 2 ≤ (d.mon : ℤ) ∧ IsLeap (1970 + d.year) ↔ 2 ≤ d.mon ∧ d.leap = true := by
    simp only [Date.leap, decide_eq_true_eq]
    exact and_congr_left' (by omega)
  simp only [calc_time_t, h.mon, h.mday, h.hour, h.min, h.sec, hyear, hu, hu', hu'', isLeap_cast,
    hl, Int.natCast_nonneg, if_true,
    Int.toNat_natCast, hm, Option.bind_eq_bind, Option.bind_some, Option.pure_def]
  split
  case isTrue hc =>
    rw [if_pos hc] at hsum
    simp only [ulong_add, ulong_add_ulong, ulong_add_mul, sec_per_day, sec_per_hour,
      sec_per_min, hsum]
    rw [Int.natCast_ediv, Int.cast_ofNat_Int, seconds_eq, ulong_of_lt (by omega) ht]
  case isFalse hc =>
    rw [if_neg hc, Int.add_zero] at hsum
    simp only [ulong_add, ulong_add_ulong, ulong_add_mul, sec_per_day, sec_per_hour,
      sec_per_min, hsum]
    rw [Int.natCast_ediv, Int.cast_ofNat_Int, seconds_eq, ulong_of_lt (by omega) ht]

/-! ### From 2100-03-01 on -/

/-- The day of the year and the month do not go together in 2100 from day 59 on. -/
theorem yday_ne {mon mday n : ℕ} (hn : (monthLengths false)[mon]? = some n) (hd : mday < n)
    (h : 59 ≤ monthStart true mon + mday) : monthStart false mon ≠ monthStart true mon := by
  match mon with
  | 0 =>
    cases hn
    simp [monthStart] at h
    omega
  | 1 =>
    have hd : mday < 28 := by
      cases hn
      exact hd
    simp [monthStart, monthLengths] at h
    omega
  | mon + 2 =>
    simp [monthStart, monthLengths]

theorem year_of_le {t y r : ℕ} (h : t / 86400 = 365 * y + (y + 1) / 4 + r) (hr : r < 366)
    (ht : 4107542400 ≤ t) :
    130 ≤ y ∧ (y = 130 → 59 ≤ r) := by
  omega

/-- From 2100-03-01 on the date is a wrong one. -/
theorem utc_gmtime_lt {t : ℕ} {d : Date} (h : Utc t (_gmtime t) d) : t < 4107542400 := by
  obtain ⟨y, mon, mday, n, hn, hd, hdays, he⟩ := gmtime_spec t
  have hm := monthStart_add_lt _ _ _ hn
  have hb : (leap y).toNat ≤ 1 := Bool.toNat_le _
  have hr : monthStart (leap y) mon + mday < 366 := by omega
  obtain ⟨hmon, -⟩ := List.getElem?_eq_some_iff.mp hn
  have hmon : mon < 12 := hmon
  have hdd := h.days
  have hle := daysBefore_le d.year
  have hlt := h.valid.days_lt
  have hyear : int (y + 70) + 1900 = 1970 + d.year := by
    rw [← h.year, he]
  have hyday : d.yday = monthStart (leap y) mon + mday := by
    have h := h.yday
    rw [he] at h
    simp only at h
    rw [int_of_lt (by omega) (by omega)] at h
    omega
  have hmon' : d.mon = mon := by
    have h := h.mon
    rw [he] at h
    simp only at h
    rw [int_of_lt (by omega) (by omega)] at h
    omega
  have hday' : d.day = mday := by
    have h := h.mday
    rw [he] at h
    simp only at h
    rw [int_of_lt (by omega) (by omega)] at h
    omega
  -- a year that was cut down to 32 bits is too early for so many days
  have hy : d.year = y := by
    simp only [int] at hyear
    omega
  rw [Date.days, hyday, hy, hdays] at hdd
  have hy' : y ≤ 130 := by
    by_contra hc
    have hb := daysBefore_lt (Nat.lt_of_not_le hc)
    exact Nat.ne_of_lt (Nat.add_lt_add_right hb _) hdd
  by_contra hc
  obtain ⟨hge, hr'⟩ := year_of_le hdays hr (Nat.le_of_not_lt hc)
  obtain rfl : y = 130 := Nat.le_antisymm hy' hge
  have hl : leap 130 = true := rfl
  have hl' : d.leap = false := by
    rw [Date.leap, hy]
    decide
  obtain ⟨n', hn', hd'⟩ := h.valid
  rw [Date.yday, hl', hl, hmon', hday', Nat.add_left_inj] at hyday
  rw [hl', hmon'] at hn'
  rw [hday'] at hd'
  exact yday_ne hn' hd' (hr' rfl) hyday

/-- **The round trip, and the date.**  For every time that is not negative, `calc_time_t` gives back
the time that `_gmtime` broke down and the date is the one of the calendar, just if the time is
before 2100-03-01. -/
theorem time_round_trip_iff (t : ℕ) :
    (calc_time_t (_gmtime t) = some (t : ℤ) ∧ ∃ d, Utc t (_gmtime t) d) ↔ t < 4107542400 := by
  constructor
  · rintro ⟨-, d, hd⟩
    exact utc_gmtime_lt hd
  · intro h
    obtain ⟨d, hy, hd⟩ := utc_gmtime h
    exact ⟨calc_time_t_of_utc hy hd, d, hd⟩

/-- 2100-03-01 is broken down as February 29, which that year does not have. -/
theorem gmtime_2100 : ¬ (calc_time_t (_gmtime 4107542400) = some ((4107542400 : ℕ) : ℤ) ∧
    ∃ d, Utc 4107542400 (_gmtime 4107542400) d) := by
  rintro ⟨-, d, hd⟩
  have h := utc_gmtime_lt hd
  exact absurd h (Nat.lt_irrefl _)

end Startup.Time
