import Mathlib.Algebra.GroupWithZero.Nat
import Mathlib.Algebra.Order.Floor.Ring
import Mathlib.Algebra.Ring.Int.Defs
import Mathlib.Data.Rat.Floor
import Mathlib.Order.CompletePartialOrder
import Mathlib.Tactic.FieldSimp
import Mathlib.Tactic.Linarith
import Mathlib.Tactic.Positivity
import Mathlib.Tactic.Ring

/-!
# Startup — the period of the timer

`invert_timer_freq` stores the period of a timer as a number and a power of ten, digit by digit;
`timer_tick2ns` makes nanoseconds of ticks with them.

* `digits_spec`, `invert_timer_freq_spec` — the digits are those of a long division, and no step
overflows;
* `scaleDown_zero`, `scaleDown_isSome`, `scaleDown_of_fits` — when the scaling divides by zero, and
what it gives;
* `timer_iff` — **main**: the period is the right one and each tick count is scaled just for the
  frequencies up to `UINT_MAX / 10` and the multiples of ten up to 1 GHz;
* `timer_ns2tick_eq` — at those, `timer_ns2tick` has a tick to divide by.
-/

namespace Startup.Timer

/-! ### Definitions -/

def UINT_MAX : ℕ := 4294967295

/-- What is stored in `qtime_entry`. -/
structure Qtime where
  timer_period : ℕ
  timer_scale : ℤ
deriving DecidableEq, Repr

/-- The variables of the loop; `overflow` is set when a value does not fit in 32 bits. -/
structure Digits where
  quot : ℕ
  scale : ℤ
  period : ℕ
  overflow : Bool
deriving DecidableEq, Repr

/-- `unsigned`. -/
def uint (x : ℕ) : ℕ := x % 2 ^ 32

/-- So many rounds of the loop; `none` if it goes on after them. -/
def digits (freq : ℕ) : ℕ → Digits → Option Digits
  | 0, _ => none
  | fuel + 1, d =>
    let div := d.quot / freq
    let next := d.period * 10 + div
    let d := { d with period := uint next, overflow := d.overflow || decide (UINT_MAX < next) }
    if d.period ≥ UINT_MAX / 10 - 10 then some d
    else
      let rem := d.quot % freq
      if rem = 0 then some d
      else digits freq fuel
        { d with
          scale := d.scale - 1, quot := uint (rem * 10)
          overflow := d.overflow || decide (UINT_MAX < rem * 10) }

/-- What is stored, and whether a value did not fit; `none` also for the crash at frequency 0. -/
def invert_timer_freq (fuel freq : ℕ) : Option (Qtime × Bool) :=
  if freq = 0 then none
  else
    let (freq, scale) := if freq > UINT_MAX / 10 then (freq / 10, (-1 : ℤ)) else (freq, 0)
    (digits freq fuel ⟨1, scale, 0, false⟩).map fun d => (⟨d.period, d.scale⟩, d.overflow)

/-- The product, unless `ns` has it already; `none` is a division by zero. -/
def product (ticks period ns : ℕ) : Option ℕ :=
  if ns = 0 then
    if period = 0 then none
    else
      let ns := period * ticks % 2 ^ 64
      some (if ns / period ≠ ticks then 0 else ns)
  else some ns

/-- The loop that divides, while `power` is positive. -/
def scaleDown (ticks : ℕ) : ℕ → ℕ → ℕ → Option ℕ
  | 0, period, ns => product ticks period ns
  | power + 1, period, ns =>
      (product ticks period ns).bind fun ns => scaleDown ticks power (period / 10) (ns / 10)

/-- The loop that multiplies, while `power` is negative. -/
def scaleUp : ℕ → ℕ → ℕ
  | 0, ns => ns
  | n + 1, ns => scaleUp n (ns * 10 % 2 ^ 64)

/-- `none` is a division by zero. -/
def timer_tick2ns (qtime : Qtime) (ticks : ℕ) : Option ℕ :=
  let power := -9 - qtime.timer_scale
  (scaleDown ticks power.toNat qtime.timer_period 0).map (scaleUp (-power).toNat)

def timer_ns2tick (qtime : Qtime) (ns : ℕ) : Option ℕ :=
  (timer_tick2ns qtime 1).map fun ticks_2_ns => if ticks_2_ns ≠ 0 then ns / ticks_2_ns
    else 0xFFFFFFFF

/-- The period in seconds, to the last digit. -/
def Inverts (freq : ℕ) (q : Qtime) : Prop :=
  (q.timer_period : ℚ) * 10 ^ q.timer_scale ≤ 1 / freq ∧
    1 / freq < ((q.timer_period : ℚ) + 1) * 10 ^ q.timer_scale

/-- The nanoseconds of so many ticks. -/
def nanoseconds (q : Qtime) (ticks : ℕ) : ℤ :=
  ⌊(q.timer_period : ℚ) * ticks * 10 ^ (q.timer_scale + 9)⌋

/-- Every number of ticks is scaled, without a division by zero, and rightly if the values fit. -/
def Scales (q : Qtime) : Prop :=
  ∀ ticks < 2 ^ 64, ∃ ns, timer_tick2ns q ticks = some ns ∧
    (q.timer_period * ticks < 2 ^ 64 → nanoseconds q ticks < 2 ^ 64 →
    (ns : ℤ) = nanoseconds q ticks)

/-! ### The digits -/

theorem uint_of_le {x : ℕ} (h : x ≤ UINT_MAX) : uint x = x :=
  Nat.mod_eq_of_lt (Nat.lt_succ_of_le h)

/-- Where the long division of a power of ten stands before a digit: `i` digits were made. -/
structure Inv (freq i : ℕ) (d : Digits) : Prop where
  pow : 10 ^ i = 10 * d.period * freq + d.quot
  quot : d.quot < 10 * freq
  period : d.period < UINT_MAX / 10 - 10

/-- Where it stands after a digit. -/
structure Stop (freq i : ℕ) (d : Digits) (rem : ℕ) : Prop where
  pow : 10 ^ i = d.period * freq + rem
  rem : rem < freq
  period : d.period ≤ UINT_MAX

/-- There are fewer than nineteen digits. -/
theorem Inv.lt {freq i : ℕ} {d : Digits} (h : Inv freq i d) (hf : freq ≤ UINT_MAX / 10) :
    i < 19 := by
  by_contra hi
  have hpow : 10 ^ 19 ≤ 10 ^ i := Nat.pow_le_pow_right (by decide) (Nat.le_of_not_lt hi)
  have hp := h.period
  have hq := h.quot
  simp only [UINT_MAX] at hp hf
  have : 10 * d.period * freq ≤ 10 * 429496729 * 429496729 := Nat.mul_le_mul (by omega) (by omega)
  have := h.pow
  omega

/-- **The long division.**  With enough rounds the loop stops, with nothing overflowed, at a number
of digits. -/
theorem digits_spec {freq : ℕ} (hf₀ : 0 < freq) (hf : freq ≤ UINT_MAX / 10) (fuel i : ℕ)
    (d : Digits)
    (h : Inv freq i d) (hfuel : 19 ≤ i + fuel) :
        ∃ n d' rem, digits freq fuel d = some d' ∧ Stop freq (i + n) d' rem ∧
      d'.scale = d.scale - n ∧ d'.overflow = d.overflow ∧
      (rem = 0 ∨ UINT_MAX / 10 - 10 ≤ d'.period) := by
  induction fuel generalizing i d with
  | zero =>
    have := h.lt hf
    omega
  | succ fuel ih =>
    have hdiv : d.quot / freq < 10 := Nat.div_lt_of_lt_mul (by linarith [h.quot])
    have hnext : d.period * 10 + d.quot / freq ≤ UINT_MAX := by
      have hp := h.period
      simp only [UINT_MAX] at hp ⊢
      omega
    have hrem : d.quot % freq < freq := Nat.mod_lt _ hf₀
    have hpow : 10 ^ i = (d.period * 10 + d.quot / freq) * freq + d.quot % freq := by
      rw [h.pow, Nat.add_mul, Nat.add_assoc, Nat.mul_comm (d.quot / freq), Nat.div_add_mod]
      ring
    simp only [digits, uint_of_le hnext, Nat.not_lt.mpr hnext, decide_false, Bool.or_false]
    split
    case isTrue hge => exact ⟨0, _, _, rfl, ⟨hpow, hrem, hnext⟩, by simp, rfl, .inr hge⟩
    case isFalse hge =>
      split
      case isTrue h₀ => exact ⟨0, _, _, rfl, ⟨hpow, hrem, hnext⟩, by simp, rfl, .inl h₀⟩
      case isFalse h₀ =>
        have hten : d.quot % freq * 10 ≤ UINT_MAX := by
          simp only [UINT_MAX] at hf ⊢
          omega
        simp only [uint_of_le hten, Nat.not_lt.mpr hten, decide_false, Bool.or_false]
        have hinv : Inv freq (i + 1)
            ⟨d.quot % freq * 10, d.scale - 1, d.period * 10 + d.quot / freq, d.overflow⟩ := by
          refine ⟨?_, ?_, Nat.lt_of_not_le hge⟩
          · rw [pow_succ, hpow]
            ring
          · simp only
            omega
        obtain ⟨n, d', rem, he, hs, hscale, hover, hstop⟩ := ih (i + 1) _ hinv (by omega)
        refine ⟨n + 1, d', rem, he, ?_, ?_, hover, hstop⟩
        · rwa [← Nat.add_assoc, Nat.add_right_comm]
        · rw [hscale]
          push_cast
          ring

/-- A loop that stops does so with more rounds too. -/
theorem digits_mono {freq fuel fuel' : ℕ} {d d' : Digits} (h : digits freq fuel d = some d')
    (hle : fuel ≤ fuel') :
    digits freq fuel' d = some d' := by
  induction fuel generalizing fuel' d with
  | zero => cases h
  | succ fuel ih =>
    obtain ⟨k, rfl⟩ := Nat.exists_eq_add_of_le' hle
    simp only [digits] at h
    rw [← Nat.add_assoc]
    simp only [digits]
    split
    case isTrue hc => rwa [if_pos hc] at h
    case isFalse hc =>
      rw [if_neg hc] at h
      split
      case isTrue hr => rwa [if_pos hr] at h
      case isFalse hr =>
        rw [if_neg hr] at h
        exact ih h (Nat.le_add_left fuel k)

/-- The frequency that is divided by. -/
def divisor (freq : ℕ) : ℕ := if freq > UINT_MAX / 10 then freq / 10 else freq

/-- The places that the first division by ten takes. -/
def places (freq : ℕ) : ℕ := if freq > UINT_MAX / 10 then 1 else 0

theorem divisor_bounds {freq : ℕ} (h₀ : 0 < freq) (h : freq ≤ UINT_MAX) :
    0 < divisor freq ∧ divisor freq ≤ UINT_MAX / 10 := by
  have he : UINT_MAX / 10 = 429496729 := rfl
  simp only [divisor]
  split
  case isTrue hc =>
    simp only [UINT_MAX] at h
    omega
  case isFalse hc => exact ⟨h₀, Nat.le_of_not_lt hc⟩

theorem invert_timer_freq_eq {freq : ℕ} (h₀ : 0 < freq) (fuel : ℕ) : invert_timer_freq fuel freq =
    (digits (divisor freq) fuel ⟨1, -(places freq : ℤ), 0, false⟩).map fun d =>
      (⟨d.period, d.scale⟩, d.overflow) := by
  by_cases hc : freq > UINT_MAX / 10
  · simp [invert_timer_freq, divisor, places, h₀.ne', hc]
  · simp [invert_timer_freq, divisor, places, h₀.ne', hc]

/-- **What `invert_timer_freq` stores.**  It comes to an end, no value overflows, and the period has
the digits of a power of ten divided by the divisor. -/
theorem invert_timer_freq_spec {freq : ℕ} (h₀ : 0 < freq) (h : freq ≤ UINT_MAX) : ∃ n period rem,
    (∀ fuel ≥ 19, invert_timer_freq fuel freq =
      some (⟨period, -((n + places freq : ℕ) : ℤ)⟩, false)) ∧
    10 ^ n = period * divisor freq + rem ∧ rem < divisor freq ∧ period ≤ UINT_MAX ∧
    (rem = 0 ∨ UINT_MAX / 10 - 10 ≤ period) := by
  obtain ⟨hd₀, hd⟩ := divisor_bounds h₀ h
  have hinv : Inv (divisor freq) 0 ⟨1, -(places freq : ℤ), 0, false⟩ :=
    ⟨by simp, by simp only; omega, Nat.zero_lt_succ _⟩
  obtain ⟨n, d, rem, he, hs, hscale, hover, hstop⟩ := digits_spec hd₀ hd 19 0 _ hinv (by decide)
  rw [Nat.zero_add] at hs
  refine ⟨n, d.period, rem, ?_, hs.pow, hs.rem, hs.period, hstop⟩
  intro fuel hfuel
  have hscale' : d.scale = -((n + places freq : ℕ) : ℤ) := by
    rw [hscale]
    push_cast
    ring
  rw [invert_timer_freq_eq h₀, digits_mono he hfuel, Option.map_some, hscale', hover]

/-! ### The scaling -/

/-- No ticks: the loop divides by zero once the period is used up. -/
theorem scaleDown_zero (power period : ℕ) :
    scaleDown 0 power period 0 = if period < 10 ^ power then none else some 0 := by
  induction power generalizing period with
  | zero =>
    simp only [scaleDown, product, pow_zero, Nat.lt_one_iff]
    simp
  | succ power ih =>
    have hlt : period / 10 < 10 ^ power ↔ period < 10 ^ (power + 1) := by
      rw [Nat.div_lt_iff_lt_mul (by decide), pow_succ]
    rcases Nat.eq_zero_or_pos period with rfl | hp
    · simp [scaleDown, product]
    · simp only [scaleDown, product, if_true, if_neg hp.ne', Nat.mul_zero, Nat.zero_mod,
        Nat.zero_div, ne_eq, not_true, if_false, Option.bind_some, ih, hlt]

theorem product_isSome {period : ℕ} (ticks ns : ℕ) (h : 0 < period) :
    ∃ ns', product ticks period ns = some ns' := by
  simp only [product, if_neg h.ne']
  split
  · exact ⟨_, rfl⟩
  · exact ⟨_, rfl⟩

/-- A period with enough digits is never used up. -/
theorem scaleDown_isSome {power period : ℕ} (ticks ns : ℕ) (h : 10 ^ power ≤ period) :
    ∃ ns', scaleDown ticks power period ns = some ns' := by
  induction power generalizing period ns with
  | zero => exact product_isSome ticks ns h
  | succ power ih =>
    obtain ⟨ns', hns⟩ := product_isSome ticks ns (Nat.lt_of_lt_of_le (by positivity) h)
    rw [scaleDown, hns, Option.bind_some]
    rw [pow_succ] at h
    exact ih _ ((Nat.le_div_iff_mul_le (by decide)).mpr h)

/-- With the product at hand there are only the divisions left. -/
theorem scaleDown_of_le {ticks power period ns : ℕ} (h : 10 ^ power ≤ ns) :
    scaleDown ticks power period ns = some (ns / 10 ^ power) := by
  induction power generalizing period ns with
  | zero =>
    rw [pow_zero] at h
    simp [scaleDown, product, Nat.one_le_iff_ne_zero.mp h]
  | succ power ih =>
    have hns : ns ≠ 0 := (Nat.lt_of_lt_of_le (by positivity) h).ne'
    rw [pow_succ] at h
    rw [scaleDown, product, if_neg hns, Option.bind_some,
      ih ((Nat.le_div_iff_mul_le (by decide)).mpr h),
      Nat.div_div_eq_div_mul, pow_succ, Nat.mul_comm]

theorem product_of_fits {ticks period : ℕ} (h₀ : 0 < period) (h : period * ticks < 2 ^ 64) :
    product ticks period 0 = some (period * ticks) := by
  simp only [product, if_true, if_neg h₀.ne', Nat.mod_eq_of_lt h, Nat.mul_div_cancel_left ticks h₀,
    ne_eq, not_true, if_false]

theorem scaleDown_of_fits {ticks power period : ℕ} (hp : 10 ^ power ≤ period)
    (h : period * ticks < 2 ^ 64) :
    scaleDown ticks power period 0 = some (period * ticks / 10 ^ power) := by
  have h₀ : 0 < period := Nat.lt_of_lt_of_le (by positivity) hp
  rcases Nat.eq_zero_or_pos ticks with rfl | ht
  · rw [scaleDown_zero, if_neg (Nat.not_lt.mpr hp)]
    simp
  · have hle : 10 ^ power ≤ period * ticks := hp.trans (Nat.le_mul_of_pos_right _ ht)
    have hns : period * ticks ≠ 0 := (Nat.mul_pos h₀ ht).ne'
    have hprod : product ticks period 0 = product ticks period (period * ticks) := by
      rw [product_of_fits h₀ h, product, if_neg hns]
    rw [← scaleDown_of_le hle]
    cases power with
    | zero => exact hprod
    | succ power => rw [scaleDown, scaleDown, hprod]

theorem scaleUp_of_fits {n ns : ℕ} (h : ns * 10 ^ n < 2 ^ 64) : scaleUp n ns = ns * 10 ^ n := by
  induction n generalizing ns with
  | zero => simp [scaleUp]
  | succ n ih =>
    have he : ns * 10 * 10 ^ n = ns * 10 ^ (n + 1) := by
      rw [pow_succ, Nat.mul_assoc, Nat.mul_comm 10]
    have hle : ns * 10 ≤ ns * 10 * 10 ^ n := Nat.le_mul_of_pos_right _ (by positivity)
    rw [scaleUp, Nat.mod_eq_of_lt (by omega), ih (by omega), he]

/-! ### With a power of ten below the period -/

theorem inverts_iff {freq period n : ℕ} (h : 0 < freq) :
    Inverts freq ⟨period, -(n : ℤ)⟩ ↔ period * freq ≤ 10 ^ n ∧ 10 ^ n < (period + 1) * freq := by
  have hf : (0 : ℚ) < freq := by exact_mod_cast h
  have hp : (0 : ℚ) < 10 ^ n := by positivity
  simp only [Inverts, zpow_neg, zpow_natCast, ← div_eq_mul_inv]
  rw [div_le_div_iff₀ hp hf, div_lt_div_iff₀ hf hp, one_mul]
  exact_mod_cast Iff.rfl

theorem nanoseconds_of_le {period n ticks : ℕ} (h : 9 ≤ n) :
    nanoseconds ⟨period, -(n : ℤ)⟩ ticks = (period * ticks / 10 ^ (n - 9) : ℕ) := by
  have he : -(n : ℤ) + 9 = -((n - 9 : ℕ) : ℤ) := by omega
  simp only [nanoseconds, he, zpow_neg, zpow_natCast, ← div_eq_mul_inv]
  have hc : ((period : ℚ) * ticks) / 10 ^ (n - 9) = ((period * ticks : ℕ) : ℚ) /
      ((10 ^ (n - 9) : ℕ) : ℚ) := by
    push_cast
    rfl
  rw [hc, Rat.floor_natCast_div_natCast]
  simp

theorem nanoseconds_of_lt {period n ticks : ℕ} (h : n < 9) :
    nanoseconds ⟨period, -(n : ℤ)⟩ ticks = (period * ticks * 10 ^ (9 - n) : ℕ) := by
  have he : -(n : ℤ) + 9 = ((9 - n : ℕ) : ℤ) := by omega
  have hc : (period : ℚ) * ticks * 10 ^ (9 - n) = ((period * ticks * 10 ^ (9 - n) : ℕ) : ℚ) := by
    push_cast
    rfl
  simp only [nanoseconds, he, zpow_natCast, hc, Int.floor_natCast]

/-- The scaling is right if the period has as many digits as are dropped. -/
theorem scales_of_le {period n : ℕ} (h : 10 ^ (n - 9) ≤ period) : Scales ⟨period, -(n : ℤ)⟩ := by
  intro ticks _
  have hpower : (-9 - -(n : ℤ)).toNat = n - 9 := by omega
  have hneg : (-(-9 - -(n : ℤ))).toNat = 9 - n := by omega
  simp only [timer_tick2ns, hpower, hneg]
  obtain ⟨ns, hns⟩ := scaleDown_isSome ticks 0 h
  refine ⟨_, by rw [hns, Option.map_some], ?_⟩
  intro hfits hres
  obtain rfl : period * ticks / 10 ^ (n - 9) = ns := by
    rw [scaleDown_of_fits h hfits, Option.some.injEq] at hns
    exact hns
  rcases Nat.lt_or_ge n 9 with hn | hn
  · rw [nanoseconds_of_lt hn] at hres ⊢
    have hz : n - 9 = 0 := by omega
    rw [hz, pow_zero, Nat.div_one, scaleUp_of_fits (by exact_mod_cast hres)]
  · rw [nanoseconds_of_le hn]
    have hz : 9 - n = 0 := by omega
    rw [hz, scaleUp]

/-- If more digits are dropped than there are, no ticks at all make the loop divide by zero. -/
theorem not_scales_of_lt {period n : ℕ} (h : period < 10 ^ (n - 9)) :
    ¬ Scales ⟨period, -(n : ℤ)⟩ := by
  intro hs
  obtain ⟨ns, hns, -⟩ := hs 0 (by decide)
  have hpower : (-9 - -(n : ℤ)).toNat = n - 9 := by omega
  simp only [timer_tick2ns, hpower, scaleDown_zero, if_pos h] at hns
  cases hns

/-! ### The frequencies -/

/-- The frequencies that are not cut off: those that ten times fit, and the multiples of ten up to 1
GHz. -/
def Whole (freq : ℕ) : Prop := freq ≤ UINT_MAX / 10 ∨ freq ≤ 10 ^ 9 ∧ freq % 10 = 0

instance (freq : ℕ) : Decidable (Whole freq) := inferInstanceAs (Decidable (_ ∨ _))

theorem Whole.le {freq : ℕ} (h : Whole freq) : freq ≤ 10 ^ 9 := by
  rcases h with h | h
  · exact h.trans (by decide)
  · exact h.1

/-- Nothing of such a frequency is lost in the division by ten. -/
theorem Whole.eq_divisor {freq : ℕ} (h : Whole freq) : freq = divisor freq * 10 ^ places freq := by
  by_cases hc : freq > UINT_MAX / 10
  · simp only [divisor, places, if_pos hc]
    have hm : freq % 10 = 0 := (h.resolve_left (Nat.not_le.mpr hc)).2
    omega
  · simp [divisor, places, hc]

/-- The digits of the divisor are those of the frequency. -/
theorem Whole.period {freq period rem n : ℕ} (h : Whole freq)
    (hp : 10 ^ n = period * divisor freq + rem) (hr : rem < divisor freq) :
    period * freq ≤ 10 ^ (n + places freq) ∧ 10 ^ (n + places freq) < (period + 1) * freq := by
  rw [pow_add, hp]
  constructor
  · calc period * freq = period * divisor freq * 10 ^ places freq := by
          rw [Nat.mul_assoc, ← h.eq_divisor]
      _ ≤ (period * divisor freq + rem) * 10 ^ places freq :=
        Nat.mul_le_mul_right _ (Nat.le_add_right _ _)
  · calc (period * divisor freq + rem) * 10 ^ places freq
        < (period * divisor freq + divisor freq) * 10 ^ places freq :=
          Nat.mul_lt_mul_of_pos_right (Nat.add_lt_add_left hr _) (by positivity)
      _ = (period + 1) * freq := by rw [← Nat.succ_mul, Nat.mul_assoc, ← h.eq_divisor]

/-- Up to 1 GHz the period has as many digits as the scaling drops. -/
theorem pow_le_period {freq period n : ℕ} (hf : freq ≤ 10 ^ 9) (h₀ : 0 < period)
    (h : 10 ^ n < (period + 1) * freq) :
    10 ^ (n - 9) ≤ period := by
  rcases Nat.lt_or_ge n 9 with hn | hn
  · rwa [Nat.sub_eq_zero_of_le hn.le, pow_zero]
  · by_contra hc
    have hle : (period + 1) * freq ≤ 10 ^ (n - 9) * 10 ^ 9 :=
      Nat.mul_le_mul (Nat.lt_of_not_le hc) hf
    rw [← pow_add, Nat.sub_add_cancel hn] at hle
    omega

theorem period_pos {freq period rem n : ℕ} (hp : 10 ^ n = period * freq + rem)
    (hs : rem = 0 ∨ UINT_MAX / 10 - 10 ≤ period) : 0 < period := by
  rcases hs with rfl | hs
  · by_contra hc
    obtain rfl : period = 0 := by omega
    have : 0 < 10 ^ n := by positivity
    omega
  · exact Nat.lt_of_lt_of_le (by decide) hs

/-- Above 1 GHz the period is short of digits. -/
theorem period_lt_pow {freq period rem n : ℕ} (hf : 10 ^ 9 < freq) (hd : freq / 10 ≠ 10 ^ 8)
    (hp : 10 ^ n = period * (freq / 10) + rem) (h₀ : 0 < period) : period < 10 ^ (n + 1 - 9) := by
  have hd : 10 ^ 8 < freq / 10 := by omega
  have hn : 8 < n := by
    by_contra hc
    have hle : 10 ^ n ≤ 10 ^ 8 := Nat.pow_le_pow_right (by decide) (Nat.le_of_not_lt hc)
    have : freq / 10 ≤ period * (freq / 10) := Nat.le_mul_of_pos_left _ h₀
    omega
  have he : n + 1 - 9 + 8 = n := by omega
  by_contra hc
  have hlt : 10 ^ (n + 1 - 9) * 10 ^ 8 < period * (freq / 10) :=
    Nat.mul_lt_mul_of_le_of_lt (Nat.le_of_not_lt hc) hd (by positivity)
  rw [← pow_add, he] at hlt
  omega

theorem pow_nine_le {freq period rem n : ℕ} (hlo : UINT_MAX / 10 < freq) (hf : freq < 10 ^ 9 + 10)
    (hp : 10 ^ n = period * (freq / 10) + rem) (hr : rem < freq / 10)
    (hs : UINT_MAX / 10 - 10 ≤ period) :
    10 ^ 9 ≤ period := by
  simp only [UINT_MAX] at hlo hs
  have hn : 10 ^ 17 ≤ 10 ^ n := by
    apply Nat.pow_le_pow_right (by decide)
    by_contra hc
    have hle : 10 ^ n ≤ 10 ^ 16 := Nat.pow_le_pow_right (by decide) (by omega)
    have : 429496719 * 42949673 ≤ period * (freq / 10) := Nat.mul_le_mul hs (by omega)
    omega
  by_contra hc
  have : period * (freq / 10) ≤ (10 ^ 9 - 1) * 10 ^ 8 := Nat.mul_le_mul (by omega) (by omega)
  omega

/-- Below that, a period that was made of a frequency with its last digit cut off is too long. -/
theorem period_too_long {freq period rem n : ℕ} (hlo : UINT_MAX / 10 < freq)
    (hf : freq < 10 ^ 9 + 10) (hd : freq % 10 ≠ 0)
    (hp : 10 ^ n = period * (freq / 10) + rem) (hr : rem < freq / 10)
    (hs : rem = 0 ∨ UINT_MAX / 10 - 10 ≤ period) : 10 ^ (n + 1) < period * freq := by
  have h₀ := period_pos hp hs
  have he : period * freq = period * (freq / 10) * 10 + period * (freq % 10) := by
    conv_lhs => rw [← Nat.div_add_mod freq 10]
    ring
  have hlong : rem * 10 < period * (freq % 10) := by
    have hle : period ≤ period * (freq % 10) := Nat.le_mul_of_pos_right _ (Nat.pos_of_ne_zero hd)
    rcases hs with rfl | hs
    · omega
    · have := pow_nine_le hlo hf hp hr hs
      omega
  rw [pow_succ, hp, he]
  omega

/-- **The period and the scaling.**  For every frequency but 0, the period is found without an
overflow, to the last digit, and every tick count is scaled rightly without a division by zero, just
if the frequency is at most `UINT_MAX / 10`, or a multiple of ten and at most 1 GHz. -/
theorem timer_iff (freq : ℕ) (h₀ : 0 < freq) (h : freq ≤ UINT_MAX) :
    (∃ q, (∀ fuel ≥ 19, invert_timer_freq fuel freq = some (q, false)) ∧ Inverts freq q ∧
    Scales q) ↔ Whole freq := by
  obtain ⟨n, period, rem, hq, hp, hr, -, hs⟩ := invert_timer_freq_spec h₀ h
  have hpos := period_pos hp hs
  constructor
  · rintro ⟨q, hq', hi, hsc⟩
    obtain rfl : q = ⟨period, -((n + places freq : ℕ) : ℤ)⟩ := by
      have he := (hq' 19 le_rfl).symm.trans (hq 19 le_rfl)
      simpa using he
    by_contra hw
    have hlo : UINT_MAX / 10 < freq := by
      by_contra hc
      exact hw (.inl (Nat.le_of_not_lt hc))
    simp only [places, divisor, if_pos hlo] at hi hsc hp hr
    rw [inverts_iff h₀] at hi
    by_cases hf : freq % 10 = 0
    · have hbig : 10 ^ 9 < freq := by
        by_contra hc
        exact hw (.inr ⟨Nat.le_of_not_lt hc, hf⟩)
      exact not_scales_of_lt (period_lt_pow hbig (by omega) hp hpos) hsc
    · rcases Nat.lt_or_ge freq (10 ^ 9 + 10) with hlt | hge
      · have := period_too_long hlo hlt hf hp hr hs
        omega
      · exact not_scales_of_lt (period_lt_pow (by omega) (by omega) hp hpos) hsc
  · intro hw
    obtain ⟨hle, hlt⟩ := hw.period hp hr
    exact ⟨_, hq, (inverts_iff h₀).mpr ⟨hle, hlt⟩, scales_of_le (pow_le_period hw.le hpos hlt)⟩

/-- The clock of the board, at 54 MHz. -/
theorem timer_54MHz :
    ∃ q, (∀ fuel ≥ 19, invert_timer_freq fuel 54000000 = some (q, false)) ∧ Inverts 54000000 q ∧
      Scales q :=
  (timer_iff 54000000 (by decide) (by decide)).mpr (by decide)

/-- At 2 GHz the period is 5 with one digit to drop, and no ticks at all make it divide by zero. -/
theorem timer_2GHz : ¬ ∃ q, (∀ fuel ≥ 19, invert_timer_freq fuel 2000000000 = some (q, false)) ∧
    Inverts 2000000000 q ∧ Scales q := by
  rintro ⟨q, hq, -, hs⟩
  obtain rfl : ⟨5, -((10 : ℕ) : ℤ)⟩ = q := by
    have he : invert_timer_freq 19 2000000000 = some (⟨5, -((10 : ℕ) : ℤ)⟩, false) := by
      decide +kernel
    have he := he.symm.trans (hq 19 le_rfl)
    simpa using he
  exact not_scales_of_lt (by decide) hs

/-- One tick. -/
theorem timer_tick2ns_one {period n : ℕ} (hp : 10 ^ (n - 9) ≤ period) (hle : period ≤ UINT_MAX) :
    ∃ t > 0, timer_tick2ns ⟨period, -(n : ℤ)⟩ 1 = some t := by
  have hpower : (-9 - -(n : ℤ)).toNat = n - 9 := by omega
  have hneg : (-(-9 - -(n : ℤ))).toNat = 9 - n := by omega
  have hlt : period * 1 < 2 ^ 64 := by
    simp only [UINT_MAX] at hle
    omega
  simp only [timer_tick2ns, hpower, hneg, scaleDown_of_fits hp hlt, Nat.mul_one, Option.map_some]
  refine ⟨_, ?_, rfl⟩
  have hpos : 0 < period / 10 ^ (n - 9) := Nat.div_pos hp (by positivity)
  have hfits : period / 10 ^ (n - 9) * 10 ^ (9 - n) < 2 ^ 64 :=
    calc period / 10 ^ (n - 9) * 10 ^ (9 - n)
        ≤ UINT_MAX * 10 ^ 9 :=
          Nat.mul_le_mul ((Nat.div_le_self _ _).trans hle)
            (Nat.pow_le_pow_right (by decide) (Nat.sub_le _ _))
      _ < 2 ^ 64 := by decide
  rw [scaleUp_of_fits hfits]
  positivity

/-- At such a frequency a tick is at least a nanosecond, and `timer_ns2tick` divides by it. -/
theorem timer_ns2tick_eq {freq fuel : ℕ} {q : Qtime} (h₀ : 0 < freq) (h : freq ≤ UINT_MAX)
    (hw : Whole freq)
    (hfuel : 19 ≤ fuel) (hq : invert_timer_freq fuel freq = some (q, false)) (ns : ℕ) :
    ∃ t > 0, timer_tick2ns q 1 = some t ∧ timer_ns2tick q ns = some (ns / t) := by
  obtain ⟨n, period, rem, hq', hp, hr, hle, hs⟩ := invert_timer_freq_spec h₀ h
  obtain rfl : ⟨period, -((n + places freq : ℕ) : ℤ)⟩ = q := by
    have he := (hq' fuel hfuel).symm.trans hq
    simpa using he
  obtain ⟨-, hlt⟩ := hw.period hp hr
  obtain ⟨t, ht, he⟩ := timer_tick2ns_one (pow_le_period hw.le (period_pos hp hs) hlt) hle
  refine ⟨t, ht, he, ?_⟩
  rw [timer_ns2tick, he, Option.map_some, if_pos ht.ne']

end Startup.Timer
