import RpiBsp.I2c.Definitions
import RpiBsp.Support.Strto

/-!
# I2c — the timing of SCL

The options of the driver (`common_options.c`, `options.c`), and the counts for the high and the low
time of SCL that `dwc_i2c_init_registers` makes of the clock and the timings they leave.

* `init_registers_counts` — the four counts are in the registers when the controller is set up.
* `count_exact_iff` — the products between which a count is exact: none is when the product is too
  small for the offset that is taken from it, or too large for a word.
* `scl_counts_iff` — every command line: the counts are exact for the timings whose products are in
that range.
-/

namespace I2c

open Support Driver

/-! ### The options -/

def FS_THD_HIGH : ℕ := 600
def FS_THD_LOW : ℕ := 1300
def FS_SCL_FALL_TIME : ℕ := 300

def SS_THD_HIGH : ℕ := 4700
def SS_THD_LOW : ℕ := 4700
def SS_SCL_FALL_TIME : ℕ := 100

/-- `slogger2`'s number for errors. -/
def _SLOG_ERROR : ℕ := 2

/-- What the options set: the driver's data, and the fields of `dwc_dev_t` that no transfer uses. -/
structure Setup where
  dev : Dwc
  verbose : ℕ
  pbase : ℕ
  irq : BitVec 32

/-- `parse_scl_timing`; what follows the last number is not looked at. -/
def parse_scl_timing (popt : Text) : Option SclTiming :=
  let high := strtoul 0 popt
  if high.erange then none
  else match high.rest with
    | ':' :: popt =>
      let low := strtoul 0 popt
      if low.erange then none
      else match low.rest with
        | ':' :: popt =>
          let fall := strtoul 0 popt
          if fall.erange then none
          else some ⟨high.val % 2 ^ 32, low.val % 2 ^ 32, fall.val % 2 ^ 32⟩
        | _ => none
    | _ => none

/-- `dwc_i2c_handle_common_option`, without `DWC_SUPPORT_FIXED_SCL`; `none` is -1. -/
def dwc_i2c_handle_common_option (s : Setup) (opt : Char) (optarg : Text) : Option Setup :=
  match opt with
  | 'c' =>
      let v := strtoul 0 optarg
      if v.erange then none else some { s with dev.clock_khz := v.val % 2 ^ 32 / 1000 }
  | 'f' => (parse_scl_timing optarg).map fun t => { s with dev.fast := t }
  | 'h' =>
      let v := strtoul 0 optarg
      if v.erange then none else some { s with dev.sda_hold_time := v.val % 2 ^ 32 }
  | 's' => (parse_scl_timing optarg).map fun t => { s with dev.std := t }
  | 'v' => some { s with verbose := s.verbose + 1 }
  | _ => none

/-- What a call of `getopt` finds: an option of `c:f:h:Is:vp:q:`, one that is not (`-` or another),
one without its argument, or no option but an argument that does not begin with `-`, or one that
does. -/
inductive Found where
  | option (c : Char) (optarg : Text)
  | unknown (optopt : Char)
  | missing
  | operand
  | stop
deriving DecidableEq, Repr

/-- The body of the loop of `dwc_i2c_parseopts`. -/
def parseopt (s : Setup) : Found → Option Setup
  | .option 'p' optarg =>
      let v := strtoul 0 optarg
      if v.erange then none else some { s with pbase := v.val }
  | .option 'q' optarg =>
      let v := strtoul 0 optarg
      if v.erange then none else some { s with irq := BitVec.ofNat 32 v.val }
  | .unknown optopt => if optopt = '-' then some s else none
  | .operand => some s
  | .stop => none
  | .missing => none
  | .option c optarg => dwc_i2c_handle_common_option s c optarg

/-- `dwc_i2c_parseopts`, from what `getopt` finds up to the end of the arguments; `none` is -1. -/
def dwc_i2c_parseopts (s : Setup) (found : List Found) : Option Setup :=
  found.foldlM parseopt { s with
    dev.master_cfg := DW_IC_CON_MASTER ||| DW_IC_CON_SLAVE_DISABLE ||| DW_IC_CON_RESTART_EN |||
      DW_IC_CON_SPEED_STD ||| DW_IC_CON_7BITADDR_MASTER
    dev.scl_freq := 0
    dev.clock_khz := 0
    dev.sda_hold_time := 0
    dev.fast := ⟨FS_THD_HIGH, FS_THD_LOW, FS_SCL_FALL_TIME⟩
    dev.std := ⟨SS_THD_HIGH, SS_THD_LOW, SS_SCL_FALL_TIME⟩
    verbose := _SLOG_ERROR
    irq := -1#32 }

theorem common_option_scl_freq {s s' : Setup} {opt : Char} {optarg : Text}
    (h : dwc_i2c_handle_common_option s opt optarg = some s') :
      s'.dev.scl_freq = s.dev.scl_freq := by
  unfold dwc_i2c_handle_common_option at h
  split at h
  · obtain ⟨-, h⟩ := Option.ite_none_left_eq_some.mp h
    rw [← Option.some.inj h]
  · obtain ⟨t, -, rfl⟩ := Option.map_eq_some_iff.mp h
    rfl
  · obtain ⟨-, h⟩ := Option.ite_none_left_eq_some.mp h
    rw [← Option.some.inj h]
  · obtain ⟨t, -, rfl⟩ := Option.map_eq_some_iff.mp h
    rfl
  · rw [← Option.some.inj h]
  · exact nomatch h

theorem parseopt_scl_freq {s s' : Setup} {found : Found} (h : parseopt s found = some s') :
    s'.dev.scl_freq = s.dev.scl_freq := by
  unfold parseopt at h
  split at h
  · obtain ⟨-, h⟩ := Option.ite_none_left_eq_some.mp h
    rw [← Option.some.inj h]
  · obtain ⟨-, h⟩ := Option.ite_none_left_eq_some.mp h
    rw [← Option.some.inj h]
  · split at h
    · rw [← Option.some.inj h]
    · exact nomatch h
  · rw [← Option.some.inj h]
  · exact nomatch h
  · exact nomatch h
  · exact common_option_scl_freq h

/-- No option sets the speed. -/
theorem parseopts_scl_freq (s : Setup) (found : List Found) :
    ∀ s' ∈ dwc_i2c_parseopts s found, s'.dev.scl_freq = 0 := by
  have hrun : ∀ (found : List Found) (s s' : Setup), found.foldlM parseopt s = some s' →
      s'.dev.scl_freq = s.dev.scl_freq := by
    intro found
    induction found with
    | nil =>
        intro s s' h
        rw [Option.some.inj h]
    | cons f fs ih =>
        intro s s' h
        rw [List.foldlM_cons] at h
        obtain ⟨s₁, hstep, hrest⟩ := Option.bind_eq_some_iff.mp h
        exact (ih s₁ s' hrest).trans (parseopt_scl_freq hstep)
  intro s' h
  exact hrun found _ s' h

/-! ### The registers -/

/-- The clock that `dwc_i2c_init_registers` counts in. -/
def Dwc.ic_clk (dev : Dwc) : ℕ :=
  if dev.clock_khz = 0 then dwc_i2c_get_input_clock else dev.clock_khz

theorem Dwc.ic_clk_pos (dev : Dwc) : 0 < dev.ic_clk := by
  unfold ic_clk
  split
  · decide
  · exact Nat.pos_of_ne_zero ‹_›

/-- Registers that keep what was written to them; anything can be read. -/
def bank : Device (BitVec 32) Reg (Reg → Option (BitVec 32)) where
  read v _ h := (v, h)
  write _ r v h := Function.update h r (some v)

/-- The counts for the timings of `dev` are in the registers. -/
structure Counted (dev : Dwc) (g : Rig Dwc (Reg → Option (BitVec 32))) : Prop where
  ss_hcnt : g.hard .ss_scl_hcnt =
    some (BitVec.ofNat 32 (i2c_dw_scl_hcnt dev.ic_clk dev.std.high dev.std.fall))
  ss_lcnt : g.hard .ss_scl_lcnt =
    some (BitVec.ofNat 32 (i2c_dw_scl_lcnt dev.ic_clk dev.std.low dev.std.fall))
  fs_hcnt : g.hard .fs_scl_hcnt =
    some (BitVec.ofNat 32 (i2c_dw_scl_hcnt dev.ic_clk dev.fast.high dev.fast.fall))
  fs_lcnt : g.hard .fs_scl_lcnt =
    some (BitVec.ofNat 32 (i2c_dw_scl_lcnt dev.ic_clk dev.fast.low dev.fast.fall))

section Writes

open Prog (Triple Keeps)

variable {A : BitVec 32 → Prop} {dev : Dwc}

theorem counted_read (r : Reg) : Keeps A (Counted dev) (i2c_reg_read32 bank r) :=
  .bind (triple_read32 fun _ _ _ h => ⟨h.1, h.2, h.3, h.4⟩) fun _ =>
    .bind (triple_update fun _ h => ⟨h.1, h.2, h.3, h.4⟩) fun _ => .pure _

theorem counted_update (f : Dwc → Dwc) :
    Keeps A (Counted dev) (update f : I2cM (BitVec 32) (Reg → Option (BitVec 32)) PUnit) :=
  triple_update fun _ h => ⟨h.1, h.2, h.3, h.4⟩

/-- What is written to a register that is not one of the counts. -/
theorem counted_write {r : Reg}
    (hr : r ≠ .ss_scl_hcnt ∧ r ≠ .ss_scl_lcnt ∧ r ≠ .fs_scl_hcnt ∧ r ≠ .fs_scl_lcnt)
    (v : BitVec 32) :
    Keeps A (Counted dev) (i2c_reg_write32 bank r v) := by
  obtain ⟨hsh, hsl, hfh, hfl⟩ := hr
  refine .bind (triple_write32 fun _ g _ h => ?_) fun _ => counted_update _
  have hother : ∀ {q : Reg}, r ≠ q → Function.update g.hard r (some v) q = g.hard q := fun hq =>
    Function.update_of_ne hq.symm _ _
  exact ⟨(hother hsh).trans h.1, (hother hsl).trans h.2, (hother hfh).trans h.3,
    (hother hfl).trans h.4⟩

theorem counted_set_bus_speed (speed : ℕ) :
    Keeps A (Counted dev)
    (dwc_i2c_set_bus_speed speed : I2cM _ (Reg → Option (BitVec 32)) Bool) := by
  refine .bind (fun _ _ _ _ h => h) fun s => .ite (.pure _) (.ite ?_ (.ite ?_ (.pure _)))
  · exact .bind (counted_update _) fun _ => .pure _
  · exact .bind (counted_update _) fun _ => .pure _

theorem bank_write {r : Reg} {v : BitVec 32} {h : Reg → Option (BitVec 32)} :
    Triple A (fun g => g.hard = h) (i2c_reg_write32 bank r v) fun _ g =>
      g.hard = Function.update h r (some v) := by
  refine Triple.bind (Q := fun _ g => g.hard = Function.update h r (some v))
    (triple_write32 fun _ g _ hg => ?_) fun _ => ?_
  · exact congrArg (Function.update · r (some v)) hg
  · exact triple_update fun _ hg => hg

/-- **The counts** for the clock and the timings that the options left are in the registers when the
controller is set up. -/
theorem init_registers_counts :
    Triple A (fun g => g.soft = dev) (dwc_i2c_init_registers bank) fun _ => Counted dev := by
  refine Triple.at fun g hg => ?_
  subst hg
  refine Triple.bind (Q := fun _ g' => g'.soft = { g.soft with clock_khz := g.soft.ic_clk } ∧
    g'.hard = g.hard) (triple_update fun g' hg' => ?_) fun _ => ?_
  · subst hg'
    refine ⟨?_, rfl⟩
    unfold Dwc.ic_clk
    split
    · rfl
    · rfl
  refine triple_soft_bind fun s => Triple.at fun g₁ hg₁ => ?_
  obtain ⟨⟨hs, hh⟩, rfl⟩ := hg₁
  rw [hs]
  refine Triple.pre (P := fun g' => g'.hard = g.hard) ?_ fun g' hg' => hg' ▸ hh
  refine Triple.bind bank_write fun _ => Triple.bind bank_write fun _ => ?_
  refine Triple.bind bank_write fun _ => Triple.bind bank_write fun _ => ?_
  refine Triple.pre (P := Counted g.soft) ?_ fun g' hg' => ?_
  · refine .bind (counted_read _) fun version =>
      .bind (Keeps.ite (counted_write (by decide) _) (.pure _)) fun _ => ?_
    refine .bind (.bind (counted_read _) fun _ => .bind (counted_update _) fun _ =>
      .bind (counted_write (by decide) _) fun _ => counted_write (by decide) _) fun _ => ?_
    refine .bind (counted_set_bus_speed _) fun _ => .bind (counted_read _) fun _ => ?_
    exact counted_write (by decide) _
  · refine ⟨?_, ?_, ?_, ?_⟩
    all_goals
      rw [hg']
      rfl

end Writes

/-! ### One count -/

/-- A count for the time `t + tf` in nanoseconds, `off` below what the clock makes of it: no step of
it wraps, and it is at least that time, but for half a period of the clock. -/
structure Exact (ic_clk t tf off count : ℕ) : Prop where
  sum : t + tf < 2 ^ 32
  product : ic_clk * (t + tf) < 2 ^ 32
  rounded : ic_clk * (t + tf) + 500000 < 2 ^ 32
  difference : off ≤ (ic_clk * (t + tf) + 500000) / 1000000
  long : ic_clk * (t + tf) ≤ 1000000 * (count + off) + 500000

/-- The time is long enough for the offset, in periods of the clock, and its product with the clock
is a word. -/
def Countable (ic_clk t tf off : ℕ) : Prop :=
  1000000 * off ≤ ic_clk * (t + tf) + 500000 ∧ ic_clk * (t + tf) + 500000 < 2 ^ 32

variable {ic_clk t tf off : ℕ}

/-- A rounded product in words is the rounded product if it is a word. -/
theorem count_of_lt (hlt : ic_clk * (t + tf) + 500000 < 2 ^ 32)
    (hoff : off ≤ (ic_clk * (t + tf) + 500000) / 1000000) :
    subW 32 ((ic_clk * (t + tf) % 2 ^ 32 + 500000) % 2 ^ 32 / 1000000) off =
      (ic_clk * (t + tf) + 500000) / 1000000 - off := by
  have hprod : ic_clk * (t + tf) < 2 ^ 32 := Nat.lt_of_le_of_lt (Nat.le_add_right _ _) hlt
  rw [Nat.mod_eq_of_lt hprod, Nat.mod_eq_of_lt hlt]
  exact subW_of_le hoff (Nat.lt_of_le_of_lt (Nat.div_le_self _ _) hlt)

theorem count_exact_iff (hpos : 0 < ic_clk) :
    Exact ic_clk t tf off (subW 32 ((ic_clk * (t + tf) % 2 ^ 32 + 500000) % 2 ^ 32 / 1000000) off) ↔
      Countable ic_clk t tf off := by
  constructor
  · intro h
    have hdiff : off * 1000000 ≤ ic_clk * (t + tf) + 500000 :=
      (Nat.le_div_iff_mul_le (by decide)).mp h.difference
    exact ⟨by rwa [Nat.mul_comm], h.rounded⟩
  · rintro ⟨hmin, hmax⟩
    have hdiff : off ≤ (ic_clk * (t + tf) + 500000) / 1000000 :=
      (Nat.le_div_iff_mul_le (by decide)).mpr (by rwa [Nat.mul_comm])
    have hsum : t + tf ≤ ic_clk * (t + tf) := Nat.le_mul_of_pos_left _ hpos
    refine ⟨by omega, by omega, hmax, hdiff, ?_⟩
    rw [count_of_lt hmax hdiff, Nat.sub_add_cancel hdiff]
    have hround : ic_clk * (t + tf) + 500000 < 1000000 *
        ((ic_clk * (t + tf) + 500000) / 1000000 + 1) :=
      Nat.lt_mul_div_succ _ (by decide)
    omega

/-! ### Every command line -/

/-- Both counts for a timing are exact. -/
structure Dwc.ExactCounts (dev : Dwc) (t : SclTiming) : Prop where
  hcnt : Exact dev.ic_clk t.high t.fall 3 (i2c_dw_scl_hcnt dev.ic_clk t.high t.fall)
  lcnt : Exact dev.ic_clk t.low t.fall 1 (i2c_dw_scl_lcnt dev.ic_clk t.low t.fall)

/-- The high time is two periods and a half of the clock or more, the low time half a period or
more, and the products with the clock leave room in a word for the rounding. -/
structure Dwc.InRange (dev : Dwc) (t : SclTiming) : Prop where
  high : 2500000 ≤ dev.ic_clk * (t.high + t.fall)
  high_lt : dev.ic_clk * (t.high + t.fall) < 2 ^ 32 - 500000
  low : 500000 ≤ dev.ic_clk * (t.low + t.fall)
  low_lt : dev.ic_clk * (t.low + t.fall) < 2 ^ 32 - 500000

theorem Dwc.exactCounts_iff (dev : Dwc) (t : SclTiming) : dev.ExactCounts t ↔ dev.InRange t := by
  have hh : Exact dev.ic_clk t.high t.fall 3 (i2c_dw_scl_hcnt dev.ic_clk t.high t.fall) ↔ _ :=
    count_exact_iff dev.ic_clk_pos
  have hl : Exact dev.ic_clk t.low t.fall 1 (i2c_dw_scl_lcnt dev.ic_clk t.low t.fall) ↔ _ :=
    count_exact_iff dev.ic_clk_pos
  constructor
  · rintro ⟨h, l⟩
    obtain ⟨hmin, hmax⟩ := hh.mp h
    obtain ⟨lmin, lmax⟩ := hl.mp l
    exact ⟨by omega, by omega, by omega, by omega⟩
  · rintro ⟨hmin, hmax, lmin, lmax⟩
    exact ⟨hh.mpr ⟨by omega, by omega⟩, hl.mpr ⟨by omega, by omega⟩⟩

/-- **Every command line** that is accepted: the counts in the registers are those for its clock and
its timings, and they are exact for just the timings whose products with the clock are in range. -/
theorem scl_counts_iff (s : Setup) (found : List Found) :
    ∀ s' ∈ dwc_i2c_parseopts s found, ∀ (a : ℕ → BitVec 32) (hard : Reg → Option (BitVec 32)),
      Counted s'.dev ((dwc_i2c_init_registers bank).run a ⟨s'.dev, hard⟩).2 ∧
      (s'.dev.ExactCounts s'.dev.std ↔ s'.dev.InRange s'.dev.std) ∧
      (s'.dev.ExactCounts s'.dev.fast ↔ s'.dev.InRange s'.dev.fast) := by
  intro s' _ a hard
  have hcounted : Counted s'.dev ((dwc_i2c_init_registers bank).run a ⟨s'.dev, hard⟩).2 :=
    (init_registers_counts (A := fun _ => True)).run (fun _ => trivial) rfl
  exact ⟨hcounted, s'.dev.exactCounts_iff _, s'.dev.exactCounts_iff _⟩

/-- What `calloc` gives. -/
def zeroed : Setup where
  dev :=
    { slave_addr := 0, slave_addr_fmt := .bit7, fast := ⟨0, 0, 0⟩, std := ⟨0, 0, 0⟩, clock_khz := 0,
      scl_freq := 0
      sda_hold_time := 0, txbuf := fun _ => 0, txpos := 0, rxbuf := [], xlen := 0, txlen :=
        0, rxlen := 0, wrlen := 0
      rdlen := 0, stop := false, active_no_stop := false, restart := false, active_slave_addr := 0
      active_slave_addr_fmt := .bit7, master_cfg := 0, status := {}, abort_source :=
        0, fifo_depth := 0, seen := {} }
  verbose := 0
  pbase := 0
  irq := 0

/-- A timing of its own for the standard mode, at 100 MHz. -/
def tuned : List Found :=
  [.option 'c' "100000000".toList, .option 's' "4000:4700:300".toList, .operand]

theorem scl_counts_iff_tuned :
    ∃ s', dwc_i2c_parseopts zeroed tuned = some s' ∧ s'.dev.InRange s'.dev.std ∧
      ∀ (a : ℕ → BitVec 32) (hard : Reg → Option (BitVec 32)),
        Counted s'.dev ((dwc_i2c_init_registers bank).run a ⟨s'.dev, hard⟩).2 ∧
        (s'.dev.ExactCounts s'.dev.std ↔ s'.dev.InRange s'.dev.std) ∧
        (s'.dev.ExactCounts s'.dev.fast ↔ s'.dev.InRange s'.dev.fast) :=
  ⟨_, rfl, ⟨by decide, by decide, by decide, by decide⟩, scl_counts_iff zeroed tuned _ rfl⟩

/-- At 1 MHz the high time of the fast mode is less than a period, and its count wraps below zero.
At 1 GHz the product for the standard mode is no word, and its count is a tenth of what it is to
be. -/
theorem scl_counts_wrap :
    (∃ s', dwc_i2c_parseopts zeroed [.option 'c' "1000000".toList] = some s' ∧
      i2c_dw_scl_hcnt s'.dev.ic_clk s'.dev.fast.high s'.dev.fast.fall = 2 ^ 32 - 2 ∧
      ¬ s'.dev.ExactCounts s'.dev.fast) ∧
    (∃ s', dwc_i2c_parseopts zeroed [.option 'c' "1000000000".toList] = some s' ∧
      i2c_dw_scl_hcnt s'.dev.ic_clk s'.dev.std.high s'.dev.std.fall = 502 ∧
      ¬ s'.dev.ExactCounts s'.dev.std) := by
  refine ⟨⟨_, rfl, by decide, fun h => ?_⟩, ⟨_, rfl, by decide, fun h => ?_⟩⟩
  · exact absurd h.hcnt.difference (by decide)
  · exact absurd h.hcnt.product (by decide)

end I2c
