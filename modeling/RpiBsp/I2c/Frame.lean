import RpiBsp.I2c.Definitions

/-!
# I2c — frame

What the parts of the driver that move no data leave alone: most registers say nothing about a
transfer, and a reset of the controller changes only what it sets up again.

* `dwc_i2c_enable_stays`, `busy_stays` — switching the controller and waiting for the bus change
nothing.
* `dwc_i2c_reset_spec` — a reset leaves the transfer's data alone, and no continuation.
-/

namespace I2c

open Support Driver

variable {ρ H : Type} (D : Device ρ Reg H) {I : Dwc → Prop}

/-- The registers whose writes are seen. -/
def Reg.Plain (r : Reg) : Prop := r ≠ .data_cmd ∧ r ≠ .tar ∧ r ≠ .con ∧ r ≠ .soft_reset

instance (r : Reg) : Decidable r.Plain := inferInstanceAs (Decidable (_ ∧ _))

/-- Only the data register shows anything when it is read. -/
theorem seen_read {r : Reg} (hr : r ≠ .data_cmd) (v : BitVec 32) (w : Seen) : w.read r v = w := by
  cases r with
  | data_cmd => exact absurd rfl hr
  | _ => rfl

theorem seen_write {r : Reg} (hr : r.Plain) (v : BitVec 32) (w : Seen) : w.write r v = w := by
  obtain ⟨h₁, h₂, h₃, h₄⟩ := hr
  cases r with
  | data_cmd => exact absurd rfl h₁
  | tar => exact absurd rfl h₂
  | con => exact absurd rfl h₃
  | soft_reset => exact absurd rfl h₄
  | _ => rfl

/-- So reading another one keeps every invariant of the driver's data. -/
theorem reg_read_stays {r : Reg} (hr : r ≠ .data_cmd) : Stays I (i2c_reg_read32 D r) := by
  refine Stays.bind .read32 fun v => Stays.bind (.update fun s hs => ?_) fun _ => .pure v
  rw [seen_read hr]
  exact hs

theorem reg_write_stays {r : Reg} (hr : r.Plain) (v : BitVec 32) :
    Stays I (i2c_reg_write32 D r v) := by
  refine Stays.bind .write32 fun _ => .update fun s hs => ?_
  rw [seen_write hr]
  exact hs

/-- However often the controller is asked to switch, nothing is noted. -/
theorem enableLoop_stays (enable : BitVec 32) (n : ℕ) : Stays I (enableLoop D enable n) := by
  induction n with
  | zero => exact .pure false
  | succ n ih =>
      refine Stays.bind (reg_write_stays D (by decide) _) fun _ =>
        Stays.bind (reg_read_stays D (by decide)) fun v => ?_
      exact Stays.ite (.pure true) ih

theorem dwc_i2c_enable_stays (enable : BitVec 32) : Stays I (dwc_i2c_enable D enable) :=
  enableLoop_stays D enable 1001

theorem busyLoop_stays (n : ℕ) : Stays I (busyLoop D n) := by
  induction n with
  | zero => exact Stays.bind (reg_read_stays D (by decide)) fun v => .pure _
  | succ n ih =>
      refine Stays.bind (reg_read_stays D (by decide)) fun v => ?_
      exact Stays.ite (.pure true) ih

theorem busy_stays : Stays I (dwc_i2c_wait_bus_not_busy D) := busyLoop_stays D _

theorem maskOff_stays (bits : BitVec 32) : Stays I (maskOff D bits) :=
  Stays.bind (reg_read_stays D (by decide)) fun _ => reg_write_stays D (by decide) _

/-- Filling the FIFO notes what was sent, and goes on in the buffer. -/
theorem fillLoop_stays (hsent : ∀ s v, I s → I { s with seen := s.seen.write .data_cmd v })
    (hfilled : ∀ s : Dwc, I s → I { s with
      txpos := if s.wrlen < s.txlen then s.txpos + 1 else s.txpos, wrlen := s.wrlen + 1 }) (n : ℕ) :
    Stays I (fillLoop D n) := by
  induction n with
  | zero => exact .pure _
  | succ n ih =>
      refine Stays.bind .soft fun dev => Stays.ite ?_ ?_
      · refine Stays.ite (maskOff_stays D _) (Stays.bind (reg_read_stays D (by decide)) fun v => ?_)
        exact .doIf (maskOff_stays D _)
      · refine Stays.bind (Stays.bind (reg_read_stays D (by decide)) fun v => .pure _)
          fun full => ?_
        refine Stays.ite (.pure _)
          (Stays.bind (Stays.bind .write32 fun _ => .update fun s h => hsent s _ h) fun _ => ?_)
        exact Stays.bind (.update hfilled) fun _ => ih

/-! ### Setting up the controller -/

/-- The mode with the standard speed. -/
def standard (cfg : BitVec 32) : BitVec 32 :=
  cfg &&& ~~~DW_IC_CON_SPEED_MASK ||| DW_IC_CON_SPEED_STD

/-- Taking the standard speed twice is taking it once. -/
theorem standard_standard (cfg : BitVec 32) : standard (standard cfg) = standard cfg := by
  simp only [standard, BitVec.and_comm _ (~~~DW_IC_CON_SPEED_MASK), BitVec.and_or_distrib_left]
  rw [← BitVec.and_assoc, BitVec.and_self, BitVec.or_assoc,
    show ~~~DW_IC_CON_SPEED_MASK &&& DW_IC_CON_SPEED_STD ||| DW_IC_CON_SPEED_STD =
      DW_IC_CON_SPEED_STD by decide]

/-- From `s` to `s'` the speed is as it was, or the standard one. -/
def Slowed (s s' : Dwc) : Prop :=
  s'.scl_freq = s.scl_freq ∧ s'.master_cfg = s.master_cfg ∨
  s'.scl_freq = 100000 ∧ s'.master_cfg = standard s.master_cfg

theorem Slowed.refl (s : Dwc) : Slowed s s := .inl ⟨rfl, rfl⟩

/-- The speed is never taken back up. -/
theorem Slowed.trans {s t u : Dwc} (h₁ : Slowed s t) (h₂ : Slowed t u) : Slowed s u := by
  rcases h₂ with ⟨hf₂, hc₂⟩ | ⟨hf₂, hc₂⟩
  · rw [Slowed, hf₂, hc₂]
    exact h₁
  · refine .inr ⟨hf₂, ?_⟩
    rcases h₁ with ⟨-, hc₁⟩ | ⟨-, hc₁⟩
    · rw [hc₂, hc₁]
    · rw [hc₂, hc₁, standard_standard]

/-- The driver's data without what is set up for a controller. -/
def Dwc.core (s : Dwc) : Dwc := { s with
  clock_khz := 0, fifo_depth := 0, scl_freq := 0, master_cfg := 0, active_no_stop :=
    false, restart := false
  seen := {} }

/-- From `s` to `s'` a controller was set up. -/
structure SetUp (s s' : Dwc) : Prop where
  core : s'.core = s.core
  sent : s'.seen.sent = s.seen.sent
  got : s'.seen.got = s.seen.got
  speed : Slowed s s'

theorem SetUp.refl (s : Dwc) : SetUp s s := ⟨rfl, rfl, rfl, .refl s⟩

theorem SetUp.trans {s t u : Dwc} (h₁ : SetUp s t) (h₂ : SetUp t u) : SetUp s u :=
  ⟨h₂.core.trans h₁.core, h₂.sent.trans h₁.sent, h₂.got.trans h₁.got, h₁.speed.trans h₂.speed⟩

/-- The invariant allows what `dwc_i2c_init_registers` does to the driver's data. -/
structure Initable (I : Dwc → Prop) : Prop where
  clock : ∀ s c, I s → I { s with clock_khz := c }
  fifo : ∀ s d, I s → I { s with fifo_depth := d }
  speed : ∀ s, I s → s.scl_freq ≠ 100000 →
    I { s with scl_freq := 100000, master_cfg := standard s.master_cfg }

/-- Setting the thresholds notes the depth of the smaller FIFO. -/
theorem set_fifo_threshold_stays (hfifo : ∀ s d, I s → I { s with fifo_depth := d }) :
    Stays I (dwc_i2c_set_fifo_threshold D) := by
  refine Stays.bind (reg_read_stays D (by decide)) fun v => ?_
  refine Stays.bind (.update fun s hs => hfifo s _ hs) fun _ => ?_
  exact Stays.bind (reg_write_stays D (by decide) _) fun _ => reg_write_stays D (by decide) _

/-- The standard speed is set, unless it is set already. -/
theorem set_standard_speed_stays (hI : Initable I) :
    Stays I (dwc_i2c_set_bus_speed 100000 : I2cM ρ H Bool) := by
  refine Soft.soft_bind fun s hs => ?_
  refine Soft.ite (fun _ => Soft.pure ?_) fun hne => ?_
  · rintro s rfl
    exact hs
  · refine Soft.ite (fun _ => ?_) fun h => absurd rfl h
    refine Soft.bind (Q := fun _ => I) (Soft.update ?_) fun _ => Soft.pure fun _ h => h
    rintro s rfl
    exact hI.speed s hs fun h => hne h.symm

/-- The registers are set up in the state before, but for the clock and the depth of the FIFO; the
standard speed comes last. -/
theorem init_registers_spec {J : Dwc → Prop} (hclock : ∀ s c, I s → I { s with clock_khz := c })
    (hfifo : ∀ s d, I s → I { s with fifo_depth := d })
    (hspeed : Soft I (dwc_i2c_set_bus_speed 100000 : I2cM ρ H Bool) fun _ => J) :
    Soft I (dwc_i2c_init_registers D) fun _ => J := by
  refine Soft.bind (Q := fun _ => I) (Soft.update fun s hs => ?_) fun _ => ?_
  · split
    · exact hclock s _ hs
    · exact hs
  refine Soft.bind Stays.soft fun dev => ?_
  refine Soft.bind (reg_write_stays D (by decide) _) fun _ => ?_
  refine Soft.bind (reg_write_stays D (by decide) _) fun _ => ?_
  refine Soft.bind (reg_write_stays D (by decide) _) fun _ => ?_
  refine Soft.bind (reg_write_stays D (by decide) _) fun _ => ?_
  refine Soft.bind (reg_read_stays D (by decide)) fun version => ?_
  refine Soft.bind (Stays.doIf (reg_write_stays D (by decide) _)) fun _ => ?_
  refine Soft.bind (set_fifo_threshold_stays D hfifo) fun _ => ?_
  refine Soft.bind hspeed fun _ => ?_
  refine Soft.bind (reg_read_stays D (by decide)) fun _ => ?_
  exact reg_write_stays D (by decide) _

theorem init_registers_stays (hI : Initable I) : Stays I (dwc_i2c_init_registers D) :=
  init_registers_spec D hI.clock hI.fifo (set_standard_speed_stays hI)

/-- From `s` to `s'` the controller was reset. -/
structure WasReset (s s' : Dwc) : Prop extends SetUp s s' where
  no_continuation : s'.active_no_stop = false
  no_restart : s'.restart = false
  tar : s'.seen.tar = none
  con : s'.seen.con = none
  resets : s.seen.resets < s'.seen.resets

theorem SetUp.initable (s : Dwc) : Initable (SetUp s) where
  clock _ _ h := ⟨h.core, h.sent, h.got, h.speed⟩
  fifo _ _ h := ⟨h.core, h.sent, h.got, h.speed⟩
  speed s' h hne := by
    refine ⟨h.core, h.sent, h.got, .inr ⟨rfl, ?_⟩⟩
    rcases h.speed with ⟨_, hcfg⟩ | ⟨h100, _⟩
    · rw [← hcfg]
    · exact absurd h100 hne

/-- Setting up the registers may follow a reset. -/
theorem WasReset.initable (s : Dwc) : Initable (WasReset s) where
  clock s' c h := ⟨(SetUp.initable s).clock s' c h.toSetUp, h.no_continuation, h.no_restart, h.tar,
    h.con, h.resets⟩
  fifo s' d h := ⟨(SetUp.initable s).fifo s' d h.toSetUp, h.no_continuation, h.no_restart, h.tar,
    h.con, h.resets⟩
  speed s' h hne :=
    ⟨(SetUp.initable s).speed s' h.toSetUp hne, h.no_continuation, h.no_restart, h.tar, h.con,
      h.resets⟩

/-- The registers of the controller are cleared. -/
theorem soft_reset_spec (s₀ : Dwc) :
    Soft (fun s => SetUp s₀ s ∧ s.active_no_stop = false ∧ s.restart = false ∧
      s₀.seen.resets ≤ s.seen.resets)
      (i2c_reg_write32 D .soft_reset DW_IC_SOFT_RESET_ASSERTED) fun _ => WasReset s₀ := by
  refine Soft.bind (Stays.write32) fun _ => Soft.update ?_
  rintro s ⟨h, hcont, hrestart, hresets⟩
  exact ⟨⟨h.core, h.sent, h.got, h.speed⟩, hcont, hrestart, rfl, rfl, Nat.lt_succ_of_le hresets⟩

theorem soft_reset_released_stays (I : Dwc → Prop) :
    Stays I (i2c_reg_write32 D .soft_reset DW_IC_SOFT_RESET_NOT_ASSERTED) := by
  refine Stays.bind .write32 fun _ => .update fun s hs => ?_
  exact hs

/-- At least one round clears the registers; each one that fails is followed by another, or by
none. -/
theorem resetLoop_spec (s₀ : Dwc) (n : ℕ) :
    Soft (fun s => SetUp s₀ s ∧ s.active_no_stop = false ∧ s.restart = false ∧
      s₀.seen.resets ≤ s.seen.resets) (resetLoop D (n + 1)) fun _ => WasReset s₀ := by
  induction n with
  | zero =>
      refine Soft.bind (soft_reset_spec D s₀) fun _ => ?_
      refine Soft.bind (soft_reset_released_stays D _) fun _ => ?_
      refine Soft.bind (dwc_i2c_enable_stays D _) fun ok => ?_
      exact Stays.ite (init_registers_stays D (WasReset.initable s₀)) (.pure _)
  | succ n ih =>
      refine Soft.bind (soft_reset_spec D s₀) fun _ => ?_
      refine Soft.bind (soft_reset_released_stays D _) fun _ => ?_
      refine Soft.bind (dwc_i2c_enable_stays D _) fun ok => ?_
      refine Soft.ite (fun _ => init_registers_stays D (WasReset.initable s₀)) fun _ => ?_
      exact ih.pre fun s h => ⟨h.toSetUp, h.no_continuation, h.no_restart, Nat.le_of_lt h.resets⟩

/-- **A reset** leaves the transfer's data alone, and no continuation. -/
theorem dwc_i2c_reset_spec (s₀ : Dwc) :
    Soft (fun s => s = s₀) (dwc_i2c_reset D) fun _ => WasReset s₀ := by
  refine Soft.bind (reg_write_stays D (by decide) _) fun _ => ?_
  refine Soft.bind (Q := fun _ s => SetUp s₀ s ∧ s.active_no_stop = false ∧ s.restart = false ∧
    s₀.seen.resets ≤ s.seen.resets) (Soft.update ?_) fun _ => ?_
  · rintro s rfl
    exact ⟨⟨rfl, rfl, rfl, .inl ⟨rfl, rfl⟩⟩, rfl, rfl, Nat.le_refl _⟩
  refine Soft.bind (dwc_i2c_enable_stays D _) fun _ => ?_
  exact resetLoop_spec D s₀ 2

end I2c
