import Mathlib.Data.List.Induction
import RpiBsp.Spi.Definitions

/-!
# Spi — the configuration of a device

`dw_setcfg` and `dw_cfg` (`config.c`), and the transfers that use what they leave.  `dw_setcfg`
stores a request before it is checked.  A device keeps the rate that was computed last, and a
request for that rate is taken as it is.

* `dw_setcfg_cases` — what a call does, for every request.
* `dw_xfer_programs` — what a transfer writes to the two registers that say how words are sent.
* `config_run` — calls and transfers, in any order.
-/

namespace Spi

open Support Driver

/-! ### The code -/

def DW_SCK_DIV_MIN : ℕ := 0x2
def DW_SCK_DIV_MAX : ℕ := 0xffff

/-- The fields of `spi_dev_t`. -/
structure Dev where
  cfg : Cfg
  devno : ℕ
  current_clkrate : ℕ

/-- What `dw_cfg` returns. -/
inductive CfgStatus where
  | eok
  | einval
deriving DecidableEq, Repr

/-- The divisor for a rate. -/
def clockRateDiv (input_clk rate : ℕ) : ℕ :=
  max (min ((input_clk + rate - 1) % 2 ^ 64 / rate % 2 ^ 32) DW_SCK_DIV_MAX) DW_SCK_DIV_MIN

/-- `dw_cfg` from where it compares the rates; there is no result if it divides by zero. -/
def setClock (input_clk : ℕ) (dev : Dev) (rate : ℕ) : Option Dev :=
  if dev.current_clkrate ≠ rate then
    if rate = 0 then none
    else
      let best := input_clk / clockRateDiv input_clk rate % 2 ^ 32
      some { dev with cfg := { dev.cfg with clock_rate := best }, current_clkrate := best }
  else some { dev with cfg := { dev.cfg with clock_rate := rate } }

/-- `dw_cfg`. -/
def dw_cfg (cs_max : ℕ) (spi : DwSpi) (dev : Dev) : Option (CfgStatus × Dev) :=
  if cs_max ≤ dev.devno then some (.einval, dev)
  else if dev.cfg.nbits < 4 ∨ 32 < dev.cfg.nbits then some (.einval, dev)
  else if dev.cfg.clock_rate = 0 then some (.einval, dev)
  else
    let rate := if spi.input_clk / 2 < dev.cfg.clock_rate then spi.input_clk % 2 ^ 32
      else dev.cfg.clock_rate
    (setClock spi.input_clk dev rate).map fun dev => (.eok, dev)

/-- `dw_setcfg`. -/
def dw_setcfg (cs_max : ℕ) (spi : DwSpi) (dev : Dev) (cfg : Cfg) : Option (CfgStatus × Dev) :=
  dw_cfg cs_max spi { dev with cfg := cfg }

/-! ### One call -/

/-- The widths and rates that `dw_cfg` takes. -/
def Cfg.Supported (cfg : Cfg) : Prop := 4 ≤ cfg.nbits ∧ cfg.nbits ≤ 32 ∧ cfg.clock_rate ≠ 0

instance (cfg : Cfg) : Decidable cfg.Supported := inferInstanceAs (Decidable (_ ∧ _))

variable {cs_max : ℕ} {spi : DwSpi} {dev : Dev} {cfg : Cfg} {r : CfgStatus × Dev}

theorem setClock_devno {input_clk rate : ℕ} {dev' : Dev}
    (h : setClock input_clk dev rate = some dev') :
    dev'.devno = dev.devno := by
  unfold setClock at h
  split at h
  · obtain ⟨-, h⟩ := Option.ite_none_left_eq_some.mp h
    cases h
    rfl
  · cases h
    rfl

/-- What is accepted has a number that is in range and a supported configuration, and the number
stays. -/
theorem dw_cfg_eok {dev' : Dev} (h : dw_cfg cs_max spi dev = some (.eok, dev')) :
    dev.devno < cs_max ∧ dev.cfg.Supported ∧ dev'.devno = dev.devno := by
  unfold dw_cfg at h
  split at h
  · cases h
  · split at h
    · cases h
    · split at h
      · cases h
      · obtain ⟨d, hd, heq⟩ := Option.map_eq_some_iff.mp h
        cases heq
        exact ⟨Nat.not_le.mp ‹_›, ⟨by omega, by omega, ‹_›⟩, setClock_devno hd⟩

/-- A configuration that is not supported is rejected. -/
theorem dw_cfg_unsupported (hbad : ¬ dev.cfg.Supported) :
    dw_cfg cs_max spi dev = some (.einval, dev) := by
  unfold dw_cfg
  split
  · rfl
  · split
    · rfl
    · split
      · rfl
      · exact absurd ⟨by omega, by omega, ‹_›⟩ hbad

/-- A configuration that is supported is accepted, if the number is in range. -/
theorem dw_cfg_supported (hok : dev.cfg.Supported) (hdev : dev.devno < cs_max)
    (h : dw_cfg cs_max spi dev = some r) :
    r.1 = .eok := by
  obtain ⟨hlow, hhigh, hrate⟩ := hok
  unfold dw_cfg at h
  rw [if_neg (Nat.not_le.mpr hdev), if_neg (not_or.mpr ⟨Nat.not_lt.mpr hlow, Nat.not_lt.mpr hhigh⟩),
    if_neg hrate] at h
  obtain ⟨d, -, rfl⟩ := Option.map_eq_some_iff.mp h
  rfl

/-- **A call**: what is supported is accepted, and the number stays; what is not is rejected, and it
is what the device has from then on. -/
theorem dw_setcfg_cases (hdev : dev.devno < cs_max) (h : dw_setcfg cs_max spi dev cfg = some r) :
    cfg.Supported ∧ r.1 = .eok ∧ r.2.devno = dev.devno ∨
      ¬ cfg.Supported ∧ r = (.einval, { dev with cfg := cfg }) := by
  by_cases hok : cfg.Supported
  · have heok : r.1 = .eok := @dw_cfg_supported cs_max spi { dev with cfg := cfg } r hok hdev h
    have hr : dw_cfg cs_max spi { dev with cfg := cfg } = some (.eok, r.2) := by
      rw [← heok]
      exact h
    exact .inl ⟨hok, heok, (dw_cfg_eok hr).2.2⟩
  · have hrej : dw_setcfg cs_max spi dev cfg = some (.einval, { dev with cfg := cfg }) :=
      dw_cfg_unsupported hok
    exact .inr ⟨hok, Option.some.inj (h.symm.trans hrej)⟩

/-- Only the number and the rate of before matter. -/
theorem dw_setcfg_congr {dev' : Dev} (hno : dev.devno = dev'.devno)
    (hrate : dev.current_clkrate = dev'.current_clkrate)
    (cfg : Cfg) : dw_setcfg cs_max spi dev cfg = dw_setcfg cs_max spi dev' cfg := by
  unfold dw_setcfg
  rw [hno, hrate]

/-! ### What a transfer programs -/

section Programs

open Prog (Triple Keeps)

variable {ρ H : Type} (D : Device ρ Reg H)

/-- A device beside what was last written to each register. -/
def recorded : Device ρ Reg (H × (Reg → Option (BitVec 32))) where
  read x r h := ((D.read x r h.1).1, (D.read x r h.1).2, h.2)
  write x r v h := (D.write x r v h.1, Function.update h.2 r (some v))

/-- What `CTRLR0` is to be, but for the bit that depends on the version. -/
def Cfg.ctrlr0 (cfg : Cfg) (spi : DwSpi) : BitVec 32 :=
  modeBits cfg { spi with dlen := if cfg.bytes = 3 then 4 else cfg.bytes }

/-- The clock and the mode of a configuration are in the registers, and its word width in the
driver's data. -/
structure Programmed (cfg : Cfg) (spi : DwSpi)
    (g : Rig DwSpi (H × (Reg → Option (BitVec 32)))) : Prop where
  baudr : g.hard.2 .baudr = some (BitVec.ofNat 32 (spi.input_clk / cfg.clock_rate))
  ctrlr0 : g.hard.2 .ctrlr0 = some (cfg.ctrlr0 spi) ∨
    g.hard.2 .ctrlr0 = some (cfg.ctrlr0 spi ||| DW_SPI_CTRLR0_IS_MST)
  dscale : g.soft.dscale = dscales cfg.bytes

variable {D} {cfg : Cfg} {spi : DwSpi} {A : ρ → Prop}

theorem keeps_write32 {r : Reg} (hb : r ≠ .baudr) (hc : r ≠ .ctrlr0) (v : BitVec 32) :
    Keeps A (Programmed cfg spi) (write32 (recorded D) r v) := by
  refine triple_write32 fun _ g _ h => ?_
  have hbaudr : Function.update g.hard.2 r (some v) .baudr = g.hard.2 .baudr :=
    Function.update_of_ne hb.symm _ _
  have hctrlr0 : Function.update g.hard.2 r (some v) .ctrlr0 = g.hard.2 .ctrlr0 :=
    Function.update_of_ne hc.symm _ _
  exact ⟨hbaudr.trans h.baudr, h.ctrlr0.imp hctrlr0.trans hctrlr0.trans, h.dscale⟩

theorem keeps_read32 (r : Reg) : Keeps A (Programmed cfg spi) (read32 (recorded D) r) :=
  triple_read32 fun _ _ _ h => ⟨h.baudr, h.ctrlr0, h.dscale⟩

theorem keeps_update {f : DwSpi → DwSpi} (hf : ∀ s, (f s).dscale = s.dscale) :
    Keeps A (Programmed cfg spi) (update f : SpiM ρ (H × (Reg → Option (BitVec 32))) PUnit) :=
  triple_update fun g h => ⟨h.baudr, h.ctrlr0, (hf g.soft).trans h.dscale⟩

theorem keeps_soft :
    Keeps A (Programmed cfg spi) (soft : SpiM ρ (H × (Reg → Option (BitVec 32))) DwSpi) :=
  fun _ _ _ _ h => h

theorem keeps_doIf {c : Prop} [Decidable c] {m : SpiM ρ (H × (Reg → Option (BitVec 32))) PUnit}
    (hm : Keeps A (Programmed cfg spi) m) : Keeps A (Programmed cfg spi) (doIf c m) :=
  Keeps.ite hm (.pure _)

theorem keeps_enable (v : BitVec 32) :
    Keeps A (Programmed cfg spi) (dw_spi_enable (recorded D) v) :=
  keeps_write32 (by decide) (by decide) v

theorem keeps_select_slave (slv : ℕ) :
    Keeps A (Programmed cfg spi) (dw_spi_select_slave (recorded D) slv) :=
  .bind (.bind (keeps_read32 _) fun _ => .pure _) fun _ =>
    keeps_doIf (keeps_write32 (by decide) (by decide) _)

theorem keeps_writeWords (len : ℕ) :
    ∀ i, Keeps A (Programmed cfg spi) (writeWords (recorded D) len i) := by
  induction len with
  | zero => exact fun _ => .pure _
  | succ len ih =>
      exact fun i => .bind keeps_soft fun _ =>
        .bind (keeps_write32 (by decide) (by decide) _) fun _ => ih (i + 1)

theorem keeps_write_fifo (len : ℕ) :
    Keeps A (Programmed cfg spi) (dw_write_fifo (recorded D) len) :=
  .bind keeps_soft fun _ => keeps_doIf (keeps_writeWords len _)

theorem keeps_readWords (len : ℕ) :
    ∀ i, Keeps A (Programmed cfg spi) (readWords (recorded D) len i) := by
  induction len with
  | zero => exact fun _ => .pure _
  | succ len ih =>
      exact fun i => .bind (keeps_read32 _) fun _ => .bind (keeps_update fun _ => rfl) fun _ =>
        ih (i + 1)

theorem keeps_read_fifo (len : ℕ) : Keeps A (Programmed cfg spi) (dw_read_fifo (recorded D) len) :=
  .bind keeps_soft fun _ => keeps_doIf (keeps_readWords len _)

theorem keeps_shutDown : Keeps A (Programmed cfg spi) (shutDown (recorded D)) :=
  .bind (keeps_enable _) fun _ => keeps_write32 (by decide) (by decide) _

theorem keeps_refill (len : ℕ) : Keeps A (Programmed cfg spi) (refill (recorded D) len) :=
  .bind keeps_soft fun _ =>
    keeps_doIf (.bind (keeps_write_fifo _) fun _ => keeps_update fun _ => rfl)

theorem keeps_lastWords : Keeps A (Programmed cfg spi) (lastWords (recorded D)) :=
  .bind keeps_soft fun _ => keeps_doIf (.bind (keeps_read32 _) fun _ =>
    .bind (keeps_write32 (by decide) (by decide) _) fun _ =>
      keeps_write32 (by decide) (by decide) _)

theorem keeps_process_interrupts :
    Keeps A (Programmed cfg spi) (dw_process_interrupts (recorded D)) := by
  refine .bind (keeps_read32 _) fun _ => .ite (.bind keeps_shutDown fun _ => .pure _) ?_
  refine .ite (.bind keeps_shutDown fun _ => .pure _) ?_
  refine .bind (keeps_read32 _) fun len => .bind (keeps_read_fifo _) fun _ => ?_
  refine .bind (keeps_update fun _ => rfl) fun _ => .bind keeps_soft fun _ => ?_
  exact .ite (.bind keeps_shutDown fun _ => .pure _)
    (.bind (keeps_refill _) fun _ => .bind keeps_lastWords fun _ => .pure _)

theorem keeps_calls (rounds : ℕ) : Keeps A (Programmed cfg spi) (calls (recorded D) rounds) := by
  induction rounds with
  | zero => exact .pure _
  | succ rounds ih => exact .bind keeps_process_interrupts fun _ => .ite ih (.pure _)

theorem keeps_wait (rounds : ℕ) : Keeps A (Programmed cfg spi) (dw_wait (recorded D) rounds) := by
  refine .bind (keeps_calls rounds) fun status => ?_
  cases status with
  | done => exact .pure _
  | «continue» => exact .pure _
  | err => exact .pure _

theorem keeps_prefill (devno : ℕ) : Keeps A (Programmed cfg spi) (prefill (recorded D) devno) := by
  refine .bind (keeps_write32 (by decide) (by decide) _) fun _ => ?_
  refine .bind (.bind (keeps_enable _) fun _ => keeps_enable _) fun _ => ?_
  refine .bind keeps_soft fun _ => .bind (keeps_write_fifo _) fun _ => ?_
  refine .bind (keeps_update fun _ => rfl) fun _ => .bind keeps_soft fun _ => .ite ?_ ?_
  · exact .bind (keeps_write32 (by decide) (by decide) _) fun _ =>
      .bind (keeps_write32 (by decide) (by decide) _) fun _ =>
      .bind (keeps_write32 (by decide) (by decide) _) fun _ => keeps_select_slave devno
  · exact .bind (keeps_write32 (by decide) (by decide) _) fun _ =>
      .bind (keeps_write32 (by decide) (by decide) _) fun _ =>
      keeps_select_slave devno

/-- The driver's data that a transfer does not change. -/
structure Alike (spi s : DwSpi) : Prop where
  input_clk : s.input_clk = spi.input_clk
  loopback : s.loopback = spi.loopback
  sste : s.sste = spi.sste

theorem modeBits_eq_ctrlr0 {s : DwSpi} (h : Alike spi s)
    (hdlen : s.dlen = if cfg.bytes = 3 then 4 else cfg.bytes) :
    modeBits cfg s = cfg.ctrlr0 spi := by
  unfold Cfg.ctrlr0 modeBits
  rw [hdlen, h.loopback, h.sste]

theorem prepare_programs (tnbytes rnbytes : ℕ) :
    Triple A (fun g => Alike spi g.soft) (dw_prepare_for_transfer (recorded D) cfg tnbytes rnbytes)
      fun ok g => ok = true → Programmed cfg spi g := by
  have hfail : ∀ P : Rig DwSpi (H × (Reg → Option (BitVec 32))) → Prop,
      Triple A P (pure false : SpiM ρ (H × (Reg → Option (BitVec 32))) Bool) fun ok g =>
        ok = true → Programmed cfg spi g :=
    fun P => Triple.pure fun g _ h => (nomatch h)
  -- what is set by the time the length is known, and then with the control word as well
  let Sized : DwSpi → Prop := fun s =>
    Alike spi s ∧ s.dlen = (if cfg.bytes = 3 then 4 else cfg.bytes) ∧ s.dscale = dscales cfg.bytes
  let Made : DwSpi → Prop := fun s =>
    Alike spi s ∧ s.dscale = dscales cfg.bytes ∧
      (s.cr0 = cfg.ctrlr0 spi ∨ s.cr0 = cfg.ctrlr0 spi ||| DW_SPI_CTRLR0_IS_MST)
  refine Triple.ite (fun _ => hfail _) fun _ => ?_
  refine Triple.bind (Q := fun _ g => Alike spi g.soft) (triple_write32 fun _ g _ hg => hg)
    fun _ => ?_
  refine Triple.bind (Q := fun _ g => Sized g.soft) (triple_update fun g hg =>
    ⟨⟨hg.1, hg.2, hg.3⟩, rfl, rfl⟩) fun _ => ?_
  refine triple_soft_bind fun s => Triple.ite (fun _ => hfail _) fun _ =>
    Triple.ite (fun _ => hfail _) fun _ => ?_
  refine Triple.pre (P := fun g => Sized g.soft) ?_ fun g hg => hg.1
  refine Triple.bind (Q := fun _ g => Alike spi g.soft ∧ g.soft.dscale = dscales cfg.bytes ∧
    g.soft.cr0 = cfg.ctrlr0 spi)
    (triple_update fun g hg => ⟨⟨hg.1.1, hg.1.2, hg.1.3⟩, hg.2.2, modeBits_eq_ctrlr0 hg.1 hg.2.1⟩)
      fun _ => ?_
  refine Triple.bind (Q := fun _ g => Alike spi g.soft ∧ g.soft.dscale = dscales cfg.bytes ∧
    g.soft.cr0 = cfg.ctrlr0 spi) (triple_read32 fun _ g _ hg => hg) fun version => ?_
  refine Triple.bind (Q := fun _ g => Made g.soft) (triple_update fun g hg =>
    ⟨⟨hg.1.1, hg.1.2, hg.1.3⟩, hg.2.1, ?_⟩) fun _ => ?_
  · dsimp only
    rw [hg.2.2]
    split
    · exact .inr rfl
    · exact .inl rfl
  refine triple_soft_bind fun s => Triple.at fun g hg => ?_
  obtain ⟨⟨hlike, hscale, hcr0⟩, rfl⟩ := hg
  refine Triple.bind (Q := fun _ g' => g'.soft.dscale = dscales cfg.bytes ∧
      g'.hard.2 .baudr = some (BitVec.ofNat 32 (spi.input_clk / cfg.clock_rate)))
    (triple_write32 fun _ g' _ hg' => ⟨hg' ▸ hscale, ?_⟩) fun _ => ?_
  · have hset : ∀ v, Function.update g'.hard.2 Reg.baudr (some v) .baudr = some v :=
      fun v => Function.update_self _ _ _
    rw [← hlike.input_clk]
    exact hset _
  refine Triple.bind (Q := fun _ => Programmed cfg spi) (triple_write32 fun _ g' _ hg' =>
    ⟨?_, ?_, hg'.1⟩) fun _ => ?_
  · have hother : Function.update g'.hard.2 Reg.ctrlr0 (some g.soft.cr0) .baudr =
        g'.hard.2 .baudr :=
      Function.update_of_ne (by decide) _ _
    exact hother.trans hg'.2
  · have hnew : Function.update g'.hard.2 Reg.ctrlr0 (some g.soft.cr0) .ctrlr0 = some g.soft.cr0 :=
      Function.update_self _ _ _
    exact hcr0.imp (fun h => hnew.trans (congrArg some h)) fun h => hnew.trans (congrArg some h)
  refine Triple.bind (keeps_write32 (by decide) (by decide) _) fun _ => ?_
  exact Triple.bind (keeps_update fun _ => rfl) fun _ => Triple.pure fun g hg _ => hg

/-- **A transfer** that is not refused has the clock and the mode of its configuration in the
registers, to the end. -/
theorem dw_xfer_programs (rounds devno : ℕ) (buf : ℕ → UInt8) (tnbytes rnbytes : ℕ) :
    Triple A (fun g => g.soft = spi) (dw_xfer (recorded D) rounds cfg devno buf tnbytes rnbytes)
      fun status g => status ≠ .ebusy → status ≠ .einval → Programmed cfg spi g := by
  refine Triple.bind (Q := fun early g =>
    early = some .ebusy ∨ early = some .einval ∨ early = none ∧ Programmed cfg spi g) ?_
      fun early => ?_
  · refine Triple.bind (Q := fun _ g => g.soft = spi) ?_ fun busy => ?_
    · exact Triple.bind (Q := fun _ g => g.soft = spi) (triple_read32 fun _ g _ hg => hg) fun _ =>
        Triple.pure fun _ hg => hg
    refine Triple.ite (fun _ => Triple.pure fun _ _ => .inl rfl) fun _ => ?_
    refine Triple.bind (Q := fun _ g => Alike spi g.soft) (triple_update fun g hg =>
      hg ▸ ⟨rfl, rfl, rfl⟩) fun _ => ?_
    refine Triple.bind (prepare_programs tnbytes rnbytes) fun ok => ?_
    refine Triple.ite (fun _ => Triple.pure fun _ _ => .inr (.inl rfl)) fun hok => ?_
    refine Triple.pre (P := Programmed cfg spi) ?_ fun g hg => hg (Bool.eq_true_of_not_eq_false hok)
    exact Triple.bind (keeps_prefill devno) fun _ => Triple.pure fun _ hg => .inr (.inr ⟨rfl, hg⟩)
  · cases early with
    | some status =>
        refine Triple.pure fun g hg hbusy hinval => ?_
        rcases hg with h | h | h
        · exact absurd (Option.some.inj h) hbusy
        · exact absurd (Option.some.inj h) hinval
        · cases h.1
    | none =>
        refine Triple.pre (P := Programmed cfg spi) ?_ fun g hg => ?_
        · exact Triple.bind (keeps_wait rounds) fun _ => Triple.bind (keeps_enable _) fun _ =>
            Triple.pure fun _ hg _ _ => hg
        · rcases hg with h | h | h
          · cases h
          · cases h
          · exact h.2

/-- A transfer with a configuration that is not supported is refused. -/
theorem dw_xfer_unsupported (hbad : ¬ cfg.Supported) (rounds devno : ℕ) (buf : ℕ → UInt8)
    (tnbytes rnbytes : ℕ) (a : ℕ → ρ) (g : Rig DwSpi H) (n : ℕ) :
    (dw_xfer D rounds cfg devno buf tnbytes rnbytes a (g, n)).1 = .ebusy ∨
      (dw_xfer D rounds cfg devno buf tnbytes rnbytes a (g, n)).1 = .einval := by
  have hprep : Soft (fun _ => True) (dw_prepare_for_transfer D cfg tnbytes rnbytes) fun ok _ =>
      ok = false := by
    refine Soft.ite (fun _ => Soft.pure fun _ _ => rfl) fun hwidth => ?_
    refine Soft.bind (Q := fun _ _ => True) (Soft.write32 fun _ h => h) fun _ => ?_
    refine Soft.bind (Q := fun _ _ => True) (Soft.update fun _ h => h) fun _ =>
      Soft.soft_bind fun _ _ => ?_
    refine Soft.ite (fun _ => Soft.pure fun _ _ => rfl) fun _ =>
      Soft.ite (fun _ => Soft.pure fun _ _ => rfl) fun hrate => ?_
    unfold SPI_MIN_WORD_WIDTH SPI_MAX_WORD_WIDTH at hwidth
    exact absurd ⟨by omega, by omega, hrate⟩ hbad
  have hbegin : Soft (fun _ => True) (begin D cfg devno buf tnbytes rnbytes) fun early _ =>
      early = some .ebusy ∨ early = some .einval := by
    refine Soft.bind (Q := fun _ _ => True) (fun _ _ _ _ => trivial) fun busy => ?_
    refine Soft.ite (fun _ => Soft.pure fun _ _ => .inl rfl) fun _ => ?_
    refine Soft.bind (Q := fun _ _ => True) (Soft.update fun _ h => h) fun _ =>
      Soft.bind hprep fun ok => ?_
    exact Soft.ite (fun _ => Soft.pure fun _ _ => .inr rfl) fun hok => fun _ _ _ h => absurd h hok
  have hxfer : Soft (fun _ => True) (dw_xfer D rounds cfg devno buf tnbytes rnbytes) fun status _ =>
      status = .ebusy ∨ status = .einval := by
    refine Soft.bind hbegin fun early => ?_
    cases early with
    | some status => exact Soft.pure fun _ h => h.imp Option.some.inj Option.some.inj
    | none => exact fun _ _ _ h => h.elim (fun h => nomatch h) fun h => nomatch h
  exact hxfer a g n trivial

end Programs

/-! ### Runs -/

section Runs

variable {ρ H : Type}

/-- A device and its controller.  `accepted` is not part of the code: it is the device as the last
call that returned `EOK` left it. -/
structure Sys (H : Type) where
  dev : Dev
  accepted : Dev
  rig : Rig DwSpi H
  /-- The accesses so far. -/
  asked : ℕ

inductive Op where
  | setcfg (cfg : Cfg)
  | xfer (rounds : ℕ) (buf : ℕ → UInt8) (tnbytes rnbytes : ℕ)

/-- One call; there is no state after a division by zero. -/
def Sys.step (D : Device ρ Reg H) (cs_max : ℕ) (a : ℕ → ρ) (s : Sys H) : Op → Option (Sys H)
  | .setcfg cfg => (dw_setcfg cs_max s.rig.soft s.dev cfg).map fun r =>
      { s with dev := r.2, accepted := if r.1 = .eok then r.2 else s.accepted }
  | .xfer rounds buf tnbytes rnbytes =>
      let r := dw_xfer D rounds s.dev.cfg s.dev.devno buf tnbytes rnbytes a (s.rig, s.asked)
      some { s with rig := r.2.1, asked := r.2.2 }

def Sys.run (D : Device ρ Reg H) (cs_max : ℕ) (a : ℕ → ρ) (s : Sys H) (ops : List Op) :
    Option (Sys H) :=
  ops.foldlM (Sys.step D cs_max a) s

/-- The configuration that was asked for last, after `l`. -/
def Op.asks (l : Option Cfg) : Op → Option Cfg
  | .setcfg cfg => some cfg
  | .xfer .. => l

def latest (ops : List Op) : Option Cfg := ops.foldl Op.asks none

/-- The device and what was accepted last: they differ in the configuration only, and only by a
request that is not supported. -/
structure Inv (cs_max : ℕ) (l : Option Cfg) (s : Sys H) : Prop where
  devno : s.dev.devno = s.accepted.devno
  inRange : s.dev.devno < cs_max
  rate : s.dev.current_clkrate = s.accepted.current_clkrate
  same : (∀ cfg, l = some cfg → cfg.Supported) → s.dev = s.accepted
  stored : ∀ cfg, l = some cfg → ¬ cfg.Supported → s.dev.cfg = cfg

variable {D : Device ρ Reg H} {cs_max : ℕ} {a : ℕ → ρ} {s s' : Sys H} {l : Option Cfg}

theorem Inv.step (h : Inv cs_max l s) (op : Op) (hstep : s.step D cs_max a op = some s') :
    Inv cs_max (op.asks l) s' := by
  cases op with
  | setcfg cfg =>
      obtain ⟨r, hr, rfl⟩ := Option.map_eq_some_iff.mp hstep
      rcases dw_setcfg_cases h.inRange hr with ⟨hok, heok, hno⟩ | ⟨hbad, rfl⟩
      · rw [if_pos heok]
        exact ⟨rfl, hno ▸ h.inRange, rfl, fun _ => rfl, fun c hc hn =>
          absurd (Option.some.inj hc ▸ hok) hn⟩
      · exact ⟨h.devno, h.inRange, h.rate, fun hall => absurd (hall cfg rfl) hbad, fun c hc _ =>
          Option.some.inj hc⟩
  | xfer rounds buf tnbytes rnbytes =>
      obtain rfl := Option.some.inj hstep
      exact ⟨h.devno, h.inRange, h.rate, h.same, h.stored⟩

theorem Inv.run (h : Inv cs_max none s) (ops : List Op) :
    ∀ {s'}, s.run D cs_max a ops = some s' → Inv cs_max (latest ops) s' := by
  induction ops using List.reverseRecOn with
  | nil =>
      intro s' hrun
      obtain rfl := Option.some.inj hrun
      exact h
  | append_singleton ops op ih =>
      intro s' hrun
      rw [Sys.run, List.foldlM_append] at hrun
      obtain ⟨t, ht, hstep⟩ := Option.bind_eq_some_iff.mp hrun
      rw [List.foldlM_cons] at hstep
      obtain ⟨t', ht', hnil⟩ := Option.bind_eq_some_iff.mp hstep
      obtain rfl := Option.some.inj hnil
      rw [latest, List.foldl_append]
      exact (ih ht).step op ht'

/-- **Calls and transfers, in any order**: a later call does the same as if no call had been
rejected.  As long as the last request is one that is supported, the device is as the last accepted
call left it, and a transfer that is not refused programs that configuration.  Otherwise every
transfer is refused. -/
theorem config_run {D : Device ρ Reg H} {g : Rig DwSpi (H × (Reg → Option (BitVec 32)))}
    {dev₀ dev : Dev} {spi : DwSpi}
    (hstart : dw_cfg cs_max spi dev₀ = some (.eok, dev)) (ops : List Op)
    {s : Sys (H × (Reg → Option (BitVec 32)))}
    (hrun : Sys.run (recorded D) cs_max a ⟨dev, dev, g, 0⟩ ops = some s) :
    (∀ spi cfg, dw_setcfg cs_max spi s.dev cfg = dw_setcfg cs_max spi s.accepted cfg) ∧
    ((∀ cfg, latest ops = some cfg → cfg.Supported) → s.dev = s.accepted ∧
      ∀ rounds buf tnbytes rnbytes,
      let r := dw_xfer (recorded D) rounds s.dev.cfg s.dev.devno buf tnbytes rnbytes a
        (s.rig, s.asked)
      r.1 ≠ .ebusy → r.1 ≠ .einval → Programmed s.accepted.cfg s.rig.soft r.2.1) ∧
    (∀ cfg, latest ops = some cfg → ¬ cfg.Supported → ∀ rounds buf tnbytes rnbytes,
      let r := dw_xfer (recorded D) rounds s.dev.cfg s.dev.devno buf tnbytes rnbytes a
        (s.rig, s.asked)
      r.1 = .ebusy ∨ r.1 = .einval) := by
  obtain ⟨hlt, -, hno⟩ := dw_cfg_eok hstart
  have hinit : Inv cs_max none (⟨dev, dev, g, 0⟩ : Sys (H × (Reg → Option (BitVec 32)))) :=
    ⟨rfl, hno ▸ hlt, rfl, fun _ => rfl, fun _ h => (nomatch h)⟩
  have hinv := hinit.run ops hrun
  refine ⟨fun _ cfg => dw_setcfg_congr hinv.devno hinv.rate cfg, fun hall =>
    ?_, fun cfg hlast hbad => ?_⟩
  · have hsame : s.dev = s.accepted := hinv.same hall
    refine ⟨hsame, fun rounds buf tnbytes rnbytes hbusy hinval => ?_⟩
    rw [← hsame]
    exact dw_xfer_programs (A := fun _ => True) rounds s.dev.devno buf tnbytes rnbytes a
      (fun _ => trivial) s.rig s.asked rfl hbusy hinval
  · intro rounds buf tnbytes rnbytes
    have hcfg : ¬ s.dev.cfg.Supported := (hinv.stored cfg hlast hbad).symm ▸ hbad
    exact dw_xfer_unsupported hcfg rounds s.dev.devno buf tnbytes rnbytes a s.rig s.asked

/-- A controller that always has one word. -/
def echo : Device Unit Reg Unit := ⟨fun _ r h => (if r = .rxflr then 1 else 0, h), fun _ _ _ h => h⟩

/-- A controller with a clock of 50 MHz, before its first transfer. -/
def fresh : Rig DwSpi (Unit × (Reg → Option (BitVec 32))) where
  soft :=
    { pbuf := fun _ => 0, xlen := 0, tlen := 0, rlen := 0, dlen := 1, dscale := 0,
      cr0 := 0, loopback := false
      sste := false, input_clk := 50000000, fifo_len := 2, counts := [] }
  hard := ((), fun _ => none)

/-- Words of eight bits at 1 MHz, as they are accepted. -/
def byteDev : Dev := ⟨⟨8, false, false, 1000000⟩, 0, 1000000⟩

theorem byteDev_accepted : dw_cfg 1 fresh.soft byteDev = some (.eok, byteDev) := rfl

/-- A request for words of three bits, which is rejected, and one for words of sixteen bits, in
another mode and at another rate, each of them with a transfer. -/
def widened : List Op :=
  [.setcfg ⟨3, false, false, 1000000⟩, .xfer 1 (fun _ => 7) 1 1, .setcfg ⟨16, true, false, 400000⟩,
    .xfer 1 (fun _ => 7) 2 2]

/-- The next transfer programs the words of sixteen bits. -/
theorem config_run_widened :
    (dw_setcfg 1 fresh.soft byteDev ⟨3, false, false, 1000000⟩).map (·.1) = some .einval ∧
    ∃ s, Sys.run (recorded echo) 1 (fun _ => ()) ⟨byteDev, byteDev, fresh, 0⟩ widened = some s ∧
      s.dev = s.accepted ∧ s.accepted.cfg.nbits = 16 ∧
      Programmed s.accepted.cfg s.rig.soft
          (dw_xfer (recorded echo) 1 s.dev.cfg s.dev.devno (fun _ => 7) 2 2
        (fun _ => ()) (s.rig, s.asked)).2.1 := by
  have hlast : ∀ cfg, latest widened = some cfg → cfg.Supported := by
    intro cfg hcfg
    obtain rfl := Option.some.inj hcfg
    decide
  refine ⟨by decide, _, rfl, ?_⟩
  obtain ⟨-, hsupported, -⟩ :=
    config_run (D := echo) (a := fun _ => ()) (g := fresh) byteDev_accepted widened rfl
  obtain ⟨hsame, hprogrammed⟩ := hsupported hlast
  exact ⟨hsame, rfl, hprogrammed 1 (fun _ => 7) 2 2 (by decide) (by decide)⟩

/-- A request for words of three bits is rejected, and then a transfer is made with it and not with
what was accepted. -/
theorem rejected_config_used :
    (dw_setcfg 1 fresh.soft byteDev ⟨3, false, false, 1000000⟩).map (·.1) = some .einval ∧
    ∃ s, Sys.run (recorded echo) 1 (fun _ => ()) ⟨byteDev, byteDev, fresh, 0⟩
        [.setcfg ⟨3, false, false, 1000000⟩] = some s ∧
      s.dev.cfg ≠ s.accepted.cfg ∧
      (dw_xfer (recorded echo) 1 s.dev.cfg s.dev.devno (fun _ => 7) 1 1 (fun _ => ())
        (s.rig, s.asked)).1 = .einval ∧
      (dw_xfer (recorded echo) 1 s.accepted.cfg s.accepted.devno (fun _ => 7) 1 1 (fun _ => ())
        (s.rig, s.asked)).1 = .eok := by
  refine ⟨by decide, _, rfl, fun h => ?_, by decide, by decide⟩
  exact absurd (congrArg Cfg.nbits h) (by decide)

end Runs

end Spi
