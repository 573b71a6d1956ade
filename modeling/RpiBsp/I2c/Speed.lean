import RpiBsp.I2c.Runs
import RpiBsp.I2c.Timing

/-!
# I2c — bus speeds

The devctl for a combined transfer, `_i2c_master_sendrecv` (`sendrecv.c`): each client has a bus
speed of its own, and the driver changes the speed when it differs from the one in `i2c_dev_t`.

* `Coherent` — the mode that is to be written to `DW_IC_CON` has the speed in `scl_freq`.
* `initialised_coherent` — the driver starts so, whatever its options.
* `InForce` — when a request is made with the speed its client asked for.
* `speed_run` — after any requests, the next one is made with that speed if it is in force.
* `reset_lost_speed` — the first request times out, and the next one is made with the speed of the
reset.
-/

namespace I2c

open Support Driver

/-! ### The devctl -/

/-- `sizeof(io_devctl_t)` and `sizeof(i2c_sendrecv_t)`. -/
structure Sizes where
  msg : ℕ
  hdr : ℕ

/-- The fields of `i2c_dev_t` that the devctl uses. -/
structure I2cDev where
  bus_speed : ℕ
  buflen : ℕ
deriving DecidableEq, Repr

/-- A request: the message, the client's `ocb->bus_speed`, and what the system answers to it. -/
structure Request where
  nbytes : ℕ
  send_len : ℕ
  recv_len : ℕ
  addr : BitVec 32
  fmt : AddrFmt
  stop : Bool
  data : ℕ → UInt8
  bus_speed : ℕ
  msg_max_size : ℕ
  /-- Whether `malloc` succeeds. -/
  malloc : Bool := true
  /-- What `resmgr_msgread` returns. -/
  msgread : ℤ := 0
  rounds : ℕ
  send_lt : send_len < 2 ^ 32 := by decide
  recv_lt : recv_len < 2 ^ 32 := by decide

inductive Reply where
  | einval
  | enomem
  | errno
  | efault
  | eio
  | empty
  | parts
deriving DecidableEq, Repr

variable {ρ H : Type} (D : Device ρ Reg H)

/-- The bus part of `_i2c_master_sendrecv`. -/
def masterTransfer (dev : I2cDev) (req : Request) : I2cM ρ H (Reply × I2cDev) := do
  let ok ← (if dev.bus_speed ≠ req.bus_speed then dwc_i2c_set_bus_speed req.bus_speed
    else pure true)
  if ¬ ok then return (.eio, dev)
  else
    let dev := { dev with bus_speed := req.bus_speed }
    let ok ← dwc_i2c_set_slave_addr req.addr req.fmt
    if ¬ ok then return (.eio, dev)
    else if 2 ^ 32 - 1 - req.recv_len < req.send_len then return (.einval, dev)
    else
      let mstatus ← dwc_i2c_sendrecv D req.rounds req.data req.send_len req.recv_len req.stop
      if mstatus ≠ I2C_STATUS_DONE then return (.eio, dev) else return (.parts, dev)

/-- `_i2c_master_sendrecv`. -/
def i2c_master_sendrecv (z : Sizes) (dev : I2cDev) (req : Request) : I2cM ρ H (Reply × I2cDev) :=
  let maxbuflen := if req.send_len < req.recv_len then req.recv_len else req.send_len
  if req.nbytes < z.hdr then return (.einval, dev)
  else if maxbuflen = 0 then return (.empty, dev)
  else if req.nbytes < z.hdr + req.send_len then return (.einval, dev)
  else
    let grows := req.msg_max_size < z.msg + z.hdr + maxbuflen ∧ dev.buflen < maxbuflen
    if grows ∧ req.malloc = false then return (.enomem, { dev with buflen := 0 })
    else
      let dev := if grows then { dev with buflen := maxbuflen } else dev
      let reads := req.msg_max_size < z.msg + z.hdr + req.send_len
      if reads ∧ req.msgread < 0 then return (.errno, dev)
      else if reads ∧ req.msgread.toNat % 2 ^ 32 < req.send_len then return (.efault, dev)
      else masterTransfer D dev req

/-- The requests of a list, one after the other. -/
def serve (z : Sizes) : List Request → I2cDev → I2cM ρ H I2cDev
  | [], dev => return dev
  | req :: reqs, dev => do
      let r ← i2c_master_sendrecv D z dev req
      serve z reqs r.2

/-! ### The speed in the mode -/

/-- The speed field for a bus speed. -/
def speedField (speed : ℕ) : BitVec 32 :=
  if speed = 100000 then DW_IC_CON_SPEED_STD else DW_IC_CON_SPEED_FAST

/-- The mode has the speed in `scl_freq`, which is one of the two. -/
structure Coherent (s : Dwc) : Prop where
  speeds : s.scl_freq = 100000 ∨ s.scl_freq = 400000
  mode : s.master_cfg &&& DW_IC_CON_SPEED_MASK = speedField s.scl_freq

theorem field_of_set (cfg field : BitVec 32) (hfield : field &&& DW_IC_CON_SPEED_MASK = field) :
    (cfg &&& ~~~DW_IC_CON_SPEED_MASK ||| field) &&& DW_IC_CON_SPEED_MASK = field := by
  rw [BitVec.and_comm, BitVec.and_or_distrib_left, BitVec.and_comm _ field, hfield,
    BitVec.and_comm cfg,
    ← BitVec.and_assoc, show DW_IC_CON_SPEED_MASK &&& ~~~DW_IC_CON_SPEED_MASK = 0#32 by decide,
    BitVec.zero_and,
    BitVec.zero_or]

theorem Coherent.slowed {s t : Dwc} (hs : Coherent s) (h : Slowed s t) : Coherent t := by
  rcases h with ⟨hf, hc⟩ | ⟨hf, hc⟩
  · exact ⟨by rw [hf]; exact hs.speeds, by rw [hf, hc]; exact hs.mode⟩
  · refine ⟨.inl hf, ?_⟩
    rw [hf, hc]
    exact field_of_set _ _ (by decide)

theorem set_bus_speed_spec {s : Dwc} (hs : Coherent s) (speed : ℕ) :
    Soft (fun t => t = s) (dwc_i2c_set_bus_speed speed : I2cM ρ H Bool) fun ok t =>
      Coherent t ∧ (ok = true → t.scl_freq = speed) ∧
      t = { s with scl_freq := t.scl_freq, master_cfg := t.master_cfg } := by
  refine Soft.soft_bind fun s' hs' => ?_
  rw [hs']
  refine Soft.ite (fun heq => Soft.pure ?_) fun _ => Soft.ite (fun heq => ?_) fun _ =>
    Soft.ite (fun heq => ?_) fun _ => ?_
  · rintro t rfl
    exact ⟨hs, fun _ => heq.symm, rfl⟩
  · refine Soft.bind (Q := fun _ t => Coherent t ∧ t.scl_freq = 100000 ∧
      t = { s with scl_freq := t.scl_freq, master_cfg := t.master_cfg }) (Soft.update ?_) fun _ =>
        Soft.pure fun t ht => ?_
    · rintro t rfl
      exact ⟨⟨.inl rfl, field_of_set _ _ (by decide)⟩, rfl, rfl⟩
    · exact ⟨ht.1, fun _ => ht.2.1.trans heq.symm, ht.2.2⟩
  · refine Soft.bind (Q := fun _ t => Coherent t ∧ t.scl_freq = 400000 ∧
      t = { s with scl_freq := t.scl_freq, master_cfg := t.master_cfg }) (Soft.update ?_) fun _ =>
        Soft.pure fun t ht => ?_
    · rintro t rfl
      exact ⟨⟨.inr rfl, field_of_set _ _ (by decide)⟩, rfl, rfl⟩
    · exact ⟨ht.1, fun _ => ht.2.1.trans heq.symm, ht.2.2⟩
  · refine Soft.pure ?_
    rintro t rfl
    exact ⟨hs, fun h => absurd h Bool.false_ne_true, rfl⟩

/-- Before a speed is set, the standard one is set. -/
theorem set_first_speed_coherent :
    Soft (fun t => t.scl_freq = 0) (dwc_i2c_set_bus_speed 100000 : I2cM ρ H Bool) fun _ =>
      Coherent := by
  refine Soft.soft_bind fun s hs => ?_
  refine Soft.ite (fun heq => absurd (heq.trans hs) (by decide)) fun _ => ?_
  refine Soft.ite (fun _ => ?_) fun h => absurd rfl h
  refine Soft.bind (Q := fun _ => Coherent) (Soft.update fun t _ => ?_) fun _ =>
    Soft.pure fun _ h => h
  exact ⟨.inl rfl, field_of_set _ _ (by decide)⟩

theorem init_coherent :
    Soft (fun t => t.scl_freq = 0) (dwc_i2c_init D) fun ok t => ok = true → Coherent t := by
  refine Soft.bind (reg_read_stays D (by decide)) fun reg => ?_
  refine Soft.ite (fun _ => Soft.pure fun _ _ h => absurd h Bool.false_ne_true) fun _ => ?_
  refine Soft.bind (dwc_i2c_enable_stays D _) fun _ => ?_
  have hset : Soft (fun t => t.scl_freq = 0) (dwc_i2c_init_registers D) fun _ => Coherent :=
    init_registers_spec D (fun _ _ h => h) (fun _ _ h => h) set_first_speed_coherent
  exact Soft.bind hset fun _ => Soft.pure fun _ h _ => h

/-- **Initialisation**: after any options, the mode of a driver that starts has its speed. -/
theorem initialised_coherent (s : Setup) (found : List Found) :
    ∀ s' ∈ dwc_i2c_parseopts s found, ∀ (a : ℕ → ρ) (hard : H) (n : ℕ),
      let r := dwc_i2c_init D a (⟨s'.dev, hard⟩, n)
      r.1 = true → Coherent r.2.1.soft :=
  fun s' h a hard n => init_coherent D a ⟨s'.dev, hard⟩ n (parseopts_scl_freq s found s' h)

theorem set_bus_speed_still (speed : ℕ) : Still (dwc_i2c_set_bus_speed speed : I2cM ρ H Bool) := by
  refine Still.bind .soft fun dev => Still.ite (.pure _) (Still.ite ?_ (Still.ite ?_ (.pure _)))
  · exact Still.bind (.update _) fun _ => .pure _
  · exact Still.bind (.update _) fun _ => .pure _

theorem set_slave_addr_still (addr : BitVec 32) (fmt : AddrFmt) :
    Still (dwc_i2c_set_slave_addr addr fmt : I2cM ρ H Bool) := by
  cases fmt with
  | other => exact .pure _
  | bit7 => exact Still.ite (.pure _) (Still.bind (.update _) fun _ => .pure _)
  | bit10 => exact Still.ite (.pure _) (Still.bind (.update _) fun _ => .pure _)

/-! ### The mode stays coherent -/

theorem SlaveSet.coherent {addr : BitVec 32} {fmt : AddrFmt} {s t : Dwc} {ok : Bool}
    (h : SlaveSet addr fmt s ok t) (hs : Coherent s) : Coherent t := by
  rcases h with ⟨-, rfl⟩ | ⟨-, cfg, hcfg, rfl⟩
  · exact hs
  · exact ⟨hs.speeds, hcfg.trans hs.mode⟩

theorem frame_slowed {s s' : Dwc} (h : s'.frame = s.frame) : Slowed s s' := by
  have hf : s'.frame.scl_freq = s.frame.scl_freq := congrArg Dwc.scl_freq h
  have hc : s'.frame.master_cfg = s.frame.master_cfg := congrArg Dwc.master_cfg h
  exact .inl ⟨hf, hc⟩

theorem BusActive.slowed {s t : Dwc} {ok : Bool} (h : BusActive s ok t) : Slowed s t := by
  cases h with
  | refused cont other reset => exact reset.speed
  | continued cont same => exact .inl ⟨rfl, rfl⟩
  | failed cont notMade => exact notMade.speed
  | activated cont setUp cont' restart => exact setUp.speed

theorem Made.slowed {s t : Dwc} {ret : Status} (h : Made s ret t) : Slowed s t := by
  cases h with
  | refused cont other busy reset => exact reset.speed
  | failed cont busy notMade => exact notMade.speed
  | made act exchanged =>
      refine act.slowed.trans ?_
      rcases exchanged with ⟨sent, frame, left, cont⟩ | ⟨sent, frame, setUp, error, cont⟩
      · have hkept := frame_slowed frame
        rw [left]
        exact hkept
      · exact (frame_slowed frame).trans setUp.speed

/-- The data with which `dwc_i2c_sendrecv` begins. -/
theorem fresh_sendrecv (s : Dwc) (txbuf : ℕ → UInt8) {txlen rxlen : ℕ} (stop : Bool)
    (hrx : rxlen < 2 ^ 32) (hfits : ¬ 2 ^ 32 - 1 - rxlen < txlen) :
    Fresh { s.begin txlen rxlen stop with txbuf := txbuf, txpos := 0, rxbuf := [] } := by
  have hf := fresh_begin s txlen rxlen stop (by omega)
  exact ⟨hf.xlen, hf.fits, hf.wrlen, hf.rdlen, hf.status⟩

theorem sendrecv_coherent (rounds : ℕ) (txbuf : ℕ → UInt8) (txlen : ℕ) {rxlen : ℕ} (stop : Bool)
    (hrx : rxlen < 2 ^ 32) : Stays Coherent (dwc_i2c_sendrecv D rounds txbuf txlen rxlen stop) := by
  refine Soft.ite (fun _ => Stays.pure _) fun hfits => Soft.at fun s hs => ?_
  refine Soft.bind (Q := fun _ t =>
    t = { s.begin txlen rxlen stop with txbuf := txbuf, txpos := 0, rxbuf := [] })
    (Soft.update ?_) fun _ => Soft.ite (fun _ => Soft.pure ?_) fun _ => ?_
  · rintro t rfl
    rfl
  · rintro t rfl
    exact ⟨hs.speeds, hs.mode⟩
  · refine (transfer_spec D (fresh_sendrecv s txbuf stop hrx hfits) rounds).post fun ret t ht => ?_
    have hbegun : Coherent
        { s.begin txlen rxlen stop with txbuf := txbuf, txpos := 0, rxbuf := [] } :=
      ⟨hs.speeds, hs.mode⟩
    exact hbegun.slowed ht.slowed

theorem masterTransfer_coherent (dev : I2cDev) (req : Request) :
    Stays Coherent (masterTransfer D dev req) := by
  refine Stays.bind (Stays.ite ?_ (.pure _)) fun ok => Stays.ite (.pure _) ?_
  · exact Soft.at fun s hs => (set_bus_speed_spec hs _).post fun _ _ ht => ht.1
  refine Stays.bind ?_ fun ok => Stays.ite (.pure _) (Stays.ite (.pure _) ?_)
  · exact Soft.at fun s hs => (set_slave_addr_spec _ _ s).post fun _ _ ht => ht.coherent hs
  refine Stays.bind (sendrecv_coherent D _ _ _ _ req.recv_lt) fun mstatus =>
    Stays.ite (.pure _) (.pure _)

theorem master_sendrecv_coherent (z : Sizes) (dev : I2cDev) (req : Request) :
    Stays Coherent (i2c_master_sendrecv D z dev req) := by
  refine Stays.ite (.pure _) (Stays.ite (.pure _) (Stays.ite (.pure _) (Stays.ite (.pure _) ?_)))
  exact Stays.ite (.pure _) (Stays.ite (.pure _) (masterTransfer_coherent D _ req))

theorem serve_coherent (z : Sizes) (reqs : List Request) :
    ∀ dev, Stays Coherent (serve D z reqs dev) := by
  induction reqs with
  | nil => exact fun dev => .pure _
  | cons req reqs ih =>
      exact fun dev => Stays.bind (master_sendrecv_coherent D z dev req) fun r => ih r.2

/-! ### The mode a transfer is made with -/

section Registers

variable (a : ℕ → Reg → BitVec 32)

/-- The bus is busy for as long as it is waited for without a reset. -/
def Stuck (n : ℕ) : Prop :=
  ∀ i < (BUSY_RETRY + 1) * (DW_I2C_TIMEOUT * 10 + 1), Has (a (n + i) .status) DW_IC_STATUS_ACTIVITY

/-- The request that is made at access `n` is made with its client's speed: a transfer that
continues another one has the mode of that one, and a new one the mode that `dwc_i2c_bus_active`
writes, unless the bus is stuck and the controller is reset, or it was reset before and the speed in
`i2c_dev_t` is no longer the one that is set. -/
def InForce (n : ℕ) (dev : I2cDev) (req : Request) (s : Dwc) : Prop :=
  if s.active_no_stop then
    s.active = (req.addr, req.fmt) →
      ∃ mode ∈ s.seen.con, mode &&& DW_IC_CON_SPEED_MASK = speedField req.bus_speed
  else (dev.bus_speed = req.bus_speed → s.scl_freq = req.bus_speed) ∧
    (Stuck a n → req.bus_speed = 100000)

theorem InForce.of_speed {n : ℕ} {dev dev' : I2cDev} {req : Request} {s : Dwc}
    (h : InForce a n dev req s)
    (heq : dev'.bus_speed = dev.bus_speed) : InForce a n dev' req s := by
  rw [InForce, heq]
  exact h

theorem busyLoop_registers (k : ℕ) : ∀ (g : Rig Dwc Unit) (n : ℕ),
    (∃ i ≤ k, ¬ Has (a (n + i) .status) DW_IC_STATUS_ACTIVITY) ∧
    (busyLoop registers k a (g, n)).1 = true ∨
    (∀ i ≤ k, Has (a (n + i) .status) DW_IC_STATUS_ACTIVITY) ∧
    busyLoop registers k a (g, n) = (false, g, n + (k + 1)) := by
  induction k with
  | zero =>
      intro g n
      rw [busyLoop, Prog.bind_of_eq (reg_read_registers a (by decide) g n)]
      by_cases hbusy : Has (a n .status) DW_IC_STATUS_ACTIVITY
      · refine .inr ⟨fun i hi => ?_, ?_⟩
        · rw [Nat.le_zero.mp hi]
          exact hbusy
        · rw [decide_eq_false (not_not.mpr hbusy)]
          rfl
      · exact .inl ⟨⟨0, Nat.le_refl 0, hbusy⟩, decide_eq_true hbusy⟩
  | succ k ih =>
      intro g n
      rw [busyLoop, Prog.bind_of_eq (reg_read_registers a (by decide) g n)]
      by_cases hbusy : Has (a n .status) DW_IC_STATUS_ACTIVITY
      · rw [if_neg (not_not.mpr hbusy)]
        rcases ih g (n + 1) with ⟨⟨i, hi, hfree⟩, hret⟩ | ⟨hall, hret⟩
        · exact .inl ⟨⟨i + 1, by omega, by rw [show n + (i + 1) = n + 1 + i by omega]; exact hfree⟩,
            hret⟩
        · refine .inr ⟨fun i hi => ?_, ?_⟩
          · cases i with
            | zero => exact hbusy
            | succ i =>
                rw [show n + (i + 1) = n + 1 + i by omega]
                exact hall i (by omega)
          · rw [hret, show n + 1 + (k + 1) = n + (k + 1 + 1) by omega]
      · rw [if_pos hbusy]
        exact .inl ⟨⟨0, Nat.zero_le _, hbusy⟩, rfl⟩

/-- A bus that gets free in time is waited for without a reset. -/
theorem busyRetry_free (r : ℕ) : ∀ (g : Rig Dwc Unit) (n : ℕ),
    (∃ i < r * (DW_I2C_TIMEOUT * 10 + 1), ¬ Has (a (n + i) .status) DW_IC_STATUS_ACTIVITY) →
    (busyRetry registers r a (g, n)).2.1.soft = g.soft := by
  induction r with
  | zero =>
      rintro g n ⟨i, hi, -⟩
      rw [Nat.zero_mul] at hi
      exact absurd hi (Nat.not_lt_zero i)
  | succ r ih =>
      rintro g n ⟨i, hi, hfree⟩
      rw [busyRetry]
      rcases busyLoop_registers a (DW_I2C_TIMEOUT * 10) g n with ⟨-, hret⟩ | ⟨hall, hret⟩
      · rw [Prog.bind_apply]
        have hsoft : (dwc_i2c_wait_bus_not_busy registers a (g, n)).2.1.soft = g.soft :=
          busy_stays (I := fun s => s = g.soft) registers a g n rfl
        rw [show (dwc_i2c_wait_bus_not_busy registers a (g, n)).1 = true from hret, if_pos rfl]
        exact hsoft
      · have hwait : dwc_i2c_wait_bus_not_busy registers a (g, n) =
          (false, g, n + (DW_I2C_TIMEOUT * 10 + 1)) := hret
        rw [Prog.bind_of_eq hwait, if_neg Bool.false_ne_true]
        have hlate : DW_I2C_TIMEOUT * 10 + 1 ≤ i := by
          by_contra hearly
          exact hfree (hall i (by omega))
        refine ih g _ ⟨i - (DW_I2C_TIMEOUT * 10 + 1), ?_, ?_⟩
        · rw [Nat.succ_mul] at hi
          omega
        · rw [show n + (DW_I2C_TIMEOUT * 10 + 1) + (i - (DW_I2C_TIMEOUT * 10 + 1)) = n + i by omega]
          exact hfree

/-- A bus that gets free in time is activated with the mode that is set. -/
theorem bus_active_free {g : Rig Dwc Unit} {n : ℕ} (hcont : g.soft.active_no_stop = false)
    (hfree : ¬ Stuck a n) (hok : (dwc_i2c_bus_active registers a (g, n)).1 = true) :
    (dwc_i2c_bus_active registers a (g, n)).2.1.soft =
      Dwc.activated { g.soft with restart := false } := by
  rw [dwc_i2c_bus_active, Prog.bind_of_eq (soft_apply a (g, n)),
    if_neg (by rw [hcont]; exact Bool.false_ne_true),
    Prog.bind_of_eq (update_apply _ a (g, n))] at hok ⊢
  -- the wait is the first round of the retries
  have hretry : ∀ f : Bool → I2cM (Reg → BitVec 32) Unit Bool,
    (dwc_i2c_wait_bus_not_busy registers >>= fun ok =>
      (if ok then pure true else busyRetry registers BUSY_RETRY) >>= f) =
        busyRetry registers (BUSY_RETRY + 1) >>= f :=
    fun f => rfl
  simp only [Stuck, not_forall] at hfree
  obtain ⟨i, hi, hfree⟩ := hfree
  have hsoft := busyRetry_free a (BUSY_RETRY + 1) ⟨{ g.soft with restart := false }, g.hard⟩ n
    ⟨i, hi, hfree⟩
  rw [hretry, Prog.bind_apply] at hok ⊢
  generalize busyRetry registers (BUSY_RETRY + 1) a
    (⟨{ g.soft with restart := false }, g.hard⟩, n) = r at *
  obtain ⟨ok, g', n'⟩ := r
  cases ok with
  | false => exact absurd hok Bool.false_ne_true
  | true =>
      rcases activate_spec registers _ a g' n' hsoft with ⟨-, ht⟩ | ⟨hbad, -⟩
      · exact ht
      · exact absurd (hbad.symm.trans hok) Bool.false_ne_true

/-- Every command was written under a mode with this speed field. -/
def AtSpeed (field : BitVec 32) (cmds : List Sent) : Prop :=
  ∀ cmd ∈ cmds, ∃ mode ∈ cmd.con, mode &&& DW_IC_CON_SPEED_MASK = field

theorem commands_atSpeed {t₁ : Dwc} {w : ℕ} {mode field : BitVec 32} (hmode : mode ∈ t₁.seen.con)
    (hfield : mode &&& DW_IC_CON_SPEED_MASK = field) : AtSpeed field (commands t₁ w) := by
  intro cmd hcmd
  obtain ⟨k, -, rfl⟩ := List.mem_map.mp hcmd
  exact ⟨mode, hmode, hfield⟩

/-- The mode when the bus is active. -/
theorem bus_active_mode {g : Rig Dwc Unit} {n : ℕ} {field : BitVec 32} (hs : Coherent g.soft)
    (hcont : g.soft.active_no_stop = true → g.soft.slave = g.soft.active →
      ∃ mode ∈ g.soft.seen.con, mode &&& DW_IC_CON_SPEED_MASK = field)
    (hnew : g.soft.active_no_stop = false →
      speedField g.soft.scl_freq = field ∧ (Stuck a n → field = DW_IC_CON_SPEED_STD))
    (hok : (dwc_i2c_bus_active registers a (g, n)).1 = true) :
    ∃ mode ∈ (dwc_i2c_bus_active registers a (g, n)).2.1.soft.seen.con,
    mode &&& DW_IC_CON_SPEED_MASK = field := by
  have hact := bus_active_spec registers g.soft a g n rfl
  by_cases hstuck : g.soft.active_no_stop = false ∧ ¬ Stuck a n
  · obtain ⟨hno, hfree⟩ := hstuck
    rw [bus_active_free a hno hfree hok]
    exact ⟨g.soft.master_cfg, rfl, hs.mode.trans (hnew hno).1⟩
  generalize dwc_i2c_bus_active registers a (g, n) = r at *
  obtain ⟨ok, ⟨t, hard⟩, n'⟩ := r
  dsimp only at hok hact ⊢
  subst hok
  cases hact with
  | continued cont same => exact hcont cont same
  | @activated u cont setUp cont' restart =>
      have hbusy : Stuck a n := by
        by_contra hfree
        exact hstuck ⟨cont, hfree⟩
      obtain ⟨hfield, hstd⟩ := hnew cont
      refine ⟨u.master_cfg, rfl, ?_⟩
      rcases setUp.speed with ⟨-, hcfg⟩ | ⟨-, hcfg⟩
      · rw [hcfg, hs.mode, hfield]
      · rw [hcfg, hstd hbusy]
        exact field_of_set _ _ (by decide)

theorem transfer_atSpeed {g : Rig Dwc Unit} {n : ℕ} {field : BitVec 32} (hf : Fresh g.soft)
    (hmode : (dwc_i2c_bus_active registers a (g, n)).1 = true →
      ∃ mode ∈ (dwc_i2c_bus_active registers a (g, n)).2.1.soft.seen.con,
      mode &&& DW_IC_CON_SPEED_MASK = field)
    (rounds : ℕ) :
    ∃ cmds, (transfer registers rounds a (g, n)).2.1.soft.seen.sent = g.soft.seen.sent ++ cmds ∧
      AtSpeed field cmds := by
  have hact := bus_active_spec registers g.soft a g n rfl
  rw [transfer, Prog.bind_apply]
  generalize dwc_i2c_bus_active registers a (g, n) = r at *
  obtain ⟨ok, g₁, n₁⟩ := r
  dsimp only at hmode hact ⊢
  cases ok with
  | false =>
      refine ⟨[], ?_, fun cmd hcmd => absurd hcmd (List.not_mem_nil)⟩
      rw [List.append_nil]
      cases hact with
      | refused cont other reset => exact reset.sent
      | failed cont notMade => exact notMade.sent
  | true =>
      have hb := hact.begun hf
      obtain ⟨mode, hmem, hfield⟩ := hmode rfl
      rcases exchange_spec registers hb.fresh rounds a g₁ n₁ rfl with
        ⟨sent, -, -, -⟩ | ⟨sent, -, -, -, -⟩
      · exact ⟨_, hb.sent ▸ sent, commands_atSpeed hmem hfield⟩
      · exact ⟨_, hb.sent ▸ sent, commands_atSpeed hmem hfield⟩

/-- From `s` to `t` only commands at this speed were written. -/
def WritesAt (field : BitVec 32) (s t : Dwc) : Prop :=
  ∃ cmds, t.seen.sent = s.seen.sent ++ cmds ∧ AtSpeed field cmds

theorem WritesAt.of_eq {field : BitVec 32} {s t : Dwc} (h : t.seen.sent = s.seen.sent) :
    WritesAt field s t :=
  ⟨[], by rw [List.append_nil]; exact h, fun _ hcmd => absurd hcmd List.not_mem_nil⟩

/-- The state in which the bytes are to be transferred: the speed is set, and the slave selected. -/
structure Prepared (dev : I2cDev) (req : Request) (s t : Dwc) : Prop where
  coherent : Coherent t
  speed : dev.bus_speed ≠ req.bus_speed → t.scl_freq = req.bus_speed
  same : dev.bus_speed = req.bus_speed → t.scl_freq = s.scl_freq
  slave : t.slave = (req.addr, req.fmt)
  active : t.active = s.active
  continues : t.active_no_stop = s.active_no_stop
  seen : t.seen = s.seen

theorem Prepared.atSpeed {dev : I2cDev} {req : Request} {s : Dwc} {g : Rig Dwc Unit} {n : ℕ}
    (hp : Prepared dev req s g.soft) (hforce : InForce a n dev req s) (hf : Fresh g.soft)
    (rounds : ℕ) :
    WritesAt (speedField req.bus_speed) s (transfer registers rounds a (g, n)).2.1.soft := by
  rw [WritesAt, ← hp.seen]
  refine transfer_atSpeed a hf
    (fun hok => bus_active_mode a hp.coherent (fun hcont hsame => ?_) (fun hcont => ?_) hok) rounds
  · rw [hp.continues] at hcont
    rw [InForce, if_pos hcont] at hforce
    rw [hp.seen]
    exact hforce (by rw [← hp.active, ← hsame, hp.slave])
  · rw [hp.continues] at hcont
    rw [InForce, if_neg (by rw [hcont]; exact Bool.false_ne_true)] at hforce
    obtain ⟨hdrift, hstuck⟩ := hforce
    refine ⟨?_, fun hbusy => by rw [hstuck hbusy]; rfl⟩
    by_cases hdev : dev.bus_speed = req.bus_speed
    · rw [hp.same hdev, hdrift hdev]
    · rw [hp.speed hdev]

theorem sendrecv_atSpeed {dev : I2cDev} {req : Request} {s : Dwc} {g : Rig Dwc Unit} {n : ℕ}
    (hp : Prepared dev req s g.soft) (hforce : InForce a n dev req s)
    (hfits : ¬ 2 ^ 32 - 1 - req.recv_len < req.send_len) :
    WritesAt (speedField req.bus_speed) s
      (dwc_i2c_sendrecv registers req.rounds req.data req.send_len req.recv_len req.stop a
        (g, n)).2.1.soft := by
  rw [dwc_i2c_sendrecv, if_neg hfits, Prog.bind_of_eq (update_apply _ a (g, n))]
  have hf := fresh_sendrecv g.soft req.data req.stop req.recv_lt hfits
  have hp' : Prepared dev req s
      { g.soft.begin req.send_len req.recv_len
        req.stop with txbuf := req.data, txpos := 0, rxbuf := [] } :=
    ⟨⟨hp.coherent.speeds, hp.coherent.mode⟩, hp.speed, hp.same, hp.slave, hp.active, hp.continues,
      hp.seen⟩
  dsimp only
  generalize ({ g.soft.begin req.send_len req.recv_len req.stop with
    txbuf := req.data, txpos := 0, rxbuf := [] } : Dwc) = s' at *
  by_cases hlen : req.send_len + req.recv_len = 0
  · rw [if_pos hlen]
    exact .of_eq (congrArg Seen.sent hp'.seen)
  · rw [if_neg hlen]
    exact Prepared.atSpeed a (g := ⟨s', g.hard⟩) hp' hforce hf req.rounds

/-- The speed is set if it differs from the one in `i2c_dev_t`. -/
theorem speedStep_spec {s : Dwc} (hs : Coherent s) (dev : I2cDev) (req : Request) :
    Soft (fun t => t = s)
      (if dev.bus_speed ≠ req.bus_speed then dwc_i2c_set_bus_speed req.bus_speed
        else pure true : I2cM ρ H Bool)
      fun ok t => Coherent t ∧
        (ok = true → dev.bus_speed ≠ req.bus_speed → t.scl_freq = req.bus_speed) ∧
        (dev.bus_speed = req.bus_speed → t.scl_freq = s.scl_freq) ∧
        t = { s with scl_freq := t.scl_freq, master_cfg := t.master_cfg } := by
  refine Soft.ite (fun hne => ?_) fun heq => Soft.pure ?_
  · refine (set_bus_speed_spec hs _).post fun ok t ht => ?_
    exact ⟨ht.1, fun hok _ => ht.2.1 hok, fun heq => absurd heq hne, ht.2.2⟩
  · rintro t rfl
    exact ⟨hs, fun _ hne => absurd hne heq, fun _ => rfl, rfl⟩

theorem masterTransfer_atSpeed {dev : I2cDev} {req : Request} {g : Rig Dwc Unit} {n : ℕ}
    (hs : Coherent g.soft) (hforce : InForce a n dev req g.soft) :
    WritesAt (speedField req.bus_speed) g.soft
      (masterTransfer registers dev req a (g, n)).2.1.soft := by
  rw [masterTransfer, Prog.bind_apply]
  have hspeed := speedStep_spec hs dev req a g n rfl
  have hstill : ((if dev.bus_speed ≠ req.bus_speed then dwc_i2c_set_bus_speed req.bus_speed
      else pure true :
      I2cM (Reg → BitVec 32) Unit Bool) a (g, n)).2.2 = n :=
    Still.ite (set_bus_speed_still _) (.pure _) a g n
  generalize (if dev.bus_speed ≠ req.bus_speed then dwc_i2c_set_bus_speed req.bus_speed
    else pure true :
    I2cM (Reg → BitVec 32) Unit Bool) a (g, n) = r₁ at *
  obtain ⟨ok₁, g₁, n₁⟩ := r₁
  dsimp only at hspeed hstill ⊢
  subst hstill
  obtain ⟨hcoh₁, hset, hkept, hdata₁⟩ := hspeed
  have hseen₁ : g₁.soft.seen = g.soft.seen := by rw [hdata₁]
  cases ok₁ with
  | false => exact .of_eq (congrArg Seen.sent hseen₁)
  | true =>
      rw [if_neg (not_not.mpr rfl), Prog.bind_apply]
      have hslave := set_slave_addr_spec req.addr req.fmt g₁.soft a g₁ n₁ rfl
      have hstill : (dwc_i2c_set_slave_addr req.addr req.fmt a (g₁, n₁)).2.2 = n₁ :=
        set_slave_addr_still _ _ a g₁ n₁
      generalize dwc_i2c_set_slave_addr req.addr req.fmt a (g₁, n₁) = r₂ at *
      obtain ⟨ok₂, g₂, n₂⟩ := r₂
      dsimp only at hslave hstill ⊢
      subst hstill
      rcases hslave with ⟨rfl, heq⟩ | ⟨rfl, cfg, hcfg, heq⟩
      · refine .of_eq ?_
        change g₂.soft.seen.sent = _
        rw [heq, hseen₁]
      · rw [if_neg (not_not.mpr rfl)]
        have hp : Prepared dev req g.soft g₂.soft := by
          rw [heq]
          refine ⟨⟨hcoh₁.speeds, hcfg.trans hcoh₁.mode⟩, hset rfl, hkept, rfl, ?_, ?_, hseen₁⟩
          · change g₁.soft.active = _
            rw [hdata₁]
            rfl
          · change g₁.soft.active_no_stop = _
            rw [hdata₁]
        by_cases hfits : 2 ^ 32 - 1 - req.recv_len < req.send_len
        · rw [if_pos hfits]
          exact .of_eq (congrArg Seen.sent hp.seen)
        · rw [if_neg hfits, Prog.bind_apply]
          have hwrites := sendrecv_atSpeed a hp hforce hfits
          generalize dwc_i2c_sendrecv registers req.rounds req.data req.send_len req.recv_len
            req.stop a (g₂, n₂) = r₃ at *
          split
          · exact hwrites
          · exact hwrites

/-- **Bus speeds**: after any requests, with any outcomes, a request is made with its client's speed
if that is in force. -/
theorem speed_run (z : Sizes) (reqs : List Request) (req : Request) (dev : I2cDev)
    (g : Rig Dwc Unit) (n : ℕ) (hstart : Coherent g.soft) :
    let r := serve registers z reqs dev a (g, n)
    InForce a r.2.2 r.1 req r.2.1.soft →
    WritesAt (speedField req.bus_speed) r.2.1.soft
      (i2c_master_sendrecv registers z r.1 req a r.2).2.1.soft := by
  have hs := serve_coherent registers z reqs dev a g n hstart
  generalize serve registers z reqs dev a (g, n) = r at *
  obtain ⟨dev', g', n'⟩ := r
  intro r hforce
  dsimp only [r] at hforce hs ⊢
  rw [i2c_master_sendrecv]
  -- nothing is written when the message is refused
  have hnone : ∀ reply dev, WritesAt (speedField req.bus_speed) g'.soft
      ((pure (reply, dev) : I2cM (Reg → BitVec 32) Unit (Reply × I2cDev)) a (g', n')).2.1.soft :=
    fun _ _ => .of_eq rfl
  let P : (Reply × I2cDev) × (Rig Dwc Unit × ℕ) → Prop := fun r =>
    WritesAt (speedField req.bus_speed) g'.soft r.2.1.soft
  refine Prog.ite_run P (fun _ => hnone _ _) fun _ =>
    Prog.ite_run P (fun _ => hnone _ _) fun _ => ?_
  refine Prog.ite_run P (fun _ => hnone _ _) fun _ =>
    Prog.ite_run P (fun _ => hnone _ _) fun _ => ?_
  refine Prog.ite_run P (fun _ => hnone _ _) fun _ =>
    Prog.ite_run P (fun _ => hnone _ _) fun _ => ?_
  refine masterTransfer_atSpeed a hs (InForce.of_speed a hforce ?_)
  split_ifs <;> rfl

end Registers

theorem idle_coherent : Coherent idle := ⟨.inl rfl, by decide⟩

/-- The sizes of the structures. -/
def sizes : Sizes := ⟨16, 20⟩

/-- A client at 400 kHz sends a byte. -/
def fastRequest (rounds : ℕ) : Request where
  nbytes := 40
  send_len := 1
  recv_len := 0
  addr := 0x50
  fmt := .bit7
  stop := true
  data := fun _ => 7
  bus_speed := 400000
  msg_max_size := 256
  rounds := rounds

/-- The speed that is set when the driver is initialised. -/
def freshDev : I2cDev := ⟨100000, 0⟩

/-- The driver is initialised without options. -/
def initialised : Bool × Rig Dwc Unit × ℕ :=
  dwc_i2c_init registers obliging (⟨((dwc_i2c_parseopts zeroed []).getD zeroed).dev, ()⟩, 0)

/-- A request at 400 kHz, and one at 100 kHz. -/
def requests : List Request := [fastRequest 1, { fastRequest 1 with bus_speed := 100000 }]

theorem obliging_free (n : ℕ) : ¬ Stuck obliging n := by
  have hfree : ¬ Has (DW_IC_STATUS_TFNF ||| DW_IC_STATUS_TFE) DW_IC_STATUS_ACTIVITY := by decide
  exact fun h => hfree (h 0 (by decide))

/-- After a request at each speed the next one is made at 400 kHz. -/
theorem speed_run_third :
    let r := serve registers sizes requests freshDev obliging initialised.2
    let r' := i2c_master_sendrecv registers sizes r.1 (fastRequest 1) obliging r.2
    r.2.1.soft.seen.sent.length = 2 ∧ r'.2.1.soft.seen.sent.length = 3 ∧
    WritesAt (speedField (fastRequest 1).bus_speed) r.2.1.soft r'.2.1.soft := by
  have hstart : Coherent initialised.2.1.soft :=
    initialised_coherent registers zeroed [] _ rfl obliging () 0 (by decide +kernel)
  have hdev : (serve registers sizes requests freshDev obliging initialised.2).1.bus_speed =
      100000 := by
    decide +kernel
  have hcont : (serve registers sizes requests freshDev obliging
      initialised.2).2.1.soft.active_no_stop = false := by
    decide +kernel
  refine ⟨by decide +kernel, by decide +kernel, ?_⟩
  generalize initialised.2 = g at *
  obtain ⟨g, n⟩ := g
  refine speed_run obliging sizes requests (fastRequest 1) freshDev g n hstart ?_
  rw [InForce, if_neg (fun h => absurd (hcont.symm.trans h) Bool.false_ne_true)]
  exact ⟨fun h => absurd (hdev.symm.trans h) (by decide), fun h => absurd h (obliging_free _)⟩

/-- The driver after a request at 400 kHz that timed out, whereupon the controller was reset. -/
def afterTimeout : I2cDev × Rig Dwc Unit × ℕ :=
  serve registers sizes [fastRequest 0] freshDev obliging (started, 0)

/-- The next request at 400 kHz is made at the 100 kHz of the reset. -/
theorem reset_lost_speed :
    Coherent started.soft ∧ freshDev.bus_speed = started.soft.scl_freq ∧
    ¬ WritesAt (speedField (fastRequest 1).bus_speed) afterTimeout.2.1.soft
      (i2c_master_sendrecv registers sizes afterTimeout.1 (fastRequest 1) obliging
        afterTimeout.2).2.1.soft := by
  refine ⟨idle_coherent, rfl, ?_⟩
  rintro ⟨cmds, hsent, hspeed⟩
  have hbefore : afterTimeout.2.1.soft.seen.sent = [] := by decide +kernel
  have hafter : (i2c_master_sendrecv registers sizes afterTimeout.1 (fastRequest 1) obliging
      afterTimeout.2).2.1.soft.seen.sent = [⟨0x207, some 0x50, some 0x63⟩] := by decide +kernel
  rw [hbefore, hafter, List.nil_append] at hsent
  obtain ⟨mode, hmode, hfield⟩ :=
    hspeed ⟨0x207, some 0x50, some 0x63⟩ (by rw [← hsent]; exact List.mem_singleton_self _)
  obtain rfl : 0x63 = mode := Option.some.inj hmode
  exact absurd hfield (by decide)

end I2c
