import RpiBsp.I2c.Transfer

/-!
# I2c — runs of transfers

Sequences of calls of the driver: a slave is selected, and bytes are sent and received, with any
outcome.  A transfer that ends without STOP is continued by the next one, which must be to the same
slave.

* `transfer_spec` — what the transfer functions can do, each case with what it leaves behind.
* `History` — what a caller knows: the slave it selected, and how its last transfer ended.
* `restart_run` — a transfer starts with a RESTART exactly if the last one is to be continued, and
  every command goes to the slave that is selected.
-/

namespace I2c

open Support Driver

variable {ρ H : Type} (D : Device ρ Reg H)

/-! ### The handler's frame -/

/-- The driver's data without what the handler changes. -/
def Dwc.frame (s : Dwc) : Dwc := { s with
  txpos := 0, rxbuf := [], wrlen := 0, rdlen := 0, status := {}, abort_source := 0
  seen := { s.seen with sent := [], got := [] } }

section Frame

variable {s₀ : Dwc}

/-- A byte that is read is stored, and noted as read. -/
theorem readByte_frame : Stays (fun s => s.frame = s₀.frame) (readByte D) :=
  Stays.bind (Stays.bind .read32 fun _ => Stays.bind (.update fun _ h => h) fun _ => .pure _)
    fun _ => .update fun _ h => h

theorem readBytes_frame (n : ℕ) : Stays (fun s => s.frame = s₀.frame) (readBytes D n) := by
  induction n with
  | zero => exact .pure _
  | succ n ih => exact Stays.bind (readByte_frame D) fun _ => ih

/-- An abort changes the status only. -/
theorem onAbort_frame : Stays (fun s => s.frame = s₀.frame) (onAbort D) := by
  refine Stays.bind (reg_read_stays D (by decide)) fun v => ?_
  refine Stays.bind (reg_read_stays D (by decide)) fun _ => ?_
  exact Stays.bind (.update fun _ h => h) fun _ => reg_write_stays D (by decide) _

theorem onStop_frame : Stays (fun s => s.frame = s₀.frame) (onStop D) := by
  refine Stays.bind (reg_read_stays D (by decide)) fun _ => ?_
  refine Stays.bind (Stays.bind .soft fun dev => Stays.ite ?_ (.pure _)) fun _ => ?_
  · refine Stays.bind (reg_read_stays D (by decide)) fun v => ?_
    exact Stays.ite (.update fun _ h => h) (readBytes_frame D _)
  · exact Stays.bind (.update fun _ h => h) fun _ => reg_write_stays D (by decide) _

theorem onRxFull_frame : Stays (fun s => s.frame = s₀.frame) (onRxFull D) := by
  refine Stays.bind .soft fun dev => Stays.ite ?_ (maskOff_stays D _)
  refine Stays.bind (reg_read_stays D (by decide)) fun v => Stays.ite ?_ (readBytes_frame D _)
  refine Stays.bind (.update fun _ h => h) fun _ => ?_
  exact Stays.bind (maskOff_stays D _) fun _ => readBytes_frame D _

/-- Filling the FIFO moves on in the buffer, and in what was sent. -/
theorem fillLoop_frame (n : ℕ) : Stays (fun s => s.frame = s₀.frame) (fillLoop D n) :=
  fillLoop_stays D (fun _ _ h => h) (fun _ h => h) n

theorem drainLoop_frame (n : ℕ) : Stays (fun s => s.frame = s₀.frame) (drainLoop D n) := by
  induction n with
  | zero => exact .pure _
  | succ n ih =>
      refine Stays.bind (reg_read_stays D (by decide)) fun v => ?_
      exact Stays.ite (Stays.bind (readByte_frame D) fun _ => ih) (.pure _)

/-- **An interrupt** leaves everything but the progress of the transfer as it was. -/
theorem process_intr_frame : Stays (fun s => s.frame = s₀.frame) (dwc_i2c_process_intr D) := by
  refine Stays.bind (reg_read_stays D (by decide)) fun status => ?_
  refine Stays.ite (Stays.bind (onAbort_frame D) fun _ => .pure _) ?_
  refine Stays.ite (Stays.bind (onStop_frame D) fun _ => .pure _) ?_
  refine Stays.bind (.doIf (onRxFull_frame D)) fun _ => ?_
  refine Stays.bind (.doIf (Stays.bind .soft fun dev => fillLoop_frame D _)) fun _ => ?_
  refine Stays.bind .soft fun dev => Stays.ite (.pure _) ?_
  refine Stays.bind .soft fun dev => Stays.bind (drainLoop_frame D _) fun _ => ?_
  refine Stays.bind .soft fun dev =>
    Stays.ite (Stays.bind (reg_read_stays D (by decide)) fun v => ?_) (.pure _)
  refine Stays.ite (Stays.bind (.update fun _ h => h) fun _ => ?_) (.pure _)
  exact Stays.bind (reg_write_stays D (by decide) _) fun _ => .pure _

/-- What the wait for completion leaves of the rest: a transfer that is not done may have led to a
reset. -/
def Waited (s₀ : Dwc) (ret : Status) (s : Dwc) : Prop :=
  ∃ u, u.frame = s₀.frame ∧ (s = u ∨ WasReset u s ∧ ret ≠ I2C_STATUS_DONE)

/-- **The wait** ends with the status of the transfer, or with a reset. -/
theorem wait_complete_waited (rounds : ℕ) :
    Soft (fun s => s.frame = s₀.frame) (dwc_i2c_wait_complete D rounds) (Waited s₀) := by
  induction rounds with
  | zero =>
      refine Soft.bind (reg_read_stays D (by decide)) fun _ => Soft.at fun u hu => ?_
      refine Soft.bind (dwc_i2c_reset_spec D u) fun _ => Soft.pure fun s hs => ?_
      exact ⟨u, hu, .inr ⟨hs, by decide⟩⟩
  | succ rounds ih =>
      refine Soft.bind (process_intr_frame D) fun handled => ?_
      cases handled with
      | eagain => exact ih
      | eok => exact Soft.at fun u hu => (finish_spec D u).post fun ret s hs => ⟨u, hu, hs.2⟩

end Frame

/-! ### Activation of the bus -/

/-- The slave that is selected. -/
def Dwc.slave (s : Dwc) : BitVec 32 × AddrFmt := (s.slave_addr, s.slave_addr_fmt)

/-- The slave of the last transfer. -/
def Dwc.active (s : Dwc) : BitVec 32 × AddrFmt := (s.active_slave_addr, s.active_slave_addr_fmt)

/-- Setting up a controller leaves the slave selected. -/
theorem SetUp.slave {s s' : Dwc} (h : SetUp s s') : s'.slave = s.slave := by
  have hs : s'.core.slave = s.core.slave := congrArg Dwc.slave h.core
  exact hs

/-- The driver's data once target and mode are written. -/
def Dwc.activated (s : Dwc) : Dwc := { s with
  active_slave_addr := s.slave_addr
  active_slave_addr_fmt := s.slave_addr_fmt
  seen := { s.seen with
    tar := some (targetOf s.slave_addr s.slave_addr_fmt), con := some s.master_cfg } }

/-- What a transfer that does not come about leaves. -/
structure NotMade (s t : Dwc) : Prop where
  sent : t.seen.sent = s.seen.sent
  slave : t.slave = s.slave
  no_continuation : t.active_no_stop = false
  speed : Slowed s t

theorem NotMade.of_setUp {s t : Dwc} (h : SetUp s t) (hcont : t.active_no_stop = false) :
    NotMade s t :=
  ⟨h.sent, h.slave, hcont, h.speed⟩

/-- What `dwc_i2c_bus_active` can do. -/
inductive BusActive (s : Dwc) : Bool → Dwc → Prop where
  | refused {t : Dwc} (cont : s.active_no_stop = true) (other : s.slave ≠ s.active)
      (reset : WasReset s t) :
      BusActive s false t
  | continued (cont : s.active_no_stop = true) (same : s.slave = s.active) :
      BusActive s true { s with restart := true }
  | failed {t : Dwc} (cont : s.active_no_stop = false) (notMade : NotMade s t) : BusActive s false t
  | activated {u : Dwc} (cont : s.active_no_stop = false) (setUp : SetUp s u)
      (cont' : u.active_no_stop = false)
      (restart : u.restart = false) : BusActive s true u.activated

/-- Another address, or another format. -/
theorem slave_ne_iff (s : Dwc) :
    s.slave ≠ s.active ↔
      s.slave_addr ≠ s.active_slave_addr ∨ s.slave_addr_fmt ≠ s.active_slave_addr_fmt := by
  simp only [Dwc.slave, Dwc.active, ne_eq, Prod.mk.injEq]
  tauto

/-- The controller is ready, or was set up again. -/
def Ready (s u : Dwc) : Prop := SetUp s u ∧ u.active_no_stop = false ∧ u.restart = false

theorem reset_ready {s : Dwc} : Stays (Ready s) (dwc_i2c_reset D) :=
  Soft.at fun u hu => (dwc_i2c_reset_spec D u).post fun _ _ ht =>
    ⟨hu.1.trans ht.toSetUp, ht.no_continuation, ht.no_restart⟩

/-- Waiting for the bus, with the reset at its end, leaves the driver ready. -/
theorem busyRetry_ready {s : Dwc} (n : ℕ) : Stays (Ready s) (busyRetry D n) := by
  induction n with
  | zero => exact Stays.bind (reset_ready D) fun _ => busy_stays D
  | succ n ih => exact Stays.bind (busy_stays D) fun ok => Stays.ite (.pure _) ih

/-- What `activate` does: target and mode are written, or the controller is reset. -/
def Activates (u : Dwc) (ok : Bool) (t : Dwc) : Prop :=
  ok = true ∧ t = u.activated ∨ ok = false ∧ (WasReset u t ∨ WasReset u.activated t)

/-- A bus that is free is activated for the slave that is selected, or the controller is reset. -/
theorem activate_spec (u : Dwc) : Soft (fun t => t = u) (activate D) (Activates u) := by
  refine Soft.bind (dwc_i2c_enable_stays D _) fun ok => ?_
  refine Soft.ite (fun _ => ?_) fun _ => ?_
  · exact Soft.bind (dwc_i2c_reset_spec D u) fun _ => Soft.pure fun _ ht => .inr ⟨rfl, .inl ht⟩
  refine Soft.soft_bind fun u' hu' => ?_
  rw [hu']
  refine Soft.bind (Q := fun _ t => t = { u with
    seen := { u.seen with tar := some (targetOf u.slave_addr u.slave_addr_fmt) } }) ?_ fun _ => ?_
  · refine Soft.bind (Q := fun _ t => t = u) (Soft.write32 fun _ ht => ht) fun _ => Soft.update ?_
    rintro t rfl
    rfl
  refine Soft.bind (Q := fun _ t => t = { u with
    active_slave_addr := u.slave_addr, active_slave_addr_fmt := u.slave_addr_fmt
    seen := { u.seen with tar := some (targetOf u.slave_addr u.slave_addr_fmt) } }) (Soft.update ?_)
      fun _ => ?_
  · rintro t rfl
    rfl
  refine Soft.bind (Q := fun _ t => t = u.activated) ?_ fun _ => ?_
  · refine Soft.bind (Stays.write32) fun _ => Soft.update ?_
    rintro t rfl
    rfl
  refine Soft.bind (reg_write_stays D (by decide) _) fun _ => ?_
  refine Soft.bind (dwc_i2c_enable_stays D _) fun ok => Soft.ite (fun _ => ?_) fun _ => ?_
  · exact Soft.bind (dwc_i2c_reset_spec D _) fun _ => Soft.pure fun _ ht => .inr ⟨rfl, .inr ht⟩
  · exact Soft.pure fun t ht => .inl ⟨rfl, ht⟩

theorem Activates.busActive {s u t : Dwc} {ok : Bool} (h : Activates u ok t)
    (hcont : s.active_no_stop = false) (hu : Ready s u) : BusActive s ok t := by
  rcases h with ⟨rfl, rfl⟩ | ⟨rfl, hreset | hreset⟩
  · exact .activated hcont hu.1 hu.2.1 hu.2.2
  · exact .failed hcont (.of_setUp (hu.1.trans hreset.toSetUp) hreset.no_continuation)
  · refine .failed hcont ⟨hreset.sent.trans hu.1.sent, hreset.toSetUp.slave.trans hu.1.slave,
      hreset.no_continuation, ?_⟩
    exact hu.1.speed.trans hreset.speed

/-- **Activation**: refused for another slave, continued, failed, or done. -/
theorem bus_active_spec (s : Dwc) : Soft (fun t => t = s) (dwc_i2c_bus_active D) (BusActive s) := by
  refine Soft.soft_bind fun s' hs' => ?_
  rw [hs']
  refine Soft.ite (fun hcont => ?_) fun hcont => ?_
  · refine Soft.ite (fun hother => ?_) fun hsame => ?_
    · refine Soft.bind (dwc_i2c_reset_spec D s) fun _ => Soft.pure fun t ht => ?_
      exact .refused hcont ((slave_ne_iff s).mpr hother) ht
    · refine Soft.bind (Q := fun _ t => t = { s with restart := true }) (Soft.update ?_) fun _ => ?_
      · rintro t rfl
        rfl
      · refine Soft.bind (reg_write_stays D (by decide) _) fun _ => Soft.pure ?_
        rintro t rfl
        exact .continued hcont (by_contra fun h => hsame ((slave_ne_iff s).mp h))
  · rw [Bool.not_eq_true] at hcont
    refine Soft.bind (Q := fun _ => Ready s) (Soft.update ?_) fun _ => ?_
    · rintro t rfl
      exact ⟨⟨rfl, rfl, rfl, .inl ⟨rfl, rfl⟩⟩, hcont, rfl⟩
    refine Soft.bind (busy_stays D) fun ok =>
      Soft.bind (Stays.ite (.pure _) (busyRetry_ready D _)) fun ok => ?_
    refine Soft.ite (fun _ => Soft.pure fun t ht => ?_) fun _ => ?_
    · exact .failed hcont (.of_setUp ht.1 ht.2.1)
    · exact Soft.at fun u hu => (activate_spec D u).post fun ok t ht => ht.busActive hcont hu

/-! ### A transfer function -/

theorem SetUp.stop {s s' : Dwc} (h : SetUp s s') : s'.stop = s.stop := by
  have hs : s'.core.stop = s.core.stop := congrArg Dwc.stop h.core
  exact hs

theorem SetUp.fresh {s s' : Dwc} (h : SetUp s s') (hf : Fresh s) : Fresh s' := by
  have hx : s'.core.xlen = s.core.xlen := congrArg Dwc.xlen h.core
  have ht : s'.core.txlen = s.core.txlen := congrArg Dwc.txlen h.core
  have hr : s'.core.rxlen = s.core.rxlen := congrArg Dwc.rxlen h.core
  change s'.xlen = s.xlen at hx
  change s'.txlen = s.txlen at ht
  change s'.rxlen = s.rxlen at hr
  refine ⟨?_, ?_, h.wrlen.trans hf.wrlen, h.rdlen.trans hf.rdlen, h.status.trans hf.status⟩
  · rw [hx, ht, hr]
    exact hf.xlen
  · rw [ht, hr]
    exact hf.fits

/-- What holds when the handler is waited for. -/
structure Begun (s t : Dwc) : Prop where
  fresh : Fresh t
  sent : t.seen.sent = s.seen.sent
  stop : t.stop = s.stop
  slave : t.slave = s.slave
  active : t.active = s.slave
  restart : t.restart = s.active_no_stop

/-- The transfer begins in the state in which the bus is active. -/
theorem BusActive.begun {s t : Dwc} (h : BusActive s true t) (hf : Fresh s) : Begun s t := by
  cases h with
  | continued cont same =>
      exact ⟨⟨hf.xlen, hf.fits, hf.wrlen, hf.rdlen, hf.status⟩, rfl, rfl, rfl, same.symm, cont.symm⟩
  | activated cont setUp cont' restart =>
      have hu := setUp.fresh hf
      refine ⟨⟨hu.xlen, hu.fits, hu.wrlen, hu.rdlen, hu.status⟩, setUp.sent, setUp.stop,
        setUp.slave, setUp.slave, ?_⟩
      rw [cont]
      exact restart

theorem frame_stop {s s' : Dwc} (h : s'.frame = s.frame) : s'.stop = s.stop := by
  have hs : s'.frame.stop = s.frame.stop := congrArg Dwc.stop h
  exact hs

/-- What an exchange does from `t₁` on. -/
inductive Exchanged (t₁ : Dwc) (ret : Status) (t : Dwc) : Prop where
  | done {u : Dwc} {w : ℕ} (sent : t.seen.sent = t₁.seen.sent ++ commands t₁ w)
      (frame : u.frame = t₁.frame) (left : t = { u with active_no_stop := t.active_no_stop })
      (cont : t.active_no_stop = true ↔ ret = I2C_STATUS_DONE ∧ t₁.stop = false)
  | broken {u : Dwc} {w : ℕ} (sent : t.seen.sent = t₁.seen.sent ++ commands t₁ w)
      (frame : u.frame = t₁.frame)
      (setUp : SetUp u t) (error : ret ≠ I2C_STATUS_DONE) (cont : t.active_no_stop = false)

/-- Commands are written in order, and the status says whether there may be a continuation. -/
theorem exchange_spec {t₁ : Dwc} (hf : Fresh t₁) (rounds : ℕ) :
    Soft (fun t => t = t₁) (exchange D rounds) (Exchanged t₁) := by
  refine Soft.bind (reg_write_stays D (by decide) _) fun _ => ?_
  refine Soft.bind (reg_read_stays D (by decide)) fun _ => ?_
  refine Soft.bind (reg_write_stays D (by decide) _) fun _ => ?_
  refine Soft.bind (Q := fun ret t => Carried t₁ t ∧ Waited t₁ ret t) ?_ fun ret => ?_
  · refine ((wait_complete_carried D rounds).and (wait_complete_waited D rounds)).pre ?_
    rintro t rfl
    exact ⟨.start hf, rfl⟩
  refine Soft.bind (reg_write_stays D (by decide) _) fun _ => ?_
  refine Soft.bind (Q := fun _ => Exchanged t₁ ret) (Soft.update fun t ht => ?_) fun _ => ?_
  · obtain ⟨hcarried, u, hu, hlast⟩ := ht
    rcases hlast with rfl | ⟨hreset, hne⟩
    · refine .done hcarried.sent hu rfl ?_
      rw [show t.stop = t₁.stop from frame_stop hu]
      simp
    · refine .broken hcarried.sent hu ⟨hreset.core, hreset.sent, hreset.got, hreset.speed⟩ hne ?_
      simp [hne]
  · refine Soft.bind Stays.soft fun dev => ?_
    refine Soft.bind (Stays.doIf (Stays.bind (dwc_i2c_enable_stays D _) fun _ => .pure _))
      fun _ => ?_
    exact Soft.pure fun _ h => h

/-- What a transfer function does once the lengths are set. -/
inductive Made (s : Dwc) (ret : Status) (t : Dwc) : Prop where
  | refused (cont : s.active_no_stop = true) (other : s.slave ≠ s.active)
      (busy : ret = I2C_STATUS_BUSY) (reset : WasReset s t)
  | failed (cont : s.active_no_stop = false) (busy : ret = I2C_STATUS_BUSY) (notMade : NotMade s t)
  | made {t₁ : Dwc} (act : BusActive s true t₁) (exchanged : Exchanged t₁ ret t)

/-- **A transfer** that is refused or fails to start writes nothing. -/
theorem transfer_spec {s : Dwc} (hf : Fresh s) (rounds : ℕ) :
    Soft (fun t => t = s) (transfer D rounds) (Made s) := by
  refine Soft.bind (bus_active_spec D s) fun ok => ?_
  refine Soft.ite (fun hok => Soft.pure fun t ht => ?_) fun hok => Soft.at fun t₁ h₁ => ?_
  · rw [Bool.not_eq_true] at hok
    rw [hok] at ht
    cases ht with
    | refused cont other reset => exact .refused cont other rfl reset
    | failed cont notMade => exact .failed cont rfl notMade
  · rw [not_not] at hok
    rw [hok] at h₁
    exact (exchange_spec D (h₁.begun hf).fresh rounds).post fun ret t ht => .made h₁ ht

/-! ### Runs -/

/-- A call of the driver; `rounds` is how many interrupts come before one does not come in time. -/
inductive Call where
  | set_slave_addr (addr : BitVec 32) (fmt : AddrFmt)
  | send (rounds : ℕ) (buf : ℕ → UInt8) (len : ℕ) (stop : Bool)
  | recv (rounds len : ℕ) (stop : Bool)
  | sendrecv (rounds : ℕ) (txbuf : ℕ → UInt8) (txlen rxlen : ℕ) (stop : Bool)

inductive Outcome where
  /-- Whether the address is one. -/
  | selected (ok : Bool)
  | ended (status : Status)
deriving DecidableEq, Repr

namespace Call

/-- The bytes to transfer. -/
def length : Call → ℕ
  | .set_slave_addr _ _ => 0
  | .send _ _ len _ => len
  | .recv _ len _ => len
  | .sendrecv _ _ txlen rxlen _ => txlen + rxlen

def stop : Call → Bool
  | .set_slave_addr _ _ => false
  | .send _ _ _ stop => stop
  | .recv _ _ stop => stop
  | .sendrecv _ _ _ _ stop => stop

/-- The length fits 32 bits. -/
def Fits (c : Call) : Prop := c.length < 2 ^ 32

instance : DecidablePred Fits := fun c => inferInstanceAs (Decidable (c.length < 2 ^ 32))

def run : Call → I2cM ρ H Outcome
  | .set_slave_addr addr fmt => do return .selected (← dwc_i2c_set_slave_addr addr fmt)
  | .send rounds buf len stop => do return .ended (← dwc_i2c_send D rounds buf len stop)
  | .recv rounds len stop => do return .ended (← dwc_i2c_recv D rounds len stop)
  | .sendrecv rounds txbuf txlen rxlen stop => do
      return .ended (← dwc_i2c_sendrecv D rounds txbuf txlen rxlen stop)

end Call

/-- A transfer that was not of length 0. -/
structure Past where
  status : Status
  stop : Bool
  slave : BitVec 32 × AddrFmt
deriving DecidableEq, Repr

/-- What a caller knows of the calls so far. -/
structure History where
  selected : BitVec 32 × AddrFmt
  last : Option Past := none
deriving DecidableEq, Repr

namespace History

def next (h : History) (c : Call) (o : Outcome) : History :=
  match c, o with
  | .set_slave_addr addr fmt, .selected true => { h with selected := (addr, fmt) }
  | c, .ended status =>
      if c.length = 0 then h else { h with last := some ⟨status, c.stop, h.selected⟩ }
  | _, _ => h

/-- The last transfer is to be continued, with this slave. -/
def Continues (h : History) (slave : BitVec 32 × AddrFmt) : Prop :=
  h.last = some ⟨I2C_STATUS_DONE, false, slave⟩

instance (h : History) (slave : BitVec 32 × AddrFmt) : Decidable (h.Continues slave) :=
  inferInstanceAs (Decidable (_ = _))

end History

/-- The calls of a list, one after the other. -/
def play : List Call → History → I2cM ρ H History
  | [], h => return h
  | c :: cs, h => do
      let o ← c.run D
      play cs (h.next c o)

/-- The driver's flags agree with what the caller knows. -/
structure Settled (h : History) (s : Dwc) : Prop where
  selected : h.selected = s.slave
  continues : s.active_no_stop = true ↔ ∃ slave, h.Continues slave
  active : ∀ slave, h.Continues slave → slave = s.active ∧
    s.seen.tar = some (targetOf slave.1 slave.2)

/-- What a call has to do: the commands `cmds` are written, and then it ends in `t` with `o`. -/
structure Obeys (h : History) (c : Call) (s : Dwc) (o : Outcome) (t : Dwc)
    (cmds : List Sent) : Prop where
  sent : t.seen.sent = s.seen.sent ++ cmds
  /-- It starts with a RESTART exactly if the last transfer is to be continued. -/
  restart : ∀ first ∈ cmds.head?, Has first.cmd DW_IC_DATA_CMD_RESTART ↔ ∃ slave, h.Continues slave
  /-- Then it addresses the slave of that transfer. -/
  same : ∀ slave, h.Continues slave → ∀ cmd ∈ cmds, slave = h.selected ∧
    cmd.tar = some (targetOf slave.1 slave.2)
  /-- For another slave it is refused. -/
  other : ∀ slave, h.Continues slave → slave ≠ h.selected → c.length ≠ 0 →
    o = .ended I2C_STATUS_BUSY ∧ cmds = [] ∧ s.seen.resets < t.seen.resets
  /-- Every command goes to the slave that is selected. -/
  target : ∀ cmd ∈ cmds, cmd.tar = some (targetOf h.selected.1 h.selected.2)

/-- The first command carries RESTART exactly if the transfer continues one. -/
theorem restart_first (s₀ : Dwc) :
    Has (command s₀ 0) DW_IC_DATA_CMD_RESTART ↔ s₀.restart = true := by
  have hbyte : ∀ b : Fin 256, BitVec.ofNat 32 b.val &&& DW_IC_DATA_CMD_RESTART = 0 := by
    decide +kernel
  have hb := hbyte ⟨(s₀.txbuf (s₀.txpos + 0)).toNat, (s₀.txbuf (s₀.txpos + 0)).toNat_lt⟩
  have hfirst : (0 = s₀.txlen ∧ s₀.txlen ≠ 0 ∨ s₀.restart = true ∧ 0 = 0) ↔ s₀.restart = true := by
    constructor
    · rintro (⟨h, hne⟩ | ⟨h, -⟩)
      · exact absurd h.symm hne
      · exact h
    · exact fun h => .inr ⟨h, rfl⟩
  have hdata : (if 0 < s₀.txlen then BitVec.ofNat 32 (s₀.txbuf (s₀.txpos + 0)).toNat |||
      DW_IC_DATA_CMD_WRITE else DW_IC_DATA_CMD_READ) &&& DW_IC_DATA_CMD_RESTART = 0 := by
    split
    · rw [BitVec.and_comm, BitVec.and_or_distrib_left, BitVec.and_comm, hb]
      decide
    · decide
  rw [Has, command, if_congr hfirst rfl rfl, BitVec.and_comm]
  simp only [BitVec.and_or_distrib_left]
  rw [BitVec.and_comm DW_IC_DATA_CMD_RESTART, hdata]
  by_cases hr : s₀.restart = true
  · simp only [hr, if_true, iff_true]
    split_ifs <;> decide
  · simp only [hr, Bool.false_eq_true, if_false, iff_false]
    split_ifs <;> decide

theorem commands_head {t₁ : Dwc} {w : ℕ} {first : Sent} (h : first ∈ (commands t₁ w).head?) :
    first.cmd = command t₁ 0 := by
  cases w with
  | zero => exact absurd h (by simp [commands])
  | succ w =>
      simp only [commands, List.range_succ_eq_map, List.map_cons, List.head?_cons,
        Option.mem_some_iff] at h
      rw [← h]

/-- All commands are under the target the transfer began with. -/
theorem commands_tar {t₁ : Dwc} {w : ℕ} {cmd : Sent} (h : cmd ∈ commands t₁ w) :
    cmd.tar = t₁.seen.tar := by
  obtain ⟨k, -, rfl⟩ := List.mem_map.mp h
  rfl

/-! ### What a run keeps -/

theorem frame_slave {s s' : Dwc} (h : s'.frame = s.frame) : s'.slave = s.slave := by
  have hs : s'.frame.slave = s.frame.slave := congrArg Dwc.slave h
  exact hs

theorem frame_active {s s' : Dwc} (h : s'.frame = s.frame) : s'.active = s.active := by
  have hs : s'.frame.active = s.frame.active := congrArg Dwc.active h
  exact hs

theorem frame_tar {s s' : Dwc} (h : s'.frame = s.frame) : s'.seen.tar = s.seen.tar := by
  have hs : s'.frame.seen.tar = s.frame.seen.tar := congrArg (fun d : Dwc => d.seen.tar) h
  exact hs

/-- The target is written, or is the one of the transfer that is continued. -/
theorem BusActive.tar {h : History} {s t : Dwc} (hact : BusActive s true t) (hs : Settled h s) :
    t.seen.tar = some (targetOf s.slave.1 s.slave.2) := by
  cases hact with
  | continued cont same =>
      obtain ⟨slave, hcont⟩ := hs.continues.mp cont
      obtain ⟨hactive, htar⟩ := hs.active slave hcont
      rw [same, ← hactive]
      exact htar
  | activated cont setUp cont' restart =>
      rw [← setUp.slave]
      rfl

/-- What was written obeys the history. -/
theorem Made.obeys {h : History} {c : Call} {s : Dwc} {ret : Status} {t : Dwc} (hs : Settled h s)
    (hm : Made s ret t) (hf : Fresh s) : ∃ cmds, Obeys h c s (.ended ret) t cmds := by
  -- both ways to write commands
  have hwrites : ∀ {t₁ : Dwc} {w : ℕ}, BusActive s true t₁ →
      t.seen.sent = t₁.seen.sent ++ commands t₁ w →
      Obeys h c s (.ended ret) t (commands t₁ w) := by
    intro t₁ w hact hsent
    have hb := hact.begun hf
    rw [hb.sent] at hsent
    have htar := hact.tar hs
    have hsame : ∀ slave, h.Continues slave → slave = h.selected := by
      intro slave hcont
      rw [(hs.active slave hcont).1, hs.selected]
      cases hact with
      | continued cont same => exact same.symm
      | activated cont setUp cont' restart =>
          have hcont' := hs.continues.mpr ⟨slave, hcont⟩
          rw [cont] at hcont'
          exact absurd hcont' Bool.false_ne_true
    have htarget : ∀ cmd ∈ commands t₁ w, cmd.tar = some (targetOf h.selected.1 h.selected.2) := by
      intro cmd hcmd
      rw [commands_tar hcmd, htar, hs.selected]
    refine ⟨hsent, fun first hfirst => ?_, fun slave hcont cmd hcmd => ?_, fun slave hcont hne =>
      ?_, htarget⟩
    · rw [commands_head hfirst, restart_first, hb.restart]
      exact hs.continues
    · have heq := hsame slave hcont
      exact ⟨heq, by rw [heq]; exact htarget cmd hcmd⟩
    · exact absurd (hsame slave hcont) hne
  cases hm with
  | refused cont other busy reset =>
      refine ⟨[], ?_, by simp, by simp, fun _ _ _ _ => ⟨by rw [busy], rfl, reset.resets⟩, by simp⟩
      rw [List.append_nil]
      exact reset.sent
  | failed cont busy notMade =>
      refine ⟨[], ?_, by simp, by simp, fun slave hcont => ?_, by simp⟩
      · rw [List.append_nil]
        exact notMade.sent
      · have hcont' := hs.continues.mpr ⟨slave, hcont⟩
        rw [cont] at hcont'
        exact absurd hcont' Bool.false_ne_true
  | made act exchanged =>
      cases exchanged with
      | done sent frame left cont => exact ⟨_, hwrites act sent⟩
      | broken sent frame setUp error cont => exact ⟨_, hwrites act sent⟩

/-- Afterwards the driver knows of a continuation exactly if there is one. -/
theorem Made.settled {h : History} {s : Dwc} {ret : Status} {t : Dwc} (hs : Settled h s)
    (hm : Made s ret t)
    (hf : Fresh s) : Settled { h with last := some ⟨ret, s.stop, h.selected⟩ } t := by
  -- nothing is to be continued
  have hover : t.slave = s.slave → t.active_no_stop = false → ret ≠ I2C_STATUS_DONE →
      Settled { h with last := some ⟨ret, s.stop, h.selected⟩ } t := by
    intro hslave hcont hne
    have hnot : ∀ slave, ¬ History.Continues { h with last := some ⟨ret, s.stop, h.selected⟩ }
        slave := by
      intro slave hc
      exact hne (congrArg Past.status (Option.some.inj hc))
    refine ⟨hs.selected.trans hslave.symm, ?_, fun slave hc => absurd hc (hnot slave)⟩
    rw [hcont]
    exact ⟨fun h => absurd h Bool.false_ne_true, fun ⟨slave, hc⟩ => absurd hc (hnot slave)⟩
  cases hm with
  | refused cont other busy reset =>
      exact hover reset.toSetUp.slave reset.no_continuation (by rw [busy]; decide)
  | failed cont busy notMade =>
      exact hover notMade.slave notMade.no_continuation (by rw [busy]; decide)
  | @made t₁ act exchanged =>
      have hb := act.begun hf
      rcases exchanged with ⟨sent, frame, left, cont⟩ | ⟨sent, frame, setUp, error, cont⟩
      swap
      · exact hover (setUp.slave.trans ((frame_slave frame).trans hb.slave)) cont error
      have hslave : t.slave = s.slave := by
        rw [left]
        exact (frame_slave frame).trans hb.slave
      refine ⟨hs.selected.trans hslave.symm, ?_, fun slave hc => ?_⟩
      · rw [cont, hb.stop]
        constructor
        · rintro ⟨hret, hstop⟩
          exact ⟨h.selected, by rw [History.Continues, hret, hstop]⟩
        · rintro ⟨slave, hc⟩
          exact ⟨congrArg Past.status (Option.some.inj hc), congrArg Past.stop (Option.some.inj hc)⟩
      · have hsel : h.selected = slave := congrArg Past.slave (Option.some.inj hc)
        rw [← hsel, hs.selected]
        constructor
        · rw [left]
          exact ((frame_active frame).trans hb.active).symm
        · rw [left]
          exact (frame_tar frame).trans (act.tar hs)

/-- The data that a transfer begins with. -/
structure Begins (c : Call) (s s' : Dwc) : Prop where
  fresh : Fresh s'
  stop : s'.stop = c.stop
  slave : s'.slave = s.slave
  active : s'.active = s.active
  continues : s'.active_no_stop = s.active_no_stop
  seen : s'.seen = s.seen

theorem Begins.settled {h : History} {c : Call} {s s' : Dwc} (hb : Begins c s s')
    (hs : Settled h s) :
    Settled h s' where
  selected := hs.selected.trans hb.slave.symm
  continues := by rw [hb.continues]; exact hs.continues
  active slave hc := by rw [hb.active, hb.seen]; exact hs.active slave hc

/-- A call that writes nothing. -/
theorem obeys_nothing {h : History} {c : Call} {s t : Dwc} {o : Outcome} (hlen : c.length = 0)
    (hsent : t.seen.sent = s.seen.sent) : ∃ cmds, Obeys h c s o t cmds := by
  refine ⟨[], ?_, by simp, by simp, fun _ _ _ hne => absurd hlen hne, by simp⟩
  rw [List.append_nil]
  exact hsent

theorem ended_nothing {h : History} {c : Call} {s t : Dwc} {status : Status} (hlen : c.length = 0)
    (hsent : t.seen.sent = s.seen.sent) (hs : Settled h t) :
    (∃ cmds, Obeys h c s (.ended status) t cmds) ∧ Settled (h.next c (.ended status)) t := by
  refine ⟨obeys_nothing hlen hsent, ?_⟩
  have hnext : h.next c (.ended status) = h := by
    cases c with
    | _ => rw [History.next, if_pos hlen]
  rw [hnext]
  exact hs

/-- A call with bytes to move. -/
theorem transfer_settled {h : History} {c : Call} {s s' : Dwc} (hs : Settled h s)
    (hb : Begins c s s') (hlen : c.length ≠ 0) (rounds : ℕ) :
    Soft (fun t => t = s') (transfer D rounds) fun ret t =>
      (∃ cmds, Obeys h c s (.ended ret) t cmds) ∧ Settled (h.next c (.ended ret)) t := by
  refine (transfer_spec D hb.fresh rounds).post fun ret t ht => ?_
  have hs' := hb.settled hs
  constructor
  · obtain ⟨cmds, ho⟩ := ht.obeys (c := c) hs' hb.fresh
    refine ⟨cmds, ?_, ho.restart, ho.same, ?_, ho.target⟩
    · rw [← hb.seen]
      exact ho.sent
    · rw [← hb.seen]
      exact ho.other
  · have hnext : h.next c (.ended ret) = { h with last := some ⟨ret, c.stop, h.selected⟩ } := by
      cases c with
      | set_slave_addr addr fmt => exact absurd rfl hlen
      | _ => exact if_neg hlen
    rw [hnext, ← hb.stop]
    exact ht.settled hs' hb.fresh

/-- What `dwc_i2c_set_slave_addr` can do: the mode keeps its speed. -/
def SlaveSet (addr : BitVec 32) (fmt : AddrFmt) (s : Dwc) (ok : Bool) (t : Dwc) : Prop :=
  ok = false ∧ t = s ∨
  ok = true ∧ ∃ cfg, cfg &&& DW_IC_CON_SPEED_MASK = s.master_cfg &&& DW_IC_CON_SPEED_MASK ∧
    t = { s with master_cfg := cfg, slave_addr := addr, slave_addr_fmt := fmt }

/-- A slave is selected, or its address is refused. -/
theorem set_slave_addr_spec (addr : BitVec 32) (fmt : AddrFmt) (s : Dwc) :
    Soft (fun t => t = s) (dwc_i2c_set_slave_addr addr fmt : I2cM ρ H Bool)
      (SlaveSet addr fmt s) := by
  have hbad : Soft (fun t => t = s) (pure false : I2cM ρ H Bool) (SlaveSet addr fmt s) :=
    Soft.pure fun t ht => .inl ⟨rfl, ht⟩
  have hgood : ∀ f : BitVec 32 → BitVec 32,
      (∀ cfg, f cfg &&& DW_IC_CON_SPEED_MASK = cfg &&& DW_IC_CON_SPEED_MASK) →
      Soft (fun t => t = s) (do
        update fun dev => {
          dev with master_cfg := f dev.master_cfg, slave_addr := addr, slave_addr_fmt := fmt }
        return true : I2cM ρ H Bool) (SlaveSet addr fmt s) := by
    intro f hspeed
    refine Soft.bind (Q := fun _ => SlaveSet addr fmt s true) (Soft.update ?_) fun _ =>
      Soft.pure fun t ht => ht
    rintro t rfl
    exact .inr ⟨rfl, f t.master_cfg, hspeed _, rfl⟩
  cases fmt with
  | other => exact hbad
  | bit7 =>
      refine Soft.ite (fun _ => hbad) fun _ =>
        hgood (fun cfg => cfg &&& ~~~DW_IC_CON_10BITADDR_MASTER) fun cfg => ?_
      rw [BitVec.and_assoc, show ~~~DW_IC_CON_10BITADDR_MASTER &&& DW_IC_CON_SPEED_MASK =
        DW_IC_CON_SPEED_MASK by decide]
  | bit10 =>
      refine Soft.ite (fun _ => hbad) fun _ =>
        hgood (fun cfg => cfg ||| DW_IC_CON_10BITADDR_MASTER) fun cfg => ?_
      rw [BitVec.and_comm, BitVec.and_or_distrib_left,
        show DW_IC_CON_SPEED_MASK &&& DW_IC_CON_10BITADDR_MASTER = 0#32 by decide, BitVec.or_zero,
        BitVec.and_comm]

/-- **A call** does what it has to, and the flags agree with what the caller knows. -/
theorem run_spec {h : History} {c : Call} {s : Dwc} (hc : c.Fits) (hs : Settled h s) :
    Soft (fun t => t = s) (c.run D) fun o t =>
      (∃ cmds, Obeys h c s o t cmds) ∧ Settled (h.next c o) t := by
  cases c with
  | set_slave_addr addr fmt =>
      refine Soft.bind (set_slave_addr_spec addr fmt s) fun ok => Soft.pure ?_
      rintro t (⟨rfl, rfl⟩ | ⟨rfl, cfg, -, rfl⟩)
      · exact ⟨obeys_nothing rfl rfl, hs⟩
      · exact ⟨obeys_nothing rfl rfl, rfl, hs.continues, hs.active⟩
  | send rounds buf len stop =>
      refine Soft.bind (Q := fun ret t =>
        (∃ cmds, Obeys h (.send rounds buf len stop) s (.ended ret) t cmds) ∧
        Settled (h.next (.send rounds buf len stop) (.ended ret)) t) ?_ fun ret =>
          Soft.pure fun t ht => ht
      refine Soft.ite (fun hlen => Soft.pure ?_) fun hlen => ?_
      · rintro t rfl
        exact ended_nothing hlen rfl hs
      · have hf := fresh_begin s len 0 stop hc
        have hb : Begins (.send rounds buf len stop) s
            { s.begin len 0 stop with txbuf := buf, txpos := 0 } :=
          ⟨⟨hf.xlen, hf.fits, hf.wrlen, hf.rdlen, hf.status⟩, rfl, rfl, rfl, rfl, rfl⟩
        refine Soft.bind (Soft.update ?_) fun _ => transfer_settled D hs hb hlen rounds
        rintro t rfl
        rfl
  | recv rounds len stop =>
      refine Soft.bind (Q := fun ret t =>
        (∃ cmds, Obeys h (.recv rounds len stop) s (.ended ret) t cmds) ∧
        Settled (h.next (.recv rounds len stop) (.ended ret)) t) ?_ fun ret =>
          Soft.pure fun t ht => ht
      refine Soft.ite (fun hlen => Soft.pure ?_) fun hlen => ?_
      · rintro t rfl
        exact ended_nothing hlen rfl hs
      · have hf := fresh_begin s 0 len stop ((Nat.zero_add len).trans_lt hc)
        have hb : Begins (.recv rounds len stop) s { s.begin 0 len stop with rxbuf := [] } :=
          ⟨⟨hf.xlen, hf.fits, hf.wrlen, hf.rdlen, hf.status⟩, rfl, rfl, rfl, rfl, rfl⟩
        refine Soft.bind (Soft.update ?_) fun _ => transfer_settled D hs hb hlen rounds
        rintro t rfl
        rfl
  | sendrecv rounds txbuf txlen rxlen stop =>
      have hfits : txlen + rxlen < 2 ^ 32 := hc
      refine Soft.bind (Q := fun ret t =>
        (∃ cmds, Obeys h (.sendrecv rounds txbuf txlen rxlen stop) s (.ended ret) t cmds) ∧
        Settled (h.next (.sendrecv rounds txbuf txlen rxlen stop) (.ended ret)) t) ?_ fun ret =>
          Soft.pure fun t ht => ht
      refine Soft.ite (fun hbig => absurd hbig (by omega)) fun _ => ?_
      refine Soft.bind (Q := fun _ t =>
        t = { s.begin txlen rxlen stop with txbuf := txbuf, txpos := 0, rxbuf := [] })
        (Soft.update ?_) fun _ => Soft.ite (fun hlen => Soft.pure ?_) fun hlen => ?_
      · rintro t rfl
        rfl
      · rintro t rfl
        exact ended_nothing hlen rfl ⟨hs.selected, hs.continues, hs.active⟩
      · have hf := fresh_begin s txlen rxlen stop hfits
        have hb : Begins (.sendrecv rounds txbuf txlen rxlen stop) s
            { s.begin txlen rxlen stop with txbuf := txbuf, txpos := 0, rxbuf := [] } :=
          ⟨⟨hf.xlen, hf.fits, hf.wrlen, hf.rdlen, hf.status⟩, rfl, rfl, rfl, rfl, rfl⟩
        exact transfer_settled D hs hb hlen rounds

/-- So does any sequence of calls. -/
theorem play_settled (cs : List Call) (hcs : ∀ c ∈ cs, c.Fits) :
    ∀ {h : History} {s : Dwc}, Settled h s →
    Soft (fun t => t = s) (play D cs h) fun h' t => Settled h' t := by
  induction cs with
  | nil =>
      intro h s hs
      exact Soft.pure fun t ht => ht ▸ hs
  | cons c cs ih =>
      intro h s hs
      refine Soft.bind (run_spec D (hcs c (List.mem_cons_self ..)) hs) fun o =>
        Soft.at fun t ht => ?_
      exact ih (fun c hc => hcs c (List.mem_cons_of_mem _ hc)) ht.2

/-- **Runs of transfers**: after any calls, with any outcomes, a transfer starts with a RESTART
exactly if the last one is to be continued; it is then to the same slave, or refused, with a reset;
and every command goes to the slave that is selected. -/
theorem restart_run (cs : List Call) (hcs : ∀ c ∈ cs, c.Fits) (c : Call) (hc : c.Fits) (a : ℕ → ρ)
    (g : Rig Dwc H) (n : ℕ) (hstart : g.soft.active_no_stop = false) :
    let r := play D cs { selected := g.soft.slave } a (g, n)
    let r' := c.run D a r.2
    ∃ cmds, Obeys r.1 c r.2.1.soft r'.1 r'.2.1.soft cmds := by
  have hfirst : Settled { selected := g.soft.slave } g.soft := by
    refine ⟨rfl, ?_, fun slave hc => nomatch hc⟩
    rw [hstart]
    exact ⟨fun h => absurd h Bool.false_ne_true, fun ⟨slave, hc⟩ => nomatch hc⟩
  have hplayed := play_settled D cs hcs hfirst a g n rfl
  exact (run_spec D hc hplayed a _ _ rfl).1

/-- A controller whose FIFO takes every command; it is enabled and disabled within four accesses. -/
def obliging : ℕ → Reg → BitVec 32 := fun n r =>
  match r with
  | .intr_stat => DW_IC_INTR_TX_EMPTY
  | .status => DW_IC_STATUS_TFNF ||| DW_IC_STATUS_TFE
  | .enable_status =>
      if n / 4 % 2 = 0 then DW_IC_ENABLE_STATUS_DISABLE else DW_IC_ENABLE_STATUS_ENABLE
  | .comp_type => DW_IC_COMP_TYPE_VALUE
  | _ => 0

/-- A slave is selected, and a byte sent to it without STOP. -/
def byteSent : List Call := [.set_slave_addr 0x50 .bit7, .send 1 (fun _ => 7) 1 false]

/-- The driver is started. -/
def started : Rig Dwc Unit := ⟨idle, ()⟩

/-- The next transfer continues, with a RESTART. -/
theorem restart_run_two :
    (play registers byteSent { selected := started.soft.slave } obliging (started, 0)).1.Continues
      (0x50, .bit7) ∧
    let r := play registers byteSent { selected := started.soft.slave } obliging (started, 0)
    let r' := (Call.recv 1 1 true).run registers obliging r.2
    ∃ cmds, Obeys r.1 (.recv 1 1 true) r.2.1.soft r'.1 r'.2.1.soft cmds ∧
      ∃ first ∈ cmds.head?, Has first.cmd DW_IC_DATA_CMD_RESTART := by
  have hcont : (play registers byteSent { selected := started.soft.slave } obliging
      (started, 0)).1.Continues (0x50, .bit7) := by decide +kernel
  -- one command was written before, and two are there in the end
  have hbefore : (play registers byteSent { selected := started.soft.slave } obliging
      (started, 0)).2.1.soft.seen.sent.length = 1 := by decide +kernel
  have hafter : ((Call.recv 1 1 true).run registers obliging
      (play registers byteSent { selected := started.soft.slave } obliging
        (started, 0)).2).2.1.soft.seen.sent.length
      = 2 := by decide +kernel
  obtain ⟨cmds, hobeys⟩ :=
    restart_run registers byteSent (by decide) (.recv 1 1 true) (by decide) obliging started 0 rfl
  refine ⟨hcont, cmds, hobeys, ?_⟩
  have hlen := congrArg List.length hobeys.sent
  rw [List.length_append] at hlen
  cases cmds with
  | nil => exact absurd (hafter.symm.trans (hlen.trans hbefore)) (by decide)
  | cons first rest => exact ⟨first, rfl, (hobeys.restart first rfl).mpr ⟨_, hcont⟩⟩

end I2c
