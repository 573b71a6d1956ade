import RpiBsp.I2c.Frame

/-!
# I2c — one transfer

The interrupt handler over one transfer, from the state in which the lengths are set to the return
of `dwc_i2c_wait_complete`.

* `command` — the commands a transfer consists of.
* `Sending` — what was written is the first of them, and what was read is stored; this holds
  whatever the registers say.
* `Counting` — no more is stored than was asked for, for the levels a FIFO can have.
* `transfer_run` — the two together, and that a transfer is done only when it is complete, unless
  a STOP is seen early.
* `stop_seen_early` — a send that is cut short, and reported as done.
-/

namespace I2c

open Support Driver

/-- The state in which a transfer starts. -/
structure Fresh (s : Dwc) : Prop where
  xlen : s.xlen = s.txlen + s.rxlen
  fits : s.txlen + s.rxlen < 2 ^ 32
  wrlen : s.wrlen = 0
  rdlen : s.rdlen = 0
  status : s.status = {}

/-- Command `k` of the transfer that starts in `s₀`: the bytes to send, then the reads; RESTART on
the first read behind a write, and on the first command of a continuation; STOP on the last
command. -/
def command (s₀ : Dwc) (k : ℕ) : BitVec 32 :=
  (if k < s₀.txlen then BitVec.ofNat 32 (s₀.txbuf (s₀.txpos + k)).toNat ||| DW_IC_DATA_CMD_WRITE
    else DW_IC_DATA_CMD_READ) |||
  (if k = s₀.txlen ∧ s₀.txlen ≠ 0 ∨ s₀.restart ∧ k = 0 then DW_IC_DATA_CMD_RESTART else 0) |||
  (if s₀.stop ∧ k + 1 = s₀.xlen then DW_IC_DATA_CMD_STOP else 0)

/-- The first `n` commands, as they are seen. -/
def commands (s₀ : Dwc) (n : ℕ) : List Sent :=
  (List.range n).map fun k => ⟨command s₀ k, s₀.seen.tar, s₀.seen.con⟩

theorem commands_succ (s₀ : Dwc) (n : ℕ) :
    commands s₀ (n + 1) = commands s₀ n ++ [⟨command s₀ n, s₀.seen.tar, s₀.seen.con⟩] := by
  simp [commands, List.range_succ]

/-- The byte in a word that was read. -/
def lowByte (v : BitVec 32) : UInt8 := UInt8.ofNat (v &&& 0x00ff).toNat

/-! ### What is written -/

/-- The commands so far are the first ones of the transfer, and the bytes that were read are stored
in their order. -/
structure Sending (s₀ s : Dwc) : Prop where
  txbuf : s.txbuf = s₀.txbuf
  txlen : s.txlen = s₀.txlen
  rxlen : s.rxlen = s₀.rxlen
  xlen : s.xlen = s₀.xlen
  stop : s.stop = s₀.stop
  restart : s.restart = s₀.restart
  tar : s.seen.tar = s₀.seen.tar
  con : s.seen.con = s₀.seen.con
  wrlen : s.wrlen ≤ s₀.xlen
  txpos : s.txpos = s₀.txpos + min s.wrlen s₀.txlen
  sent : s.seen.sent = s₀.seen.sent ++ commands s₀ s.wrlen
  stored : ∃ words, s.seen.got = s₀.seen.got ++ words ∧ s.rxbuf = s₀.rxbuf ++ words.map lowByte

theorem Sending.start {s₀ : Dwc} (h : Fresh s₀) : Sending s₀ s₀ where
  txbuf := rfl
  txlen := rfl
  rxlen := rfl
  xlen := rfl
  stop := rfl
  restart := rfl
  tar := rfl
  con := rfl
  wrlen := by rw [h.wrlen]; exact Nat.zero_le _
  txpos := by rw [h.wrlen, Nat.zero_min]; rfl
  sent := by rw [h.wrlen]; exact (List.append_nil _).symm
  stored := ⟨[], (List.append_nil _).symm, (List.append_nil _).symm⟩

/-- The code's command is the one of the transfer. -/
theorem nextCmd_eq {s₀ s : Dwc} (h : Sending s₀ s) (hlt : s.wrlen < s₀.xlen) :
    nextCmd s = command s₀ s.wrlen := by
  have hlast : s.wrlen = s₀.xlen - 1 ↔ s.wrlen + 1 = s₀.xlen := by omega
  have hpos := h.txpos
  simp only [nextCmd, command, h.txbuf, h.txlen, h.xlen, h.stop, h.restart, hlast]
  by_cases hw : s.wrlen < s₀.txlen
  · have hne : s.wrlen ≠ s₀.txlen := Nat.ne_of_lt hw
    rw [Nat.min_eq_left (Nat.le_of_lt hw)] at hpos
    simp only [hw, hpos, hne, if_true, false_and, false_or]
    have hswap : ∀ x : BitVec 32, x ||| DW_IC_DATA_CMD_STOP ||| DW_IC_DATA_CMD_RESTART =
        x ||| DW_IC_DATA_CMD_RESTART ||| DW_IC_DATA_CMD_STOP := fun x => by
      rw [BitVec.or_assoc, BitVec.or_comm DW_IC_DATA_CMD_STOP, ← BitVec.or_assoc]
    split_ifs <;> simp [hswap]
  · simp only [hw, if_false]
    by_cases heq : s.wrlen = s₀.txlen ∧ s₀.txlen ≠ 0
    · obtain ⟨heq, hne⟩ := heq
      simp only [heq, hne, ne_eq, not_false_eq_true, and_self, if_true, true_or, and_false,
        if_false]
      split_ifs <;> decide
    · simp only [heq, if_false, false_or]
      split_ifs <;> decide

/-! ### The handler sends what it should -/

section Send

variable {ρ H : Type} (D : Device ρ Reg H) {s₀ : Dwc}

/-- A change of the driver's data that `Sending` does not look at. -/
theorem Sending.of_eq {s s' : Dwc} (h : Sending s₀ s)
    (heq : s' = { s with
      status := s'.status, abort_source := s'.abort_source, rdlen := s'.rdlen }) :
        Sending s₀ s' := by
  rw [heq]
  exact ⟨h.txbuf, h.txlen, h.rxlen, h.xlen, h.stop, h.restart, h.tar, h.con, h.wrlen, h.txpos,
    h.sent, h.stored⟩

theorem readByte_sending : Stays (Sending s₀) (readByte D) := by
  refine Soft.at fun s h => ?_
  refine Soft.bind (Q := fun v t => t = { s with seen := { s.seen with got := s.seen.got ++ [v] } })
    ?_ fun v => ?_
  · refine Soft.bind (Q := fun _ t => t = s) (Soft.read32 fun _ _ h => h) fun v => ?_
    refine Soft.bind (Q := fun _ t =>
      t = { s with seen := { s.seen with got := s.seen.got ++ [v] } })
      (Soft.update ?_) fun _ => Soft.pure fun _ h => h
    rintro t rfl
    rfl
  · refine Soft.update ?_
    rintro t rfl
    obtain ⟨words, hgot, hrx⟩ := h.stored
    refine ⟨h.txbuf, h.txlen, h.rxlen, h.xlen, h.stop, h.restart, h.tar, h.con, h.wrlen, h.txpos,
      h.sent, ?_⟩
    refine ⟨words ++ [v], ?_, ?_⟩
    · change s.seen.got ++ [v] = _
      rw [hgot, List.append_assoc]
    · change s.rxbuf ++ [lowByte v] = _
      rw [hrx, List.map_append, List.append_assoc]
      rfl

theorem readBytes_sending (n : ℕ) : Stays (Sending s₀) (readBytes D n) := by
  induction n with
  | zero => exact .pure _
  | succ n ih => exact Stays.bind (readByte_sending D) fun _ => ih

theorem onAbort_sending : Stays (Sending s₀) (onAbort D) := by
  refine Stays.bind (reg_read_stays D (by decide)) fun v => ?_
  refine Stays.bind (reg_read_stays D (by decide)) fun _ => ?_
  exact Stays.bind (.update fun s h => h.of_eq rfl) fun _ => reg_write_stays D (by decide) _

theorem onStop_sending : Stays (Sending s₀) (onStop D) := by
  refine Stays.bind (reg_read_stays D (by decide)) fun _ => ?_
  refine Stays.bind (Stays.bind .soft fun dev => Stays.ite ?_ (.pure _)) fun _ => ?_
  · refine Stays.bind (reg_read_stays D (by decide)) fun v => ?_
    exact Stays.ite (.update fun s h => h.of_eq rfl) (readBytes_sending D _)
  · exact Stays.bind (.update fun s h => h.of_eq rfl) fun _ => reg_write_stays D (by decide) _

theorem onRxFull_sending : Stays (Sending s₀) (onRxFull D) := by
  refine Stays.bind .soft fun dev => Stays.ite ?_ (maskOff_stays D _)
  refine Stays.bind (reg_read_stays D (by decide)) fun v => Stays.ite ?_ (readBytes_sending D _)
  refine Stays.bind (.update fun s h => h.of_eq rfl) fun _ => ?_
  exact Stays.bind (maskOff_stays D _) fun _ => readBytes_sending D _

/-- A command is written. -/
theorem Sending.step {s : Dwc} (h : Sending s₀ s) (hlt : s.wrlen < s₀.xlen) :
    Sending s₀ { s with
      seen := s.seen.write .data_cmd (nextCmd s)
      txpos := if s.wrlen < s.txlen then s.txpos + 1 else s.txpos
      wrlen := s.wrlen + 1 } := by
  have hcmd := nextCmd_eq h hlt
  have hsent : s.seen.sent ++ [⟨nextCmd s, s.seen.tar, s.seen.con⟩] =
      s₀.seen.sent ++ commands s₀ (s.wrlen + 1) := by
    rw [h.sent, h.tar, h.con, hcmd, commands_succ, List.append_assoc]
  refine ⟨h.txbuf, h.txlen, h.rxlen, h.xlen, h.stop, h.restart, h.tar, h.con, hlt, ?_, hsent,
    h.stored⟩
  have htx := h.txpos
  dsimp only
  rw [h.txlen]
  split
  · rw [htx, Nat.min_eq_left (by omega), Nat.min_eq_left (by omega), Nat.add_assoc]
  · rw [htx, Nat.min_eq_right (by omega), Nat.min_eq_right (by omega)]

theorem fillLoop_sending (n : ℕ) : Stays (Sending s₀) (fillLoop D n) := by
  induction n with
  | zero => exact .pure _
  | succ n ih =>
      refine Soft.soft_bind fun s h => ?_
      refine Soft.ite (fun _ => ?_) fun hlt => ?_
      · refine (show Stays (Sending s₀) _ from ?_).pre fun t ht => ht ▸ h
        refine Stays.ite (maskOff_stays D _) (Stays.bind (reg_read_stays D (by decide)) fun v => ?_)
        exact .doIf (maskOff_stays D _)
      · refine Soft.bind (Q := fun _ t => t = s) (Stays.bind (reg_read_stays D (by decide)) fun v =>
          .pure _) fun full => ?_
        refine Soft.ite (fun _ => Soft.pure fun t ht => ht ▸ h) fun _ => ?_
        refine Soft.bind (Q := fun _ t => t = { s with seen := s.seen.write .data_cmd (nextCmd s) })
          ?_ fun _ => ?_
        · refine Soft.bind (Q := fun _ t => t = s) (Soft.write32 fun _ ht => ht) fun _ =>
            Soft.update ?_
          rintro t rfl
          rfl
        · refine Soft.bind (Q := fun _ => Sending s₀) (Soft.update ?_) fun _ => ih
          rintro t rfl
          exact h.step (by rw [h.xlen] at hlt; omega)

theorem drainLoop_sending (n : ℕ) : Stays (Sending s₀) (drainLoop D n) := by
  induction n with
  | zero => exact .pure _
  | succ n ih =>
      refine Stays.bind (reg_read_stays D (by decide)) fun v => ?_
      exact Stays.ite (Stays.bind (readByte_sending D) fun _ => ih) (.pure _)

theorem onNoStop_sending : Stays (Sending s₀) (onNoStop D) := by
  refine Stays.bind .soft fun dev => Stays.bind (drainLoop_sending D _) fun _ => ?_
  refine Stays.bind .soft fun dev =>
    Stays.ite (Stays.bind (reg_read_stays D (by decide)) fun v => ?_) (.pure _)
  refine Stays.ite (Stays.bind (.update fun s h => h.of_eq rfl) fun _ => ?_) (.pure _)
  exact Stays.bind (reg_write_stays D (by decide) _) fun _ => .pure _

theorem onData_sending (status : BitVec 32) : Stays (Sending s₀) (onData D status) := by
  refine Stays.bind (.doIf (onRxFull_sending D)) fun _ => ?_
  refine Stays.bind (.doIf (Stays.bind .soft fun dev => fillLoop_sending D _)) fun _ => ?_
  exact Stays.bind .soft fun dev => Stays.ite (.pure _) (onNoStop_sending D)

/-- **The handler** writes the commands of the transfer in their order, whatever it reads. -/
theorem process_intr_sending : Stays (Sending s₀) (dwc_i2c_process_intr D) := by
  refine Stays.bind (reg_read_stays D (by decide)) fun status => ?_
  refine Stays.ite (Stays.bind (onAbort_sending D) fun _ => .pure _) ?_
  exact Stays.ite (Stays.bind (onStop_sending D) fun _ => .pure _) (onData_sending D status)

/-- What is left of a transfer after the controller was reset. -/
structure Carried (s₀ s : Dwc) : Prop where
  wrlen : s.wrlen ≤ s₀.xlen
  sent : s.seen.sent = s₀.seen.sent ++ commands s₀ s.wrlen
  stored : ∃ words, s.seen.got = s₀.seen.got ++ words ∧ s.rxbuf = s₀.rxbuf ++ words.map lowByte

theorem Sending.carried {s : Dwc} (h : Sending s₀ s) : Carried s₀ s := ⟨h.wrlen, h.sent, h.stored⟩

theorem SetUp.wrlen {s s' : Dwc} (h : SetUp s s') : s'.wrlen = s.wrlen := by
  have hw : s'.core.wrlen = s.core.wrlen := congrArg Dwc.wrlen h.core
  exact hw

theorem SetUp.rxbuf {s s' : Dwc} (h : SetUp s s') : s'.rxbuf = s.rxbuf := by
  have hr : s'.core.rxbuf = s.core.rxbuf := congrArg Dwc.rxbuf h.core
  exact hr

theorem SetUp.rdlen {s s' : Dwc} (h : SetUp s s') : s'.rdlen = s.rdlen := by
  have hr : s'.core.rdlen = s.core.rdlen := congrArg Dwc.rdlen h.core
  exact hr

theorem SetUp.status {s s' : Dwc} (h : SetUp s s') : s'.status = s.status := by
  have hr : s'.core.status = s.core.status := congrArg Dwc.status h.core
  exact hr

/-- What `dwc_i2c_wait_complete` does once the handler is done: a transfer that is done leaves no
reset. -/
theorem finish_spec (s : Dwc) :
    Soft (fun t => t = s) (do
      let dev ← soft
      doIf (dev.status.arbl ∨ dev.status.error) (dwc_i2c_reset D)
      i2c_reg_write32 D .intr_mask 0
      let dev ← soft
      return dev.status) fun ret t => ret = s.status ∧
      (t = s ∨ WasReset s t ∧ ret ≠ I2C_STATUS_DONE) := by
  refine Soft.soft_bind fun dev hdev => ?_
  refine Soft.bind (Q := fun _ t => t = s ∨ WasReset s t ∧ s.status ≠ I2C_STATUS_DONE) ?_
    fun _ => ?_
  · rw [hdev]
    refine Soft.doIf (fun hbad => (dwc_i2c_reset_spec D s).post fun _ _ h =>
      .inr ⟨h, fun hdone => ?_⟩) fun _ t ht => .inl ht
    rw [hdone] at hbad
    exact absurd hbad (by decide)
  · refine Soft.bind (reg_write_stays D (by decide) _) fun _ => Soft.soft_bind fun t ht =>
      Soft.pure ?_
    rintro u rfl
    rcases ht with rfl | ⟨hreset, hne⟩
    · exact ⟨rfl, .inl rfl⟩
    · have hstatus := hreset.toSetUp.status
      exact ⟨hstatus, .inr ⟨hreset, by rw [hstatus]; exact hne⟩⟩

theorem Carried.setUp {s s' : Dwc} (h : Carried s₀ s) (hs : SetUp s s') : Carried s₀ s' where
  wrlen := hs.wrlen.trans_le h.wrlen
  sent := by
    rw [hs.sent, hs.wrlen]
    exact h.sent
  stored := by
    rw [hs.got, hs.rxbuf]
    exact h.stored

theorem reset_carried : Stays (Carried s₀) (dwc_i2c_reset D) :=
  Soft.at fun s h => (dwc_i2c_reset_spec D s).post fun _ _ hs => h.setUp hs.toSetUp

theorem wait_complete_carried (rounds : ℕ) :
    Soft (Sending s₀) (dwc_i2c_wait_complete D rounds) fun _ => Carried s₀ := by
  induction rounds with
  | zero =>
      refine Soft.bind (reg_read_stays D (by decide)) fun _ => ?_
      refine Soft.bind ((reset_carried D).pre fun s h => h.carried) fun _ => ?_
      exact Soft.pure fun _ h => h
  | succ rounds ih =>
      refine Soft.bind (process_intr_sending D) fun handled => ?_
      cases handled with
      | eagain => exact ih
      | eok =>
          refine Soft.pre (P := Carried s₀) ?_ fun s h => h.carried
          refine Stays.bind .soft fun dev => Stays.bind (.doIf (reset_carried D)) fun _ => ?_
          refine Stays.bind (reg_write_stays D (by decide) _) fun _ => ?_
          exact Stays.bind .soft fun dev => .pure _

end Send

/-! ### What is stored -/

/-- The driver's data with words that were read. -/
def Dwc.storing (s : Dwc) (words : List (BitVec 32)) : Dwc := { s with
  rxbuf := s.rxbuf ++ words.map lowByte
  rdlen := s.rdlen + words.length
  seen := { s.seen with got := s.seen.got ++ words } }

theorem storing_nil (s : Dwc) : s.storing [] = s := by
  simp [Dwc.storing]

theorem storing_cons (s : Dwc) (v : BitVec 32) (words : List (BitVec 32)) :
    (s.storing [v]).storing words = s.storing (v :: words) := by
  simp only [Dwc.storing, List.map_cons, List.map_nil, List.append_assoc, List.singleton_append,
    List.length_cons, List.length_nil, Nat.zero_add]
  rw [show s.rdlen + 1 + words.length = s.rdlen + (words.length + 1) by omega]

section Store

variable {ρ H : Type} (D : Device ρ Reg H) {s₀ : Dwc}

theorem readByte_spec {s : Dwc} (hlt : s.rdlen + 1 < 2 ^ 32) :
    Soft (fun t => t = s) (readByte D) fun _ t => ∃ v, t = s.storing [v] := by
  refine Soft.bind (Q := fun v t => t = { s with seen := { s.seen with got := s.seen.got ++ [v] } })
    ?_ fun v => ?_
  · refine Soft.bind (Q := fun _ t => t = s) (Soft.read32 fun _ _ h => h) fun v => ?_
    refine Soft.bind (Q := fun _ t =>
      t = { s with seen := { s.seen with got := s.seen.got ++ [v] } })
      (Soft.update ?_) fun _ => Soft.pure fun _ h => h
    rintro t rfl
    rfl
  · refine Soft.update ?_
    rintro t rfl
    refine ⟨v, ?_⟩
    simp only [Dwc.storing, addW_of_lt hlt, List.map_cons, List.map_nil, lowByte,
      List.length_singleton]

theorem readBytes_spec (n : ℕ) : ∀ {s : Dwc}, s.rdlen + n < 2 ^ 32 →
    Soft (fun t => t = s) (readBytes D n) fun _ t => ∃ words :
      List (BitVec 32), words.length = n ∧ t = s.storing words := by
  induction n with
  | zero =>
      intro s _
      exact Soft.pure fun t ht => ⟨[], rfl, by rw [storing_nil]; exact ht⟩
  | succ n ih =>
      intro s hlt
      refine Soft.bind (readByte_spec D (by omega)) fun _ => Soft.at ?_
      rintro t ⟨v, rfl⟩
      refine (ih (show s.rdlen + 1 + n < 2 ^ 32 by omega)).post ?_
      rintro _ t ⟨words, hlen, rfl⟩
      exact ⟨v :: words, by rw [List.length_cons, hlen], storing_cons s v words⟩

theorem drainLoop_spec (n : ℕ) : ∀ {s : Dwc}, s.rdlen + n < 2 ^ 32 →
    Soft (fun t => t = s) (drainLoop D n) fun _ t => ∃ words :
      List (BitVec 32), words.length ≤ n ∧ t = s.storing words := by
  induction n with
  | zero =>
      intro s _
      exact Soft.pure fun t ht => ⟨[], Nat.le_refl 0, by rw [storing_nil]; exact ht⟩
  | succ n ih =>
      intro s hlt
      refine Soft.bind (reg_read_stays D (by decide)) fun v => ?_
      refine Soft.ite (fun _ => ?_) fun _ => Soft.pure fun t ht =>
        ⟨[], Nat.zero_le _, by rw [storing_nil]; exact ht⟩
      refine Soft.bind (readByte_spec D (by omega)) fun _ => Soft.at ?_
      rintro t ⟨v, rfl⟩
      refine (ih (show s.rdlen + 1 + n < 2 ^ 32 by omega)).post ?_
      rintro _ t ⟨words, hlen, rfl⟩
      exact ⟨v :: words, by rw [List.length_cons]; omega, storing_cons s v words⟩

/-- As many bytes are stored as were counted, and no more than were asked for. -/
structure Counting (s₀ s : Dwc) : Prop where
  xlen : s.xlen = s₀.xlen
  rxlen : s.rxlen = s₀.rxlen
  rdlen : s.rdlen ≤ s₀.rxlen
  stored : s.rxbuf.length = s₀.rxbuf.length + s.rdlen

theorem Counting.storing {s : Dwc} (h : Counting s₀ s) {words : List (BitVec 32)}
    (hle : s.rdlen + words.length ≤ s₀.rxlen) : Counting s₀ (s.storing words) where
  xlen := h.xlen
  rxlen := h.rxlen
  rdlen := hle
  stored := by
    change (s.rxbuf ++ words.map lowByte).length = s₀.rxbuf.length + (s.rdlen + words.length)
    rw [List.length_append, List.length_map, h.stored, Nat.add_assoc]

/-- Nothing but an error was noted. -/
def Open (s : Dwc) : Prop := s.status = { error := s.status.error }

/-- A transfer that is under way. -/
def Going (s₀ s : Dwc) : Prop := Counting s₀ s ∧ Open s

/-- What a call of the handler leaves. -/
structure Left (s₀ : Dwc) (handled : Handled) (s : Dwc) : Prop where
  counting : Counting s₀ s
  again : handled = .eagain → Open s
  complete : handled = .eok → s.status = I2C_STATUS_DONE → s₀.xlen ≤ s.wrlen ∧ s₀.rxlen ≤ s.rdlen

theorem Going.again {s : Dwc} (h : Going s₀ s) : Left s₀ .eagain s :=
  ⟨h.1, fun _ => h.2, fun h => nomatch h⟩

/-- Reading bytes that were asked for. -/
theorem readBytes_going (hfits : s₀.rxlen < 2 ^ 32) {n : ℕ} :
    Soft (fun s => Going s₀ s ∧ s.rdlen + n ≤ s₀.rxlen) (readBytes D n) fun _ => Going s₀ := by
  refine Soft.at fun s h => ?_
  obtain ⟨⟨hcount, hopen⟩, hle⟩ := h
  refine (readBytes_spec D n (by omega)).post ?_
  rintro _ t ⟨words, hlen, rfl⟩
  exact ⟨hcount.storing (by omega), hopen⟩

/-- Filling the FIFO stores nothing. -/
theorem fillLoop_going (n : ℕ) : Stays (Going s₀) (fillLoop D n) :=
  fillLoop_stays D (fun _ _ h => ⟨⟨h.1.xlen, h.1.rxlen, h.1.rdlen, h.1.stored⟩, h.2⟩)
    (fun _ h => ⟨⟨h.1.xlen, h.1.rxlen, h.1.rdlen, h.1.stored⟩, h.2⟩) n

/-- The end of the handler, for a transfer without STOP. -/
theorem onNoStop_left (hfits : s₀.rxlen < 2 ^ 32) : Soft (Going s₀) (onNoStop D) (Left s₀) := by
  refine Soft.soft_bind fun s h => ?_
  have hrd := h.1.rdlen
  have hrx := h.1.rxlen
  refine Soft.bind (Q := fun _ => Going s₀) ?_ fun _ => Soft.soft_bind fun t ht => ?_
  · refine (drainLoop_spec D _ (s := s) (by omega)).post ?_
    rintro _ t ⟨words, hlen, rfl⟩
    exact ⟨h.1.storing (by omega), h.2⟩
  refine Soft.ite (fun hall => ?_) fun _ => Soft.pure fun u hu => hu ▸ ht.again
  refine Soft.bind (reg_read_stays D (by decide)) fun v => ?_
  refine Soft.ite (fun _ => ?_) fun _ => Soft.pure fun u hu => hu ▸ ht.again
  refine Soft.bind (Q := fun _ => Left s₀ .eok) (Soft.update ?_) fun _ => ?_
  · rintro u rfl
    refine ⟨⟨ht.1.xlen, ht.1.rxlen, ht.1.rdlen, ht.1.stored⟩, fun h => (nomatch h), fun _ _ => ?_⟩
    rw [← ht.1.xlen, ← ht.1.rxlen]
    exact hall
  · exact Soft.bind (reg_write_stays D (by decide) _) fun _ => Soft.pure fun _ h => h

theorem onAbort_left : Soft (Going s₀) (onAbort D) fun _ => Left s₀ .eok := by
  refine Soft.bind (reg_read_stays D (by decide)) fun v => ?_
  refine Soft.bind (reg_read_stays D (by decide)) fun _ => ?_
  refine Soft.bind (Q := fun _ => Left s₀ .eok) (Soft.update fun s h => ?_) fun _ =>
    reg_write_stays D (by decide) _
  refine ⟨⟨h.1.xlen, h.1.rxlen, h.1.rdlen, h.1.stored⟩, fun h => (nomatch h), fun _ hdone => ?_⟩
  have hnot : ∀ v, abortStatus v ≠ I2C_STATUS_DONE := by
    intro v
    rw [abortStatus]
    split_ifs <;> decide
  exact absurd hdone (hnot v)

end Store

/-! ### A transfer -/

/-- A controller of which nothing is known: every register reads as the answers say. -/
def registers : Device (Reg → BitVec 32) Reg Unit where
  read := fun a r h => (a r, h)
  write := fun _ _ _ h => h

section Run

variable {s₀ : Dwc} (a : ℕ → Reg → BitVec 32)

/-- What a transfer that started in `s₀` has to be like when it ends in `s` with status `ret`: the
commands are the first ones of the transfer, the bytes that arrive are stored in their order and are
no more than were asked for, and it is done only if it is complete. -/
def Transferred (s₀ : Dwc) (ret : Status) (s : Dwc) : Prop :=
  ∃ (w : ℕ) (words : List (BitVec 32)), w ≤ s₀.xlen ∧
    s.seen.sent = s₀.seen.sent ++ commands s₀ w ∧
    s.seen.got = s₀.seen.got ++ words ∧
    s.rxbuf = s₀.rxbuf ++ words.map lowByte ∧ words.length ≤ s₀.rxlen ∧
    (ret = I2C_STATUS_DONE → w = s₀.xlen ∧ words.length = s₀.rxlen)

theorem reg_read_registers {r : Reg} (hr : r ≠ .data_cmd) (g : Rig Dwc Unit) (n : ℕ) :
    i2c_reg_read32 registers r a (g, n) = (a n r, g, n + 1) := by
  change (a n r, (⟨{ g.soft with seen := g.soft.seen.read r (a n r) }, g.hard⟩ : Rig Dwc Unit),
    n + 1) = _
  rw [seen_read hr]

/-- The call at access `n` sees a STOP and no abort while commands are left, and everything else is
as for a transfer that is done. -/
def EarlyStop (s : Dwc) (n : ℕ) : Prop :=
  ¬ Has (a n .intr_stat) DW_IC_INTR_TX_ABRT ∧ Has (a n .intr_stat) DW_IC_INTR_STOP_DET ∧
    s.wrlen < s.xlen ∧
  s.status = {} ∧ (s.rdlen < s.rxlen → s.rdlen + (a (n + 2) .rxflr).toNat = s.rxlen)

/-- The call at access `n` finds a FIFO so full that the count of bytes overflows. -/
def Overfull (s : Dwc) (n : ℕ) : Prop :=
  ¬ Has (a n .intr_stat) DW_IC_INTR_TX_ABRT ∧ ¬ Has (a n .intr_stat) DW_IC_INTR_STOP_DET ∧
  Has (a n .intr_stat) DW_IC_INTR_RX_FULL ∧ s.rdlen < s.rxlen ∧
    2 ^ 32 ≤ s.rdlen + (a (n + 1) .rxflr).toNat

/-- No call of the handler goes wrong. -/
def Orderly : ℕ → Rig Dwc Unit → ℕ → Prop
  | 0, _, _ => True
  | rounds + 1, g, n =>
      ¬ EarlyStop a g.soft n ∧ ¬ Overfull a g.soft n ∧
      ((dwc_i2c_process_intr registers a (g, n)).1 = .eagain →
        Orderly rounds (dwc_i2c_process_intr registers a (g, n)).2.1
          (dwc_i2c_process_intr registers a (g, n)).2.2)

instance (s : Dwc) (n : ℕ) : Decidable (EarlyStop a s n) := inferInstanceAs (Decidable (_ ∧ _))

instance (s : Dwc) (n : ℕ) : Decidable (Overfull a s n) := inferInstanceAs (Decidable (_ ∧ _))

instance decidableOrderly : ∀ rounds g n, Decidable (Orderly a rounds g n)
  | 0, _, _ => .isTrue trivial
  | rounds + 1, g, n =>
      have := decidableOrderly rounds (dwc_i2c_process_intr registers a (g, n)).2.1
        (dwc_i2c_process_intr registers a (g, n)).2.2
      inferInstanceAs (Decidable (_ ∧ _ ∧ (_ → _)))

/-- The state of a transfer whose STOP was seen, once its length was checked. -/
structure Stopped (s₀ s : Dwc) : Prop where
  counting : Counting s₀ s
  pending : s.status.done = false
  complete : s.status = {} → s₀.xlen ≤ s.wrlen ∧ s₀.rxlen ≤ s.rdlen

/-- A status is exactly `DONE` if nothing was noted before. -/
theorem status_of_done {t : Status} (hpending : t.done = false)
    (hdone : { t with done := true } = I2C_STATUS_DONE) : t = {} := by
  cases t with
  | mk done error addr_nack data_nack arbl busy abort =>
      simp only [I2C_STATUS_DONE, Status.mk.injEq, true_and] at hdone
      obtain ⟨rfl, rfl, rfl, rfl, rfl, rfl⟩ := hdone
      rw [show done = false from hpending]

theorem Stopped.left {s : Dwc} (h : Stopped s₀ s) :
    Left s₀ .eok { s with status := { s.status with done := true } } where
  counting := ⟨h.counting.xlen, h.counting.rxlen, h.counting.rdlen, h.counting.stored⟩
  again h := nomatch h
  complete _ hdone := h.complete (status_of_done h.pending hdone)

/-- The length is checked: nothing is noted only if everything was stored, and by `hlate` then
everything was written. -/
theorem takeRest_stopped (hfits : s₀.rxlen < 2 ^ 32) {g : Rig Dwc Unit} {n : ℕ}
    (h : Going s₀ g.soft) (hlate : g.soft.status = {} →
      (g.soft.rdlen < g.soft.rxlen → g.soft.rdlen + (a n .rxflr).toNat = g.soft.rxlen) →
      g.soft.xlen ≤ g.soft.wrlen) :
    Stopped s₀ (takeRest registers a (g, n)).2.1.soft := by
  obtain ⟨hcount, hopen⟩ := h
  have hpending : g.soft.status.done = false := by
    rw [show g.soft.status = { error := g.soft.status.error } from hopen]
  rw [takeRest, Prog.bind_of_eq (soft_apply a _)]
  dsimp only
  rw [hcount.xlen, hcount.rxlen] at hlate
  rw [hcount.rxlen]
  by_cases hlt : g.soft.rdlen < s₀.rxlen
  · rw [if_pos hlt, Prog.bind_of_eq (reg_read_registers a (by decide) g n)]
    have hlevel := (a n .rxflr).isLt
    refine Soft.apply (P := fun s => s = g.soft) a g (n + 1)
      (Soft.ite (fun _ => Soft.update ?_) fun hall => ?_) rfl
    · rintro s rfl
      exact ⟨⟨hcount.xlen, hcount.rxlen, hcount.rdlen, hcount.stored⟩, rfl, fun h => by cases h⟩
    · -- the sum cannot wrap around to the length
      have hsum : g.soft.rdlen + (a n .rxflr).toNat = s₀.rxlen := by
        rw [not_not] at hall
        simp only [addW] at hall
        omega
      refine (readBytes_spec registers _ (by omega)).post ?_
      rintro _ t ⟨words, hlen, rfl⟩
      refine ⟨hcount.storing (by omega), hpending, fun hs => ⟨hlate hs fun _ => hsum, ?_⟩⟩
      change s₀.rxlen ≤ g.soft.rdlen + words.length
      omega
  · rw [if_neg hlt]
    exact ⟨hcount, hpending, fun hs => ⟨hlate hs fun h => absurd h hlt, Nat.le_of_not_lt hlt⟩⟩

theorem onStop_left (hfits : s₀.rxlen < 2 ^ 32) {g : Rig Dwc Unit} {n : ℕ} (h : Going s₀ g.soft)
    (hlate : g.soft.status = {} →
      (g.soft.rdlen < g.soft.rxlen → g.soft.rdlen + (a (n + 1) .rxflr).toNat = g.soft.rxlen) →
      g.soft.xlen ≤ g.soft.wrlen) :
    Left s₀ .eok (onStop registers a (g, n)).2.1.soft := by
  have hrest : Soft (Stopped s₀) (do
      update fun dev => { dev with status := { dev.status with done := true } }
      i2c_reg_write32 registers .intr_mask 0) fun _ => Left s₀ .eok :=
    Soft.bind (Soft.update fun s hs => hs.left) fun _ => reg_write_stays registers (by decide) _
  rw [onStop, Prog.bind_of_eq (reg_read_registers a (by decide) g n)]
  exact hrest a _ _ (takeRest_stopped a hfits h hlate)

theorem onRxFull_going (hfits : s₀.rxlen < 2 ^ 32) {g : Rig Dwc Unit} {n : ℕ} (h : Going s₀ g.soft)
    (hlevel : g.soft.rdlen < g.soft.rxlen → g.soft.rdlen + (a n .rxflr).toNat < 2 ^ 32) :
    Going s₀ (onRxFull registers a (g, n)).2.1.soft := by
  have hrd := h.1.rdlen
  have hrx := h.1.rxlen
  rw [onRxFull, Prog.bind_of_eq (soft_apply a (g, n))]
  dsimp only
  by_cases hlt : g.soft.rdlen < g.soft.rxlen
  · have hsum : addW 32 g.soft.rdlen (a n .rxflr).toNat = g.soft.rdlen + (a n .rxflr).toNat :=
      addW_of_lt (hlevel hlt)
    rw [if_pos hlt, Prog.bind_of_eq (reg_read_registers a (by decide) g n), hsum]
    refine Soft.apply (P := fun s => Going s₀ s ∧ s.rdlen = g.soft.rdlen) a g (n + 1) ?_ ⟨h, rfl⟩
    refine Soft.ite (fun _ => ?_) fun _ => ?_
    · refine Soft.bind (Q := fun _ s => Going s₀ s ∧ s.rdlen = g.soft.rdlen) (Soft.update ?_)
        fun _ => ?_
      · rintro s ⟨hs, heq⟩
        refine ⟨⟨⟨hs.1.xlen, hs.1.rxlen, hs.1.rdlen, hs.1.stored⟩, ?_⟩, heq⟩
        have hopen : s.status = { error := s.status.error } := hs.2
        change ({ s.status with error := true } : Status) = _
        rw [hopen]
      · refine Soft.bind (maskOff_stays registers _) fun _ => ?_
        exact (readBytes_going registers hfits).pre fun s hs => ⟨hs.1, by omega⟩
    · exact (readBytes_going registers hfits).pre fun s hs => ⟨hs.1, by omega⟩
  · rw [if_neg hlt]
    exact maskOff_stays registers _ a g n h

theorem onData_left (hfits : s₀.rxlen < 2 ^ 32) (status : BitVec 32) {g : Rig Dwc Unit} {n : ℕ}
    (h : Going s₀ g.soft)
    (hlevel : Has status DW_IC_INTR_RX_FULL → g.soft.rdlen < g.soft.rxlen →
      g.soft.rdlen + (a n .rxflr).toNat < 2 ^ 32) :
    Left s₀ (onData registers status a (g, n)).1 (onData registers status a (g, n)).2.1.soft := by
  have hrest : Soft (Going s₀) (do
      doIf (Has status DW_IC_INTR_TX_EMPTY) (do
        let dev ← soft
        fillLoop registers dev.fifo_depth)
      let dev ← soft
      if dev.stop then return .eagain else onNoStop registers) (Left s₀) := by
    refine Soft.bind (Stays.doIf (Stays.bind .soft fun dev => fillLoop_going registers _))
      fun _ => ?_
    refine Soft.bind Stays.soft fun dev => ?_
    exact Soft.ite (fun _ => Soft.pure fun s hs => hs.again) fun _ => onNoStop_left registers hfits
  refine hrest a _ _ ?_
  by_cases hfull : Has status DW_IC_INTR_RX_FULL
  · rw [doIf, if_pos hfull]
    exact onRxFull_going a hfits h (hlevel hfull)
  · rw [doIf, if_neg hfull]
    exact h

/-- One call of the handler. -/
theorem process_intr_left (hf : Fresh s₀) {g : Rig Dwc Unit} {n : ℕ} (h : Going s₀ g.soft)
    (hearly : ¬ EarlyStop a g.soft n) (hover : ¬ Overfull a g.soft n) :
    Left s₀ (dwc_i2c_process_intr registers a (g, n)).1
      (dwc_i2c_process_intr registers a (g, n)).2.1.soft := by
  have hfits : s₀.rxlen < 2 ^ 32 := Nat.lt_of_le_of_lt (Nat.le_add_left _ _) hf.fits
  rw [dwc_i2c_process_intr, Prog.bind_of_eq (reg_read_registers a (by decide) g n)]
  by_cases habrt : Has (a n .intr_stat) DW_IC_INTR_TX_ABRT
  · rw [if_pos habrt]
    exact onAbort_left registers a g (n + 1) h
  rw [if_neg habrt]
  by_cases hstop : Has (a n .intr_stat) DW_IC_INTR_STOP_DET
  · rw [if_pos hstop]
    refine onStop_left a hfits h fun hstatus hall => ?_
    by_contra hleft
    exact hearly ⟨habrt, hstop, Nat.lt_of_not_le hleft, hstatus, hall⟩
  · rw [if_neg hstop]
    refine onData_left a hfits _ h fun hfull hlt => ?_
    by_contra hlevel
    exact hover ⟨habrt, hstop, hfull, hlt, Nat.le_of_not_lt hlevel⟩

/-- What the wait for completion leaves. -/
structure Ended (s₀ : Dwc) (ret : Status) (s : Dwc) : Prop where
  carried : Carried s₀ s
  rdlen : s.rdlen ≤ s₀.rxlen
  stored : s.rxbuf.length = s₀.rxbuf.length + s.rdlen
  complete : ret = I2C_STATUS_DONE → s₀.xlen ≤ s.wrlen ∧ s₀.rxlen ≤ s.rdlen

theorem Ended.of_setUp {s s' : Dwc} {ret : Status} (hsend : Sending s₀ s) (hcount : Counting s₀ s)
    (hs : SetUp s s') (hdone : ret = I2C_STATUS_DONE → s₀.xlen ≤ s.wrlen ∧ s₀.rxlen ≤ s.rdlen) :
    Ended s₀ ret s' where
  carried := hsend.carried.setUp hs
  rdlen := hs.rdlen.trans_le hcount.rdlen
  stored := by rw [hs.rxbuf, hs.rdlen, hcount.stored]
  complete h := by rw [hs.wrlen, hs.rdlen]; exact hdone h

theorem wait_complete_ended (hf : Fresh s₀) (rounds : ℕ) :
    ∀ {g : Rig Dwc Unit} {n : ℕ}, Sending s₀ g.soft →
    Going s₀ g.soft → Orderly a rounds g n →
    Ended s₀ (dwc_i2c_wait_complete registers rounds a (g, n)).1
      (dwc_i2c_wait_complete registers rounds a (g, n)).2.1.soft := by
  induction rounds with
  | zero =>
      intro g n hsend hgoing _
      refine Soft.bind (Q := fun _ s => s = g.soft) (reg_read_stays registers (by decide)) (fun _ =>
        Soft.bind (dwc_i2c_reset_spec registers g.soft) fun _ => Soft.pure fun s hs => ?_) a g n rfl
      exact .of_setUp hsend hgoing.1 hs.toSetUp fun h => by cases h
  | succ rounds ih =>
      intro g n hsend hgoing horder
      obtain ⟨hearly, hover, hnext⟩ := horder
      have hsend' := process_intr_sending registers a g n hsend
      have hleft := process_intr_left a hf hgoing hearly hover
      rw [dwc_i2c_wait_complete, Prog.bind_apply]
      cases hcase : (dwc_i2c_process_intr registers a (g, n)).1 with
      | eagain => exact ih hsend' ⟨hleft.counting, hleft.again hcase⟩ (hnext hcase)
      | eok =>
          obtain ⟨hret, hend⟩ :=
            finish_spec registers _ a _ (dwc_i2c_process_intr registers a (g, n)).2.2 rfl
          refine .of_setUp hsend' hleft.counting ?_ fun hdone =>
            hleft.complete hcase (hret.symm.trans hdone)
          rcases hend with hend | ⟨hreset, -⟩
          · rw [hend]
            exact .refl _
          · exact hreset.toSetUp

/-- **One transfer** is as it should be, if no STOP is taken for its end early and no level
overflows the count. -/
theorem transfer_run (hf : Fresh s₀) (rounds n : ℕ) (horder : Orderly a rounds ⟨s₀, ()⟩ n) :
    Transferred s₀ (dwc_i2c_wait_complete registers rounds a (⟨s₀, ()⟩, n)).1
      (dwc_i2c_wait_complete registers rounds a (⟨s₀, ()⟩, n)).2.1.soft := by
  have hgoing : Going s₀ s₀ := by
    refine ⟨⟨rfl, rfl, by rw [hf.rdlen]; exact Nat.zero_le _, by rw [hf.rdlen]; rfl⟩, ?_⟩
    change s₀.status = { error := s₀.status.error }
    rw [hf.status]
  have hend := wait_complete_ended a hf rounds (Sending.start hf) hgoing horder
  obtain ⟨words, hgot, hrx⟩ := hend.carried.stored
  have hlen : words.length =
      (dwc_i2c_wait_complete registers rounds a (⟨s₀, ()⟩, n)).2.1.soft.rdlen := by
    have hstored := hend.stored
    rw [hrx, List.length_append, List.length_map] at hstored
    omega
  refine ⟨_, words, hend.carried.wrlen, hend.carried.sent, hgot, hrx, hlen.trans_le hend.rdlen,
    fun hdone => ?_⟩
  obtain ⟨hw, hr⟩ := hend.complete hdone
  exact ⟨Nat.le_antisymm hend.carried.wrlen hw,
    Nat.le_antisymm (hlen.trans_le hend.rdlen) (hr.trans_eq hlen.symm)⟩

end Run

/-- A driver as it is started on a board, with a FIFO of 16 entries. -/
def idle : Dwc where
  slave_addr := 0
  slave_addr_fmt := .bit7
  fast := ⟨600, 1300, 300⟩
  std := ⟨4700, 4700, 100⟩
  clock_khz := 200000
  scl_freq := 100000
  sda_hold_time := 0
  txbuf := fun _ => 0
  txpos := 0
  rxbuf := []
  xlen := 0
  txlen := 0
  rxlen := 0
  wrlen := 0
  rdlen := 0
  stop := false
  active_no_stop := false
  restart := false
  active_slave_addr := 0
  active_slave_addr_fmt := .bit7
  master_cfg := DW_IC_CON_MASTER ||| DW_IC_CON_SLAVE_DISABLE ||| DW_IC_CON_RESTART_EN |||
    DW_IC_CON_SPEED_STD
  status := {}
  abort_source := 0
  fifo_depth := 16
  seen := {}

theorem fresh_begin (s : Dwc) (txlen rxlen : ℕ) (stop : Bool) (hfits : txlen + rxlen < 2 ^ 32) :
    Fresh (s.begin txlen rxlen stop) where
  xlen := addW_of_lt hfits
  fits := hfits
  wrlen := rfl
  rdlen := rfl
  status := rfl

/-- Commands are taken until the FIFO is full, then a STOP is seen, with two bytes to read. -/
def takesThenStop : ℕ → Reg → BitVec 32 := fun n r =>
  match r with
  | .intr_stat => if n = 0 then DW_IC_INTR_TX_EMPTY else DW_IC_INTR_STOP_DET
  | .status => DW_IC_STATUS_TFNF
  | .rxflr => 2
  | .data_cmd => 0x5a
  | _ => 0

/-- A transfer of 14 bytes out and 2 bytes in fits the FIFO. -/
theorem transfer_run_sixteen :
    (dwc_i2c_wait_complete registers 2 takesThenStop (⟨idle.begin 14 2 true, ()⟩, 0)).1 =
      I2C_STATUS_DONE ∧
    (dwc_i2c_wait_complete registers 2 takesThenStop
      (⟨idle.begin 14 2 true, ()⟩, 0)).2.1.soft.rxbuf = [0x5a, 0x5a] ∧
    Transferred (idle.begin 14 2 true)
      (dwc_i2c_wait_complete registers 2 takesThenStop (⟨idle.begin 14 2 true, ()⟩, 0)).1
      (dwc_i2c_wait_complete registers 2 takesThenStop (⟨idle.begin 14 2 true, ()⟩, 0)).2.1.soft :=
  ⟨by decide +kernel, by decide +kernel,
    transfer_run takesThenStop (fresh_begin idle 14 2 true (by decide)) 2 0 (by decide +kernel)⟩

/-- A send of 20 bytes, of which 16 were written when a STOP is seen, is reported as done. -/
theorem stop_seen_early :
    Fresh (idle.begin 20 0 true) ∧
    ¬ Transferred (idle.begin 20 0 true)
      (dwc_i2c_wait_complete registers 2 takesThenStop (⟨idle.begin 20 0 true, ()⟩, 0)).1
      (dwc_i2c_wait_complete registers 2 takesThenStop
        (⟨idle.begin 20 0 true, ()⟩, 0)).2.1.soft := by
  refine ⟨fresh_begin idle 20 0 true (by decide), ?_⟩
  rintro ⟨w, words, -, hsent, -, -, -, hdone⟩
  have hlen := congrArg List.length hsent
  rw [(hdone (by decide +kernel)).1] at hlen
  have hwritten : (dwc_i2c_wait_complete registers 2 takesThenStop
      (⟨idle.begin 20 0 true, ()⟩, 0)).2.1.soft.seen.sent.length = 16 := by decide +kernel
  rw [hwritten] at hlen
  revert hlen
  decide +kernel

end I2c
