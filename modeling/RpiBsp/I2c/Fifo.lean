import RpiBsp.I2c.Transfer

/-!
# I2c — the FIFOs

A controller with a FIFO for commands and one for bytes.  Before each access of the driver it makes
any number of moves: it takes a command, or answers a READ it took with a byte, which is lost if
there is no room for it.

* `Fifos.Sound` — the commands and the bytes that are under way are never more than were written
  and not answered.
* `wait_complete_closed` — what the accesses keep, the handler keeps.
* `reads_in_flight` — no more reads are ever open than the FIFO has entries exactly if no more are
asked for.
* `refilled_too_soon` — a controller that holds one command at a time, and a byte that is lost.
-/

namespace I2c

open Support Driver

/-- The entries of the two FIFOs. -/
structure Depths where
  tx : ℕ
  rx : ℕ
  tx_pos : 1 ≤ tx
  rx_pos : 1 ≤ rx
  tx_le : tx ≤ 256
  rx_le : rx ≤ 256

/-- What is in the controller. -/
structure Fifos where
  tx : List (BitVec 32)
  /-- READ commands that were taken and not answered. -/
  taken : ℕ
  rx : List UInt8
  mask : BitVec 32
  tx_tl : ℕ
  rx_tl : ℕ
  /-- READ commands that were written. -/
  written : ℕ := 0
  /-- Bytes that the driver has read. -/
  answered : ℕ := 0
  /-- Bytes for which there was no room. -/
  lost : ℕ := 0
  /-- The most READ commands that were ever written and not answered. -/
  peak : ℕ := 0
deriving DecidableEq, Repr

/-- What the controller does by itself. -/
inductive Move where
  | take
  | push (byte : UInt8)
deriving DecidableEq, Repr

/-- What goes on before an access: the moves, and what the registers read that do not tell of the
FIFOs. -/
structure Event where
  moves : List Move := []
  other : Reg → BitVec 32 := fun _ => 0

namespace Fifos

def IsRead (c : BitVec 32) : Prop := Has c DW_IC_DATA_CMD_READ

instance : DecidablePred IsRead := fun c => inferInstanceAs (Decidable (Has c _))

def move (P : Depths) (h : Fifos) : Move → Fifos
  | .take =>
      match h.tx with
      | [] => h
      | c :: rest => { h with tx := rest, taken := if IsRead c then h.taken + 1 else h.taken }
  | .push byte =>
      if h.taken = 0 then h
      else if h.rx.length < P.rx then { h with taken := h.taken - 1, rx := h.rx ++ [byte] }
      else { h with taken := h.taken - 1, lost := h.lost + 1 }

def run (P : Depths) (h : Fifos) (moves : List Move) : Fifos := moves.foldl (move P) h

/-- A set of bits that depends on a condition. -/
def bits (c : Prop) [Decidable c] (v : BitVec 32) : BitVec 32 := if c then v else 0

/-- The interrupts that the levels raise. -/
def levels (h : Fifos) : BitVec 32 :=
  bits (h.rx_tl < h.rx.length) DW_IC_INTR_RX_FULL ||| bits (h.tx.length ≤ h.tx_tl)
    DW_IC_INTR_TX_EMPTY

def read (P : Depths) (e : Event) (r : Reg) (h₀ : Fifos) : BitVec 32 × Fifos :=
  let h := h₀.run P e.moves
  match r with
  | .intr_stat =>
      ((h.levels ||| e.other .intr_stat &&& (DW_IC_INTR_TX_ABRT ||| DW_IC_INTR_STOP_DET)) &&&
        h.mask, h)
  | .intr_mask => (h.mask, h)
  | .status =>
      (bits (h.tx.length < P.tx) DW_IC_STATUS_TFNF ||| bits (h.tx = []) DW_IC_STATUS_TFE |||
        bits (h.rx ≠ []) DW_IC_STATUS_RFNE, h)
  | .rxflr => (BitVec.ofNat 32 h.rx.length, h)
  | .comp_param_1 =>
      (BitVec.ofNat 32 (P.tx - 1) <<< DW_IC_COMP_PARAM_1_TX_DEPTH_F |||
        BitVec.ofNat 32 (P.rx - 1) <<< DW_IC_COMP_PARAM_1_RX_DEPTH_F, h)
  | .data_cmd =>
      match h.rx with
      | [] => (e.other .data_cmd, h)
      | b :: rest => (BitVec.ofNat 32 b.toNat, { h with rx := rest, answered := h.answered + 1 })
  | r => (e.other r, h)

def write (P : Depths) (e : Event) (r : Reg) (v : BitVec 32) (h₀ : Fifos) : Fifos :=
  let h := h₀.run P e.moves
  match r with
  | .intr_mask => { h with mask := v }
  | .tx_tl => { h with tx_tl := v.toNat }
  | .rx_tl => { h with rx_tl := v.toNat }
  | .soft_reset =>
      if v = DW_IC_SOFT_RESET_ASSERTED then { h with tx := [], taken := 0, rx := [], mask := 0 }
      else h
  | .data_cmd =>
      let written := if IsRead v then h.written + 1 else h.written
      { h with
        tx := if h.tx.length < P.tx then h.tx ++ [v] else h.tx
        written := written
        peak := max h.peak (written - h.answered) }
  | _ => h

end Fifos

/-- The controller. -/
def fifos (P : Depths) : Device Event Reg Fifos := ⟨Fifos.read P, Fifos.write P⟩

/-- The controller when a transfer starts. -/
def quiet (P : Depths) : Fifos where
  tx := []
  taken := 0
  rx := []
  mask := DW_IC_INTR_DEFAULT_MASK
  tx_tl := min P.tx P.rx / 2
  rx_tl := 0

/-! ### The controller by itself -/

namespace Fifos

/-- What is under way was written and not answered; and a byte was only lost when more was open than
there is room for. -/
structure Sound (P : Depths) (h : Fifos) : Prop where
  open_le : h.tx.countP IsRead + h.taken + h.rx.length + h.answered ≤ h.written
  peak_ge : h.written ≤ h.peak + h.answered
  peak_le : h.peak ≤ h.written
  lost : h.peak ≤ P.rx → h.lost = 0

variable {P : Depths} {h : Fifos}

theorem Sound.move (hs : h.Sound P) (m : Move) : (h.move P m).Sound P := by
  obtain ⟨hopen, hge, hle, hlost⟩ := hs
  cases m with
  | take =>
      rw [Fifos.move]
      split
      · exact ⟨hopen, hge, hle, hlost⟩
      · rename_i c rest htx
        rw [htx, List.countP_cons] at hopen
        refine ⟨?_, hge, hle, hlost⟩
        by_cases hc : IsRead c
        · simp only [hc, decide_true, if_true] at hopen ⊢
          omega
        · simp only [hc, decide_false, if_false, Bool.false_eq_true] at hopen ⊢
          omega
  | push byte =>
      rw [Fifos.move]
      split_ifs with hzero hroom
      · exact ⟨hopen, hge, hle, hlost⟩
      · refine ⟨?_, hge, hle, hlost⟩
        simp only [List.length_append, List.length_singleton]
        omega
      · refine ⟨?_, hge, hle, fun hpeak => ?_⟩
        · dsimp only
          omega
        · change h.peak ≤ P.rx at hpeak
          omega

theorem Sound.run (moves : List Move) : ∀ {h : Fifos}, h.Sound P → (h.run P moves).Sound P := by
  induction moves with
  | nil => exact fun hs => hs
  | cons m moves ih => exact fun hs => ih (hs.move m)

theorem Sound.read (hs : h.Sound P) (e : Event) (r : Reg) : (Fifos.read P e r h).2.Sound P := by
  have hrun := hs.run e.moves
  cases r with
  | data_cmd =>
      simp only [Fifos.read]
      split
      · exact hrun
      · rename_i b rest hrx
        obtain ⟨hopen, hge, hle, hlost⟩ := hrun
        rw [hrx, List.length_cons] at hopen
        refine ⟨?_, ?_, hle, hlost⟩
        · dsimp only
          omega
        · dsimp only
          omega
  | _ => exact hrun

theorem Sound.write (hs : h.Sound P) (e : Event) (r : Reg) (v : BitVec 32) :
    (Fifos.write P e r v h).Sound P := by
  have hrun := hs.run e.moves
  obtain ⟨hopen, hge, hle, hlost⟩ := hrun
  cases r with
  | soft_reset =>
      simp only [Fifos.write]
      split
      · refine ⟨?_, hge, hle, hlost⟩
        simp only [List.countP_nil, List.length_nil]
        omega
      · exact ⟨hopen, hge, hle, hlost⟩
  | data_cmd =>
      simp only [Fifos.write]
      generalize h.run P e.moves = k at *
      have htx : (if k.tx.length < P.tx then k.tx ++ [v] else k.tx).countP IsRead + k.written ≤
          k.tx.countP IsRead + (if IsRead v then k.written + 1 else k.written) := by
        split
        · rw [List.countP_append, List.countP_singleton]
          by_cases hv : IsRead v
          · simp only [hv, decide_true, if_true]
            omega
          · simp only [hv, decide_false, if_false, Bool.false_eq_true]
            omega
        · split <;> omega
      have hgrow : k.written ≤ if IsRead v then k.written + 1 else k.written := by
        split <;> omega
      generalize (if IsRead v then k.written + 1 else k.written) = written at *
      refine ⟨?_, ?_, ?_, fun hpeak => hlost ?_⟩
      · dsimp only
        omega
      · dsimp only
        omega
      · dsimp only
        omega
      · exact (le_max_left _ _).trans hpeak
  | _ => exact ⟨hopen, hge, hle, hlost⟩

end Fifos

/-! ### What the accesses keep -/

section Closed

variable {ρ H : Type} {D : Device ρ Reg H} {A : ρ → Prop} {I : Rig Dwc H → Prop}

open Prog

/-- The accesses keep `I`, and it does not look at the driver's data but for what was seen. -/
structure Closed (D : Device ρ Reg H) (A : ρ → Prop) (I : Rig Dwc H → Prop) : Prop where
  read : ∀ r, Keeps A I (i2c_reg_read32 D r)
  write : ∀ r v, Keeps A I (i2c_reg_write32 D r v)
  data : ∀ (g : Rig Dwc H) (s : Dwc), s.seen = g.soft.seen → I g → I ⟨s, g.hard⟩

theorem Closed.update (hI : Closed D A I) {f : Dwc → Dwc} (hf : ∀ s, (f s).seen = s.seen) :
    Keeps A I (Driver.update f : I2cM ρ H PUnit) := fun _ _ g _ hg => hI.data g (f g.soft) (hf _) hg

theorem Closed.soft : Keeps A I (Driver.soft : I2cM ρ H Dwc) := fun _ _ _ _ hg => hg

theorem Closed.doIf {c : Prop} [Decidable c] {m : I2cM ρ H PUnit} (hm : Keeps A I m) :
    Keeps A I (Driver.doIf c m) := .ite hm (.pure _)

variable (hI : Closed D A I)
include hI

theorem enableLoop_closed (enable : BitVec 32) (n : ℕ) : Keeps A I (enableLoop D enable n) := by
  induction n with
  | zero => exact .pure _
  | succ n ih => exact .bind (hI.write _ _) fun _ => .bind (hI.read _) fun v => .ite (.pure _) ih

theorem dwc_i2c_enable_closed (enable : BitVec 32) : Keeps A I (dwc_i2c_enable D enable) :=
  enableLoop_closed hI enable 1001

theorem set_fifo_threshold_closed : Keeps A I (dwc_i2c_set_fifo_threshold D) := by
  refine .bind (hI.read _) fun v => .bind (hI.update fun _ => rfl) fun _ => ?_
  exact .bind (hI.write _ _) fun _ => hI.write _ _

theorem set_bus_speed_closed (speed : ℕ) :
    Keeps A I (dwc_i2c_set_bus_speed speed : I2cM ρ H Bool) := by
  refine .bind Closed.soft fun dev => .ite (.pure _) (.ite ?_ (.ite ?_ (.pure _)))
  · exact .bind (hI.update fun _ => rfl) fun _ => .pure _
  · exact .bind (hI.update fun _ => rfl) fun _ => .pure _

theorem init_registers_closed : Keeps A I (dwc_i2c_init_registers D) := by
  refine .bind (hI.update fun s => ?_) fun _ => .bind Closed.soft fun dev => ?_
  · split <;> rfl
  refine .bind (hI.write _ _) fun _ => .bind (hI.write _ _) fun _ => ?_
  refine .bind (hI.write _ _) fun _ => .bind (hI.write _ _) fun _ => ?_
  refine .bind (hI.read _) fun version => .bind (Closed.doIf (hI.write _ _)) fun _ => ?_
  refine .bind (set_fifo_threshold_closed hI) fun _ => .bind (set_bus_speed_closed hI _) fun _ => ?_
  exact .bind (hI.read _) fun _ => hI.write _ _

theorem resetLoop_closed (n : ℕ) : Keeps A I (resetLoop D n) := by
  induction n with
  | zero => exact .pure _
  | succ n ih =>
      refine .bind (hI.write _ _) fun _ => .bind (hI.write _ _) fun _ => ?_
      exact .bind (dwc_i2c_enable_closed hI _) fun ok => .ite (init_registers_closed hI) ih

theorem dwc_i2c_reset_closed : Keeps A I (dwc_i2c_reset D) := by
  refine .bind (hI.write _ _) fun _ => .bind (hI.update fun _ => rfl) fun _ => ?_
  exact .bind (dwc_i2c_enable_closed hI _) fun _ => resetLoop_closed hI _

theorem maskOff_closed (bits : BitVec 32) : Keeps A I (maskOff D bits) :=
  .bind (hI.read _) fun _ => hI.write _ _

theorem onAbort_closed : Keeps A I (onAbort D) := by
  refine .bind (hI.read _) fun v => .bind (hI.read _) fun _ => ?_
  exact .bind (hI.update fun _ => rfl) fun _ => hI.write _ _

theorem readByte_closed : Keeps A I (readByte D) :=
  .bind (hI.read _) fun _ => hI.update fun _ => rfl

theorem readBytes_closed (n : ℕ) : Keeps A I (readBytes D n) := by
  induction n with
  | zero => exact .pure _
  | succ n ih => exact .bind (readByte_closed hI) fun _ => ih

theorem onStop_closed : Keeps A I (onStop D) := by
  refine .bind (hI.read _) fun _ =>
    .bind (.bind Closed.soft fun dev => .ite ?_ (.pure _)) fun _ => ?_
  · exact .bind (hI.read _) fun v => .ite (hI.update fun _ => rfl) (readBytes_closed hI _)
  · exact .bind (hI.update fun _ => rfl) fun _ => hI.write _ _

theorem onRxFull_closed : Keeps A I (onRxFull D) := by
  refine .bind Closed.soft fun dev => .ite (.bind (hI.read _) fun v => ?_) (maskOff_closed hI _)
  refine .ite (.bind (hI.update fun _ => rfl) fun _ => ?_) (readBytes_closed hI _)
  exact .bind (maskOff_closed hI _) fun _ => readBytes_closed hI _

theorem fillLoop_closed (n : ℕ) : Keeps A I (fillLoop D n) := by
  induction n with
  | zero => exact .pure _
  | succ n ih =>
      refine .bind Closed.soft fun dev => .ite ?_ ?_
      · refine .ite (maskOff_closed hI _) (.bind (hI.read _) fun v => ?_)
        exact Closed.doIf (maskOff_closed hI _)
      · refine .bind (.bind (hI.read _) fun v => .pure _) fun full => .ite (.pure _) ?_
        exact .bind (hI.write _ _) fun _ => .bind (hI.update fun _ => rfl) fun _ => ih

theorem drainLoop_closed (n : ℕ) : Keeps A I (drainLoop D n) := by
  induction n with
  | zero => exact .pure _
  | succ n ih =>
      exact .bind (hI.read _) fun v => .ite (.bind (readByte_closed hI) fun _ => ih) (.pure _)

theorem onNoStop_closed : Keeps A I (onNoStop D) := by
  refine .bind Closed.soft fun dev => .bind (drainLoop_closed hI _) fun _ => ?_
  refine .bind Closed.soft fun dev => .ite (.bind (hI.read _) fun v => .ite ?_ (.pure _)) (.pure _)
  exact .bind (hI.update fun _ => rfl) fun _ => .bind (hI.write _ _) fun _ => .pure _

theorem process_intr_closed : Keeps A I (dwc_i2c_process_intr D) := by
  refine .bind (hI.read _) fun status => .ite (.bind (onAbort_closed hI) fun _ => .pure _) ?_
  refine .ite (.bind (onStop_closed hI) fun _ => .pure _) ?_
  refine .bind (Closed.doIf (onRxFull_closed hI)) fun _ => ?_
  refine .bind (Closed.doIf (.bind Closed.soft fun dev => fillLoop_closed hI _)) fun _ => ?_
  exact .bind Closed.soft fun dev => .ite (.pure _) (onNoStop_closed hI)

theorem wait_complete_closed (rounds : ℕ) : Keeps A I (dwc_i2c_wait_complete D rounds) := by
  induction rounds with
  | zero => exact .bind (hI.read _) fun _ => .bind (dwc_i2c_reset_closed hI) fun _ => .pure _
  | succ rounds ih =>
      refine .bind (process_intr_closed hI) fun handled => ?_
      cases handled with
      | eagain => exact ih
      | eok =>
          refine .bind Closed.soft fun dev =>
            .bind (Closed.doIf (dwc_i2c_reset_closed hI)) fun _ => ?_
          exact .bind (hI.write _ _) fun _ => .bind Closed.soft fun dev => .pure _

end Closed

/-! ### The reads of a transfer -/

/-- A byte to send is not a read. -/
theorem not_isRead_command {s₀ : Dwc} {k : ℕ} (hk : k < s₀.txlen) :
    ¬ Fifos.IsRead (command s₀ k) := by
  have hbyte : ∀ b : Fin 256, BitVec.ofNat 32 b.val &&& DW_IC_DATA_CMD_READ = 0 := by decide +kernel
  have hb := hbyte ⟨(s₀.txbuf (s₀.txpos + k)).toNat, (s₀.txbuf (s₀.txpos + k)).toNat_lt⟩
  simp only [Fifos.IsRead, Has, command, hk, if_true, BitVec.and_comm _ DW_IC_DATA_CMD_READ,
    BitVec.and_or_distrib_left]
  rw [BitVec.and_comm DW_IC_DATA_CMD_READ, hb]
  split_ifs <;> decide

theorem isRead_command {s₀ : Dwc} {k : ℕ} (hk : s₀.txlen ≤ k) : Fifos.IsRead (command s₀ k) := by
  simp only [Fifos.IsRead, Has, command, Nat.not_lt.mpr hk, if_false]
  split_ifs <;> decide

theorem countP_commands (s₀ : Dwc) (n : ℕ) : (commands s₀ n).countP (·.IsRead) = n - s₀.txlen := by
  induction n with
  | zero => exact (Nat.zero_sub _).symm
  | succ n ih =>
      rw [commands_succ, List.countP_append, List.countP_singleton, ih]
      by_cases hn : n < s₀.txlen
      · have hread : ¬ Sent.IsRead ⟨command s₀ n, s₀.seen.tar, s₀.seen.con⟩ := not_isRead_command hn
        rw [if_neg (by simpa using hread)]
        omega
      · have hread : Sent.IsRead ⟨command s₀ n, s₀.seen.tar, s₀.seen.con⟩ :=
          isRead_command (Nat.le_of_not_lt hn)
        rw [if_pos (by simpa using hread)]
        omega

/-- The controller is sound, and counts the reads that are seen, on top of `base`. -/
structure Linked (P : Depths) (base : ℕ) (g : Rig Dwc Fifos) : Prop where
  sound : g.hard.Sound P
  written : g.hard.written + base = g.soft.seen.sent.countP (·.IsRead)

theorem run_written (P : Depths) (moves : List Move) : ∀ h :
    Fifos, (h.run P moves).written = h.written := by
  induction moves with
  | nil => exact fun h => rfl
  | cons m moves ih =>
      intro h
      have hm : (h.move P m).written = h.written := by
        cases m with
        | take => rw [Fifos.move]; split <;> rfl
        | push b => rw [Fifos.move]; split_ifs <;> rfl
      exact (ih (h.move P m)).trans hm

theorem read_written (P : Depths) (e : Event) (r : Reg) (h : Fifos) :
    (Fifos.read P e r h).2.written = h.written := by
  cases r with
  | data_cmd =>
      simp only [Fifos.read]
      split <;> exact run_written P e.moves h
  | _ => exact run_written P e.moves h

theorem Linked.closed (P : Depths) (base : ℕ) (A : Event → Prop) :
    Closed (fifos P) A (Linked P base) where
  read r := by
    intro e _ g k hg
    refine ⟨hg.sound.read (e k) r, ?_⟩
    have hseen : ∀ v, (g.soft.seen.read r v).sent = g.soft.seen.sent := fun v => by cases r <;> rfl
    change (Fifos.read P (e k) r g.hard).2.written + base = (g.soft.seen.read r _).sent.countP
      (·.IsRead)
    rw [read_written, hseen]
    exact hg.written
  write r v := by
    intro e _ g k hg
    refine ⟨hg.sound.write (e k) r v, ?_⟩
    change (Fifos.write P (e k) r v g.hard).written + base = (g.soft.seen.write r v).sent.countP
      (·.IsRead)
    have hlink := hg.written
    rw [← run_written P (e k).moves g.hard] at hlink
    cases r with
    | data_cmd =>
        simp only [Fifos.write, Seen.write, List.countP_append, List.countP_singleton, ← hlink]
        by_cases hv : Fifos.IsRead v
        · rw [if_pos hv, if_pos (decide_eq_true (show Sent.IsRead ⟨v, _, _⟩ from hv))]
          omega
        · rw [if_neg hv, if_neg (by simpa using (show ¬ Sent.IsRead ⟨v, _, _⟩ from hv))]
          omega
    | soft_reset =>
        simp only [Fifos.write, Seen.write]
        split <;> exact hlink
    | _ => exact hlink
  data g s hs hg := ⟨hg.sound, by rw [hs]; exact hg.written⟩

/-! ### A controller that is slow to answer -/

/-- Every command is taken at once, and no READ is ever answered. -/
def starving : Event := { moves := [.take] }

section Starving

variable {P : Depths} {s₀ : Dwc}

/-- Nothing was answered. -/
def Dry (g : Rig Dwc Fifos) : Prop := g.hard.rx = [] ∧ g.hard.answered = 0

theorem take_same (h : Fifos) :
    (h.move P .take).rx = h.rx ∧ (h.move P .take).answered = h.answered ∧
    (h.move P .take).mask = h.mask := by
  rw [Fifos.move]
  split <;> exact ⟨rfl, rfl, rfl⟩

theorem take_tx {h : Fifos} (hlen : h.tx.length ≤ 1) : (h.move P .take).tx = [] := by
  rw [Fifos.move]
  split
  · assumption
  · rename_i c rest htx
    rw [htx, List.length_cons] at hlen
    have hrest : rest.length = 0 := by omega
    exact List.eq_nil_of_length_eq_zero hrest

/-- A byte that is taken leaves nothing to read. -/
theorem dry_run {g : Rig Dwc Fifos} (hg : Dry g) {e : Event} (he : e = starving) :
    (g.hard.run P e.moves).rx = [] ∧ (g.hard.run P e.moves).answered = 0 := by
  obtain ⟨hrx, hans, -⟩ := take_same (P := P) g.hard
  rw [he]
  exact ⟨hrx.trans hg.1, hans.trans hg.2⟩

theorem Dry.closed : Closed (fifos P) (fun e => e = starving) Dry where
  read r := by
    intro e he g k hg
    have hdry := dry_run (P := P) hg (he k)
    change (Fifos.read P (e k) r g.hard).2.rx = [] ∧ (Fifos.read P (e k) r g.hard).2.answered = 0
    cases r with
    | data_cmd =>
        simp only [Fifos.read, hdry.1]
        exact ⟨trivial, hdry.2⟩
    | _ => exact hdry
  write r v := by
    intro e he g k hg
    have hdry := dry_run (P := P) hg (he k)
    change (Fifos.write P (e k) r v g.hard).rx = [] ∧ (Fifos.write P (e k) r v g.hard).answered = 0
    cases r with
    | soft_reset =>
        simp only [Fifos.write]
        split
        · exact ⟨rfl, hdry.2⟩
        · exact hdry
    | _ => exact hdry
  data g s _ hg := hg

/-- The transfer goes on, and nothing is read. -/
structure Starved (s₀ : Dwc) (g : Rig Dwc Fifos) : Prop where
  sending : Sending s₀ g.soft
  rdlen : g.soft.rdlen = 0
  depth : g.soft.fifo_depth = s₀.fifo_depth
  rx : g.hard.rx = []
  tx : g.hard.tx.length ≤ 1
  mask : g.soft.wrlen < s₀.xlen → g.hard.mask = DW_IC_INTR_DEFAULT_MASK

theorem reg_read_fifos {r : Reg} (hr : r ≠ .data_cmd) (e : ℕ → Event) (g : Rig Dwc Fifos) (k : ℕ) :
    i2c_reg_read32 (fifos P) r e (g, k) =
      ((Fifos.read P (e k) r g.hard).1, ⟨g.soft, g.hard.run P (e k).moves⟩, k + 1) := by
  have hhard : (Fifos.read P (e k) r g.hard).2 = g.hard.run P (e k).moves := by
    cases r with
    | data_cmd => exact absurd rfl hr
    | _ => rfl
  change ((Fifos.read P (e k) r g.hard).1,
    (⟨{ g.soft with seen := g.soft.seen.read r _ }, (Fifos.read P (e k) r g.hard).2⟩ : Rig Dwc
      Fifos), k + 1) = _
  rw [seen_read hr, hhard]

theorem Starved.take {g : Rig Dwc Fifos} (hg : Starved s₀ g) :
    Starved s₀ ⟨g.soft, g.hard.move P .take⟩ := by
  obtain ⟨hrx, -, hmask⟩ := take_same (P := P) g.hard
  refine ⟨hg.sending, hg.rdlen, hg.depth, hrx.trans hg.rx, ?_, fun hlt => hmask.trans (hg.mask hlt)⟩
  rw [take_tx hg.tx]
  exact Nat.zero_le 1

/-- With nothing left to write, the mask may change. -/
theorem maskOff_starved (bits : BitVec 32) {g : Rig Dwc Fifos} (hg : Starved s₀ g)
    (hall : s₀.xlen ≤ g.soft.wrlen)
    (k : ℕ) : Starved s₀ (maskOff (fifos P) bits (fun _ => starving) (g, k)).2.1 ∧
      (maskOff (fifos P) bits (fun _ => starving) (g, k)).2.1.soft = g.soft := by
  rw [maskOff, Prog.bind_of_eq (reg_read_fifos (by decide) _ g k)]
  refine ⟨?_, rfl⟩
  have h := (hg.take (P := P)).take (P := P)
  exact ⟨h.sending, h.rdlen, h.depth, h.rx, h.tx, fun hlt => absurd hall (Nat.not_le.mpr hlt)⟩

theorem xmit_FIFO_is_full_starved {g : Rig Dwc Fifos} (hg : Starved s₀ g) (k : ℕ) :
    xmit_FIFO_is_full (fifos P) (fun _ => starving) (g, k) =
      (false, ⟨g.soft, g.hard.move P .take⟩, k + 1) := by
  have hpos : 0 < P.tx := P.tx_pos
  rw [xmit_FIFO_is_full, Prog.bind_of_eq (reg_read_fifos (by decide) _ g k), Prog.pure_apply]
  have hval : (Fifos.read P starving .status g.hard).1 = DW_IC_STATUS_TFNF |||
      DW_IC_STATUS_TFE := by
    change Fifos.bits ((g.hard.move P .take).tx.length < P.tx) _ |||
      Fifos.bits ((g.hard.move P .take).tx = []) _ |||
      Fifos.bits ((g.hard.move P .take).rx ≠ []) _ = _
    rw [take_tx hg.tx, (take_same g.hard).1, hg.rx]
    simp [Fifos.bits, hpos]
  rw [hval]
  rfl

/-- A command is written. -/
theorem Starved.write {g : Rig Dwc Fifos} (hg : Starved s₀ g) (hlt : g.soft.wrlen < s₀.xlen) :
    Starved s₀ ⟨{ g.soft with
      seen := g.soft.seen.write .data_cmd (nextCmd g.soft)
      txpos := if g.soft.wrlen < g.soft.txlen then g.soft.txpos + 1 else g.soft.txpos
      wrlen := g.soft.wrlen + 1 }, Fifos.write P starving .data_cmd (nextCmd g.soft) g.hard⟩ := by
  have h := hg.take (P := P)
  refine ⟨hg.sending.step hlt, hg.rdlen, hg.depth, h.rx, ?_, fun _ => h.mask hlt⟩
  change (if _ then (g.hard.move P .take).tx ++ [_] else (g.hard.move P .take).tx).length ≤ 1
  rw [take_tx hg.tx]
  split
  · exact Nat.le_refl 1
  · exact Nat.zero_le 1

theorem fillLoop_starved (n : ℕ) : ∀ {g : Rig Dwc Fifos}, Starved s₀ g → ∀ k,
    Starved s₀ (fillLoop (fifos P) n (fun _ => starving) (g, k)).2.1 ∧
    min s₀.xlen (g.soft.wrlen + n) ≤
      (fillLoop (fifos P) n (fun _ => starving) (g, k)).2.1.soft.wrlen := by
  induction n with
  | zero => exact fun hg k => ⟨hg, Nat.min_le_right _ _⟩
  | succ n ih =>
      intro g hg k
      rw [fillLoop, Prog.bind_of_eq (soft_apply _ (g, k))]
      dsimp only
      rw [hg.sending.xlen]
      by_cases hall : s₀.xlen ≤ g.soft.wrlen
      · have hmin : min s₀.xlen (g.soft.wrlen + (n + 1)) ≤ g.soft.wrlen :=
          (Nat.min_le_left _ _).trans hall
        rw [if_pos hall]
        split
        · obtain ⟨hmask, hsoft⟩ := maskOff_starved (P := P) DW_IC_INTR_TX_EMPTY hg hall k
          exact ⟨hmask, hmin.trans_eq (congrArg Dwc.wrlen hsoft).symm⟩
        · rw [Prog.bind_of_eq (reg_read_fifos (by decide) _ g k), doIf]
          split
          · obtain ⟨hmask, hsoft⟩ :=
              maskOff_starved (P := P) DW_IC_INTR_TX_EMPTY (hg.take (P := P)) hall (k + 1)
            exact ⟨hmask, hmin.trans_eq (congrArg Dwc.wrlen hsoft).symm⟩
          · exact ⟨hg.take (P := P), hmin⟩
      · rw [if_neg hall, Prog.bind_of_eq (xmit_FIFO_is_full_starved hg k),
          if_neg Bool.false_ne_true]
        have hlt := Nat.lt_of_not_le hall
        have h' := ih ((hg.take (P := P)).write (P := P) hlt) (k + 2)
        refine ⟨h'.1, Nat.le_trans ?_ h'.2⟩
        change min s₀.xlen (g.soft.wrlen + (n + 1)) ≤ min s₀.xlen (g.soft.wrlen + 1 + n)
        omega

theorem drainLoop_starved (n : ℕ) {g : Rig Dwc Fifos} (hg : Starved s₀ g) (k : ℕ) :
    Starved s₀ (drainLoop (fifos P) n (fun _ => starving) (g, k)).2.1 ∧
    (drainLoop (fifos P) n (fun _ => starving) (g, k)).2.1.soft = g.soft := by
  cases n with
  | zero => exact ⟨hg, rfl⟩
  | succ n =>
      have hval : ¬ Has (Fifos.read P starving .status g.hard).1 DW_IC_STATUS_RFNE := by
        change ¬ Has (Fifos.bits ((g.hard.move P .take).tx.length < P.tx) _ |||
          Fifos.bits ((g.hard.move P .take).tx = []) _ |||
            Fifos.bits ((g.hard.move P .take).rx ≠ []) _) _
        rw [take_tx hg.tx, (take_same g.hard).1, hg.rx]
        simp only [Fifos.bits, List.length_nil, ne_eq, not_true_eq_false, if_true, if_false]
        split <;> decide
      rw [drainLoop, Prog.bind_of_eq (reg_read_fifos (by decide) _ g k), if_neg hval]
      exact ⟨hg.take (P := P), rfl⟩

theorem onNoStop_starved (hrx : 0 < s₀.rxlen) {g : Rig Dwc Fifos} (hg : Starved s₀ g) (k : ℕ) :
    (onNoStop (fifos P) (fun _ => starving) (g, k)).1 = .eagain ∧
    Starved s₀ (onNoStop (fifos P) (fun _ => starving) (g, k)).2.1 ∧
    (onNoStop (fifos P) (fun _ => starving) (g, k)).2.1.soft = g.soft := by
  rw [onNoStop, Prog.bind_of_eq (soft_apply _ (g, k)), Prog.bind_apply]
  obtain ⟨hdrain, hsoft⟩ := drainLoop_starved (P := P) (g.soft.rxlen - g.soft.rdlen) hg k
  generalize drainLoop (fifos P) (g.soft.rxlen - g.soft.rdlen) (fun _ => starving) (g, k) = r at *
  obtain ⟨u, g', k'⟩ := r
  dsimp only at hdrain hsoft ⊢
  have hmissing : ¬ (g'.soft.xlen ≤ g'.soft.wrlen ∧ g'.soft.rxlen ≤ g'.soft.rdlen) := by
    rw [hdrain.sending.rxlen, hdrain.rdlen]
    rintro ⟨-, hle⟩
    omega
  rw [Prog.bind_of_eq (soft_apply _ (g', k')), if_neg hmissing]
  exact ⟨rfl, hdrain, hsoft⟩

theorem onData_starved (hrx : 0 < s₀.rxlen) (hdepth : 0 < s₀.fifo_depth) {g : Rig Dwc Fifos}
    (hg : Starved s₀ g) (hlt : g.soft.wrlen < s₀.xlen) (k : ℕ) :
    (onData (fifos P) DW_IC_INTR_TX_EMPTY (fun _ => starving) (g, k)).1 = .eagain ∧
    Starved s₀ (onData (fifos P) DW_IC_INTR_TX_EMPTY (fun _ => starving) (g, k)).2.1 ∧
    g.soft.wrlen < (onData (fifos P) DW_IC_INTR_TX_EMPTY (fun _ => starving)
      (g, k)).2.1.soft.wrlen := by
  have hrest : ∀ {g₂ : Rig Dwc Fifos}, Starved s₀ g₂ → ∀ k₂,
      ((if g₂.soft.stop then pure .eagain else onNoStop (fifos P) : I2cM Event Fifos Handled)
        (fun _ => starving) (g₂, k₂)).1 = .eagain ∧
      Starved s₀ ((if g₂.soft.stop then pure .eagain
          else onNoStop (fifos P) : I2cM Event Fifos Handled)
        (fun _ => starving) (g₂, k₂)).2.1 ∧
      ((if g₂.soft.stop then pure .eagain else onNoStop (fifos P) : I2cM Event Fifos Handled)
        (fun _ => starving) (g₂, k₂)).2.1.soft = g₂.soft := by
    intro g₂ hg₂ k₂
    split
    · exact ⟨rfl, hg₂, rfl⟩
    · exact onNoStop_starved hrx hg₂ k₂
  obtain ⟨hfill, hprogress⟩ := fillLoop_starved (P := P) g.soft.fifo_depth hg k
  obtain ⟨hret, hend, hsoft⟩ :=
    hrest hfill (fillLoop (fifos P) g.soft.fifo_depth (fun _ => starving) (g, k)).2.2
  have hdep := hg.depth
  have hmore : g.soft.wrlen <
      (fillLoop (fifos P) g.soft.fifo_depth (fun _ => starving) (g, k)).2.1.soft.wrlen := by omega
  rw [onData, doIf, if_neg (by decide), doIf, if_pos (by decide)]
  exact ⟨hret, hend, hmore.trans_eq (congrArg Dwc.wrlen hsoft).symm⟩

/-- A call of the handler writes on, and waits. -/
theorem process_intr_starved (hrx : 0 < s₀.rxlen) (hdepth : 0 < s₀.fifo_depth) {g : Rig Dwc Fifos}
    (hg : Starved s₀ g) (hlt : g.soft.wrlen < s₀.xlen) (k : ℕ) :
    (dwc_i2c_process_intr (fifos P) (fun _ => starving) (g, k)).1 = .eagain ∧
    Starved s₀ (dwc_i2c_process_intr (fifos P) (fun _ => starving) (g, k)).2.1 ∧
    g.soft.wrlen < (dwc_i2c_process_intr (fifos P) (fun _ => starving) (g, k)).2.1.soft.wrlen := by
  have hval : (Fifos.read P starving .intr_stat g.hard).1 = DW_IC_INTR_TX_EMPTY := by
    change ((g.hard.move P .take).levels ||| 0 &&& _) &&& (g.hard.move P .take).mask = _
    rw [(take_same g.hard).2.2, hg.mask hlt, Fifos.levels, take_tx hg.tx,
      (take_same g.hard).1, hg.rx]
    simp only [Fifos.bits, List.length_nil, Nat.not_lt_zero, Nat.zero_le, if_true, if_false]
    decide
  rw [dwc_i2c_process_intr, Prog.bind_of_eq (reg_read_fifos (by decide) _ g k), hval,
    if_neg (by decide), if_neg (by decide)]
  exact onData_starved hrx hdepth (hg.take (P := P)) hlt (k + 1)

/-- All commands are written in the end. -/
theorem wait_complete_starved (hrx : 0 < s₀.rxlen) (hdepth : 0 < s₀.fifo_depth) (left : ℕ) :
    ∀ {g : Rig Dwc Fifos}, Starved s₀ g → s₀.xlen - g.soft.wrlen ≤ left → ∀ k, ∃ rounds,
      s₀.xlen ≤ (dwc_i2c_wait_complete (fifos P) rounds (fun _ => starving)
        (g, k)).2.1.soft.wrlen := by
  induction left with
  | zero =>
      intro g hg hleft k
      refine ⟨0, ?_⟩
      have hend : Soft (fun s => s = g.soft) (dwc_i2c_wait_complete (fifos P) 0) fun _ =>
          SetUp g.soft :=
        Soft.bind (reg_read_stays (fifos P) (by decide)) fun _ =>
          Soft.bind (dwc_i2c_reset_spec (fifos P) g.soft) fun _ => Soft.pure fun s hs => hs.toSetUp
      rw [(hend (fun _ => starving) g k rfl).wrlen]
      omega
  | succ left ih =>
      intro g hg hleft k
      by_cases hlt : g.soft.wrlen < s₀.xlen
      · obtain ⟨hret, hnext, hmore⟩ := process_intr_starved (P := P) hrx hdepth hg hlt k
        obtain ⟨rounds, hrounds⟩ :=
          ih hnext (by omega) (dwc_i2c_process_intr (fifos P) (fun _ => starving) (g, k)).2.2
        refine ⟨rounds + 1, ?_⟩
        rw [dwc_i2c_wait_complete, Prog.bind_apply, hret]
        exact hrounds
      · exact ih hg (by omega) k

end Starving

/-! ### Reads in flight -/

/-- The READ commands that were written and not answered were never more than the FIFO has entries,
and no byte was lost. -/
def InBounds (P : Depths) (g : Rig Dwc Fifos) : Prop := g.hard.peak ≤ P.rx ∧ g.hard.lost = 0

instance (P : Depths) (g : Rig Dwc Fifos) : Decidable (InBounds P g) :=
  inferInstanceAs (Decidable (_ ∧ _))

section Bound

variable {P : Depths} {s₀ : Dwc}

theorem quiet_linked : Linked P (s₀.seen.sent.countP (·.IsRead)) ⟨s₀, quiet P⟩ :=
  ⟨⟨Nat.le_refl 0, Nat.le_refl 0, Nat.le_refl 0, fun _ => rfl⟩, Nat.zero_add _⟩

/-- The reads that a run has written. -/
theorem written_eq (hf : Fresh s₀) (e : ℕ → Event) (rounds : ℕ) :
    let g := (dwc_i2c_wait_complete (fifos P) rounds e (⟨s₀, quiet P⟩, 0)).2.1
    g.hard.Sound P ∧ g.soft.wrlen ≤ s₀.xlen ∧ g.hard.written = g.soft.wrlen - s₀.txlen := by
  have hlink := wait_complete_closed (Linked.closed P _ fun _ => True) rounds e (fun _ => trivial)
    ⟨s₀, quiet P⟩ 0 quiet_linked
  have hsend : Carried s₀ _ :=
    wait_complete_carried (fifos P) rounds e ⟨s₀, quiet P⟩ 0 (Sending.start hf)
  refine ⟨hlink.sound, hsend.wrlen, ?_⟩
  have hcount := hlink.written
  rw [hsend.sent, List.countP_append, countP_commands] at hcount
  omega

/-- **Reads in flight**: over all interleavings, no more READ commands are open than the FIFO for
bytes has entries, and none overflows, exactly if the transfer does not ask for more bytes than
that. -/
theorem reads_in_flight (P : Depths) {s₀ : Dwc} (hf : Fresh s₀)
    (hdepth : s₀.fifo_depth = min P.tx P.rx) :
    (∀ (e : ℕ → Event) (rounds : ℕ),
      InBounds P (dwc_i2c_wait_complete (fifos P) rounds e (⟨s₀, quiet P⟩, 0)).2.1) ↔
      s₀.rxlen ≤ P.rx := by
  have hxlen := hf.xlen
  constructor
  · intro hall
    by_contra hmany
    have htx := P.tx_pos
    have hrx := P.rx_pos
    have hstart : Starved s₀ ⟨s₀, quiet P⟩ :=
      ⟨.start hf, hf.rdlen, rfl, rfl, Nat.zero_le 1, fun _ => rfl⟩
    obtain ⟨rounds, hwr⟩ := wait_complete_starved (P := P) (by omega) (by omega) s₀.xlen hstart
      (Nat.sub_le _ _) 0
    obtain ⟨hsound, -, hwritten⟩ := written_eq (P := P) hf (fun _ => starving) rounds
    have hdry := wait_complete_closed (Dry.closed (P := P)) rounds (fun _ => starving)
      (fun _ => rfl) ⟨s₀, quiet P⟩ 0 ⟨rfl, rfl⟩
    have hpeak := (hall (fun _ => starving) rounds).1
    have hge := hsound.peak_ge
    rw [hdry.2] at hge
    omega
  · intro hfew e rounds
    obtain ⟨hsound, hwr, hwritten⟩ := written_eq (P := P) hf e rounds
    have hpeak : (dwc_i2c_wait_complete (fifos P) rounds e (⟨s₀, quiet P⟩, 0)).2.1.hard.peak ≤
        P.rx := by
      have hle := hsound.peak_le
      omega
    exact ⟨hpeak, hsound.lost hpeak⟩

end Bound

/-- FIFOs of 16 entries. -/
def sixteen : Depths := ⟨16, 16, by decide, by decide, by decide, by decide⟩

theorem reads_in_flight_sixteen :
    (idle.begin 1 16 true).rxlen ≤ sixteen.rx ∧ ∀ (e : ℕ → Event) (rounds : ℕ),
      InBounds sixteen (dwc_i2c_wait_complete (fifos sixteen) rounds e
        (⟨idle.begin 1 16 true, quiet sixteen⟩, 0)).2.1 :=
  ⟨by decide, (reads_in_flight sixteen (fresh_begin idle 1 16 true (by decide)) rfl).mpr
    (by decide)⟩

/-- The controller holds one command at a time: it takes the first eight reads and answers seven of
them before the second interrupt, then answers one and takes one before every access. -/
def oneAtATime : ℕ → Event := fun n =>
  if n < 33 then {}
  else if n = 33 then { moves := (List.replicate 7 [.take, .push 0]).flatten ++ [.take] }
  else if n < 42 then {}
  else { moves := [.push 0, .take] }

/-- The FIFO is refilled while nine of the first sixteen reads are open: with a handler that is
delayed, 25 reads are open, and bytes are lost. -/
theorem refilled_too_soon :
    Fresh (idle.begin 0 32 true) ∧ idle.fifo_depth = min sixteen.tx sixteen.rx ∧
    let g := (dwc_i2c_wait_complete (fifos sixteen) 3 oneAtATime
      (⟨idle.begin 0 32 true, quiet sixteen⟩, 0)).2.1
    ¬ InBounds sixteen g ∧ g.hard.peak = 25 ∧ 0 < g.hard.lost :=
  ⟨fresh_begin idle 0 32 true (by decide), rfl, by decide +kernel⟩

end I2c
