import RpiBsp.Devc.Definitions

/-!
# Devc — calls of `tto`

What is in `IMSC`, `CR` and `LCR_H` over any sequence of calls on one device.  Before each call the
character library changes the terminal in any way: the settings, the flow control and the output
buffer.

* `At` — the mask, the control word and the line word that are in force.
* `send_at`, `ctrl_at`, `ser_stty_at` — what a call does to them.
* `tto_run` — every sequence of calls.
-/

namespace Devc

open Support Driver
open Prog (Triple Keeps)

/-! ### What is in force -/

/-- Anything can be read. -/
abbrev Any : BitVec 32 → Prop := fun _ => True

/-- The driver's mask is `m` and so is `IMSC`; `CR` is `c` and `LCR_H` is `l`. -/
structure At (m c l : BitVec 32) (g : Rig DevPl011 Regs) : Prop where
  imr : g.soft.imr = m
  imsc : g.hard .imsc = m
  cr : g.hard .cr = c
  lcr_h : g.hard .lcr_h = l

variable {m c l : BitVec 32} {tto_getchar : Ttybuf → UInt8 × Ttybuf}

theorem read_at (r : Reg) : Keeps Any (At m c l) (read_pl011 r) :=
  triple_read32 fun _ _ _ h => ⟨h.imr, h.imsc, h.cr, h.lcr_h⟩

/-- The other registers do not matter. -/
theorem write_at {r : Reg} (hi : .imsc ≠ r) (hc : .cr ≠ r) (hl : .lcr_h ≠ r) (v : BitVec 32) :
    Keeps Any (At m c l) (write_pl011 r v) :=
  triple_write32 fun _ _ _ h =>
    ⟨h.imr, by simpa [uart, hi] using h.imsc, by simpa [uart, hc] using h.cr,
      by simpa [uart, hl] using h.lcr_h⟩

theorem write_cr_at (v : BitVec 32) : Triple Any (At m c l) (write_pl011 .cr v) fun _ => At m v l :=
  triple_write32 fun _ _ _ h =>
    ⟨h.imr, by simpa [uart] using h.imsc, by simp [uart], by simpa [uart] using h.lcr_h⟩

theorem write_lcr_h_at (v : BitVec 32) :
    Triple Any (At m c l) (write_pl011 .lcr_h v) fun _ => At m c v :=
  triple_write32 fun _ _ _ h =>
    ⟨h.imr, by simpa [uart] using h.imsc, by simpa [uart] using h.cr, by simp [uart]⟩

/-- The driver's mask is set first, and then the register. -/
theorem write_imsc_at (m' : BitVec 32) :
    Triple Any (fun g => g.soft.imr = m' ∧ g.hard .cr = c ∧ g.hard .lcr_h = l)
      (write_pl011 .imsc m') fun _ => At m' c l :=
  triple_write32 fun _ _ _ h =>
    ⟨h.1, by simp [uart], by simpa [uart] using h.2.1, by simpa [uart] using h.2.2⟩

/-! ### Output -/

theorem transmit_at (n : ℕ) : Keeps Any (At m c l) (transmit tto_getchar n) := by
  induction n with
  | zero => exact .bind (read_at _) fun _ => .pure _
  | succ n ih =>
      refine .bind (read_at _) fun fr => .bind (fun _ _ _ _ h => h) fun dev => .ite (.pure _) ?_
      refine .bind (write_at (by decide) (by decide) (by decide) _) fun _ => ?_
      exact .bind (triple_update fun g h => ⟨h.imr, h.imsc, h.cr, h.lcr_h⟩) fun _ =>
        .ite (.pure _) ih

/-- The mask is `m` as before, or the transmit interrupt is enabled exactly if there is more to
send. -/
def Sent (m c l : BitVec 32) (g : Rig DevPl011 Regs) : Prop :=
  ∃ m', At m' c l g ∧ (m' = m ∨ (Has m' PL011_IMSC_TXIM ↔ 0 < g.soft.tty.obuf.cnt))

theorem has_or (v bit : BitVec 32) (hbit : bit ≠ 0) : Has (v ||| bit) bit := by
  unfold Has
  have hself : (v ||| bit) &&& bit = bit := by
    ext i
    simp only [BitVec.getElem_and, BitVec.getElem_or]
    cases bit[i] <;> simp
  rw [hself]
  exact hbit

theorem not_has_and (v bit : BitVec 32) : ¬ Has (v &&& ~~~bit) bit := by
  unfold Has
  simp [BitVec.and_assoc]

/-- The mask is changed in the driver and in the device. -/
theorem setMask_sent {d : DevPl011} {f : BitVec 32 → BitVec 32}
    (hm : Has (f d.imr) PL011_IMSC_TXIM ↔ 0 < d.tty.obuf.cnt) :
    Triple Any (fun g => At m c l g ∧ g.soft = d)
      (do update fun dev => { dev with imr := f dev.imr }
          write_pl011 .imsc (f d.imr)) fun _ => Sent m c l := by
  refine Triple.bind (Q := fun _ g => (g.soft.imr = f d.imr ∧ g.hard .cr = c ∧ g.hard .lcr_h = l) ∧
    g.soft.tty = d.tty)
    (triple_update fun g hg => ⟨⟨congrArg (fun s => f (DevPl011.imr s)) hg.2, hg.1.cr, hg.1.lcr_h⟩,
      congrArg DevPl011.tty hg.2⟩) fun _ => ?_
  intro a ha g n hg
  exact ⟨f d.imr, write_imsc_at (f d.imr) a ha g n hg.1, .inr (hm.trans (by rw [← hg.2]; rfl))⟩

theorem setTxim_sent : Triple Any (At m c l) setTxim fun _ => Sent m c l := by
  refine triple_soft_bind fun d => Triple.at fun g hg => ?_
  have hkept : ¬ (Has d.imr PL011_IMSC_TXIM ↔ ¬ 0 < d.tty.obuf.cnt) → Sent m c l g := by
    intro hsame
    refine ⟨m, hg.1, .inr ?_⟩
    rw [hg.2, ← hg.1.imr, hg.2]
    tauto
  have hpre : ∀ g', g' = g → At m c l g' ∧ g'.soft = d := fun g' h => h ▸ hg
  refine Triple.ite (fun hcnt => triple_doIf (fun hoff => ?_) fun hon g' hg' => ?_) fun hcnt =>
    triple_doIf (fun hon => ?_) fun hoff g' hg' => ?_
  · have hset : Has (d.imr ||| PL011_IMSC_TXIM) PL011_IMSC_TXIM := has_or _ _ (by decide)
    exact (setMask_sent (f := (· ||| PL011_IMSC_TXIM)) ⟨fun _ => hcnt, fun _ => hset⟩).pre hpre
  · exact hg' ▸ hkept (by tauto)
  · have hclr : ¬ Has (d.imr &&& ~~~PL011_IMSC_TXIM) PL011_IMSC_TXIM := not_has_and _ _
    exact (setMask_sent (f := (· &&& ~~~PL011_IMSC_TXIM)) ⟨fun h => absurd h hclr, fun h =>
      absurd h hcnt⟩).pre hpre
  · exact hg' ▸ hkept (by tauto)

/-- **Output**: the lines stay, and the mask changes only as the buffer asks for. -/
theorem send_at : Triple Any (At m c l) (send tto_getchar) fun _ => Sent m c l := by
  refine Triple.bind (Q := fun _ => At m c l) (fun _ _ _ _ h => h) fun dev => ?_
  refine Triple.ite (fun _ => Triple.pure fun g hg => ⟨m, hg, .inl rfl⟩) fun _ => ?_
  exact Triple.bind (transmit_at 1024) fun _ => setTxim_sent

/-! ### The lines -/

/-- **The lines that are to change are changed**, and nothing else is. -/
theorem ctrl_at (arg1 : Serctl) {d : DevPl011} :
    Triple Any (fun g => At m c l g ∧ g.soft = d) (ctrl arg1) fun _ g =>
      At m (if arg1.dtrChg then put c PL011_CR_DTR arg1.dtr else c)
        (if arg1.brkChg then put l PL011_LCR_H_BRK arg1.brk else l) g ∧ g.soft = d := by
  have hread : ∀ {l : BitVec 32} (r : Reg),
    Triple Any (fun g => At m c l g ∧ g.soft = d) (read_pl011 r) fun v g =>
      (At m c l g ∧ g.soft = d) ∧ v = if r = .fr then v else g.hard r := by
    intro l r
    refine triple_read32 fun x g _ hg => ⟨⟨⟨hg.1.imr, hg.1.imsc, hg.1.cr, hg.1.lcr_h⟩, hg.2⟩, ?_⟩
    by_cases hr : r = .fr
    · rw [if_pos hr]
    · simp [uart, hr]
  refine Triple.bind (Q := fun _ g =>
    At m c (if arg1.brkChg then put l PL011_LCR_H_BRK arg1.brk else l) g ∧ g.soft = d) ?_
      fun _ => ?_
  · refine triple_doIf (fun hchg => ?_) fun hno g hg => ?_
    · refine Triple.bind (hread .lcr_h) fun v => ?_
      intro a ha g n hg
      rw [if_pos hchg]
      have hv : v = l := hg.2.trans hg.1.1.lcr_h
      subst hv
      exact ⟨write_lcr_h_at _ a ha g n hg.1.1, hg.1.2⟩
    · rw [if_neg hno]
      exact hg
  · refine triple_doIf (fun hchg => ?_) fun hno g hg => ?_
    · refine Triple.bind (hread .cr) fun v => ?_
      intro a ha g n hg
      rw [if_pos hchg]
      have hv : v = c := hg.2.trans hg.1.1.cr
      subst hv
      exact ⟨write_cr_at _ a ha g n hg.1.1, hg.1.2⟩
    · rw [if_neg hno]
      exact hg

/-! ### Settings -/

/-- `ser_stty` finds all settings as they are. -/
def DevPl011.Unchanged (dev : DevPl011) : Prop :=
  dev.divisors = some (dev.ibrd, dev.fbrd) ∧ dev.newCr = dev.cr ∧ dev.newLcrH = dev.lcr_h

instance (dev : DevPl011) : Decidable dev.Unchanged := inferInstanceAs (Decidable (_ ∧ _))

/-- The mask after new settings. -/
def rxMask : BitVec 32 := PL011_IMSC_RXIM ||| PL011_IMSC_RTIM

theorem chipReady_soft (d : DevPl011) (t : ℕ) : Keeps Any (fun g => g.soft = d) (chipReady t) := by
  induction t with
  | zero =>
      exact .bind (triple_read32 fun _ _ _ h => h) fun _ =>
        .bind (triple_read32 fun _ _ _ h => h) fun _ => .pure _
  | succ t ih => exact .bind (triple_read32 fun _ _ _ h => h) fun _ => .ite ih (.pure _)

theorem setRegisters_at (cr lcr_h : BitVec 32) (ibrd fbrd : ℕ) {t : Tty} :
    Triple Any (fun g => g.soft.tty = t) (setRegisters cr lcr_h ibrd fbrd) fun _ g =>
      At rxMask cr lcr_h g ∧ g.soft.tty = t := by
  refine Triple.bind (Q := fun _ g => g.soft.imr = rxMask ∧ g.soft.tty = t)
    (triple_update fun g hg => ⟨rfl, hg⟩) fun _ => ?_
  refine triple_soft_bind fun d => Triple.at fun g hg => ?_
  obtain ⟨⟨himr, htty⟩, hd⟩ := hg
  refine Triple.pre (P := fun g => g.soft = d) ?_ fun g' hg' => hg' ▸ hd
  -- the driver's data stays from here on
  have hw : ∀ r v, Keeps Any (fun g : Rig DevPl011 Regs => g.soft = d) (write_pl011 r v) :=
    fun r v => triple_write32 fun _ _ _ h => h
  refine Triple.bind (Keeps.ite (chipReady_soft d _) (.pure _)) fun _ => ?_
  refine Triple.bind (hw _ _) fun _ => Triple.bind (hw _ _) fun _ => ?_
  refine Triple.bind (Q := fun _ g => g.soft = d) (triple_read32 fun _ _ _ h => h) fun reg => ?_
  refine Triple.bind (hw _ _) fun _ =>
    Triple.bind (Keeps.ite (.bind (hw _ _) fun _ => hw _ _) (.pure _)) fun _ => ?_
  refine Triple.bind (hw _ _) fun _ => Triple.bind (hw _ _) fun _ =>
    Triple.bind (hw _ _) fun _ => ?_
  -- the last three writes are to the registers in question
  refine Triple.bind (Q := fun _ g => g.soft = d ∧ g.hard .lcr_h = lcr_h)
    (triple_write32 fun _ g _ h => ⟨h, by simp [uart]⟩) fun _ => ?_
  refine Triple.bind (Q := fun _ g => g.soft = d ∧ g.hard .cr = cr ∧ g.hard .lcr_h = lcr_h)
    (triple_write32 fun _ g _ h => ⟨h.1, by simp [uart], by simpa [uart] using h.2⟩) fun _ => ?_
  intro a ha g' n hg'
  have hwrite := write_imsc_at d.imr a ha g' n ⟨congrArg DevPl011.imr hg'.1, hg'.2⟩
  rw [← hd, himr] at hwrite ⊢
  exact ⟨hwrite, (congrArg DevPl011.tty hg'.1).trans (hd ▸ htty)⟩

/-- **Settings**: they are left alone or made anew, and then every register is. -/
theorem ser_stty_at {d : DevPl011} :
    Triple Any (fun g => At m c l g ∧ g.soft = d) ser_stty fun ok g =>
        ok = true → g.soft.tty = d.tty ∧
      (d.Unchanged ∧ At m c l g ∨ ¬ d.Unchanged ∧ At rxMask d.newCr d.newLcrH g) := by
  refine triple_soft_bind fun d' => Triple.at fun g hg => ?_
  obtain ⟨⟨hat, rfl⟩, rfl⟩ := hg
  cases hdiv : g.soft.divisors with
  | none => exact Triple.pure fun _ _ h => (nomatch h)
  | some p =>
      obtain ⟨ibrd, fbrd⟩ := p
      refine Triple.bind (Q := fun _ g' => At m c l g' ∧ g'.soft.tty = g.soft.tty)
        (triple_update fun g' hg' => ?_) fun _ => ?_
      · subst hg'
        exact ⟨⟨hat.imr, hat.imsc, hat.cr, hat.lcr_h⟩, rfl⟩
      refine Triple.bind (Q := fun _ g' => g'.soft.tty = g.soft.tty ∧
        (g.soft.Unchanged ∧ At m c l g' ∨ ¬ g.soft.Unchanged ∧
        At rxMask g.soft.newCr g.soft.newLcrH g')) ?_ fun _ =>
          Triple.pure fun _ h _ => h
      refine triple_doIf (fun hnew => ?_) fun hsame g' hg' => ?_
      · have hch : ¬ g.soft.Unchanged := by
          rintro ⟨h₁, h₂, h₃⟩
          cases hdiv.symm.trans h₁
          exact hnew ⟨h₂, h₃, rfl, rfl⟩
        exact ((setRegisters_at _ _ _ _).mono (fun _ h => h.2) fun _ _ h => ⟨h.2, .inr ⟨hch, h.1⟩⟩)
      · obtain ⟨h₁, h₂, rfl, rfl⟩ := not_not.mp hsame
        exact ⟨hg'.2, .inl ⟨⟨hdiv, h₁, h₂⟩, hg'.1⟩⟩

theorem not_has_newCr (dev : DevPl011) : ¬ Has dev.newCr PL011_CR_DTR := by
  unfold DevPl011.newCr flag
  generalize dev.tty.c_cflag.ohflow = a
  generalize dev.tty.c_cflag.ihflow = b
  generalize decide (dev.div = 8) = d
  generalize dev.loopback = e
  revert a b d e
  decide

theorem not_has_newLcrH (dev : DevPl011) : ¬ Has dev.newLcrH PL011_LCR_H_BRK := by
  unfold DevPl011.newLcrH flag
  generalize dev.tty.c_cflag.cstopb = a
  generalize dev.tty.c_cflag.parenb = b
  generalize dev.tty.c_cflag.parodd = d
  cases dev.tty.c_cflag.csize <;> revert a b d <;> decide

theorem has_put (reg bit : BitVec 32) (hbit : bit ≠ 0) (on : Bool) :
    Has (put reg bit on) bit ↔ on = true := by
  cases on with
  | true => exact ⟨fun _ => rfl, fun _ => has_or reg bit hbit⟩
  | false => exact ⟨fun h => absurd h (not_has_and reg bit), fun h => nomatch h⟩

/-! ### Runs -/

/-- One call: the terminal as the library left it, and what is asked for. -/
structure Call where
  tty : Tty
  action : Action

/-- A device.  The last three fields are not part of the code: whether the transmit interrupt was
enabled since the output buffer was last found empty, and what was last asked of the lines. -/
structure Sys where
  rig : Rig DevPl011 Regs
  asked : ℕ
  armed : Bool
  dtr : Option Bool
  brk : Option Bool

/-- What `DTR` is to be. -/
def Action.dtr (old : Option Bool) : Action → Option Bool
  | .ctrl arg1 => if arg1.dtrChg then some arg1.dtr else old
  | _ => old

/-- What the break is to be. -/
def Action.brk (old : Option Bool) : Action → Option Bool
  | .ctrl arg1 => if arg1.brkChg then some arg1.brk else old
  | _ => old

/-- The device at a call. -/
def Sys.at (s : Sys) (call : Call) : DevPl011 := { s.rig.soft with tty := call.tty }

/-- One call; there is no state after a division by zero. -/
def Sys.step (tto_getchar : Ttybuf → UInt8 × Ttybuf) (a : ℕ → BitVec 32) (s : Sys) (call : Call) :
    Option Sys :=
  let r := tto tto_getchar call.action a (⟨s.at call, s.rig.hard⟩, s.asked)
  if r.1 then
    some {
      rig := r.2.1
      asked := r.2.2
      armed := decide (Has r.2.1.soft.imr PL011_IMSC_TXIM) || s.armed &&
        decide (0 < r.2.1.soft.tty.obuf.cnt)
      dtr := call.action.dtr s.dtr
      brk := call.action.brk s.brk }
  else none

def Sys.run (tto_getchar : Ttybuf → UInt8 × Ttybuf) (a : ℕ → BitVec 32) (s : Sys)
    (calls : List Call) : Option Sys :=
  calls.foldlM (Sys.step tto_getchar a) s

/-- Every call of a run meets `P`. -/
def Sys.Each (tto_getchar : Ttybuf → UInt8 × Ttybuf) (a : ℕ → BitVec 32) (P : Sys → Call → Prop) :
    Sys → List Call → Prop
  | _, [] => True
  | s, call :: calls => P s call ∧
      match s.step tto_getchar a call with
      | none => True
      | some s' => s'.Each tto_getchar a P calls

instance instDecidableEach (tto_getchar : Ttybuf → UInt8 × Ttybuf) (a : ℕ → BitVec 32)
    (P : Sys → Call → Prop) [∀ s call, Decidable (P s call)] :
    ∀ s calls, Decidable (Sys.Each tto_getchar a P s calls) := fun s calls =>
  match calls with
  | [] => isTrue trivial
  | call :: calls =>
      have : Decidable (match s.step tto_getchar a call with
        | none => True
        | some s' => s'.Each tto_getchar a P calls) :=
        match s.step tto_getchar a call with
        | none => isTrue trivial
        | some s' => instDecidableEach tto_getchar a P s' calls
      inferInstanceAs (Decidable (_ ∧ _))

/-- New settings are made when the transmit interrupt is off or the output buffer is empty. -/
def KeepsTx (s : Sys) (call : Call) : Prop :=
  match call.action with
  | .stty => (s.at call).Unchanged ∨ (Has s.rig.soft.imr PL011_IMSC_TXIM → call.tty.obuf.cnt = 0)
  | _ => True

/-- New settings are made when neither line was last asked to be on. -/
def KeepsLines (s : Sys) (call : Call) : Prop :=
  match call.action with
  | .stty => (s.at call).Unchanged ∨ (s.dtr ≠ some true ∧ s.brk ≠ some true)
  | _ => True

instance (s : Sys) : ∀ call, Decidable (KeepsTx s call)
  | ⟨_, .stty⟩ => inferInstanceAs (Decidable (_ ∨ _))
  | ⟨_, .ctrl _⟩ => isTrue trivial
  | ⟨_, .data⟩ => isTrue trivial
  | ⟨_, .event⟩ => isTrue trivial

instance (s : Sys) : ∀ call, Decidable (KeepsLines s call)
  | ⟨_, .stty⟩ => inferInstanceAs (Decidable (_ ∨ _))
  | ⟨_, .ctrl _⟩ => isTrue trivial
  | ⟨_, .data⟩ => isTrue trivial
  | ⟨_, .event⟩ => isTrue trivial

/-- `IMSC` is the driver's mask. -/
def Shadow (s : Sys) : Prop := s.rig.hard .imsc = s.rig.soft.imr

/-- The transmit interrupt is enabled, once it was and until the buffer is empty. -/
def TxEnabled (s : Sys) : Prop := s.armed = true → Has s.rig.soft.imr PL011_IMSC_TXIM

/-- The lines are as they were last asked for. -/
structure InForce (s : Sys) : Prop where
  dtr : ∀ on, s.dtr = some on → (Has (s.rig.hard .cr) PL011_CR_DTR ↔ on = true)
  brk : ∀ on, s.brk = some on → (Has (s.rig.hard .lcr_h) PL011_LCR_H_BRK ↔ on = true)

variable {a : ℕ → BitVec 32} {s s' : Sys} {call : Call}

/-- What a call leaves in force. -/
def Left (s : Sys) (call : Call) (g : Rig DevPl011 Regs) : Prop :=
  match call.action with
  | .stty => g.soft.tty = call.tty ∧
      ((s.at call).Unchanged ∧ At s.rig.soft.imr (s.rig.hard .cr) (s.rig.hard .lcr_h) g ∨
        ¬ (s.at call).Unchanged ∧ At rxMask (s.at call).newCr (s.at call).newLcrH g)
  | .ctrl arg1 =>
      At s.rig.soft.imr (if arg1.dtrChg then put (s.rig.hard .cr) PL011_CR_DTR arg1.dtr
        else s.rig.hard .cr)
        (if arg1.brkChg then put (s.rig.hard .lcr_h) PL011_LCR_H_BRK arg1.brk
          else s.rig.hard .lcr_h) g
  | .data => Sent s.rig.soft.imr (s.rig.hard .cr) (s.rig.hard .lcr_h) g
  | .event => Sent s.rig.soft.imr (s.rig.hard .cr) (s.rig.hard .lcr_h) g

theorem tto_left (hs : Shadow s)
    (hret : (tto tto_getchar call.action a (⟨s.at call, s.rig.hard⟩, s.asked)).1 = true) :
    Left s call (tto tto_getchar call.action a (⟨s.at call, s.rig.hard⟩, s.asked)).2.1 := by
  have hat : At s.rig.soft.imr (s.rig.hard .cr) (s.rig.hard .lcr_h) ⟨s.at call, s.rig.hard⟩ :=
    ⟨rfl, hs, rfl, rfl⟩
  obtain ⟨tty, action⟩ := call
  cases action with
  | stty => exact ser_stty_at a (fun _ => trivial) _ s.asked ⟨hat, rfl⟩ hret
  | ctrl arg1 => exact (ctrl_at arg1 a (fun _ => trivial) _ s.asked ⟨hat, rfl⟩).1
  | data => exact send_at a (fun _ => trivial) _ s.asked hat
  | event => exact send_at a (fun _ => trivial) _ s.asked hat

theorem step_left (hs : Shadow s) (hstep : s.step tto_getchar a call = some s') :
    Left s call s'.rig ∧
      s'.armed = (decide (Has s'.rig.soft.imr PL011_IMSC_TXIM) || s.armed &&
        decide (0 < s'.rig.soft.tty.obuf.cnt)) ∧
      s'.dtr = call.action.dtr s.dtr ∧ s'.brk = call.action.brk s.brk := by
  obtain ⟨hret, h⟩ := Option.ite_none_right_eq_some.mp hstep
  obtain rfl := Option.some.inj h
  exact ⟨tto_left hs hret, rfl, rfl, rfl⟩

theorem Shadow.step (hs : Shadow s) (hstep : s.step tto_getchar a call = some s') : Shadow s' := by
  have hleft := (step_left hs hstep).1
  unfold Left at hleft
  split at hleft
  · rcases hleft.2 with ⟨-, h⟩ | ⟨-, h⟩
    · exact h.imsc.trans h.imr.symm
    · exact h.imsc.trans h.imr.symm
  · exact hleft.imsc.trans hleft.imr.symm
  · obtain ⟨m', h, -⟩ := hleft
    exact h.imsc.trans h.imr.symm
  · obtain ⟨m', h, -⟩ := hleft
    exact h.imsc.trans h.imr.symm

theorem Sent.txEnabled {m c l : BitVec 32} {armed : Bool} {g : Rig DevPl011 Regs} (h : Sent m c l g)
    (hm : armed = true → Has m PL011_IMSC_TXIM) (hmore : armed = true ∧ 0 < g.soft.tty.obuf.cnt) :
    Has g.soft.imr PL011_IMSC_TXIM := by
  obtain ⟨m', hat, rfl | hiff⟩ := h
  · rw [hat.imr]
    exact hm hmore.1
  · rw [hat.imr]
    exact hiff.mpr hmore.2

theorem TxEnabled.step (hs : Shadow s) (h : TxEnabled s) (hk : KeepsTx s call)
    (hstep : s.step tto_getchar a call = some s') : TxEnabled s' := by
  obtain ⟨hleft, harmed, -, -⟩ := step_left hs hstep
  intro harm
  rw [harmed, Bool.or_eq_true, Bool.and_eq_true] at harm
  rcases harm with hon | ⟨hold, hcnt⟩
  · exact of_decide_eq_true hon
  have hcnt : 0 < s'.rig.soft.tty.obuf.cnt := of_decide_eq_true hcnt
  unfold Left at hleft
  unfold KeepsTx at hk
  split at hleft
  · rename_i hact
    rw [hact] at hk
    rcases hleft with ⟨htty, ⟨-, hat⟩ | ⟨hnew, hat⟩⟩
    · exact hat.imr ▸ h hold
    · -- the buffer would be empty
      rw [htty] at hcnt
      exact absurd (hk.resolve_left hnew (h hold)) (Nat.ne_of_gt hcnt)
  · exact hleft.imr ▸ h hold
  · exact hleft.txEnabled h ⟨hold, hcnt⟩
  · exact hleft.txEnabled h ⟨hold, hcnt⟩

theorem InForce.step (hs : Shadow s) (h : InForce s) (hk : KeepsLines s call)
    (hstep : s.step tto_getchar a call = some s') : InForce s' := by
  obtain ⟨hleft, -, hdtr, hbrk⟩ := step_left hs hstep
  unfold Left at hleft
  unfold KeepsLines at hk
  -- a call that leaves both registers and asks for nothing
  have hsame : ∀ {m}, At m (s.rig.hard .cr) (s.rig.hard .lcr_h) s'.rig → s'.dtr = s.dtr →
      s'.brk = s.brk → InForce s' :=
    fun hat hd hb => ⟨fun on hon => hat.cr ▸ h.dtr on (hd ▸ hon), fun on hon =>
      hat.lcr_h ▸ h.brk on (hb ▸ hon)⟩
  split at hleft
  · rename_i hact
    rw [hact] at hdtr hbrk hk
    change s'.dtr = s.dtr at hdtr
    change s'.brk = s.brk at hbrk
    rcases hleft with ⟨-, ⟨-, hat⟩ | ⟨hnew, hat⟩⟩
    · exact hsame hat hdtr hbrk
    · obtain ⟨hd, hb⟩ := hk.resolve_left hnew
      refine ⟨fun on hon => ?_, fun on hon => ?_⟩
      · have hoff : on ≠ true := fun h => hd (h ▸ hdtr ▸ hon)
        rw [hat.cr]
        exact ⟨fun h => absurd h (not_has_newCr _), fun h => absurd h hoff⟩
      · have hoff : on ≠ true := fun h => hb (h ▸ hbrk ▸ hon)
        rw [hat.lcr_h]
        exact ⟨fun h => absurd h (not_has_newLcrH _), fun h => absurd h hoff⟩
  · rename_i arg1 hact
    rw [hact] at hdtr hbrk
    refine ⟨fun on hon => ?_, fun on hon => ?_⟩
    · rw [hleft.cr]
      rw [hdtr, Action.dtr] at hon
      split at hon
      · obtain rfl := Option.some.inj hon
        rw [if_pos ‹_›]
        exact has_put _ _ (by decide) _
      · rw [if_neg ‹_›]
        exact h.dtr on hon
    · rw [hleft.lcr_h]
      rw [hbrk, Action.brk] at hon
      split at hon
      · obtain rfl := Option.some.inj hon
        rw [if_pos ‹_›]
        exact has_put _ _ (by decide) _
      · rw [if_neg ‹_›]
        exact h.brk on hon
  · rename_i hact
    rw [hact] at hdtr hbrk
    obtain ⟨m', hat, -⟩ := hleft
    exact hsame hat hdtr hbrk
  · rename_i hact
    rw [hact] at hdtr hbrk
    obtain ⟨m', hat, -⟩ := hleft
    exact hsame hat hdtr hbrk

/-- What each call keeps holds after every run whose calls meet the condition. -/
theorem Sys.Each.run {P : Sys → Call → Prop} {I : Sys → Prop}
    (hI : ∀ {s call s'}, Shadow s → I s → P s call → s.step tto_getchar a call = some s' → I s')
    (calls : List Call) :
    ∀ {s}, Shadow s → I s → s.Each tto_getchar a P calls →
    ∀ {s'}, s.run tto_getchar a calls = some s' → I s' := by
  induction calls with
  | nil =>
      intro s _ hi _ s' hrun
      obtain rfl := Option.some.inj hrun
      exact hi
  | cons call calls ih =>
      intro s hs hi heach s' hrun
      rw [Sys.run, List.foldlM_cons] at hrun
      obtain ⟨t, ht, hrest⟩ := Option.bind_eq_some_iff.mp hrun
      have hrest' : t.Each tto_getchar a P calls := by
        have hnext := heach.2
        rw [ht] at hnext
        exact hnext
      exact ih (hs.step ht) (hI hs hi heach.1 ht) hrest' hrest

/-- **Every sequence of calls on one device**, from its first settings on: `IMSC` is the driver's
mask.  If new settings are made only when the transmit interrupt is off or the buffer is empty, the
interrupt stays enabled until the buffer is empty.  If they are made only when neither line was last
asked to be on, the lines are as they were asked for. -/
theorem tto_run (hs : Shadow s) (harmed : s.armed = true → Has s.rig.soft.imr PL011_IMSC_TXIM)
    (hdtr : s.dtr = none)
    (hbrk : s.brk = none) (calls : List Call) (hrun : s.run tto_getchar a calls = some s') :
    s'.rig.hard .imsc = s'.rig.soft.imr ∧
    (s.Each tto_getchar a KeepsTx calls → TxEnabled s') ∧
    (s.Each tto_getchar a KeepsLines calls → InForce s') := by
  refine ⟨?_, fun heach => ?_, fun heach => ?_⟩
  · have hall : s.Each tto_getchar a (fun _ _ => True) calls := by
      clear hrun hs harmed hdtr hbrk
      induction calls generalizing s with
      | nil => trivial
      | cons call calls ih =>
          refine ⟨trivial, ?_⟩
          split
          · trivial
          · exact ih
    exact Sys.Each.run (fun hs _ _ hstep => hs.step hstep) calls hs hs hall hrun
  · exact Sys.Each.run (fun hs h hk hstep => h.step hs hk hstep) calls hs harmed heach hrun
  · have hinit : InForce s :=
      ⟨fun on h => (nomatch hdtr.symm.trans h), fun on h => (nomatch hbrk.symm.trans h)⟩
    exact Sys.Each.run (fun hs h hk hstep => h.step hs hk hstep) calls hs hinit heach hrun

/-! ### A console -/

/-- The next character, unchanged. -/
def plainGetchar (b : Ttybuf) : UInt8 × Ttybuf :=
  (b.buff b.tail, { b with tail := (b.tail + 1) % b.size, cnt := b.cnt - 1 })

/-- Two characters to send, eight bits and no parity, with one stop bit or two. -/
def waitingTty (cstopb : Bool) : Tty where
  obuf := ⟨fun k => UInt8.ofNat k, 2048, 0, 2⟩
  c_cflag := ⟨.cs8, cstopb, false, false, false, false⟩
  baud := 38400
  paged := false
  override := false

/-- A device after its first settings. -/
def console : Sys where
  rig :=
    { soft :=
        { tty := waitingTty false, fifosize := 32, fifo := 2, clk := 24000000, div := 16,
          baud := 38400, lcr_h := 0x70
          ibrd := 39, fbrd := 4, cr := 0x301, imr := 0x50, loopback := false }
      hard := fun r => match r with
        | .imsc => 0x50
        | .cr => 0x301
        | .lcr_h => 0x70
        | _ => 0 }
  asked := 0
  armed := false
  dtr := none
  brk := none

/-- `DTR` and the break are to be on. -/
def bothOn : Serctl := ⟨true, true, true, true⟩

/-- Output waits for the FIFO, the settings are given again, and the lines are set. -/
def quietCalls : List Call :=
  [⟨waitingTty false, .data⟩, ⟨waitingTty false, .stty⟩, ⟨waitingTty false, .ctrl bothOn⟩]

theorem tto_run_console :
    (console.run plainGetchar (fun _ => PL011_FR_TXFF) quietCalls).map
        (fun s => (s.armed, s.dtr, s.brk)) =
      some (true, some true, some true) ∧
    ∀ s', console.run plainGetchar (fun _ => PL011_FR_TXFF) quietCalls = some s' →
      s'.rig.hard .imsc = s'.rig.soft.imr ∧ TxEnabled s' ∧ InForce s' := by
  refine ⟨by decide +kernel, fun s' hrun => ?_⟩
  obtain ⟨himsc, htx, hlines⟩ :=
    tto_run (s := console) rfl (fun h => absurd h (by decide)) rfl rfl quietCalls hrun
  exact ⟨himsc, htx (by decide +kernel), hlines (by decide +kernel)⟩

/-- The lines are set and output waits for the FIFO; then the settings are given with one more stop
bit.  Output still waits, the transmit interrupt is off, and so are both lines. -/
theorem stty_drops :
    let r := console.run plainGetchar (fun _ => PL011_FR_TXFF)
      [⟨waitingTty false, .ctrl bothOn⟩, ⟨waitingTty false, .data⟩, ⟨waitingTty true, .stty⟩]
    r.map (fun s => (s.rig.soft.tty.obuf.cnt, s.rig.soft.tty.paged)) = some (2, false) ∧
    r.map (fun s => (s.armed, decide (Has s.rig.soft.imr PL011_IMSC_TXIM))) = some (true, false) ∧
    r.map (fun s => (s.dtr, decide (Has (s.rig.hard .cr) PL011_CR_DTR))) = some (some true, false) ∧
    r.map (fun s => (s.brk, decide (Has (s.rig.hard .lcr_h) PL011_LCR_H_BRK))) =
      some (some true, false) := by
  decide +kernel

end Devc
