import RpiBsp.Sdmmc.Command.Definitions

/-!
# Sdmmc — Command — the capabilities are put back

A reliable write turns the automatic commands of the controller off while it is sent.

* `SendKeeps` — what the functions below `_sdio_send_cmd` need of it: a command that is not a
  reliable write leaves `caps` alone;
* `send_keeps` — it is so at every depth;
* `caps_put_back_iff` — a reliable write loses the capabilities when the card is gone at the end of
  one of its attempts, and only then; `mmc_rpmb_rw` never does.
-/

namespace Sdmmc

open Support Support.Prog

/-! ### The functions below -/

/-- The capabilities are `c`. -/
def CapsAre (c : BitVec 64) (hc : Host) : Prop := hc.caps = c

/-- A computation leaves the capabilities alone. -/
def KeepsCaps {α : Type} (m : HostM α) : Prop := ∀ c, Keeps (fun _ => True) (CapsAre c) m

def SendKeeps (send : Send) : Prop :=
  ∀ (cmd : Cmd) (timeout retries : ℕ), ¬ cmd.Rlw → KeepsCaps (send cmd timeout retries)

namespace KeepsCaps

variable {α β : Type}

theorem pure (a : α) : KeepsCaps (Pure.pure a : HostM α) := fun _ => Keeps.pure a

theorem bind {m : HostM α} {f : α → HostM β} (hm : KeepsCaps m) (hf : ∀ a, KeepsCaps (f a)) :
    KeepsCaps (m >>= f) := fun c => (hm c).bind fun a => hf a c

theorem ite {p : Prop} [Decidable p] {m m' : HostM α} (hm : KeepsCaps m) (hm' : KeepsCaps m') :
    KeepsCaps (if p then m else m') := fun c => (hm c).ite (hm' c)

theorem get : KeepsCaps (MonadStateOf.get : HostM Host) := fun _ => Keeps.get

theorem ask : KeepsCaps (Prog.ask : HostM Answer) := fun _ => Keeps.ask

theorem modify {f : Host → Host} (h : ∀ hc, (f hc).caps = hc.caps) :
    KeepsCaps (modify f : HostM PUnit) := fun _ => Keeps.modify fun hc hhc => (h hc).trans hhc

end KeepsCaps

section Calls

variable {send : Send} (hsend : SendKeeps send) {init : Host → Init}

include hsend

theorem sendNew_keeps {cmd : Cmd} (h : ¬ cmd.Rlw) (timeout retries : ℕ) :
    KeepsCaps (sendNew send cmd timeout retries) :=
  .bind .ask fun _ => .ite (hsend cmd timeout retries h) (.pure _)

theorem sd_app_cmd_keeps : KeepsCaps (sd_app_cmd send) := by
  refine .bind .get fun hc => sendNew_keeps hsend ?_ _ _
  simp only [Cmd.Rlw]
  split_ifs <;> decide

theorem set_block_count_keeps (blkcnt flgs : BitVec 32) :
    KeepsCaps (_sdio_set_block_count send blkcnt flgs) :=
  sendNew_keeps hsend (by simp only [Cmd.Rlw]; decide) _ _

theorem send_status_keeps (hpi : Bool) : KeepsCaps (_sdio_send_status send hpi) :=
  .bind .get fun _ => sendNew_keeps hsend (by simp only [Cmd.Rlw]; decide) _ _

theorem waitCardStatus_keeps (mask val : BitVec 32) (msec : ℕ) :
    KeepsCaps (waitCardStatus send mask val msec) := by
  induction msec with
  | zero => exact .pure _
  | succ msec ih =>
      exact .bind (send_status_keeps hsend false) fun r =>
        .ite (.pure _) (.ite (.pure _) (.ite (.pure _) ih))

theorem select_card_keeps (rca : BitVec 32) : KeepsCaps (sdio_select_card send rca) := by
  refine .bind (sendNew_keeps hsend ?_ _ _) fun r => .bind (.modify fun hc => ?_) fun _ => .pure _
  · simp only [Cmd.Rlw]
    split_ifs <;> decide
  · dsimp only
    split_ifs <;> rfl

theorem sleep_awake_keeps (sleep : Bool) : KeepsCaps (mmc_sleep_awake send sleep) :=
  .bind .get fun _ => sendNew_keeps hsend (by simp only [Cmd.Rlw]; decide) _ _

theorem Init.run_keeps (i : Init) : KeepsCaps (i.run send) := by
  induction i with
  | done status => exact .pure _
  | send cmd timeout retries next ih =>
      exact .bind (sendNew_keeps hsend cmd.2 timeout retries) fun r => ih r
  | entry next ih => exact .bind .ask fun a => ih a.issue
  | device f next ih => exact .bind (.modify fun _ => rfl) fun _ => ih

theorem resetLoop_keeps (retry : ℕ) : KeepsCaps (resetLoop send init retry) := by
  induction retry with
  | zero => exact .pure _
  | succ retry ih =>
      exact .bind .get fun hc => .bind ((init hc).run_keeps hsend) fun _ => .ite (.pure _) ih

theorem reset_keeps : KeepsCaps (_sdio_reset send init) :=
  .bind .get fun _ => .ite (.pure _) (.bind (.modify fun _ => rfl) fun _ =>
    .bind (resetLoop_keeps hsend _) fun _ => .bind (.modify fun _ => rfl) fun _ => .pure _)

theorem pwrActive_keeps : KeepsCaps (pwrActive send init) := by
  refine .bind .get fun hc => .ite ?_ (.ite ?_ (.pure _))
  · exact .bind (.modify fun _ => rfl) fun _ => .bind (reset_keeps hsend) fun _ => .pure _
  · refine .bind (.modify fun _ => rfl) fun _ => .ite ?_ (.ite (reset_keeps hsend) (.pure _))
    refine .bind (sleep_awake_keeps hsend false) fun r => .bind ?_ fun _ =>
      .ite (reset_keeps hsend) (.pure _)
    exact .ite (select_card_keeps hsend _) (.pure _)

theorem pwrSleep_keeps : KeepsCaps (pwrSleep send init) := by
  refine .bind .get fun hc => .ite ?_ (.pure _)
  refine .bind (select_card_keeps hsend 0) fun r => .bind ?_ fun _ => .ite ?_ (.pure _)
  · exact .ite (sleep_awake_keeps hsend true) (.pure _)
  · exact .bind (reset_keeps hsend) fun _ => .pure _

theorem pwrmgnt_keeps (pm : Pm) : KeepsCaps (_sdio_pwrmgnt send init pm) := by
  refine .bind .get fun hc => .ite (.pure _) ?_
  cases pm with
  | idle =>
      refine .bind (.modify fun hc => ?_) fun _ => .pure _
      split_ifs <;> rfl
  | active =>
      exact .bind (pwrActive_keeps hsend) fun _ => .bind (.modify fun _ => rfl) fun _ => .pure _
  | sleep =>
      exact .bind (.ite (pwrSleep_keeps hsend) (.pure _)) fun _ =>
        .bind (.modify fun _ => rfl) fun _ => .pure _
  | suspend => exact .bind (.modify fun _ => rfl) fun _ => .pure _

theorem complete_keeps (cmd : Cmd) (timeout : ℕ) (status : CmdStatus) (rsp : BitVec 32) :
    KeepsCaps (complete send cmd timeout status rsp) := by
  refine .bind .get fun hc => ?_
  cases status with
  | cmd_cmp =>
      exact .ite (.bind (waitCardStatus_keeps hsend _ _ _) fun _ => .pure _) (.pure _)
  | data_crc_err => exact .bind (.modify fun _ => rfl) fun _ => .pure _
  | _ => exact .pure _

/-- An attempt leaves the capabilities as they are while it is made, whatever command it is. -/
theorem attempt_keeps (cmd : Cmd) (timeout : ℕ) : KeepsCaps (attempt send cmd timeout) := by
  refine .bind (.ite (sd_app_cmd_keeps hsend) (.pure _)) fun app => .ite (.pure _) ?_
  refine .bind .get fun hc => .bind (.ite (set_block_count_keeps hsend _ _) (.pure _)) fun sbc =>
    .ite (.pure _) ?_
  exact .bind .ask fun a => .ite (.pure _) (complete_keeps hsend cmd timeout _ _)

theorem attempts_keeps (cmd : Cmd) (timeout retries : ℕ) :
    KeepsCaps (attempts send cmd timeout retries) := by
  induction retries with
  | zero => exact attempt_keeps hsend cmd timeout
  | succ retries ih =>
      refine .bind (attempt_keeps hsend cmd timeout) fun r => ?_
      cases r with
      | removed rsp => exact .pure _
      | stop r => exact .pure _
      | again r => exact ih

end Calls

/-! ### Sending -/

/-- The bits that were taken out are put back. -/
theorem or_and_cancel (v m : BitVec 64) : (v &&& ~~~m) ||| (v &&& m) = v := by
  ext i hi
  cases hv : v[i] <;> cases hm : m[i] <;> simp [hv, hm]

theorem and_not_eq_self {c m : BitVec 64} : c &&& ~~~m = c ↔ c &&& m = 0 := by
  constructor
  · intro h
    rw [← h, BitVec.and_assoc, BitVec.and_comm (~~~m), BitVec.and_not_self]
    exact BitVec.and_zero
  · intro h
    have hsplit := or_and_cancel c m
    rwa [h, show (0 : BitVec 64) = 0#64 from rfl, BitVec.or_zero] at hsplit

theorem send_keeps (init : Host → Init) (depth : ℕ) : SendKeeps (_sdio_send_cmd init depth) := by
  induction depth with
  | zero => exact fun _ _ _ _ => .pure _
  | succ depth ih =>
      intro cmd timeout retries hplain
      refine .bind (pwrmgnt_keeps ih .active) fun status => .ite (.pure _) ?_
      refine .bind .get fun hc => .bind (.modify fun hc => by rw [if_neg hplain]) fun _ => ?_
      refine .bind (attempts_keeps ih cmd timeout retries) fun a => ?_
      rw [if_neg hplain]
      have hback : ∀ r : Reply, KeepsCaps (do
          modify fun hc : Host => { hc with caps := hc.caps ||| 0 }
          return r : HostM Reply) := fun r =>
        .bind (.modify fun hc => BitVec.or_zero) fun _ => .pure _
      cases a with
      | removed rsp => exact .pure _
      | stop r => exact hback r
      | again r => exact hback r

/-- Whether the card is found to be gone: the power is up, and one of the attempts that are made
completes with `CS_CARD_REMOVED`. -/
def findsRemoved (init : Host → Init) (depth : ℕ) (cmd : Cmd) (timeout retries : ℕ) :
    HostM Bool := do
  let status ← _sdio_pwrmgnt (_sdio_send_cmd init depth) init .active
  if status ≠ .eok then return false
  else
    modify fun hc => if cmd.Rlw then { hc with caps := hc.caps &&& ~~~ACMD_CAPS } else hc
    let r ← attempts (_sdio_send_cmd init depth) cmd timeout retries
    match r with
    | .removed _ => return true
    | _ => return false

/-- What a reliable write leaves in `caps`. -/
theorem send_reliable_caps (init : Host → Init) (depth : ℕ) {cmd : Cmd} (hrlw : cmd.Rlw)
    (timeout retries : ℕ) (r : ℕ → Answer) (hc : Host) :
    ((_sdio_send_cmd init (depth + 1) cmd timeout retries).run r hc).2.caps =
      if ((findsRemoved init depth cmd timeout retries).run r hc).1 then hc.caps &&& ~~~ACMD_CAPS
      else hc.caps := by
  have hkeeps : KeepsCaps (_sdio_pwrmgnt (_sdio_send_cmd init depth) init .active) :=
    pwrmgnt_keeps (send_keeps init depth) .active
  have hup := hkeeps hc.caps r (fun _ => trivial) hc 0 rfl
  rcases hu : _sdio_pwrmgnt (_sdio_send_cmd init depth) init .active r (hc, 0) with ⟨status, hc₁, n⟩
  rw [hu] at hup
  change hc₁.caps = hc.caps at hup
  rw [Prog.run, Prog.run, _sdio_send_cmd, findsRemoved, bind_of_eq hu, bind_of_eq hu]
  by_cases hs : status = .eok
  · rw [if_neg (not_not.mpr hs), if_neg (not_not.mpr hs)]
    -- The loop runs with the automatic commands off.
    have hloop := attempts_keeps (send_keeps init depth) cmd timeout retries
      (hc.caps &&& ~~~ACMD_CAPS) r (fun _ => trivial)
      { hc₁ with caps := hc₁.caps &&& ~~~ACMD_CAPS } n (by rw [CapsAre, hup])
    rcases ha : attempts (_sdio_send_cmd init depth) cmd timeout retries r
      ({ hc₁ with caps := hc₁.caps &&& ~~~ACMD_CAPS }, n) with ⟨a, hc₂, n₂⟩
    rw [ha] at hloop
    change hc₂.caps = _ at hloop
    have hback : hc₂.caps ||| hc₁.caps &&& ACMD_CAPS = hc.caps := by
      rw [hloop, hup, or_and_cancel]
    simp only [bind_apply, get_apply, modify_apply, if_pos hrlw, ha]
    cases a with
    | removed rsp => exact hloop
    | stop reply => exact hback
    | again reply => exact hback
  · rw [if_pos hs, if_pos hs]
    exact hup

theorem rpmb_keeps (init : Host → Init) (depth : ℕ) (nf flgs : BitVec 32) :
    KeepsCaps (mmc_rpmb_rw init depth nf flgs) := by
  refine .bind .ask fun cmd => .ite (.pure _) (.bind .ask fun buf => .ite (.pure _) ?_)
  refine .bind (set_block_count_keeps (send_keeps init depth) _ _) fun reply => .ite (.pure _) ?_
  intro c r _ hc n hcaps
  set flags : BitVec 32 := if flgs = SCF_DIR_IN then SCF_CTYPE_ADTC ||| SCF_DIR_IN ||| SCF_RSP_R1
    else SCF_CTYPE_ADTC ||| SCF_DIR_OUT ||| SCF_RSP_BUSY ||| SCF_RSP_R1 with hflags
  set op := if flgs = SCF_DIR_IN then MMC_READ_MULTIPLE_BLOCK else MMC_WRITE_MULTIPLE_BLOCK
  have hplain : ¬ (⟨op, flags, 0, nf⟩ : Cmd).Rlw := by
    change ¬ flags &&& SCF_SBC_RLW ≠ 0
    rw [hflags]
    split_ifs <;> decide
  have hsent := send_keeps init depth ⟨op, flags, 0, nf⟩ (SDIO_TIME_DEFAULT * 5) 0 hplain
    (c &&& ~~~ACMD_CAPS) r (fun _ => trivial) { hc with caps := hc.caps &&& ~~~ACMD_CAPS } n
    (congrArg (· &&& ~~~ACMD_CAPS) hcaps)
  simp only [bind_apply, get_apply, modify_apply, pure_apply, CapsAre] at hcaps hsent ⊢
  rw [hsent, hcaps, or_and_cancel]

/-- **The capabilities are put back.**  `_sdio_send_cmd` leaves `hc->caps` as it was, unless the
command is a reliable write, the controller has automatic commands, and the card is found to be
gone. `mmc_rpmb_rw` always does. -/
theorem caps_put_back_iff (init : Host → Init) (depth : ℕ) (r : ℕ → Answer) (hc : Host) :
    (∀ (cmd : Cmd) (timeout retries : ℕ),
      ((_sdio_send_cmd init (depth + 1) cmd timeout retries).run r hc).2.caps = hc.caps ↔
        ¬ (cmd.Rlw ∧ hc.caps &&& ACMD_CAPS ≠ 0 ∧
          ((findsRemoved init depth cmd timeout retries).run r hc).1 = true)) ∧
    ∀ nf flgs : BitVec 32, ((mmc_rpmb_rw init depth nf flgs).run r hc).2.caps = hc.caps := by
  refine ⟨fun cmd timeout retries => ?_, fun nf flgs => ?_⟩
  · by_cases hrlw : cmd.Rlw
    · rw [send_reliable_caps init depth hrlw]
      by_cases hgone : ((findsRemoved init depth cmd timeout retries).run r hc).1 = true
      · rw [if_pos hgone, and_not_eq_self]
        simp [hrlw, hgone]
      · rw [if_neg hgone]
        simp [hgone]
    · refine ⟨fun _ h => hrlw h.1, fun _ => ?_⟩
      exact send_keeps init (depth + 1) cmd timeout retries hrlw hc.caps r (fun _ => trivial)
        hc 0 rfl
  · exact rpmb_keeps init depth nf flgs hc.caps r (fun _ => trivial) hc 0 rfl

/-- A controller with both automatic commands, and a card in it. -/
def idleHost : Host :=
  ⟨ACMD_CAPS, false, false, false, .active, true, false,
    ⟨.mmc, true, false, false, false, true, 1, 0⟩⟩

/-- Write 8 blocks, reliably. -/
def reliableWrite : Cmd :=
  ⟨MMC_WRITE_MULTIPLE_BLOCK,
    SCF_CTYPE_ADTC ||| SCF_RSP_R1 ||| SCF_DIR_OUT ||| SCF_SBC ||| SCF_SBC_RLW,
    0, 8⟩

/-- Set block count completes, and with the write the card is removed. -/
def removedAnswers : ℕ → Answer
  | 0 => ⟨true, .eok, .cmd_cmp, 0⟩
  | 1 => ⟨true, .eok, .cmd_cmp, 0x900⟩
  | _ => ⟨true, .eok, .card_removed, 0⟩

/-- The write comes back with `ENXIO`, and the controller has lost both. -/
theorem removal_loses_caps :
    ((_sdio_send_cmd (fun _ => .done .eok) 2 reliableWrite 1000 0).run removedAnswers
        idleHost).2.caps = 0 ∧
      idleHost.caps ≠ 0 := by
  decide +kernel

end Sdmmc
