import RpiBsp.Sdmmc.Definitions
import RpiBsp.Support.Prog

/-!
# Sdmmc — Command — definitions

`_sdio_send_cmd` in `base.c` and what it calls: power management, reset, the application command,
set block count and status polling, which send commands themselves; and `mmc_rpmb_rw` in `mmc.c`.

`_sdio_send_cmd` calls itself through these, so they take it as a parameter `send`, and it is tied
together by a bound on the depth of the calls.  Commands come back with whatever the host controller
answers.  The initialisation of the card after a reset is a program of its own, `Init`, that is left
open: it sends commands that are not reliable writes, calls the controller and sets data of the
device.  `mmc_init_device` and `sd_init_device` with `flgs` set are of this form.
-/

namespace Sdmmc

open Support

/-! ### Flags -/

def HC_CAP_SLOT_TYPE_EMBEDDED : BitVec 64 := 1 <<< 0
def HC_CAP_ACMD12 : BitVec 64 := 1 <<< 6
def HC_CAP_ACMD23 : BitVec 64 := 1 <<< 7
def HC_CAP_SLEEP : BitVec 64 := 1 <<< 8
def HC_CAP_BSY : BitVec 64 := 1 <<< 33

def SCF_CTYPE_BC : BitVec 32 := 1 <<< 0
def SCF_CTYPE_BCR : BitVec 32 := 1 <<< 1
def SCF_CTYPE_AC : BitVec 32 := 1 <<< 2
def SCF_CTYPE_ADTC : BitVec 32 := 1 <<< 3
def SCF_RSP_PRESENT : BitVec 32 := 1 <<< 4
def SCF_RSP_CRC : BitVec 32 := 1 <<< 6
def SCF_RSP_BUSY : BitVec 32 := 1 <<< 7
def SCF_RSP_OPCODE : BitVec 32 := 1 <<< 8
def SCF_RSP_NONE : BitVec 32 := 0
def SCF_RSP_R1 : BitVec 32 := SCF_RSP_PRESENT ||| SCF_RSP_CRC ||| SCF_RSP_OPCODE
def SCF_RSP_R1B : BitVec 32 := SCF_RSP_R1 ||| SCF_RSP_BUSY
def SCF_DIR_IN : BitVec 32 := 1 <<< 9
def SCF_DIR_OUT : BitVec 32 := 1 <<< 10
def SCF_APP_CMD : BitVec 32 := 1 <<< 11
def SCF_SBC : BitVec 32 := 1 <<< 12
def SCF_WAIT_DRDY : BitVec 32 := 1 <<< 13
def SCF_SBC_RLW : BitVec 32 := 1 <<< 14

def CDS_ILLEGAL_COMMAND : BitVec 32 := 1 <<< 22
def CDS_CARD_IS_LOCKED : BitVec 32 := 1 <<< 25
def CDS_READY_FOR_DATA : BitVec 32 := 1 <<< 8
def CDS_CUR_STATE_MSK : BitVec 32 := 0xf <<< 9
def CDS_CUR_STATE_TRAN : BitVec 32 := 4 <<< 9
/-- Bits 31 to 19, 16 and 7. -/
def CDS_ERROR_MSK : BitVec 32 := 0xfff90080

def SBC_RL_WRITE : BitVec 32 := 1 <<< 31

def SDIO_CMD_RETRIES : ℕ := 3
def SDIO_RESET_RETRIES : ℕ := 3
def SDIO_TIME_DEFAULT : ℕ := 1000

def MMC_SLEEP_AWAKE : ℕ := 5
def MMC_SEL_DES_CARD : ℕ := 7
def MMC_SEND_STATUS : ℕ := 13
def MMC_READ_MULTIPLE_BLOCK : ℕ := 18
def MMC_SET_BLOCK_COUNT : ℕ := 23
def MMC_WRITE_MULTIPLE_BLOCK : ℕ := 25
def SD_APP_CMD : ℕ := 55

/-! ### State -/

/-- `CS_*`. -/
inductive CmdStatus where
  | cmd_inprog
  | cmd_cmp
  | cmd_aborted
  | cmd_cmp_err
  | cmd_idx_err
  | cmd_to_err
  | cmd_crc_err
  | cmd_end_err
  | data_to_err
  | data_crc_err
  | data_end_err
  | card_removed
deriving DecidableEq, Repr

/-- `sdio_cmd_t`, as far as it is set up by a sender. -/
structure Cmd where
  opcode : ℕ
  flags : BitVec 32
  arg : BitVec 32 := 0
  blks : BitVec 32 := 0
deriving DecidableEq, Repr

/-- `sdio_dev_t`. -/
structure Device where
  dtype : DevType
  present : Bool
  locked : Bool
  /-- One of `DEV_FLAG_UHS`, `DEV_FLAG_HS200` and `DEV_FLAG_HS400`. -/
  fast : Bool
  wce : Bool
  /-- `DEV_CAP_SLEEP`. -/
  can_sleep : Bool
  rca : BitVec 32
  pactive : BitVec 32
deriving DecidableEq, Repr

/-- `sdio_hc_t`. -/
structure Host where
  caps : BitVec 64
  /-- `HC_FLAG_RST`, `HC_FLAG_TUNE` and `HC_FLAG_SKIP_PWRUP`. -/
  rst : Bool
  tune : Bool
  skip_pwrup : Bool
  pm_state : Pm
  /-- `entry.pm` is there. -/
  has_pm : Bool
  /-- `wspc.cmd`: a command is in flight. -/
  in_flight : Bool
  device : Device
deriving DecidableEq, Repr

/-- What a call of the controller, the card or the allocator comes back with. -/
structure Answer where
  /-- There is memory. -/
  alloc : Bool
  /-- What `sdio_issue_cmd`, or another call of the controller, returns. -/
  issue : Errno
  /-- `cmd->status` and `cmd->rsp[0]`, when the command completes. -/
  status : CmdStatus
  rsp : BitVec 32
deriving DecidableEq, Repr

abbrev HostM := Prog Answer Host

/-- The status `_sdio_send_cmd` returns, and `cmd->rsp[0]`. -/
structure Reply where
  status : Errno
  rsp : BitVec 32
deriving DecidableEq, Repr

abbrev Send := Cmd → (timeout retries : ℕ) → HostM Reply

def Cmd.Rlw (cmd : Cmd) : Prop := cmd.flags &&& SCF_SBC_RLW ≠ 0

instance (cmd : Cmd) : Decidable cmd.Rlw := inferInstanceAs (Decidable (_ ≠ _))

/-- A command that is not a reliable write. -/
abbrev PlainCmd := { cmd : Cmd // ¬ cmd.Rlw }

/-- The initialisation of a card after a reset. -/
inductive Init where
  | done (status : Errno)
  | send (cmd : PlainCmd) (timeout retries : ℕ) (next : Reply → Init)
  | entry (next : Errno → Init)
  | device (f : Device → Device) (next : Init)

/-! ### Commands that the functions send themselves -/

section Calls

variable (send : Send)

/-- `sdio_alloc_cmd`, `_sdio_send_cmd` and `sdio_free_cmd`. -/
def sendNew (cmd : Cmd) (timeout retries : ℕ) : HostM Reply := do
  let a ← Prog.ask
  if a.alloc then send cmd timeout retries else return ⟨.enomem, 0⟩

/-- `sd_app_cmd`. -/
def sd_app_cmd : HostM Reply := do
  let hc ← get
  let ctype := if hc.device.rca ≠ 0 then SCF_CTYPE_BCR else SCF_CTYPE_BC
  sendNew send ⟨SD_APP_CMD, ctype ||| SCF_RSP_R1, hc.device.rca <<< 16, 0⟩ SDIO_TIME_DEFAULT 0

/-- `_sdio_set_block_count`. -/
def _sdio_set_block_count (blkcnt flgs : BitVec 32) : HostM Reply :=
  sendNew send ⟨MMC_SET_BLOCK_COUNT, SCF_CTYPE_AC ||| SCF_RSP_R1, blkcnt ||| flgs, 0⟩
    SDIO_TIME_DEFAULT 0

/-- `_sdio_send_status`. -/
def _sdio_send_status (hpi : Bool) : HostM Reply := do
  let hc ← get
  sendNew send ⟨MMC_SEND_STATUS, SCF_CTYPE_AC ||| SCF_RSP_R1,
    (hc.device.rca <<< 16) ||| (if hpi then 1 else 0), 0⟩ SDIO_TIME_DEFAULT SDIO_CMD_RETRIES

/-- The loop of `_sdio_wait_card_status`. -/
def waitCardStatus (mask val : BitVec 32) : ℕ → HostM Reply
  | 0 => return ⟨.etimedout, 0⟩
  | msec + 1 => do
      let r ← _sdio_send_status send false
      if r.status ≠ .eok then return r
      else if r.rsp &&& CDS_ERROR_MSK ≠ 0 then return ⟨.eio, r.rsp⟩
      else if r.rsp &&& mask = val then return r
      else waitCardStatus mask val msec

/-- `_sdio_wait_card_status`. -/
def _sdio_wait_card_status (mask val : BitVec 32) (msec : ℕ) : HostM Reply :=
  waitCardStatus send mask val (max msec 1)

/-- `sdio_select_card`. -/
def sdio_select_card (rca : BitVec 32) : HostM Reply := do
  let r ← sendNew send ⟨MMC_SEL_DES_CARD,
    SCF_CTYPE_AC ||| (if rca ≠ 0 then SCF_RSP_R1 else SCF_RSP_NONE), rca <<< 16, 0⟩
    SDIO_TIME_DEFAULT SDIO_CMD_RETRIES
  modify fun hc => if r.rsp &&& CDS_CARD_IS_LOCKED ≠ 0 then
    { hc with device := { hc.device with locked := true } } else hc
  return r

/-- `mmc_sleep_awake`. -/
def mmc_sleep_awake (sleep : Bool) : HostM Reply := do
  let hc ← get
  sendNew send ⟨MMC_SLEEP_AWAKE, SCF_CTYPE_AC ||| SCF_RSP_R1B,
    (hc.device.rca <<< 16) ||| (if sleep then 1 <<< 15 else 0), 0⟩ SDIO_TIME_DEFAULT 0

/-- `mmc_init_device` or `sd_init_device`. -/
def Init.run : Init → HostM Errno
  | .done status => return status
  | .send cmd timeout retries next => do
      let r ← sendNew send cmd.1 timeout retries
      (next r).run
  | .entry next => do
      let a ← Prog.ask
      (next a.issue).run
  | .device f next => do
      modify fun hc => { hc with device := f hc.device }
      next.run

/-- The loop of `_sdio_reset`: power off, power on, and initialise. -/
def resetLoop (init : Host → Init) : ℕ → HostM Errno
  | 0 => return .eok
  | retry + 1 => do
      let hc ← get
      let status ← (init hc).run send
      if status = .enxio ∨ status = .eok ∨ retry = 0 then return status
      else resetLoop init retry

/-- `_sdio_reset`. -/
def _sdio_reset (init : Host → Init) : HostM Errno := do
  let hc ← get
  if hc.rst then return .ebusy
  else
    modify fun hc => { hc with
      rst := true, skip_pwrup := false
      device := { hc.device with rca := 0, pactive := 0, wce := false } }
    let status ← resetLoop send init SDIO_RESET_RETRIES
    modify fun hc => { hc with rst := false }
    return status

/-- `_sdio_pwrmgnt`, at `PM_ACTIVE`. -/
def pwrActive (init : Host → Init) : HostM Errno := do
  let hc ← get
  if hc.pm_state = .suspend then
    modify fun hc => { hc with pm_state := .active }
    let _ ← _sdio_reset send init
    return .eok
  else if hc.pm_state = .sleep ∧ hc.caps &&& HC_CAP_SLEEP ≠ 0 then
    modify fun hc => { hc with pm_state := .active }
    if hc.device.can_sleep then
      let r ← mmc_sleep_awake send false
      let r ← (if r.status = .eok then sdio_select_card send hc.device.rca else pure r)
      if r.status ≠ .eok then _sdio_reset send init else return .eok
    else if hc.device.present then _sdio_reset send init
    else return .eok
  else return .eok

/-- `_sdio_pwrmgnt`, at `PM_SLEEP`, on a controller that can sleep: the card is deselected and put
to sleep. -/
def pwrSleep (init : Host → Init) : HostM Errno := do
  let hc ← get
  if hc.device.can_sleep then
    let r ← sdio_select_card send 0
    let r ← (if r.status = .eok ∧ hc.device.dtype = .mmc then mmc_sleep_awake send true else pure r)
    if r.status ≠ .eok then
      let _ ← _sdio_reset send init
      return r.status
    else return .eok
  else return .eok

/-- `_sdio_pwrmgnt`.  The calls of `entry.pm` and the timers leave nothing behind. -/
def _sdio_pwrmgnt (init : Host → Init) (pm : Pm) : HostM Errno := do
  let hc ← get
  if !hc.has_pm ∨ pm = hc.pm_state ∨ hc.in_flight then return .eok
  else
    match pm with
    | .idle =>
        modify fun hc => if hc.pm_state = .active then { hc with pm_state := .idle } else hc
        return .eok
    | .active =>
        let status ← pwrActive send init
        modify fun hc => { hc with pm_state := .active }
        return status
    | .sleep =>
        let status ← (if hc.caps &&& HC_CAP_SLEEP ≠ 0 then pwrSleep send init else pure .eok)
        modify fun hc => { hc with pm_state := if status = .eok then .sleep else .idle }
        return status
    | .suspend =>
        modify fun hc => { hc with pm_state := .suspend }
        return .eok

/-! ### Sending -/

/-- How an attempt of the loop in `_sdio_send_cmd` ends: the card is gone, the loop is left, or the
command may be sent again. -/
inductive Attempt where
  | removed (rsp : BitVec 32)
  | stop (r : Reply)
  | again (r : Reply)
deriving DecidableEq, Repr

/-- What follows a completion with an error. -/
def failed (status : Errno) (rsp : BitVec 32) : Attempt :=
  if rsp &&& CDS_ILLEGAL_COMMAND ≠ 0 then .stop ⟨status, rsp⟩ else .again ⟨status, rsp⟩

/-- The `switch` over the completion status, and what follows it. -/
def complete (cmd : Cmd) (timeout : ℕ) (status : CmdStatus) (rsp : BitVec 32) : HostM Attempt := do
  let hc ← get
  match status with
  | .cmd_cmp =>
      if cmd.flags &&& SCF_WAIT_DRDY ≠ 0 ∧ hc.caps &&& HC_CAP_BSY = 0 then
        let r ← _sdio_wait_card_status send (CDS_READY_FOR_DATA ||| CDS_CUR_STATE_MSK)
          (CDS_READY_FOR_DATA ||| CDS_CUR_STATE_TRAN) timeout
        return .stop ⟨r.status, rsp⟩
      else return .stop ⟨.eok, rsp⟩
  | .cmd_to_err => return failed .etimedout rsp
  | .card_removed => return .removed rsp
  | .data_crc_err =>
      modify fun hc => { hc with
        tune := hc.tune || (hc.device.present && !hc.rst && hc.device.fast) }
      return failed .eio rsp
  | _ => return failed .eio rsp

/-- The body of the loop in `_sdio_send_cmd`. -/
def attempt (cmd : Cmd) (timeout : ℕ) : HostM Attempt := do
  let app ← (if cmd.flags &&& SCF_APP_CMD ≠ 0 then sd_app_cmd send else pure ⟨.eok, 0⟩)
  if app.status ≠ .eok then return .stop ⟨app.status, 0⟩
  else
    let hc ← get
    let sbc ← (if cmd.flags &&& SCF_SBC ≠ 0 ∧ hc.caps &&& HC_CAP_ACMD23 = 0 then
        _sdio_set_block_count send cmd.blks (if cmd.Rlw then SBC_RL_WRITE else 0)
      else pure ⟨.eok, 0⟩)
    if sbc.status ≠ .eok then return .stop ⟨sbc.status, 0⟩
    else
      let a ← Prog.ask
      if a.issue ≠ .eok then return .stop ⟨a.issue, a.rsp⟩
      else complete send cmd timeout a.status a.rsp

/-- The loop in `_sdio_send_cmd`. -/
def attempts (cmd : Cmd) (timeout : ℕ) : ℕ → HostM Attempt
  | 0 => attempt send cmd timeout
  | retries + 1 => do
      let r ← attempt send cmd timeout
      match r with
      | .again _ => attempts cmd timeout retries
      | r => return r

end Calls

def ACMD_CAPS : BitVec 64 := HC_CAP_ACMD23 ||| HC_CAP_ACMD12

/-- `_sdio_send_cmd`, up to a depth of calls. -/
def _sdio_send_cmd (init : Host → Init) : ℕ → Send
  | 0, _, _, _ => return ⟨.eio, 0⟩
  | depth + 1, cmd, timeout, retries => do
      let status ← _sdio_pwrmgnt (_sdio_send_cmd init depth) init .active
      if status ≠ .eok then return ⟨status, 0⟩
      else
        let hc ← get
        let acmd_caps := if cmd.Rlw then hc.caps &&& ACMD_CAPS else 0
        -- A reliable write is enabled in set block count, so the automatic commands are off.
        modify fun hc => if cmd.Rlw then { hc with caps := hc.caps &&& ~~~ACMD_CAPS } else hc
        let r ← attempts (_sdio_send_cmd init depth) cmd timeout retries
        match r with
        | .removed rsp => return ⟨.enxio, rsp⟩
        | .stop r | .again r =>
            modify fun hc => { hc with caps := hc.caps ||| acmd_caps }
            return r

/-- `mmc_rpmb_rw`, for `nf` frames.  What is left out is the copying of the frames. -/
def mmc_rpmb_rw (init : Host → Init) (depth : ℕ) (nf flgs : BitVec 32) : HostM Errno := do
  let send := _sdio_send_cmd init depth
  let cmd ← Prog.ask
  if !cmd.alloc then return .enomem
  else
    let buf ← Prog.ask
    if !buf.alloc then return .enomem
    else
      let op := if flgs = SCF_DIR_IN then MMC_READ_MULTIPLE_BLOCK else MMC_WRITE_MULTIPLE_BLOCK
      let flags := if flgs = SCF_DIR_IN then SCF_CTYPE_ADTC ||| SCF_DIR_IN ||| SCF_RSP_R1
        else SCF_CTYPE_ADTC ||| SCF_DIR_OUT ||| SCF_RSP_BUSY ||| SCF_RSP_R1
      let sbcflg := if flgs ≠ SCF_DIR_IN ∧ flgs &&& SCF_SBC_RLW ≠ 0 then SBC_RL_WRITE else 0
      let r ← _sdio_set_block_count send nf sbcflg
      if r.status ≠ .eok then return r.status
      else
        let hc ← get
        let acmd_caps := hc.caps &&& ACMD_CAPS
        modify fun hc => { hc with caps := hc.caps &&& ~~~ACMD_CAPS }
        let r ← send ⟨op, flags, 0, nf⟩ (SDIO_TIME_DEFAULT * 5) 0
        modify fun hc => { hc with caps := hc.caps ||| acmd_caps }
        return r.status

end Sdmmc
