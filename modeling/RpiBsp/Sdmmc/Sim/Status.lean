import RpiBsp.Sdmmc.Definitions
import Mathlib.Data.Nat.Bitwise

/-!
# Sdmmc — Sim — the status of a request

How `sdmmc_start_ccb` in `sim_sdmmc.c` comes to the byte that it puts into a CCB, for firmware
updates (`sdmmc_ffu`), synchronisation (`sdmmc_sync`), reading and writing (`sdmmc_read_write`), and
for the devctl that pauses the driver (`sdmmc_drvr_state_devctl` with `sdmmc_dev_dcfg`).  Some
handlers return error numbers and some return status codes of CAM, so both are numbers here, with
those of QNX; the outcome of every device operation is an input.

* `Reports` — success is reported only if the request was permitted and all that it did returned
`EOK`.
* `Sound` — the update is not disabled, no error number is taken for `CAM_REQ_CMP`, and no failure
is overwritten.
* `reports_iff` — a request reports as it should exactly if it is sound.
-/

namespace Sdmmc.Status

/-! ### Definitions -/

def EOK : ℕ := 0
def EPERM : ℕ := 1
def EIO : ℕ := 5
def ENXIO : ℕ := 6
def ENOMEM : ℕ := 12
def EACCES : ℕ := 13
def EBUSY : ℕ := 16
def ENODEV : ℕ := 19
def EINVAL : ℕ := 22
def EROFS : ℕ := 30
def ENOTSUP : ℕ := 48
def ETIMEDOUT : ℕ := 260

def CAM_REQ_INPROG : ℕ := 0x00
def CAM_REQ_CMP : ℕ := 0x01
def CAM_REQ_CMP_ERR : ℕ := 0x04
def CAM_CMD_TIMEOUT : ℕ := 0x0B
def CAM_NO_HBA : ℕ := 0x11
def CAM_PROVIDE_FAIL : ℕ := 0x16
def CAM_AUTOSNS_VALID : ℕ := 0x80

def SK_NOT_RDY : ℕ := 2
def SK_MEDIUM : ℕ := 3
def SK_ILLEGAL : ℕ := 5
def SK_DATA_PROT : ℕ := 7

def ECSD_DATA_SECTOR_SIZE : ℕ := 61
def ECSD_FW_CONFIG : ℕ := 169
def ECSD_REV : ℕ := 192
def ECSD_REV_V5 : ℕ := 7
def ECSD_FFU_FEATURE : ℕ := 492
def ECSD_SUPPORTED_MODES : ℕ := 493
def ECSD_NATIVE_SECTOR_4K : ℕ := 1

def WB_MODE_DNLD_MC : ℕ := 0x04
def WB_MODE_ACT_MC : ℕ := 0x0f

/-- The device, as the handlers see it: flags of the driver and of the partition, capabilities of
the card and of the controller, and the extended CSD. -/
structure Device where
  present : Bool := true
  nlba : ℕ := 1
  dma : Bool := true
  acmd12 : Bool := true
  card_locked : Bool := false
  wp : Bool := false
  rpmb : Bool := false
  mmc : Bool := true
  cap_cache : Bool := false
  cap_bkops : Bool := false
  cap_cmd23 : Bool := false
  cap_wr_rel : Bool := false
  cap_wr_rel_enh : Bool := false
  cache : Bool := false
  vcache_dirty : Bool := false
  bkops_auto : Bool := false
  pwroff_notify : Bool := false
  relwr : Bool := false
  sector_size : ℕ := 512
  ecsd : ℕ → ℕ := fun _ => 0

/-- What the handlers read of a CCB. -/
structure Ccb where
  sense_ptr : Bool := true
  dis_autosense : Bool := false
  data_phys : Bool := false
  dxfer_len : ℕ := 0
  /-- `_IO_FLAG_RD` or `_IO_FLAG_WR`. -/
  ioflag : Bool := true
deriving DecidableEq, Repr

structure Sense where
  key : ℕ
  asc : ℕ
  ascq : ℕ
deriving DecidableEq, Repr

/-- What a handler returns, with the sense data that it leaves in the CCB. -/
structure Reply where
  status : ℕ
  sense : Option Sense := none
deriving DecidableEq, Repr

/-- The flushes, switches and transfers. -/
inductive Op where
  | flush
  | bkops
  | enterFfu
  | installFfu
  | leaveFfu
  | notify
  | partition
  | blocklen
  /-- The command of a transfer. -/
  | command
  /-- `sdmmc_rw` as a whole. -/
  | transfer
deriving DecidableEq, Repr

/-- A reply, with the operations that were made for it and what they returned. -/
structure Done where
  reply : Reply
  log : List (Op × ℕ) := []
deriving DecidableEq, Repr

def returns (status : ℕ) : Done := { reply := { status := status } }

def Done.after (op : Op) (status : ℕ) (d : Done) : Done := { d with log := (op, status) :: d.log }

/-! ### Errors -/

/-- `sdmmc_sense`, for the requests that are not devctls. -/
def sdmmc_sense (c : Ccb) (sense asc ascq : ℕ) : Reply :=
  if c.sense_ptr = false ∨ c.dis_autosense then { status := CAM_REQ_CMP_ERR }
  else { status := CAM_REQ_CMP_ERR + CAM_AUTOSNS_VALID, sense := some ⟨sense, asc, ascq⟩ }

def sdmmc_error (c : Ccb) (status : ℕ) : Reply :=
  if status = EIO then sdmmc_sense c SK_MEDIUM 0x00 0x00
  else if status = ENXIO then sdmmc_sense c SK_NOT_RDY ASC_MEDIA_NOT_PRESENT 0
  else if status = EACCES then sdmmc_sense c SK_ILLEGAL ASC_COPY_PROTECTION ASCQ_READ_SCRAMBLED
  else if status = ENODEV then { status := CAM_NO_HBA }
  else if status = EINVAL then sdmmc_sense c SK_ILLEGAL ASC_INVALID_FIELD 0
  else if status = EROFS then sdmmc_sense c SK_DATA_PROT ASC_WRITE_PROTECTED ASCQ_VU_WRITE_PROTECTED
  else if status = ETIMEDOUT then { status := CAM_CMD_TIMEOUT }
  else { status := CAM_REQ_CMP_ERR }

def sdmmc_unit_ready (u : Device) (c : Ccb) : Reply :=
  let ready := if u.present then { status := CAM_REQ_CMP } else sdmmc_error c ENODEV
  if u.nlba = 0 then sdmmc_error c ENXIO else ready

/-! ### Transfers -/

/-- How a transfer comes out: memory for the command, what sending it returns, whether the card is
in the transfer state after a failure, what stopping it and waiting for the card return, that the
controller completed the command, and the errors in the response. -/
structure RwRun where
  alloc : Bool := true
  sent : ℕ := EOK
  tran : Bool := true
  stop : ℕ := EOK
  wait : ℕ := EOK
  cmp : Bool := true
  error : Bool := false
  wp_violation : Bool := false
  locked : Bool := false
  ecc_failed : Bool := false
deriving DecidableEq, Repr

/-- `sdmmc_rw`: a transfer of several blocks is stopped, if nothing else does that. -/
def Device.stops (u : Device) (rlw : Bool) (dlen blksz : ℕ) : Bool :=
  decide (dlen > blksz) && !u.acmd12 && !u.cap_cmd23 && !rlw

/-- `sdmmc_rw`: the status after the command. -/
def afterSent (stops out : Bool) (o : RwRun) : ℕ :=
  if o.sent ≠ EOK then if o.tran = false ∧ o.stop ≠ EOK then ETIMEDOUT else o.sent
  else if stops ∧ o.stop ≠ EOK then ETIMEDOUT
  else if out then o.wait
  else EOK

/-- `sdmmc_rw`. -/
def sdmmc_rw (stops out : Bool) (o : RwRun) : ℕ :=
  if o.alloc = false then ENOMEM
  else if o.sent = ENXIO then ENXIO
  else
    let status := if o.cmp then afterSent stops out o else ETIMEDOUT
    let status := if o.error then EIO else status
    let status := if o.wp_violation then EROFS else status
    let status := if o.locked then EACCES else status
    if o.ecc_failed then EIO else status

/-- A transfer was made, with its command. -/
def Done.moved (o : RwRun) (status : ℕ) (d : Done) : Done :=
  let d := d.after .transfer status
  if o.alloc then d.after .command o.sent else d

/-! ### Firmware updates -/

/-- A firmware update, and how it comes out. -/
structure FfuReq where
  mode : ℕ
  buffer_id : ℕ := 0
  install : ℕ := EOK
  flush : ℕ := EOK
  bkops : ℕ := EOK
  enter : ℕ := EOK
  blocklen : ℕ := EOK
  rw : RwRun := {}
deriving DecidableEq, Repr

/-- An operation whose failure is returned as it is. -/
def need (op : Op) (status : ℕ) (k : Done) : Done :=
  if status ≠ EOK then (returns status).after op status else k.after op status

/-- At the end: `status ? status : CAM_REQ_CMP`. -/
def finish (status : ℕ) : Done := returns (if status ≠ EOK then status else CAM_REQ_CMP)

/-- `sdmmc_bkops_cfg`: without the capability nothing is switched. -/
def sdmmc_bkops_cfg (u : Device) (switch : ℕ) : ℕ := if u.cap_bkops = false then ENOTSUP else switch

def Device.dssize (u : Device) : ℕ :=
  if u.ecsd ECSD_DATA_SECTOR_SIZE = ECSD_NATIVE_SECTOR_4K then 4096 else 512

def Device.hasFfu (u : Device) : Bool :=
  u.mmc && decide (ECSD_REV_V5 ≤ u.ecsd ECSD_REV) && (u.ecsd ECSD_SUPPORTED_MODES).testBit 0

def Device.fwupdate_disabled (u : Device) : Bool := (u.ecsd ECSD_FW_CONFIG).testBit 0

/-- `sdmmc_ffu`: the download of a part of the firmware. -/
def download (u : Device) (c : Ccb) (rq : FfuReq) : Done :=
  if c.dxfer_len = 0 ∨ c.dxfer_len % u.dssize ≠ 0 then returns EINVAL
  else
    let status := sdmmc_rw (u.stops false c.dxfer_len u.dssize) true rq.rw
    let write := (finish status).moved rq.rw status
    if u.sector_size ≠ u.dssize then
      if rq.blocklen ≠ EOK then (returns EIO).after .blocklen rq.blocklen
      else write.after .blocklen rq.blocklen
    else write

/-- `sdmmc_ffu`: the first part of the firmware puts the card into the mode for the download. -/
def prepared (u : Device) (rq : FfuReq) (k : Done) : Done :=
  if rq.buffer_id = 0 then
    let enter := need .enterFfu rq.enter k
    let bkops := if u.bkops_auto then need .bkops (sdmmc_bkops_cfg u rq.bkops) enter else enter
    if u.cap_cache ∧ u.cache then need .flush rq.flush bkops else bkops
  else k

/-- `sdmmc_ffu`. -/
def sdmmc_ffu (u : Device) (c : Ccb) (rq : FfuReq) : Done :=
  if u.hasFfu = false then returns ENOTSUP
  else if u.fwupdate_disabled then returns EPERM
  else if rq.mode ≠ WB_MODE_DNLD_MC ∧ rq.mode ≠ WB_MODE_ACT_MC then returns EINVAL
  else if (sdmmc_unit_ready u c).status ≠ CAM_REQ_CMP then returns EBUSY
  else if rq.mode = WB_MODE_ACT_MC then
    (finish rq.install).after (if (u.ecsd ECSD_FFU_FEATURE).testBit 0 then .installFfu
      else .leaveFfu) rq.install
  else prepared u rq (download u c rq)

/-! ### The other requests -/

/-- `sdmmc_sync` with `sdmmc_cache_flush`; `flush` is how the flush comes out. -/
def sdmmc_sync (u : Device) (c : Ccb) (flush : ℕ) : Done :=
  if u.present = false then returns CAM_REQ_CMP
  else if (sdmmc_unit_ready u c).status ≠ CAM_REQ_CMP then { reply := sdmmc_unit_ready u c }
  else if u.cap_cache ∧ u.cache ∧ u.vcache_dirty then (finish flush).after .flush flush
  else returns CAM_REQ_CMP

/-- A read or a write, and how it comes out: the choice of the partition, the transfer, and the
pieces of a reliable write, with their lengths. -/
structure DataReq where
  out : Bool
  fua : Bool := false
  partition : ℕ := EOK
  rw : RwRun := {}
  pieces : List (ℕ × RwRun) := []
deriving DecidableEq, Repr

/-- `sdmmc_read_write`: the transfers, up to the first that fails. -/
def transfers (u : Device) (c : Ccb) (out rlw : Bool) : List (ℕ × RwRun) → Done
  | [] => returns CAM_REQ_CMP
  | (len, o) :: rest =>
      let status := sdmmc_rw (u.stops rlw len u.sector_size) out o
      if status ≠ EOK then ({ reply := sdmmc_error c status } : Done).moved o status
      else (transfers u c out rlw rest).moved o status

/-- `sdmmc_read_write`. -/
def sdmmc_read_write (u : Device) (c : Ccb) (rq : DataReq) : Done :=
  let rlw := rq.out && (u.relwr || (rq.fua && u.cap_wr_rel))
  if (sdmmc_unit_ready u c).status ≠ CAM_REQ_CMP then { reply := sdmmc_unit_ready u c }
  else if u.card_locked then { reply := sdmmc_error c EACCES }
  else if rq.out ∧ u.wp then { reply := sdmmc_error c EROFS }
  else if u.rpmb then returns CAM_PROVIDE_FAIL
  else if rq.partition ≠ EOK then ({ reply := sdmmc_error c ETIMEDOUT } : Done).after .partition
    rq.partition
  else
    let pieces := if rlw ∧ u.cap_wr_rel_enh = false then rq.pieces else [(c.dxfer_len, rq.rw)]
    (transfers u c rq.out rlw pieces).after .partition rq.partition

/-- How the steps of `sdmmc_dev_dcfg` come out. -/
structure PauseReq where
  flush : ℕ := EOK
  bkops : ℕ := EOK
  notify : ℕ := EOK
deriving DecidableEq, Repr

/-- `sdmmc_dev_dcfg`: each step puts its status over that of the one before. -/
def sdmmc_dev_dcfg (u : Device) (rq : PauseReq) : ℕ × List (Op × ℕ) :=
  let x := if u.cap_cache ∧ u.cache then (rq.flush, [(.flush, rq.flush)]) else (EOK, [])
  let x := if u.bkops_auto then
    (sdmmc_bkops_cfg u rq.bkops, (.bkops, sdmmc_bkops_cfg u rq.bkops) :: x.2) else x
  if u.pwroff_notify then (rq.notify, (.notify, rq.notify) :: x.2) else x

/-- `sdmmc_devctl_perm`, and `sdmmc_drvr_state_devctl` for `SDMMC_DRVR_PAUSE`: the status of the
devctl. -/
def pause (u : Device) (c : Ccb) (rq : PauseReq) : ℕ × List (Op × ℕ) :=
  if c.ioflag = false then (EACCES, [])
  else if (sdmmc_unit_ready u c).status ≠ CAM_REQ_CMP then ( EIO, [])
  else (if (sdmmc_dev_dcfg u rq).1 ≠ EOK then EIO else EOK, (sdmmc_dev_dcfg u rq).2)

/-! ### Requests -/

inductive Request where
  | ffu (rq : FfuReq)
  | sync (flush : ℕ)
  | data (rq : DataReq)
  | pause (rq : PauseReq)
deriving DecidableEq, Repr

/-- `sdmmc_scsi_io` and `sdmmc_devctl`: the status, that of the devctl, and what was done. -/
def serve (u : Device) (c : Ccb) (rq : Request) : ℕ × Option ℕ × List (Op × ℕ) :=
  let scsi (d : Done) : ℕ × Option ℕ × List (Op × ℕ) :=
    if c.dxfer_len ≠ 0 ∧ c.data_phys ∧ u.dma = false then (CAM_PROVIDE_FAIL, none, [])
    else (d.reply.status, none, d.log)
  match rq with
  | .ffu rq => scsi (sdmmc_ffu u c rq)
  | .sync flush => scsi (sdmmc_sync u c flush)
  | .data rq => scsi (sdmmc_read_write u c rq)
  | .pause rq => (CAM_REQ_CMP, some (pause u c rq).1, (pause u c rq).2)

/-- What the CCB holds when it is posted. -/
structure Posted where
  cam_status : ℕ
  cam_devctl_status : Option ℕ
  log : List (Op × ℕ)
deriving DecidableEq, Repr

/-- `sdmmc_start_ccb`, for one CCB: the status is cut to a byte. -/
def sdmmc_start_ccb (u : Device) (c : Ccb) (rq : Request) : Posted :=
  let r := serve u c rq
  { cam_status := if r.1 ≠ CAM_REQ_INPROG then r.1 % 256 else CAM_REQ_INPROG,
    cam_devctl_status := r.2.1, log := r.2.2 }

/-! ### What is asked -/

/-- Success is reported. -/
def Posted.Succeeds (p : Posted) : Prop :=
  match p.cam_devctl_status with
  | some status => status = EOK
  | none => p.cam_status = CAM_REQ_CMP

def Device.Ready (u : Device) : Prop := u.present = true ∧ u.nlba ≠ 0

/-- The request is one that the device can be asked for, in its state. -/
def Permitted (u : Device) (c : Ccb) : Request → Prop
  | .ffu rq =>
      u.hasFfu = true ∧ u.fwupdate_disabled = false ∧
      (rq.mode = WB_MODE_DNLD_MC ∨ rq.mode = WB_MODE_ACT_MC) ∧ u.Ready
  | .sync _ => True
  | .data rq => u.Ready ∧ u.card_locked = false ∧ ¬ (rq.out = true ∧ u.wp = true) ∧ u.rpmb = false
  | .pause _ => c.ioflag = true ∧ u.Ready

/-- Success only for a request that was permitted, and if all that was done for it returned
`EOK`. -/
def Reports (u : Device) (c : Ccb) (rq : Request) : Prop :=
  (sdmmc_start_ccb u c rq).Succeeds → Permitted u c rq ∧ ∀ p ∈ (sdmmc_start_ccb u c rq).log,
    p.2 = EOK

/-! ### What a request needs -/

/-- The first of some statuses that is not `EOK`. -/
def firstFailure : List ℕ → ℕ
  | [] => EOK
  | status :: rest => if status ≠ EOK then status else firstFailure rest

/-- The operations of a firmware update whose failures are returned as they are, in their order. -/
def FfuReq.outcomes (u : Device) (c : Ccb) (rq : FfuReq) : List ℕ :=
  if rq.mode = WB_MODE_ACT_MC then [rq.install]
  else
    (if rq.buffer_id = 0 then
      (if u.cap_cache ∧ u.cache then [rq.flush] else []) ++
        ((if u.bkops_auto then [sdmmc_bkops_cfg u rq.bkops] else []) ++ [rq.enter])
    else []) ++
    (if c.dxfer_len = 0 ∨ c.dxfer_len % u.dssize ≠ 0 ∨
    (u.sector_size ≠ u.dssize ∧ rq.blocklen ≠ EOK) then []
    else [sdmmc_rw (u.stops false c.dxfer_len u.dssize) true rq.rw])

/-- In a pause, a step that fails is followed by a last one that does not. -/
def PauseReq.Overwrites (u : Device) (rq : PauseReq) : Prop :=
  if u.pwroff_notify = true then
    rq.notify = EOK ∧ ((u.cap_cache = true ∧ u.cache = true ∧ rq.flush ≠ EOK) ∨
      (u.bkops_auto = true ∧ sdmmc_bkops_cfg u rq.bkops ≠ EOK))
  else u.bkops_auto = true ∧ sdmmc_bkops_cfg u rq.bkops = EOK ∧ u.cap_cache = true ∧
    u.cache = true ∧ rq.flush ≠ EOK

/-- The controller can make the transfer. -/
def Transferable (u : Device) (c : Ccb) : Prop :=
  ¬ (c.dxfer_len ≠ 0 ∧ c.data_phys = true ∧ u.dma = false)

/-- **What a request needs**: a firmware update is not disabled; the status that is cut to a byte is
not taken for `CAM_REQ_CMP`; a pause does not put a success over a failure. -/
def Sound (u : Device) (c : Ccb) : Request → Prop
  | .ffu rq => Transferable u c → u.hasFfu = true → u.fwupdate_disabled = false ∧
      ((rq.mode = WB_MODE_DNLD_MC ∨ rq.mode = WB_MODE_ACT_MC) → u.Ready →
        firstFailure (rq.outcomes u c) % 256 ≠ CAM_REQ_CMP)
  | .sync flush =>
      Transferable u c → u.Ready → u.cap_cache = true ∧ u.cache = true ∧ u.vcache_dirty = true →
      flush % 256 ≠ CAM_REQ_CMP
  | .data _ => True
  | .pause rq => c.ioflag = true → u.Ready → ¬ rq.Overwrites u

/-! ### Errors are not taken for success -/

theorem sense_ne (c : Ccb) (sense asc ascq : ℕ) :
    (sdmmc_sense c sense asc ascq).status % 256 ≠ CAM_REQ_CMP := by
  unfold sdmmc_sense
  split
  · show CAM_REQ_CMP_ERR % 256 ≠ CAM_REQ_CMP
    decide
  · show (CAM_REQ_CMP_ERR + CAM_AUTOSNS_VALID) % 256 ≠ CAM_REQ_CMP
    decide

/-- Whatever error `sdmmc_error` is given, it does not return `CAM_REQ_CMP`. -/
theorem error_ne (c : Ccb) (status : ℕ) : (sdmmc_error c status).status % 256 ≠ CAM_REQ_CMP := by
  unfold sdmmc_error
  split_ifs
  · exact sense_ne c _ _ _
  · exact sense_ne c _ _ _
  · exact sense_ne c _ _ _
  · decide
  · exact sense_ne c _ _ _
  · exact sense_ne c _ _ _
  · decide
  · decide

theorem status_ne_of_mod {n : ℕ} (h : n % 256 ≠ CAM_REQ_CMP) : n ≠ CAM_REQ_CMP := by
  rintro rfl
  exact h rfl

theorem unit_ready {u : Device} (c : Ccb) (h : u.Ready) :
    (sdmmc_unit_ready u c).status = CAM_REQ_CMP := by
  rw [sdmmc_unit_ready, if_neg h.2, if_pos h.1]

theorem unit_not_ready {u : Device} (c : Ccb) (h : ¬ u.Ready) :
    (sdmmc_unit_ready u c).status % 256 ≠ CAM_REQ_CMP := by
  unfold sdmmc_unit_ready
  dsimp only
  split
  · exact error_ne c ENXIO
  · rename_i hn
    rw [if_neg fun hp => h ⟨hp, hn⟩]
    exact error_ne c ENODEV

theorem unit_ready_iff (u : Device) (c : Ccb) :
    (sdmmc_unit_ready u c).status ≠ CAM_REQ_CMP ↔ ¬ u.Ready := by
  constructor
  · exact fun hne hr => hne (unit_ready c hr)
  · exact fun hr => status_ne_of_mod (unit_not_ready c hr)

/-! ### What a CCB says -/

theorem succeeds_scsi {u : Device} {c : Ccb} {rq : Request} {d : Done} (ht : Transferable u c)
    (h : serve u c rq = if c.dxfer_len ≠ 0 ∧ c.data_phys ∧ u.dma = false then
        (CAM_PROVIDE_FAIL, none, [])
      else (d.reply.status, none, d.log)) :
    ((sdmmc_start_ccb u c rq).Succeeds ↔ d.reply.status % 256 = CAM_REQ_CMP) ∧
    (sdmmc_start_ccb u c rq).log = d.log := by
  rw [if_neg ht] at h
  unfold sdmmc_start_ccb Posted.Succeeds
  rw [h]
  refine ⟨?_, rfl⟩
  change (if d.reply.status ≠ CAM_REQ_INPROG then d.reply.status % 256 else CAM_REQ_INPROG) =
    CAM_REQ_CMP ↔ _
  by_cases hz : d.reply.status = CAM_REQ_INPROG
  · rw [hz]
    decide
  · rw [if_pos hz]

/-- A transfer that the controller cannot make is refused. -/
theorem reports_refused {u : Device} {c : Ccb} {rq : Request} {d : Done} (ht : ¬ Transferable u c)
    (h : serve u c rq = if c.dxfer_len ≠ 0 ∧ c.data_phys ∧ u.dma = false then
        (CAM_PROVIDE_FAIL, none, [])
      else (d.reply.status, none, d.log)) : Reports u c rq := by
  rw [if_pos (not_not.mp ht)] at h
  intro hs
  unfold sdmmc_start_ccb Posted.Succeeds at hs
  rw [h] at hs
  exact absurd hs (by decide)

/-- A request whose handler does not give `CAM_REQ_CMP` reports what it should. -/
theorem reports_of_ne {u : Device} {c : Ccb} {rq : Request} {d : Done} (ht : Transferable u c)
    (h : serve u c rq = if c.dxfer_len ≠ 0 ∧ c.data_phys ∧ u.dma = false then
        (CAM_PROVIDE_FAIL, none, [])
      else (d.reply.status, none, d.log)) (hne : d.reply.status % 256 ≠ CAM_REQ_CMP) :
        Reports u c rq :=
  fun hs => absurd ((succeeds_scsi ht h).1.mp hs) hne

/-! ### Firmware updates -/

/-- What a handler gives whose operations fail first with `s`: that status, or if there is none, a
success only if everything succeeded. -/
structure Gives (s : ℕ) (d : Done) : Prop where
  fails : s ≠ EOK → d.reply.status = s ∧ ∃ p ∈ d.log, p.2 ≠ EOK
  succeeds : s = EOK → d.reply.status % 256 = CAM_REQ_CMP → ∀ p ∈ d.log, p.2 = EOK

theorem Gives.after {s : ℕ} {d : Done} (h : Gives s d) (op : Op) : Gives s (d.after op EOK) where
  fails hs := by
    obtain ⟨hstatus, p, hp, hne⟩ := h.fails hs
    exact ⟨hstatus, p, List.mem_cons_of_mem _ hp, hne⟩
  succeeds hs hcmp p hp := by
    rcases List.mem_cons.mp hp with rfl | hp
    · rfl
    · exact h.succeeds hs hcmp p hp

theorem Gives.need {rest : List ℕ} {k : Done} (h : Gives (firstFailure rest) k) (op : Op)
    (status : ℕ) :
    Gives (firstFailure (status :: rest)) (need op status k) := by
  unfold Status.need firstFailure
  by_cases hs : status = EOK
  · rw [if_neg (not_not_intro hs), if_neg (not_not_intro hs), hs]
    exact h.after op
  · rw [if_pos hs, if_pos hs]
    exact ⟨fun _ => ⟨rfl, (op, status), List.mem_cons_self .., hs⟩, fun heq => absurd heq hs⟩

theorem finish_gives (op : Op) (status : ℕ) :
    Gives (firstFailure [status]) ((finish status).after op status) := by
  unfold finish firstFailure
  by_cases hs : status = EOK
  · rw [if_neg (not_not_intro hs), if_neg (not_not_intro hs), hs]
    refine ⟨fun hne => absurd rfl hne, fun _ _ p hp => ?_⟩
    rw [List.mem_singleton.mp hp]
  · rw [if_pos hs, if_pos hs]
    exact ⟨fun _ => ⟨rfl, (op, status), List.mem_cons_self .., hs⟩, fun heq => absurd heq hs⟩

/-- A transfer that succeeds has sent its command, stopped it and waited for the card. -/
theorem rw_eok {stops out : Bool} {o : RwRun} (h : sdmmc_rw stops out o = EOK) :
    o.alloc = true ∧ o.sent = EOK ∧ (stops = true → o.stop = EOK) ∧
    (out = true → o.wait = EOK) := by
  have hcode : o.alloc = true ∧ o.sent ≠ ENXIO ∧ afterSent stops out o = EOK := by
    unfold sdmmc_rw at h
    dsimp only at h
    split_ifs at h with halloc hsent hecc hlocked hwp herror hcmp
    all_goals first
      | exact absurd h (by decide)
      | exact ⟨(Bool.not_eq_false _).mp halloc, hsent, h⟩
  obtain ⟨halloc, -, hafter⟩ := hcode
  unfold afterSent at hafter
  split_ifs at hafter with hsent hstop hstop hout
  · exact absurd hafter (by decide)
  · exact absurd hafter hsent
  · exact absurd hafter (by decide)
  · exact ⟨halloc, not_not.mp hsent, fun hs => not_not.mp fun hne =>
      hstop ⟨hs, hne⟩, fun _ => hafter⟩
  · exact ⟨halloc, not_not.mp hsent, fun hs => not_not.mp fun hne => hstop ⟨hs, hne⟩, fun ho =>
      absurd ho hout⟩

/-- The operations of a transfer that succeeds. -/
theorem moved_log {stops out : Bool} {o : RwRun} {d : Done} (h : sdmmc_rw stops out o = EOK)
    (hd : ∀ p ∈ d.log, p.2 = EOK) :
    ∀ p ∈ (d.moved o (sdmmc_rw stops out o)).log, p.2 = EOK := by
  obtain ⟨halloc, hsent, -⟩ := rw_eok h
  intro p hp
  rw [Done.moved, if_pos halloc, h, hsent] at hp
  rcases List.mem_cons.mp hp with rfl | hp
  · rfl
  · rcases List.mem_cons.mp hp with rfl | hp
    · rfl
    · exact hd p hp

theorem moved_reply (o : RwRun) (status : ℕ) (d : Done) : (d.moved o status).reply = d.reply := by
  unfold Done.moved
  dsimp only
  split <;> rfl

theorem moved_mem (o : RwRun) (status : ℕ) (d : Done) :
    (.transfer, status) ∈ (d.moved o status).log := by
  unfold Done.moved
  dsimp only
  split
  · exact List.mem_cons_of_mem _ (List.mem_cons_self ..)
  · exact List.mem_cons_self ..

theorem write_gives (stops out : Bool) (o : RwRun) :
    Gives (firstFailure [sdmmc_rw stops out o])
      ((finish (sdmmc_rw stops out o)).moved o (sdmmc_rw stops out o)) := by
  by_cases hs : sdmmc_rw stops out o = EOK
  · refine ⟨fun hne => absurd ?_ hne, fun _ _ => moved_log hs fun p hp =>
      absurd hp List.not_mem_nil⟩
    rw [firstFailure, if_neg (not_not_intro hs)]
    rfl
  · have hfirst : firstFailure [sdmmc_rw stops out o] = sdmmc_rw stops out o := if_pos hs
    rw [hfirst]
    refine ⟨fun _ => ⟨?_, _, moved_mem o _ _, hs⟩, fun heq => absurd heq hs⟩
    rw [moved_reply, finish, if_pos hs]
    rfl

theorem returns_gives {status : ℕ} (h : status % 256 ≠ CAM_REQ_CMP) (log : List (Op × ℕ)) :
    Gives EOK { reply := { status := status }, log := log } :=
  ⟨fun hne => absurd rfl hne, fun _ hcmp => absurd hcmp h⟩

theorem download_gives (u : Device) (c : Ccb) (rq : FfuReq) :
    Gives (firstFailure (if c.dxfer_len = 0 ∨ c.dxfer_len % u.dssize ≠ 0 ∨
      (u.sector_size ≠ u.dssize ∧ rq.blocklen ≠ EOK)
      then [] else [sdmmc_rw (u.stops false c.dxfer_len u.dssize) true rq.rw]))
        (download u c rq) := by
  have hwrite := write_gives (u.stops false c.dxfer_len u.dssize) true rq.rw
  unfold download
  by_cases hlen : c.dxfer_len = 0 ∨ c.dxfer_len % u.dssize ≠ 0
  · rw [if_pos hlen, if_pos (or_assoc.mp (Or.inl hlen))]
    exact returns_gives (by decide) []
  · rw [if_neg hlen]
    dsimp only
    by_cases hsize : u.sector_size ≠ u.dssize
    · rw [if_pos hsize]
      by_cases hset : rq.blocklen = EOK
      · rw [if_neg (not_not_intro hset), if_neg fun hor => (or_assoc.mpr hor).elim hlen fun hboth =>
          hboth.2 hset, hset]
        exact hwrite.after .blocklen
      · rw [if_pos hset, if_pos (Or.inr (Or.inr ⟨hsize, hset⟩))]
        exact returns_gives (by decide) _
    · rw [if_neg hsize, if_neg fun hor => (or_assoc.mpr hor).elim hlen fun hboth => hsize hboth.1]
      exact hwrite

theorem prepared_gives (u : Device) (rq : FfuReq) {rest : List ℕ} {k : Done}
    (h : Gives (firstFailure rest) k) :
    Gives (firstFailure ((if rq.buffer_id = 0 then
      (if u.cap_cache ∧ u.cache then [rq.flush] else []) ++
        ((if u.bkops_auto then [sdmmc_bkops_cfg u rq.bkops] else []) ++ [rq.enter])
      else []) ++ rest)) (prepared u rq k) := by
  unfold prepared
  dsimp only
  split
  · have henter := h.need .enterFfu rq.enter
    have hbkops : Gives
        (firstFailure ((if u.bkops_auto then [sdmmc_bkops_cfg u rq.bkops] else []) ++
          rq.enter :: rest))
        (if u.bkops_auto then need .bkops (sdmmc_bkops_cfg u rq.bkops) (need .enterFfu rq.enter k)
          else need .enterFfu rq.enter k) := by
      split
      · exact henter.need .bkops _
      · exact henter
    rw [List.append_assoc, List.append_assoc, List.singleton_append]
    split
    · exact hbkops.need .flush rq.flush
    · exact hbkops
  · exact h

theorem ffu_gives {u : Device} {c : Ccb} {rq : FfuReq} (hp : Permitted u c (.ffu rq)) :
    Gives (firstFailure (rq.outcomes u c)) (sdmmc_ffu u c rq) := by
  obtain ⟨hffu, hon, hmode, hready⟩ := hp
  have hknown : ¬ (rq.mode ≠ WB_MODE_DNLD_MC ∧ rq.mode ≠ WB_MODE_ACT_MC) :=
    fun hboth => hmode.elim hboth.1 hboth.2
  rw [sdmmc_ffu, hffu, if_neg (by decide), hon, if_neg (by decide), if_neg hknown,
    if_neg fun hne => (unit_ready_iff u c).mp hne hready, FfuReq.outcomes]
  split
  · exact finish_gives _ rq.install
  · exact prepared_gives u rq (download_gives u c rq)

/-- A firmware update that is refused returns the number of an error; that of `EPERM` is
`CAM_REQ_CMP`. -/
theorem ffu_refused {u : Device} {c : Ccb} {rq : FfuReq} (hp : ¬ Permitted u c (.ffu rq)) :
    (sdmmc_ffu u c rq).reply.status % 256 = CAM_REQ_CMP ↔ u.hasFfu = true ∧
    u.fwupdate_disabled = true := by
  unfold sdmmc_ffu
  cases hffu : u.hasFfu with
  | false =>
      rw [if_pos rfl]
      exact ⟨fun h => absurd h (by decide), fun h => (nomatch h.1)⟩
  | true =>
      rw [if_neg (by decide)]
      cases hoff : u.fwupdate_disabled with
      | true =>
          rw [if_pos rfl]
          exact ⟨fun _ => ⟨rfl, rfl⟩, fun _ => by decide⟩
      | false =>
          rw [if_neg (by decide)]
          refine ⟨fun h => absurd h ?_, fun h => (nomatch h.2)⟩
          by_cases hmode : rq.mode ≠ WB_MODE_DNLD_MC ∧ rq.mode ≠ WB_MODE_ACT_MC
          · rw [if_pos hmode]
            decide
          · have hready : ¬ u.Ready := fun hr => hp ⟨hffu, hoff, by tauto, hr⟩
            rw [if_neg hmode, if_pos ((unit_ready_iff u c).mpr hready)]
            decide

theorem ffu_iff (u : Device) (c : Ccb) (rq : FfuReq) :
    Reports u c (.ffu rq) ↔ Sound u c (.ffu rq) := by
  by_cases ht : Transferable u c
  · obtain ⟨hsucceeds, hlog⟩ := @succeeds_scsi u c (.ffu rq) _ ht rfl
    unfold Reports
    rw [hsucceeds, hlog]
    by_cases hp : Permitted u c (.ffu rq)
    · have hg := ffu_gives hp
      constructor
      · intro h _ _
        refine ⟨hp.2.1, fun _ _ hcmp => ?_⟩
        have hs : firstFailure (rq.outcomes u c) ≠ EOK := by
          intro heq
          rw [heq] at hcmp
          exact absurd hcmp (by decide)
        obtain ⟨hstatus, p, hmem, hne⟩ := hg.fails hs
        exact hne ((h (hstatus ▸ hcmp)).2 p hmem)
      · intro h hcmp
        refine ⟨hp, hg.succeeds ?_ hcmp⟩
        by_contra hs
        rw [(hg.fails hs).1] at hcmp
        exact (h ht hp.1).2 hp.2.2.1 hp.2.2.2 hcmp
    · rw [ffu_refused hp]
      constructor
      · intro h _ hffu
        cases hoff : u.fwupdate_disabled with
        | true => exact absurd (h ⟨hffu, hoff⟩).1 hp
        | false => exact ⟨rfl, fun hmode hready => absurd ⟨hffu, hoff, hmode, hready⟩ hp⟩
      · intro h hboth
        exact absurd ((h ht hboth.1).1.symm.trans hboth.2) (by decide)
  · exact ⟨fun _ h => absurd h ht, fun _ => reports_refused (d := sdmmc_ffu u c rq) ht rfl⟩

/-! ### The other requests -/

theorem sync_iff (u : Device) (c : Ccb) (flush : ℕ) :
    Reports u c (.sync flush) ↔ Sound u c (.sync flush) := by
  by_cases ht : Transferable u c
  · obtain ⟨hsucceeds, hlog⟩ := @succeeds_scsi u c (.sync flush) _ ht rfl
    by_cases hflush : u.Ready ∧ u.cap_cache = true ∧ u.cache = true ∧ u.vcache_dirty = true
    · have hsync : sdmmc_sync u c flush = (finish flush).after .flush flush := by
        rw [sdmmc_sync, hflush.1.1, if_neg (by decide), if_neg fun hne =>
          (unit_ready_iff u c).mp hne hflush.1, if_pos hflush.2]
      unfold Reports
      rw [hsucceeds, hlog, hsync]
      by_cases hz : flush = EOK
      · rw [hz]
        refine ⟨fun _ _ _ _ => by decide, fun _ _ => ⟨trivial, fun p hp => ?_⟩⟩
        rw [List.mem_singleton.mp hp]
      · have hstatus : ((finish flush).after .flush flush).reply.status = flush := if_pos hz
        rw [hstatus]
        constructor
        · intro h _ _ _ hcmp
          exact hz ((h hcmp).2 (.flush, flush) (List.mem_cons_self ..))
        · intro h hcmp
          exact absurd hcmp (h ht hflush.1 hflush.2)
    · -- nothing is flushed
      have hempty : (sdmmc_sync u c flush).log = [] := by
        unfold sdmmc_sync
        split
        · rfl
        · split
          · rfl
          · rename_i hready
            rw [if_neg fun hcache =>
              hflush ⟨not_not.mp fun hr => hready ((unit_ready_iff u c).mpr hr), hcache⟩]
            rfl
      refine ⟨fun _ _ hr hcache => absurd ⟨hr, hcache⟩ hflush, fun _ _ => ⟨trivial, fun p hp => ?_⟩⟩
      rw [hlog, hempty] at hp
      exact absurd hp List.not_mem_nil
  · exact ⟨fun _ h => absurd h ht, fun _ => reports_refused (d := sdmmc_sync u c flush) ht rfl⟩

theorem transfers_log (u : Device) (c : Ccb) (out rlw : Bool) (pieces : List (ℕ × RwRun)) :
    (transfers u c out rlw pieces).reply.status % 256 = CAM_REQ_CMP →
    ∀ p ∈ (transfers u c out rlw pieces).log, p.2 = EOK := by
  induction pieces with
  | nil => exact fun _ p hp => absurd hp List.not_mem_nil
  | cons piece rest ih =>
      obtain ⟨len, o⟩ := piece
      intro hcmp
      rw [transfers] at hcmp ⊢
      by_cases hs : sdmmc_rw (u.stops rlw len u.sector_size) out o = EOK
      · rw [if_neg (not_not_intro hs), moved_reply] at hcmp
        rw [if_neg (not_not_intro hs)]
        exact moved_log hs (ih hcmp)
      · rw [if_pos hs, moved_reply] at hcmp
        exact absurd hcmp (error_ne c _)

/-- A read or a write always reports as it should: its errors go through `sdmmc_error`. -/
theorem data_reports (u : Device) (c : Ccb) (rq : DataReq) : Reports u c (.data rq) := by
  by_cases ht : Transferable u c
  · have hne : (sdmmc_read_write u c rq).reply.status % 256 ≠ CAM_REQ_CMP →
        Reports u c (.data rq) :=
      reports_of_ne (d := sdmmc_read_write u c rq) ht rfl
    obtain ⟨hsucceeds, hlog⟩ := @succeeds_scsi u c (.data rq) _ ht rfl
    by_cases hready : u.Ready
    · cases hlocked : u.card_locked with
      | true =>
          refine hne ?_
          rw [sdmmc_read_write, if_neg fun h => (unit_ready_iff u c).mp h hready, hlocked]
          exact error_ne c EACCES
      | false =>
          by_cases hwp : rq.out = true ∧ u.wp = true
          · refine hne ?_
            rw [sdmmc_read_write, if_neg fun h => (unit_ready_iff u c).mp h hready, hlocked,
              if_neg (by decide), if_pos hwp]
            exact error_ne c EROFS
          · cases hrpmb : u.rpmb with
            | true =>
                refine hne ?_
                rw [sdmmc_read_write, if_neg fun h => (unit_ready_iff u c).mp h hready, hlocked,
                  if_neg (by decide), if_neg hwp, hrpmb, if_pos rfl]
                decide
            | false =>
                intro hs
                rw [hsucceeds] at hs
                refine ⟨⟨hready, hlocked, hwp, hrpmb⟩, ?_⟩
                rw [hlog]
                rw [sdmmc_read_write, if_neg fun h => (unit_ready_iff u c).mp h hready, hlocked,
                  if_neg (by decide), if_neg hwp, hrpmb, if_neg (by decide)] at hs ⊢
                by_cases hpart : rq.partition = EOK
                · rw [if_neg (not_not_intro hpart)] at hs ⊢
                  intro p hp
                  rcases List.mem_cons.mp hp with rfl | hp
                  · exact hpart
                  · exact transfers_log u c _ _ _ hs p hp
                · rw [if_pos hpart] at hs
                  exact absurd hs (error_ne c ETIMEDOUT)
    · refine hne ?_
      rw [sdmmc_read_write, if_pos ((unit_ready_iff u c).mpr hready)]
      exact unit_not_ready c hready
  · exact reports_refused (d := sdmmc_read_write u c rq) ht rfl

/-- The last status is that of all of them exactly if it does not hide one. -/
theorem dcfg_iff (u : Device) (rq : PauseReq) :
    ((sdmmc_dev_dcfg u rq).1 = EOK → ∀ p ∈ (sdmmc_dev_dcfg u rq).2, p.2 = EOK) ↔
    ¬ rq.Overwrites u := by
  unfold sdmmc_dev_dcfg PauseReq.Overwrites
  by_cases hflush : u.cap_cache = true ∧ u.cache = true
  · obtain ⟨hcap, hcache⟩ := hflush
    cases hnotify : u.pwroff_notify <;> cases hbkops : u.bkops_auto <;> simp [hcap, hcache]
    · tauto
    · tauto
    · tauto
  · cases hnotify : u.pwroff_notify <;> cases hbkops : u.bkops_auto <;> simp [hflush]
    · tauto
    · tauto
    · tauto

theorem pause_iff (u : Device) (c : Ccb) (rq : PauseReq) :
    Reports u c (.pause rq) ↔ Sound u c (.pause rq) := by
  have hreports : Reports u c (.pause rq) ↔
      ((pause u c rq).1 = EOK → (c.ioflag = true ∧ u.Ready) ∧ ∀ p ∈ (pause u c rq).2, p.2 = EOK) :=
    Iff.rfl
  rw [hreports]
  by_cases hp : c.ioflag = true ∧ u.Ready
  · have hpause : pause u c rq = (if (sdmmc_dev_dcfg u rq).1 ≠ EOK then EIO
        else EOK, (sdmmc_dev_dcfg u rq).2) := by
      rw [pause, hp.1, if_neg (by decide), if_neg fun hne => (unit_ready_iff u c).mp hne hp.2]
    have hstatus : (pause u c rq).1 = EOK ↔ (sdmmc_dev_dcfg u rq).1 = EOK := by
      rw [hpause]
      dsimp only
      split
      · rename_i hne
        exact ⟨fun h => absurd h (by decide), fun h => absurd h hne⟩
      · rename_i heq
        exact ⟨fun _ => not_not.mp heq, fun _ => rfl⟩
    have hlog : (pause u c rq).2 = (sdmmc_dev_dcfg u rq).2 := by rw [hpause]
    rw [hstatus, hlog]
    constructor
    · exact fun h _ _ => (dcfg_iff u rq).mp fun heok => (h heok).2
    · exact fun h heok => ⟨hp, (dcfg_iff u rq).mpr (h hp.1 hp.2) heok⟩
  · refine ⟨fun _ hio hr => absurd ⟨hio, hr⟩ hp, fun _ heok => absurd heok ?_⟩
    unfold pause
    split
    · decide
    · rename_i hio
      rw [if_pos ((unit_ready_iff u c).mpr fun hr => hp ⟨(Bool.not_eq_false _).mp hio, hr⟩)]
      decide

/-! ### Every request -/

/-- **A request reports as it should exactly if it is sound**: for every device, every request and
every outcome of what is done for it. -/
theorem reports_iff (u : Device) (c : Ccb) (rq : Request) : Reports u c rq ↔ Sound u c rq := by
  cases rq with
  | ffu rq => exact ffu_iff u c rq
  | sync flush => exact sync_iff u c flush
  | data rq => exact ⟨fun _ => trivial, fun _ => data_reports u c rq⟩
  | pause rq => exact pause_iff u c rq

/-- A card whose firmware could be updated, if that were not disabled for good. -/
def disabledCard : Device where
  ecsd index := if index = ECSD_REV then ECSD_REV_V5
    else if index = ECSD_SUPPORTED_MODES ∨ index = ECSD_FW_CONFIG then 1 else 0

/-- The update is refused with `EPERM`, and the CCB says that it was completed. -/
theorem disabled_update_succeeds :
    ¬ Reports disabledCard {} (.ffu { mode := WB_MODE_DNLD_MC }) := by
  intro h
  have hcmp : (sdmmc_start_ccb disabledCard {} (.ffu { mode := WB_MODE_DNLD_MC })).cam_status =
    CAM_REQ_CMP := by decide
  obtain ⟨⟨-, hon, -⟩, -⟩ := h hcmp
  exact absurd hon (by decide)

end Sdmmc.Status
