import RpiBsp.Sdmmc.Sim.Upkeep

/-!
# Sdmmc — Sim — requests

The requests to a logical unit (`sdmmc_scsi_io`, `sdmmc_devctl`), the other events of a bus (timers,
suspend and resume, insertion and removal of a card), and runs of them.

Left out: firmware updates, general and manufacturer commands, secure extensions, lock and unlock,
and the requests that only report.  The permission check of `sdmmc_devctl` is passed, and the queue
of the common access layer is not modelled: a request may come in any state of it.
-/

namespace Sdmmc

open Support

/-! ### Reading and writing -/

def CDS_URGENT_BKOPS : BitVec 32 := 1 <<< 6
def CDS_ERROR : BitVec 32 := 1 <<< 19
def CDS_CARD_ECC_FAILED : BitVec 32 := 1 <<< 21
def CDS_WP_VIOLATION : BitVec 32 := 1 <<< 26

/-- Ready for data, in the transfer state. -/
def inTransfer (rsp : BitVec 32) : Bool :=
  rsp &&& (CDS_READY_FOR_DATA ||| CDS_CUR_STATE_MSK) = CDS_READY_FOR_DATA ||| CDS_CUR_STATE_TRAN

/-- `sdmmc_rw`: after a command that failed. -/
def afterFailed (status : Errno) (rsp : BitVec 32) : SimM (Errno × BitVec 32) := do
  let s ← sdio_send_status rsp
  if s.1 ≠ .eok ∨ !inTransfer s.2 then
    let stop ← sdio_call
    return (if stop ≠ .eok then .etimedout else status, s.2)
  else return (status, s.2)

/-- `sdmmc_rw`: after a command that did not fail. -/
def afterSent (t l blks : ℕ) (out stop : Bool) (rsp : BitVec 32) : SimM (Errno × BitVec 32) := do
  let s ← (if stop then do return (if (← sdio_call) ≠ .eok then .etimedout else .eok)
    else return Errno.eok)
  let s ← (if s = .eok ∧ out then do
      let ready ← sdio_send_status rsp
      (if ready.1 ≠ .eok then do let _ ← sdio_call else return ())
      return ready
    else return (s, rsp))
  -- The counts of the RPMB partition are not kept.
  modify fun w => if partOf (w.part t l).config ≠ MMC_PART_RPMB then
    w.setPart t l fun p => if out then { p with wc := p.wc + blks }
      else { p with rc := p.rc + blks }
    else w
  return s

/-- `sdmmc_rw`: what the status of the command and the response say. -/
def rwStatus (cstatus : CmdStatus) (rsp : BitVec 32) (status : Errno) : Errno :=
  let s := if cstatus = .cmd_cmp then status else .etimedout
  let s := if rsp &&& CDS_ERROR ≠ 0 then .eio else s
  let s := if rsp &&& CDS_WP_VIOLATION ≠ 0 then .erofs else s
  let s := if rsp &&& CDS_CARD_IS_LOCKED ≠ 0 then .eacces else s
  if rsp &&& CDS_CARD_ECC_FAILED ≠ 0 then .eio else s

/-- `sdmmc_rw`: after a failure the device may have to be reset. -/
def recoverRw (sbc bus_err : Bool) (status : Errno) (rsp : BitVec 32) : SimM Unit := do
  let s ← sdio_send_status rsp
  (if s.1 ≠ .eok ∨ !inTransfer s.2 then sdmmc_reset else return ())
  let w ← get
  (if bus_err ∧ w.ext.dtype = .sd then do let _ ← sdio_call else return ())
  modify fun w => w.setExt fun e => { e with dev_inf := w.info }
  modify fun w => if status = .etimedout ∧ sbc ∧ w.ext.dtype = .sd then
    w.setExt fun e => { e with
      dev_inf := { e.dev_inf with caps := { e.dev_inf.caps with cmd23 := false } } } else w

def sdmmc_rw (t l : ℕ) (out rlw : Bool) (addr dlen : ℕ) : SimM Errno := do
  let w ← get
  let di := w.ext.dev_inf
  let addr := if di.caps.hc then addr else addr * di.sector_size % 2 ^ 64
  let multiple := dlen > di.sector_size
  let sbc := rlw ∨ (multiple ∧ !w.ext.hc_inf.acmd12 ∧ di.caps.cmd23)
  let a ← Prog.ask
  if !a.alloc then return .enomem
  else
    let reply ← sendData out (w.part t l).config addr
    if reply.1 = .enxio then return .enxio
    else
      let s ← (if reply.1 ≠ .eok then afterFailed reply.1 reply.2.2
        else afterSent t l (dlen / di.sector_size) out (multiple ∧ ¬ sbc ∧ !w.ext.hc_inf.acmd12)
          reply.2.2)
      modify fun w => if s.2 &&& CDS_URGENT_BKOPS ≠ 0 then
        w.setExt fun e => { e with bkops_status := BKOPS_STATUS_OPERATIONS_CRITICAL } else w
      let status := rwStatus reply.2.1 s.2 s.1
      if status ≠ .eok then
        recoverRw sbc (reply.2.1 = .data_crc_err ∨ reply.2.1 = .data_end_err) status s.2
        return status
      else return .eok

/-- `sdmmc_read_write`: one entry of the scatter list, in units of a reliable write, with the block
that comes next.  Nothing bounds the loop, so it has a bound on its rounds. -/
def writeReliable (t l rel_wr_sec_c : ℕ) : ℕ → ℕ → ℕ → SimM (Errno × ℕ)
  | 0, lba, _ => return (.etimedout, lba)
  | fuel + 1, lba, sg_count => do
      if sg_count = 0 then return (.eok, lba)
      else
        let aligned := lba &&& (rel_wr_sec_c + 2 ^ 64 - 1) % 2 ^ 64 = 0
        let rel_wr_count := rel_wr_sec_c * 512 % 2 ^ 32
        let count := if aligned then sg_count else 512
        let count := if count > rel_wr_count then rel_wr_count else 512
        let status ← sdmmc_rw t l true true lba count
        if status ≠ .eok then return (status, lba)
        else
          writeReliable t l rel_wr_sec_c fuel ((lba + count / 512) % 2 ^ 64)
            ((sg_count + 2 ^ 32 - count) % 2 ^ 32)

/-- `sdmmc_read_write`: the scatter list. -/
def writeReliableList (t l rel_wr_sec_c fuel : ℕ) : ℕ → List ℕ → SimM Errno
  | _, [] => return .eok
  | lba, sg_count :: sgl => do
      let s ← writeReliable t l rel_wr_sec_c fuel lba sg_count
      if s.1 ≠ .eok then return s.1 else writeReliableList t l rel_wr_sec_c fuel s.2 sgl

/-- What a read or a write asks for: block, `RW_OPT_FUA`, length and scatter list. -/
structure Transfer where
  lba : BitVec 32
  fua : Bool := false
  len : ℕ
  sgl : List ℕ := [len]
deriving DecidableEq, Repr

/-- `sdmmc_read_write`, once the partition is selected. -/
def transfer (fuel t l : ℕ) (out rlw : Bool) (x : Transfer) : SimM CamStatus := do
  let w ← get
  let p := w.part t l
  let lba := (x.lba.toNat * 2 ^ p.blk_shft % 2 ^ 64 + p.slba) % 2 ^ 64
  let status ← (if rlw ∧ !w.ext.dev_inf.caps.wr_rel_enh then
      writeReliableList t l w.ext.dev_inf.rel_wr_sec_c fuel lba x.sgl
    else sdmmc_rw t l out rlw lba x.len)
  if status ≠ .eok then sdmmc_error status else return .req_cmp

def sdmmc_read_write (fuel t l : ℕ) (out : Bool) (x : Transfer) : SimM CamStatus := do
  let status ← sdmmc_unit_ready t l
  if status ≠ .req_cmp then return status
  else
    let w ← get
    let p := w.part t l
    if w.ext.dev_inf.card_locked then sdmmc_error .eacces
    else if out ∧ p.wp then sdmmc_error .erofs
    else if partOf p.config = MMC_PART_RPMB then return .provide_fail
    else
      let status ← sdio_set_partition p.config
      if status ≠ .eok then
        sdmmc_reset
        sdmmc_error .etimedout
      else
        sdmmc_bkops false
        transfer fuel t l out
          (out ∧ (w.ext.eflags.relwr ∨ (x.fua ∧ w.ext.dev_inf.caps.wr_rel))) x

/-- `SC_WRITE10`: the cache is dirty before the write is made. -/
def write10 (fuel t l : ℕ) (x : Transfer) : SimM CamStatus := do
  modify fun w => if w.ext.dev_inf.caps.cache ∧ w.ext.eflags.cache then
    { w.setFlags fun f => { f with vcache_dirty := true } with unflushed := true } else w
  sdmmc_read_write fuel t l true x

/-! ### Cache requests -/

def sdmmc_sync (t l : ℕ) : SimM CamStatus := do
  let w ← get
  if !w.ext.eflags.present then return .req_cmp
  else
    let status ← sdmmc_unit_ready t l
    if status ≠ .req_cmp then return status
    else
      let s ← sdmmc_cache_flush
      return if s = .eok then .req_cmp else .errno s

/-- `sdmmc_mode_select` for the caching page; `wce` is `MP_CACHE_WCE`. -/
def sdmmc_mpage_caching (wce : Bool) : SimM CamStatus := do
  let w ← get
  if w.ext.dev_inf.caps.cache then
    let status ← sdio_cache (if wce then .enable else .disable)
    if status = .eok then
      modify fun w => w.setFlags fun f => { f with cache := wce }
      return .req_cmp
    else sdmmc_error status
  else sdmmc_error .einval

/-! ### Erase, trim and discard -/

/-- Blocks that were erased are counted. -/
def counted (t l nlba : ℕ) (f : ℕ → Partition → Partition) (status : Errno) : SimM Unit :=
  modify fun w => if status = .eok then w.setPart t l (f nlba) else w

def Partition.addTc (n : ℕ) (p : Partition) : Partition := { p with tc := p.tc + n }
def Partition.addEc (n : ℕ) (p : Partition) : Partition := { p with ec := p.ec + n }
def Partition.addDc (n : ℕ) (p : Partition) : Partition := { p with dc := p.dc + n }

/-- Start and count are multiples of the erase group, which is divided by. -/
def groupAligned (egs lba nlba : ℕ) : SimM Bool := do
  modify fun w => if egs = 0 then w.logged .div_zero else w
  return egs ≠ 0 ∧ lba % egs = 0 ∧ nlba % egs = 0

def sdmmc_write_same (t l : ℕ) (unmap : Bool) (lba : BitVec 64) (nlba : BitVec 32) :
    SimM CamStatus := do
  let status ← sdmmc_unit_ready t l
  if status ≠ .req_cmp then return status
  else
    let w ← get
    let p := w.part t l
    if !w.ext.dev_inf.caps.trim ∨ !unmap then sdmmc_error .einval
    else
      let status ← sdio_erase p.config MMC_ERASE_TRIM ((lba.toNat + p.slba) % 2 ^ 64) nlba.toNat
      counted t l nlba.toNat Partition.addTc status
      if status ≠ .eok then sdmmc_error status else return .req_cmp

/-- The range lies within the partition, as far as 32 bits show. -/
def Partition.inRange32 (p : Partition) (lba nlba : ℕ) : Bool :=
  lba ≤ (p.slba + p.nlba + 2 ^ 64 - 1) % 2 ^ 32 ∧
    (lba + nlba + 2 ^ 32 - 1) % 2 ^ 32 ≤ (p.slba + p.nlba + 2 ^ 64 - 1) % 2 ^ 32

def sdmmc_erase12 (t l : ℕ) (lba nlba : BitVec 32) : SimM CamStatus := do
  let w ← get
  let p := w.part t l
  let egs := w.ext.dev_inf.erase_size / 512
  let nlba := nlba.toNat
  let lba := (lba.toNat + p.slba) % 2 ^ 32
  let status ← sdmmc_unit_ready t l
  if status ≠ .req_cmp then return status
  else if !p.inRange32 lba nlba then sdmmc_error .einval
  else
    let aligned ← groupAligned egs lba nlba
    if !aligned then sdmmc_error .einval
    else
      let status ← sdio_erase p.config MMC_ERASE_SECURE lba nlba
      counted t l nlba Partition.addEc status
      if status ≠ .eok then sdmmc_error status else return .req_cmp

/-- `SDMMC_ERASE_ACTION_*`. -/
inductive EraseAction where
  | normal
  | secure
  | trim
  | secure_trim
  | secure_purge
  | discard
  | other
deriving DecidableEq, Repr

/-- The range lies within the partition, as far as 64 bits show. -/
def Partition.inRange (p : Partition) (lba nlba : ℕ) : Bool :=
  lba ≤ (p.slba + p.nlba + 2 ^ 64 - 1) % 2 ^ 64 ∧
    (lba + nlba + 2 ^ 64 - 1) % 2 ^ 64 ≤ (p.slba + p.nlba + 2 ^ 64 - 1) % 2 ^ 64

/-- Erase and count. -/
def eraseCounted (t l config type lba nlba : ℕ) (f : ℕ → Partition → Partition) : SimM Errno := do
  let status ← sdio_erase config type lba nlba
  counted t l nlba f status
  return status

/-- `sdmmc_erase_devctl`: the action, if the device can do it. -/
def eraseAction (t l config egs : ℕ) (caps : DevCaps) (action : EraseAction) (slba nlba : ℕ) :
    SimM Errno :=
  match action with
  | .normal => do
      let aligned ← groupAligned egs slba nlba
      if aligned then eraseCounted t l config MMC_ERASE_NORM slba nlba Partition.addEc
      else return .einval
  | .secure => do
      if caps.secure then
        let aligned ← groupAligned egs slba nlba
        if aligned then eraseCounted t l config MMC_ERASE_SECURE slba nlba Partition.addEc
        else return .einval
      else return .einval
  | .trim =>
      if caps.trim then eraseCounted t l config MMC_ERASE_TRIM slba nlba Partition.addTc
      else return .einval
  | .secure_trim =>
      if caps.secure ∧ caps.trim then
        eraseCounted t l config MMC_ERASE_SECURE_TRIM slba nlba Partition.addTc
      else return .einval
  | .secure_purge =>
      if caps.secure ∧ caps.trim then sdio_erase config MMC_ERASE_SECURE_TRIM_PURGE slba nlba
      else return .einval
  | .discard =>
      if caps.trim then eraseCounted t l config MMC_ERASE_DISCARD slba nlba Partition.addDc
      else return .einval
  | .other => return .einval

def sdmmc_erase_devctl (t l : ℕ) (action : EraseAction) (lba nlba : BitVec 64) : SimM Errno := do
  let w ← get
  let p := w.part t l
  let nlba := nlba.toNat % 2 ^ 32
  let slba := (p.slba + lba.toNat) % 2 ^ 64
  let status ← sdmmc_unit_ready t l
  if status ≠ .req_cmp then return .eio
  else if !p.inRange slba nlba then return .einval
  else eraseAction t l p.config (w.ext.dev_inf.erase_size / 512) w.ext.dev_inf.caps action slba nlba

/-- `DSM_OPT_*`. -/
inductive DsmOpt where
  | trim
  | discard
  | other
deriving DecidableEq, Repr

/-- A `DATA_SET_MGNT_RANGE`. -/
structure DsmRange where
  lba : BitVec 64
  nlba : BitVec 32
deriving DecidableEq, Repr

def sdmmc_dsm (t l dtype : ℕ) : List DsmRange → SimM Errno
  | [] => return .eok
  | range :: ranges => do
      let w ← get
      let p := w.part t l
      let lba := (p.slba + range.lba.toNat) % 2 ^ 64
      if !p.inRange lba range.nlba.toNat then return .einval
      else
        let status ← eraseCounted t l p.config dtype lba range.nlba.toNat
          (if dtype = MMC_ERASE_TRIM then Partition.addTc else Partition.addDc)
        if status ≠ .eok then return status else sdmmc_dsm t l dtype ranges

/-- `fits` says that the ranges lie within the data of the request. -/
def sdmmc_dsm_devctl (t l : ℕ) (opt : DsmOpt) (fits : Bool) (ranges : List DsmRange) :
    SimM Errno := do
  let status ← sdmmc_unit_ready t l
  let w ← get
  if status ≠ .req_cmp then return .eio
  else if !fits then return .einval
  else match opt with
    | .trim =>
        if w.ext.dev_inf.caps.trim then sdmmc_dsm t l MMC_ERASE_TRIM ranges else return .einval
    | .discard =>
        if w.ext.dev_inf.caps.discard then sdmmc_dsm t l MMC_ERASE_DISCARD ranges
        else return .einval
    | .other => return .einval

/-! ### Write protection of groups -/

/-- `SDMMC_WP_ACTION_*`. -/
inductive WpAction where
  | clr
  | set
  | prot
  | prot_type
  | other
deriving DecidableEq, Repr

/-- A write protection command is sent. -/
def sendProtect (config op : ℕ) : SimM Errno :=
  callDevice .enxio fun a => do
    modify fun w => w.logged (.protect config w.access op)
    return a.status

/-- The groups of a range, one after the other; `nlba` rounds are enough. -/
def protectGroups (config op wp_grp_size : ℕ) : ℕ → ℕ → SimM Errno
  | 0, _ => return .eok
  | fuel + 1, nlba => do
      if nlba = 0 then return .eok
      else
        let status ← sendProtect config op
        if status ≠ .eok then return status
        else protectGroups config op wp_grp_size fuel (nlba - min nlba wp_grp_size)

/-- `sdmmc_write_protect`: the mode is set before the groups are. -/
def protectMode (partition mode : ℕ) : SimM Errno := do
  let w ← get
  if partOf partition = MMC_PART_USER then
    -- `ECSD_USER_WP_US_PWR_WP_EN` is 1, `_PERM_WP_EN` 4 and `_PWR_WP_DIS` 8.
    sdio_mmc_switch ECSD_USER_WP (if mode.testBit 0 then w.raw_ecsd ECSD_USER_WP &&& 0xf2 ||| mode
      else w.raw_ecsd ECSD_USER_WP &&& 0xfa)
  else if partOf partition = MMC_PART_BOOT1 ∨ partOf partition = MMC_PART_BOOT2 then
    sdio_mmc_switch ECSD_BOOT_WP mode
  else return .einval

def sdmmc_write_protect (op partition mode lba nlba : ℕ) : SimM Errno := do
  let w ← get
  let wp_grp_size := w.ext.dev_inf.wp_size / 512
  if wp_grp_size = 0 then return .enotsup
  else if lba % wp_grp_size ≠ 0 then return .einval
  else
    let status ← sdio_set_partition partition
    if status ≠ .eok then return status
    else
      let status ← (if op = MMC_SET_WRITE_PROT then protectMode partition mode else return .eok)
      if status ≠ .eok then return status
      else
        let a ← Prog.ask
        if !a.alloc then return .enomem
        else if op = MMC_SET_WRITE_PROT ∨ op = MMC_CLR_WRITE_PROT then
          protectGroups partition op wp_grp_size nlba nlba
        else sendProtect partition op

def sdmmc_wp_devctl (t l : ℕ) (action : WpAction) (mode : ℕ) (lba nlba : BitVec 64) :
    SimM Errno := do
  let w ← get
  let p := w.part t l
  let nlba := max 1 nlba.toNat % 2 ^ 32
  let slba := (p.slba + lba.toNat) % 2 ^ 64
  let status ← sdmmc_unit_ready t l
  if status ≠ .req_cmp then return .eio
  else if action = .other ∨ !p.inRange slba nlba then return .einval
  else if w.ext.dtype ≠ .mmc then return .enotsup
  else
    let op := match action with
      | .clr => MMC_CLR_WRITE_PROT
      | .set => MMC_SET_WRITE_PROT
      | .prot => MMC_SEND_WRITE_PROT
      | _ => MMC_SEND_WRITE_PROT_TYPE
    sdmmc_write_protect op p.config (mode % 2) slba nlba

/-! ### Card registers, RPMB and the state of the driver -/

/-- `SDMMC_REG_TYPE_*`. -/
inductive RegType where
  | cid
  | csd
  | ext_csd
  | scr
  | sds
  | other
deriving DecidableEq, Repr

/-- `SDMMC_CR_ACTION_*`. -/
inductive RegAction where
  | read
  | write (address : BitVec 32) (value : BitVec 8)
  | other
deriving DecidableEq, Repr

def readRegister (type : RegType) : SimM Errno := do
  let w ← get
  match type with
  | .cid => return .eok
  | .csd => return .eok
  | .ext_csd =>
      if w.ext.dtype ≠ .mmc then return .enotsup
      else
        let csd ← sdio_send_ext_csd
        if csd.1 = .eok then return .eok
        else if csd.1 = .etimedout then
          sdmmc_reset
          return .etimedout
        else return .eio
  | .scr => return if w.ext.dtype ≠ .sd then .enotsup else .eok
  | .sds =>
      if w.ext.dtype ≠ .sd then return .enotsup
      else
        let status ← sdio_call
        return if status = .eok then .eok else .eio
  | .other => return .einval

def sdmmc_card_register_devctl (t l : ℕ) (type : RegType) (action : RegAction) : SimM Errno := do
  let status ← sdmmc_unit_ready t l
  if status ≠ .req_cmp then return .eio
  else match action with
    | .read => readRegister type
    | .write address value => do
        let w ← get
        if type = .ext_csd ∧ w.ext.dtype = .mmc then
          if address.toNat ≥ ECSD_REV then return .einval
          else
            let status ← sdio_mmc_switch address.toNat value.toNat
            return if status = .eok then .eok else .eio
        else return .enotsup
    | .other => return .enotsup

/-- `RPMB_FLG_*`. -/
inductive RpmbFlag where
  | read
  | write
  | rl_write
deriving DecidableEq, Repr

/-- `sdio_mmc_rpmb_rw`, as one transfer for the partition. -/
def sdio_mmc_rpmb_rw (config : ℕ) (out : Bool) : SimM Errno := do
  let reply ← sendData out config 0
  return reply.1

/-- A transfer of `sdmmc_rpmb_devctl`, with the reset if it fails. -/
def rpmbTransfer (config : ℕ) (out : Bool) : SimM Errno := do
  let status ← sdio_mmc_rpmb_rw config out
  if status ≠ .eok then
    sdmmc_reset
    return status
  else return .eok

/-- `refused` stands for the checks of the size and the write protection of the request. -/
def sdmmc_rpmb_devctl (t l : ℕ) (flags : RpmbFlag) (refused : Option Errno) : SimM Errno := do
  let w ← get
  let p := w.part t l
  if w.ext.dtype ≠ .mmc ∨ partOf p.config ≠ MMC_PART_RPMB then return .enotsup
  else if refused.isSome then return refused.getD .einval
  else
    let status ← sdmmc_unit_ready t l
    if status ≠ .req_cmp then return .eio
    else
      sdmmc_bkops false
      let status ← sdio_set_partition p.config
      if status ≠ .eok then
        sdmmc_reset
        return status
      else
        let status ← (if flags ≠ .read then rpmbTransfer p.config true else return .eok)
        if status ≠ .eok then return status
        else
          let status ← rpmbTransfer p.config true
          if status ≠ .eok then return status else rpmbTransfer p.config false

def sdmmc_drvr_state_devctl (t l : ℕ) (state : DrvrState) : SimM Errno := do
  let status ← sdmmc_unit_ready t l
  if status ≠ .req_cmp then return .eio
  else match state with
    | .pause =>
        let status ← sdmmc_dev_dcfg
        if status ≠ .eok then return .eio
        else
          sdmmc_pm .idle
          modify fun w => w.setExt fun e => { e with drvr_state := .pause }
          return .eok
    | .run =>
        sdmmc_pm .active
        let _ ← sdio_reset
        sdmmc_dev_cfg
        modify fun w => w.setExt fun e => { e with drvr_state := .run }
        return .eok

end Sdmmc
