import RpiBsp.Sdmmc.Command.Definitions

/-!
# Sdmmc — Sim — definitions

What `sim_sdmmc.c` keeps of a bus (`SIM_SDMMC_EXT`), what the layer below keeps of its device
(`sdio_dev_t`), and the calls between them (`card.c`, with `mmc.c` and `sd.c` below).

Beside the driver's own data the state has what the driver cannot see: the partition the card has
selected, whether written data may still be in the volatile cache and whether such data was lost.
`log` has what was done to the card, for the statements about it.

Integers are natural numbers; where the source computes in 32 or 64 bits the wrap is written out.
Left out: names, secure extensions, identification data, and the timing of commands.
-/

namespace Sdmmc

open Support

/-! ### The driver's data -/

def ECSD_POWER_OFF_NOTIFICATION : ℕ := 34
def ECSD_GP_SIZE : ℕ := 143
def ECSD_PARTITIONS_ATTR : ℕ := 156
def ECSD_PARTITIONING_SUP : ℕ := 160
def ECSD_BKOPS_EN : ℕ := 163
def ECSD_BKOPS_START : ℕ := 164
def ECSD_RPMB_SIZE_MULT : ℕ := 168
def ECSD_USER_WP : ℕ := 171
def ECSD_BOOT_WP : ℕ := 173
def ECSD_PART_CONFIG : ℕ := 179
def ECSD_REV : ℕ := 192
def ECSD_HC_WP_GRP_SIZE : ℕ := 221
def ECSD_ERASE_GRP_SIZE : ℕ := 224
def ECSD_BOOT_SIZE_MULT : ℕ := 226
def ECSD_BKOPS_STATUS : ℕ := 246
def ECSD_REV_V4_3 : ℕ := 3

def MMC_PART_USER : ℕ := 0
def MMC_PART_BOOT1 : ℕ := 1
def MMC_PART_BOOT2 : ℕ := 2
def MMC_PART_RPMB : ℕ := 3

def MMC_ERASE_NORM : ℕ := 0x00000000
def MMC_ERASE_TRIM : ℕ := 0x00000001
def MMC_ERASE_DISCARD : ℕ := 0x00000003
def MMC_ERASE_SECURE : ℕ := 0x80000000
def MMC_ERASE_SECURE_TRIM : ℕ := 0x80000001
def MMC_ERASE_SECURE_TRIM_PURGE : ℕ := 0x80008000

def MMC_SET_WRITE_PROT : ℕ := 28
def MMC_CLR_WRITE_PROT : ℕ := 29
def MMC_SEND_WRITE_PROT : ℕ := 30
def MMC_SEND_WRITE_PROT_TYPE : ℕ := 31

def SDMMC_TARGET_MAX : ℕ := 8

/-- The partition that a configuration byte selects: `config & MMC_PART_MSK`. -/
def partOf (config : ℕ) : ℕ := config % 8

/-- `SDMMC_PARTITION`. -/
structure Partition where
  /-- `SDMMC_PFLAG_WP` and `SDMMC_PFLAG_ENH`. -/
  wp : Bool := false
  enh : Bool := false
  config : ℕ := 0
  blk_shft : ℕ := 0
  slba : ℕ := 0
  elba : ℕ := 0
  nlba : ℕ := 0
  rc : ℕ := 0
  wc : ℕ := 0
  tc : ℕ := 0
  ec : ℕ := 0
  dc : ℕ := 0
deriving DecidableEq, Repr

/-- `DEV_CAP_*`. -/
structure DevCaps where
  hc : Bool := false
  trim : Bool := false
  secure : Bool := false
  bkops : Bool := false
  cmd23 : Bool := false
  sleep : Bool := false
  discard : Bool := false
  cache : Bool := false
  pwroff_notify : Bool := false
  bkops_auto : Bool := false
  wr_rel : Bool := false
  wr_rel_enh : Bool := false
deriving DecidableEq, Repr

/-- `sdio_dev_info_t`. -/
structure DevInfo where
  /-- `DEV_FLAG_WP` and `DEV_FLAG_CARD_LOCKED`. -/
  wp : Bool := false
  card_locked : Bool := false
  caps : DevCaps := {}
  sectors : ℕ
  sector_size : ℕ
  erase_size : ℕ
  wp_size : ℕ := 0
  rel_wr_sec_c : ℕ := 0
deriving DecidableEq, Repr

/-- `HC_CAP_ACMD12` and `HC_CAP_SLEEP` of `sdio_hc_info_t`. -/
structure HcInfo where
  acmd12 : Bool := false
  sleep : Bool := false
deriving DecidableEq, Repr

/-- `SDMMC_EFLAG_*`. -/
structure Eflags where
  present : Bool := false
  bkops : Bool := false
  partitions : Bool := false
  cache : Bool := false
  pwroff_notify : Bool := false
  bkops_auto : Bool := false
  vcache_dirty : Bool := false
  relwr : Bool := false
deriving DecidableEq, Repr

/-- `SDMMC_DRVR_*`. -/
inductive DrvrState where
  | run
  | pause
deriving DecidableEq, Repr

/-- `SIM_SDMMC_EXT`.  `nluns` and `partitions` are those of `targets`. -/
structure Ext where
  eflags : Eflags
  dtype : DevType
  dev_inf : DevInfo
  hc_inf : HcInfo
  pm_state : Pm
  drvr_state : DrvrState
  bkops_ticks : ℕ
  bkops_status : BitVec 32
  ntargs : ℕ
  nluns : ℕ → ℕ
  partitions : ℕ → ℕ → Partition

/-- What is done to the card, or by a function that a statement is about. -/
inductive Event where
  /-- A call of `sdio_erase`. -/
  | erase_call (config type lba nlba : ℕ)
  | div_zero
  /-- A data transfer for a partition, and the partition the card has selected then; whether cached
  data was lost before it, and whether the user partition is marked. -/
  | data (out : Bool) (config access lba : ℕ) (lost wp : Bool)
  | erase (config access type lba nlba : ℕ)
  | protect (config access op : ℕ)
  /-- The user partition is marked read only, with or without data that may be in the cache. -/
  | marked (unflushed : Bool)
deriving DecidableEq, Repr

structure World where
  ext : Ext
  /-- What `sdio_dev_info` tells about the device. -/
  info : DevInfo
  /-- `dev->pactive`, `DEV_FLAG_WCE` and `dev->raw_ecsd`. -/
  pactive : ℕ
  wce : Bool
  raw_ecsd : ℕ → ℕ
  /-- `hc->pm_state`, and whether the controller manages power at all. -/
  hc_pm : Pm
  has_pm : Bool
  /-- `ext->device` is there. -/
  attached : Bool
  /-- The device is being removed: no more calls get through. -/
  gone : Bool
  /-- The `PARTITION_ACCESS` field of the card. -/
  access : ℕ
  /-- A `WRITE10` was made with the cache enabled and not flushed since; the device was reset or
  powered down then. -/
  unflushed : Bool
  lost : Bool
  log : List Event

namespace World

def part (w : World) (t l : ℕ) : Partition := w.ext.partitions t l

/-- The user partition is marked. -/
def userWp (w : World) : Bool := (w.part 0 0).wp

def logged (e : Event) (w : World) : World := { w with log := e :: w.log }

def setExt (f : Ext → Ext) (w : World) : World := { w with ext := f w.ext }

def setFlags (f : Eflags → Eflags) (w : World) : World :=
  { w with ext := { w.ext with eflags := f w.ext.eflags } }

def setPart (t l : ℕ) (f : Partition → Partition) (w : World) : World :=
  { w with ext := { w.ext with partitions := fun t' l' =>
      if t' = t ∧ l' = l then f (w.ext.partitions t' l') else w.ext.partitions t' l' } }

/-- A byte of the extended CSD is written: one of them selects the partition. -/
def switched (index value : ℕ) (w : World) : World :=
  if index = ECSD_PART_CONFIG then { w with access := partOf value } else w

/-- Power is lost, and with it what is in the cache. -/
def poweredDown (w : World) : World := { w with lost := w.lost || w.unflushed }

/-- `_sdio_reset`: the card is powered down and up again. -/
def resetCard (w : World) : World :=
  { w.poweredDown with pactive := 0, wce := false, access := 0 }

end World

/-! ### What the device answers -/

structure DevAnswer where
  /-- The device is being removed. -/
  gone : Bool := false
  /-- There is memory for a command. -/
  alloc : Bool := true
  /-- What the call returns. -/
  status : Errno := .eok
  /-- A byte of the extended CSD is written, although the command is reported as failed. -/
  took : ℕ → Bool := fun _ => false
  hpi : Errno := .eok
  retune : Errno := .eok
  cstatus : CmdStatus := .cmd_cmp
  rsp : BitVec 32 := 0
  ecsd : ℕ → ℕ := fun _ => 0

abbrev SimM := Prog DevAnswer World

/-- A call of the layer below: nothing is done when the device is being removed. -/
def callDevice {α : Type} (failed : α) (f : DevAnswer → SimM α) : SimM α := do
  let a ← Prog.ask
  modify fun w => { w with gone := w.gone || a.gone }
  let w ← get
  if w.gone then return failed else f a

/-- A call that only returns a status. -/
def sdio_call : SimM Errno := callDevice .enxio fun a => return a.status

/-- `mmc_switch`. -/
def mmc_switch (index value : ℕ) (a : DevAnswer) : SimM Errno := do
  modify fun w => if a.status = .eok ∨ a.took index then w.switched index value else w
  return a.status

def sdio_mmc_switch (index value : ℕ) : SimM Errno :=
  callDevice .enxio fun a => mmc_switch index value a

/-- `mmc_set_partition`. -/
def mmc_set_partition (partition : ℕ) (a : DevAnswer) : SimM Errno := do
  let w ← get
  if w.pactive = partition then return .eok
  else
    let status ← mmc_switch ECSD_PART_CONFIG partition a
    if status = .eok then
      modify fun w => { w with pactive := partition }
      return .eok
    else return status

def sdio_set_partition (partition : ℕ) : SimM Errno :=
  callDevice .enxio fun a => do
    let w ← get
    if w.ext.dtype = .mmc then mmc_set_partition partition a else return .eok

/-- The loop of `mmc_erase` and of `sd_erase`, whose body runs once: tag the start, tag the end,
erase. -/
def eraseRange (config type lba nlba : ℕ) : SimM Errno := do
  let a ← Prog.ask
  if !a.alloc then return .enomem
  else if nlba = 0 then return .eok
  else
    let start ← Prog.ask
    if start.status ≠ .eok then return start.status
    else
      let stop ← Prog.ask
      if stop.status ≠ .eok then return stop.status
      else
        modify fun w => w.logged (.erase config w.access type lba nlba)
        let erase ← Prog.ask
        return erase.status

/-- `sdio_erase`, with `mmc_erase` and `sd_erase`. -/
def sdio_erase (config type lba nlba : ℕ) : SimM Errno := do
  modify fun w => w.logged (.erase_call config type lba nlba)
  callDevice .enxio fun a => do
    let w ← get
    if w.ext.dtype = .mmc then
      let status ← mmc_set_partition config a
      if status ≠ .eok then return status else eraseRange config type lba nlba
    else eraseRange config type lba nlba

/-- `SDIO_CACHE_*`. -/
inductive CacheOp where
  | disable
  | enable
  | flush
deriving DecidableEq, Repr

/-- `sdio_cache`, with `mmc_cache` and `sd_cache`. -/
def sdio_cache (op : CacheOp) : SimM Errno := do
  let w ← get
  if !w.info.caps.cache then return .enotsup
  else callDevice .enxio fun a => do
    let w ← get
    match op with
    | .disable =>
        modify fun w => if a.status = .eok then { w with wce := false } else w
        return a.status
    | .enable =>
        modify fun w => if a.status = .eok then { w with wce := true } else w
        return a.status
    | .flush =>
        -- Without the cache there is nothing to do, and the call succeeds.
        let status := if w.wce then a.status else .eok
        modify fun w => if status = .eok then { w with unflushed := false } else w
        return status

def sdio_pwroff_notify (op : ℕ) : SimM Errno := do
  let w ← get
  if !w.info.caps.pwroff_notify then return .eok
  else sdio_mmc_switch ECSD_POWER_OFF_NOTIFICATION op

def sdio_reset : SimM Errno :=
  callDevice .enxio fun _ => do
    modify World.resetCard
    return .eok

def sdio_hpi : SimM Errno := callDevice .enxio fun a => return a.hpi

def sdio_retune : SimM Errno := callDevice .eok fun a => return a.retune

/-- `sdio_send_status` and `sdio_wait_card_status`, with the response they leave. -/
def sdio_send_status (rsp : BitVec 32) : SimM (Errno × BitVec 32) :=
  callDevice (.enxio, rsp) fun a => return (a.status, a.rsp)

/-- A data command for a partition is sent. -/
def sendData (out : Bool) (config lba : ℕ) : SimM (Errno × CmdStatus × BitVec 32) :=
  callDevice (.enxio, .card_removed, 0) fun a => do
    modify fun w => w.logged (.data out config w.access lba w.lost w.userWp)
    return (a.status, a.cstatus, a.rsp)

/-- `sdio_pwrmgnt`, with `_sdio_pwrmgnt`. -/
def sdio_pwrmgnt (pm : Pm) : SimM Errno :=
  callDevice .enxio fun a => do
    let w ← get
    if !w.has_pm ∨ w.hc_pm = pm then return .eok
    else
      match pm with
      | .idle =>
          modify fun w => if w.hc_pm = .active then { w with hc_pm := .idle } else w
          return .eok
      | .active =>
          -- From suspend the card is reset; from sleep if it cannot be woken.
          modify fun w => { (if w.hc_pm = .suspend ∨ (w.hc_pm = .sleep ∧ w.ext.hc_inf.sleep ∧
              (!w.info.caps.sleep ∨ a.status ≠ .eok)) then w.resetCard
                else w) with hc_pm := .active }
          return .eok
      | .sleep =>
          if w.ext.hc_inf.sleep ∧ w.info.caps.sleep ∧ a.status ≠ .eok then
            modify fun w => { w.resetCard with hc_pm := .idle }
            return a.status
          else
            modify fun w => { w with hc_pm := .sleep }
            return .eok
      | .suspend =>
          modify fun w => { w.poweredDown with hc_pm := .suspend }
          return .eok

end Sdmmc
