import RpiBsp.Sdmmc.Sim.Requests

/-!
# Sdmmc — Sim — bus

What happens on a bus, one thing after the other: requests, ticks of the timers, suspend and resume,
insertion and removal of cards.  A step comes with everything the device answers in it, so a run is
a list of pairs.  The log is that of one step.
-/

namespace Sdmmc

open Support

/-! ### Requests -/

/-- A control block for a logical unit. -/
inductive Request where
  | read10 (x : Transfer)
  | write10 (x : Transfer)
  | sync
  | mode_select (wce : Bool)
  | erase12 (lba nlba : BitVec 32)
  | write_same (unmap : Bool) (lba : BitVec 64) (nlba : BitVec 32)
  | erase (action : EraseAction) (lba nlba : BitVec 64)
  | dsm (opt : DsmOpt) (fits : Bool) (ranges : List DsmRange)
  | write_protect (action : WpAction) (mode : ℕ) (lba nlba : BitVec 64)
  | card_register (type : RegType) (action : RegAction)
  | rpmb (flags : RpmbFlag) (refused : Option Errno)
  | drvr_state (state : DrvrState)
deriving DecidableEq, Repr

/-- `sdmmc_scsi_io` and `sdmmc_devctl`. -/
def dispatch (fuel t l : ℕ) : Request → SimM Unit
  | .read10 x => do let _ ← sdmmc_read_write fuel t l false x
  | .write10 x => do let _ ← write10 fuel t l x
  | .sync => do let _ ← sdmmc_sync t l
  | .mode_select wce => do let _ ← sdmmc_mpage_caching wce
  | .erase12 lba nlba => do let _ ← sdmmc_erase12 t l lba nlba
  | .write_same unmap lba nlba => do let _ ← sdmmc_write_same t l unmap lba nlba
  | .erase action lba nlba => do let _ ← sdmmc_erase_devctl t l action lba nlba
  | .dsm opt fits ranges => do let _ ← sdmmc_dsm_devctl t l opt fits ranges
  | .write_protect action mode lba nlba => do let _ ← sdmmc_wp_devctl t l action mode lba nlba
  | .card_register type action => do let _ ← sdmmc_card_register_devctl t l type action
  | .rpmb flags refused => do let _ ← sdmmc_rpmb_devctl t l flags refused
  | .drvr_state state => do let _ ← sdmmc_drvr_state_devctl t l state

/-- `sdmmc_start_ccb`, for one request. -/
def sdmmc_start_ccb (fuel t l : ℕ) (rq : Request) : SimM Unit := do
  sdmmc_pm .active
  dispatch fuel t l rq
  let status ← sdio_retune
  if status ≠ .eok then sdmmc_reset else return ()

/-- `sdmmc_sim_action`: a request to a target or a unit that is not there is refused, and so is the
state the driver is in. -/
def World.admits (w : World) (t l : ℕ) (rq : Request) : Bool :=
  t ≤ w.ext.ntargs ∧ l ≤ w.ext.nluns t ∧ rq ≠ .drvr_state w.ext.drvr_state

def sdmmc_sim_action (fuel t l : ℕ) (rq : Request) : SimM Unit := do
  let w ← get
  if w.admits t l rq then sdmmc_start_ccb fuel t l rq else return ()

/-! ### Timers, suspend and resume -/

/-- `elapsed` says that the idle or the sleep time is over. -/
def sdmmc_timer (elapsed : Bool) : SimM Unit := do
  let w ← get
  if w.ext.pm_state = .sleep ∨ w.ext.pm_state = .suspend ∨ w.ext.drvr_state = .pause then return ()
  else if w.ext.pm_state = .active then
    if elapsed then sdmmc_pm .idle else return ()
  else if w.ext.hc_inf.sleep ∧ elapsed then
    let status ← sdmmc_cache_flush
    if status = .eok then sdmmc_pm .sleep else return ()
  else return ()

/-- `SIM_TIMER`. -/
def sim_timer : SimM Unit := do
  let w ← get
  if w.ext.pm_state = .active then sdmmc_bkops true else return ()

def sdmmc_suspend : SimM Unit := do
  sdmmc_pm .active
  let _ ← sdmmc_dev_dcfg
  sdmmc_pm .suspend

def sdmmc_resume : SimM Unit := do
  sdmmc_pm .active
  sdmmc_dev_cfg

/-! ### Insertion and removal -/

/-- What a card, and the controller, tell when the card is found. -/
structure Card where
  dtype : DevType
  info : DevInfo
  hc_inf : HcInfo
  ecsd : ℕ → BitVec 8

/-- The partition that a card has selected when it is found. -/
def Card.selected (c : Card) : ℕ :=
  if c.dtype = .mmc ∧ (c.ecsd ECSD_REV).toNat ≥ ECSD_REV_V4_3 then
    partOf (c.ecsd ECSD_PART_CONFIG).toNat
  else MMC_PART_USER

def MMC_ERASE_GRP_512K : ℕ := 0x80000
def MMC_BOOT_SIZE_MULT : ℕ := 0x20000
def MMC_RPMB_SIZE_MULT : ℕ := 0x20000

/-- The configuration byte, with another partition selected. -/
def pconf (ecsd : ℕ → ℕ) (part : ℕ) : ℕ :=
  ecsd ECSD_PART_CONFIG - partOf (ecsd ECSD_PART_CONFIG) + part

/-- A boot partition, target 1 or 2. -/
def bootPartition (ecsd : ℕ → ℕ) (t : ℕ) (p : Partition) : Partition :=
  let nlba := ecsd ECSD_BOOT_SIZE_MULT * MMC_BOOT_SIZE_MULT / 512
  { p with
    config := pconf ecsd t, slba := 0, nlba := nlba, elba := (nlba + 2 ^ 64 - 1) % 2 ^ 64
    enh := p.enh || (ecsd ECSD_PARTITIONING_SUP).testBit 0 }

/-- The RPMB partition, target 3. -/
def rpmbPartition (ecsd : ℕ → ℕ) (p : Partition) : Partition :=
  let nlba := ecsd ECSD_RPMB_SIZE_MULT * MMC_RPMB_SIZE_MULT / 512
  { p with
    config := pconf ecsd MMC_PART_RPMB, slba := 0, nlba := nlba
    elba := (nlba + 2 ^ 64 - 1) % 2 ^ 64 }

/-- A general purpose partition, targets 4 to 7. -/
def gpPartition (ecsd : ℕ → ℕ) (t : ℕ) (p : Partition) : Partition :=
  let i := t - 4
  let gp_size := ecsd (ECSD_GP_SIZE + 3 * i) + ecsd (ECSD_GP_SIZE + 1 + 3 * i) * 2 ^ 8 +
    ecsd (ECSD_GP_SIZE + 2 + 3 * i) * 2 ^ 16
  let wp_grp_size := ecsd ECSD_HC_WP_GRP_SIZE * ecsd ECSD_ERASE_GRP_SIZE * MMC_ERASE_GRP_512K
  let nlba := gp_size * wp_grp_size / 512 % 2 ^ 32
  { p with
    config := pconf ecsd t, slba := 0, nlba := nlba, elba := nlba - 1
    enh := p.enh || (ecsd ECSD_PARTITIONS_ATTR).testBit (i + 1) }

def sdmmc_partition_enum (ecsd : ℕ → ℕ) (e : Ext) : Ext :=
  { e with
    ntargs := (e.ntargs + 7) % 2 ^ 32
    partitions := fun t l =>
      if l ≠ 0 then e.partitions t l
      else if t = 1 ∨ t = 2 then bootPartition ecsd t (e.partitions t l)
      else if t = 3 then rpmbPartition ecsd (e.partitions t l)
      else if 4 ≤ t ∧ t < SDMMC_TARGET_MAX then gpPartition ecsd t (e.partitions t l)
      else e.partitions t l }

/-- The user partition, target 0. -/
def userPartition (e : Ext) (ecsd : ℕ → ℕ) (p : Partition) : Partition :=
  { p with
    wp := p.wp || e.dev_inf.wp
    config := if e.dtype = .mmc then pconf ecsd MMC_PART_USER else 0
    slba := 0, nlba := e.dev_inf.sectors, elba := (e.dev_inf.sectors + 2 ^ 64 - 1) % 2 ^ 64 }

def sdmmc_partition_config (ecsd : ℕ → ℕ) (e : Ext) : Ext :=
  let e' := { e with
    partitions := fun t l => if t = 0 ∧ l = 0 then userPartition e ecsd (e.partitions t l)
      else e.partitions t l }
  if e.dtype = .mmc ∧ e.eflags.partitions then sdmmc_partition_enum ecsd e' else e'

/-- `sdio_attach` and what the driver takes over from the card.  The controller is active after the
card was set up. -/
def World.found (card : Card) (w : World) : World :=
  { w with
    ext := { w.ext with dtype := card.dtype, dev_inf := card.info, hc_inf := card.hc_inf }
    info := card.info
    raw_ecsd := fun i => (card.ecsd i).toNat
    pactive := card.selected, access := card.selected, wce := false
    hc_pm := .active, attached := true, gone := false, unflushed := false }

/-- `sdmmc_detach`, with the data of the bus kept. -/
def sdmmc_detach : SimM Unit := do
  let _ ← sdmmc_dev_dcfg
  modify fun w => { w with attached := false }

/-- `sdmmc_sdio_insertion`, with `sdmmc_attach`: the device may not be found, and the driver may not
get its thread. -/
def sdmmc_sdio_insertion (card : Card) : SimM Unit := do
  let w ← get
  let a ← Prog.ask
  if w.attached ∨ !a.alloc then return ()
  else
    modify fun w => w.found card
    modify fun w => w.setExt (sdmmc_partition_config w.raw_ecsd)
    sdmmc_dev_cfg
    let reg ← Prog.ask
    if !reg.alloc then sdmmc_detach
    else
      modify fun w => (w.setFlags fun f => { f with present := true }).setExt fun e =>
        { e with drvr_state := .run }

/-- `sdmmc_sdio_removal`: the power is off by then. -/
def sdmmc_sdio_removal : SimM Unit := do
  let w ← get
  if !w.attached then return ()
  else
    modify fun w => { (w.poweredDown).setFlags (fun f => { f with present := false }) with
      gone := true }
    sdmmc_detach

/-! ### Runs -/

inductive Step where
  | ccb (t l : ℕ) (rq : Request)
  | pm_timer (elapsed : Bool)
  | sim_timer
  | suspend
  | resume
  | insertion (card : Card)
  | removal

/-- The driver's thread runs while there is a device. -/
def whenAttached (m : SimM Unit) : SimM Unit := do
  let w ← get
  if w.attached then m else return ()

def Step.exec (fuel : ℕ) : Step → SimM Unit
  | .ccb t l rq => whenAttached (sdmmc_sim_action fuel t l rq)
  | .pm_timer elapsed => whenAttached (sdmmc_timer elapsed)
  | .sim_timer => whenAttached Sdmmc.sim_timer
  | .suspend => whenAttached sdmmc_suspend
  | .resume => whenAttached sdmmc_resume
  | .insertion card => sdmmc_sdio_insertion card
  | .removal => sdmmc_sdio_removal

/-- A step starts with an empty log. -/
def World.forget (w : World) : World := { w with log := [] }

/-- The state after a step, with the answers of the device. -/
def step (fuel : ℕ) (w : World) (s : Step × (ℕ → DevAnswer)) : World :=
  ((s.1.exec fuel).run s.2 w.forget).2

/-- A state that is reached, with the steps all meeting a condition on the state before them and the
answers in them. -/
inductive Reached (fuel : ℕ) (C : World → Step → (ℕ → DevAnswer) → Prop) (w₀ : World) :
    World → Prop where
  | start : Reached fuel C w₀ w₀
  | step {w : World} {s : Step} {r : ℕ → DevAnswer} :
      Reached fuel C w₀ w → C w s r → Reached fuel C w₀ (step fuel w (s, r))

/-- A bus without a card, as `sdmmc_alloc_hba` and the options leave it. -/
def emptyBus (opts : Eflags) (has_pm : Bool) : World where
  ext :=
    { eflags := { opts with present := false, vcache_dirty := false }
      dtype := .mmc
      dev_inf := { sectors := 0, sector_size := 0, erase_size := 0 }
      hc_inf := {}
      pm_state := .idle
      drvr_state := .pause
      bkops_ticks := 0
      bkops_status := 0
      ntargs := 0
      nluns := fun _ => 0
      partitions := fun _ _ => {} }
  info := { sectors := 0, sector_size := 0, erase_size := 0 }
  pactive := 0
  wce := false
  raw_ecsd := fun _ => 0
  hc_pm := .idle
  has_pm := has_pm
  attached := false
  gone := true
  access := 0
  unflushed := false
  lost := false
  log := []

end Sdmmc
