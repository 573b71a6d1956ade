import RpiBsp.Sdmmc.Sim.Definitions

/-!
# Sdmmc — Sim — upkeep

What `sim_sdmmc.c` does beside the requests themselves: errors and readiness, power states, the
volatile cache, configuration of the device, reset, and background operations.

* `Kept` — what upkeep leaves as it was: the table of partitions but for the write protection, the
  data of the device; the selection is kept, or is back at the user area in driver and card alike.
* `sdmmc_reset_kept`, `sdmmc_bkops_kept`, … — every function here is within `Kept`.
-/

namespace Sdmmc

open Support

/-! ### Status and errors -/

/-- `SK_*`. -/
inductive SenseKey where
  | medium
  | not_rdy
  | illegal
  | data_prot
deriving DecidableEq, Repr

/-- What a request ends with.  Some functions hand an error number on as it is. -/
inductive CamStatus where
  | req_cmp
  | req_cmp_err
  | no_hba
  | cmd_timeout
  | provide_fail
  | sense (key : SenseKey) (asc ascq : ℕ)
  | errno (e : Errno)
deriving DecidableEq, Repr

def sdmmc_error (status : Errno) : SimM CamStatus :=
  match status with
  | .eio => return .sense .medium 0 0
  | .enxio => return .sense .not_rdy ASC_MEDIA_NOT_PRESENT 0
  | .eacces => return .sense .illegal ASC_COPY_PROTECTION ASCQ_READ_SCRAMBLED
  | .enodev => do
      modify fun w => w.setFlags fun f => { f with present := false }
      return .no_hba
  | .einval => return .sense .illegal ASC_INVALID_FIELD 0
  | .erofs => return .sense .data_prot ASC_WRITE_PROTECTED ASCQ_VU_WRITE_PROTECTED
  | .etimedout => return .cmd_timeout
  | _ => return .req_cmp_err

/-- The device is present and the partition has blocks. -/
def World.ready (w : World) (t l : ℕ) : Bool :=
  w.ext.eflags.present && (w.part t l).nlba ≠ 0

def sdmmc_unit_ready (t l : ℕ) : SimM CamStatus := do
  let w ← get
  let status ← (if !w.ext.eflags.present then sdmmc_error .enodev else return .req_cmp)
  if (w.part t l).nlba = 0 then sdmmc_error .enxio else return status

/-! ### Power states and the cache -/

def sdmmc_pm (op : Pm) : SimM Unit := do
  let w ← get
  if w.ext.pm_state = op then return ()
  else
    let status ← sdio_pwrmgnt op
    -- A device that does not go to sleep is idle again.
    let op := if op = .sleep ∧ status ≠ .eok then .idle else op
    modify fun w => w.setExt fun e => { e with pm_state := op }

/-- Data may be in the volatile cache, as far as the driver knows. -/
def World.pending (w : World) : Bool :=
  w.ext.dev_inf.caps.cache && w.ext.eflags.cache && w.ext.eflags.vcache_dirty

def sdmmc_cache_flush : SimM Errno := do
  let w ← get
  if w.pending then
    let status ← sdio_cache .flush
    modify fun w => if status = .eok then
      w.setFlags fun f => { f with vcache_dirty := false } else w
    return status
  else return .eok

/-! ### Configuration and reset -/

def ECSD_BKOPS_ENABLE : ℕ := 1
def ECSD_BKOPS_AUTO_EN : ℕ := 2
def ECSD_POWERED_ON : ℕ := 1
def ECSD_POWER_OFF_SHORT : ℕ := 2

def sdmmc_bkops_cfg (op : Bool) : SimM Errno := do
  let w ← get
  if !w.ext.dev_inf.caps.bkops then return .enotsup
  else
    let manual := if w.ext.eflags.bkops then ECSD_BKOPS_ENABLE else 0
    let auto := if op ∧ w.ext.dev_inf.caps.bkops_auto ∧ w.ext.eflags.bkops_auto then
      ECSD_BKOPS_AUTO_EN else 0
    sdio_mmc_switch ECSD_BKOPS_EN (manual ||| auto)

/-- `sdmmc_dev_cfg`: the cache. -/
def cfgCache : SimM Unit := do
  let w ← get
  if w.ext.dev_inf.caps.cache then
    let status ← sdio_cache (if w.ext.eflags.cache then .enable else .disable)
    modify fun w => if status ≠ .eok then w.setFlags fun f => { f with cache := false } else w
  else return ()

/-- `sdmmc_dev_cfg`: background operations and reliable writes. -/
def cfgMmc : SimM Unit := do
  let w ← get
  if w.ext.dtype = .mmc then
    modify fun w => if (w.raw_ecsd ECSD_BKOPS_EN).testBit 0 then
      w.setFlags fun f => { f with bkops := true } else w
    let status ← sdmmc_bkops_cfg true
    modify fun w => if status ≠ .eok then w.setFlags fun f => { f with bkops := false } else w
    modify fun w => if !w.ext.dev_inf.caps.wr_rel then
      w.setFlags fun f => { f with relwr := false } else w
  else return ()

/-- `sdmmc_dev_cfg`: power off notification. -/
def cfgPwroff : SimM Unit := do
  let w ← get
  if w.ext.eflags.pwroff_notify then
    let status ← sdio_pwroff_notify ECSD_POWERED_ON
    modify fun w => if status ≠ .eok then
      w.setFlags fun f => { f with pwroff_notify := false } else w
  else return ()

def sdmmc_dev_cfg : SimM Unit := do
  cfgCache
  cfgMmc
  cfgPwroff

/-- The status is the one of the last step that is taken. -/
def sdmmc_dev_dcfg : SimM Errno := do
  let w ← get
  let status ← (if w.ext.dev_inf.caps.cache ∧ w.ext.eflags.cache then sdio_cache .flush
    else return .eok)
  let status ← (if w.ext.eflags.bkops_auto then sdmmc_bkops_cfg false else return status)
  if w.ext.eflags.pwroff_notify then sdio_pwroff_notify ECSD_POWER_OFF_SHORT else return status

/-- `sdmmc_set_partition_attr` with `SDMMC_PFLAG_WP`. -/
def sdmmc_set_partition_attr (partition : ℕ) (w : World) : World :=
  w.setExt fun e => { e with
    partitions := fun t l =>
      if t ≤ e.ntargs ∧ l ≤ e.nluns t ∧ partOf (e.partitions t l).config = partition then
        { e.partitions t l with wp := true }
      else e.partitions t l }

/-- `sdmmc_reset`: the cache is off, and if there may have been data in it the user partition is
read only from now on. -/
def cacheLost (w : World) : World :=
  if w.ext.dev_inf.caps.cache ∧ w.ext.eflags.cache then
    World.setFlags (fun f => { f with cache := false }) (if w.ext.eflags.vcache_dirty then
      (sdmmc_set_partition_attr MMC_PART_USER w).logged (.marked w.unflushed) else w)
  else w

def sdmmc_reset : SimM Unit := do
  let _ ← sdio_reset
  modify cacheLost
  sdmmc_dev_cfg

/-! ### Background operations -/

def BKOPS_NC_TICKS : ℕ := 10
def BKOPS_IMPACTED_TICKS : ℕ := 5
def BKOPS_STATUS_OPERATIONS_NONE : BitVec 32 := 0
def BKOPS_STATUS_OPERATIONS_NON_CRITICAL : BitVec 32 := 1
def BKOPS_STATUS_OPERATIONS_IMPACTED : BitVec 32 := 2
def BKOPS_STATUS_OPERATIONS_CRITICAL : BitVec 32 := 3
def BKOPS_STATUS_OPERATIONS_INPROG : BitVec 32 := 0x80000000

/-- `sdio_send_ext_csd`. -/
def sdio_send_ext_csd : SimM (Errno × (ℕ → ℕ)) :=
  callDevice (.enxio, fun _ => 0) fun a => return (a.status, a.ecsd)

/-- The interrupt of a device that does background operations, and the reset if it fails. -/
def interruptBkops : SimM Errno := do
  let status ← sdio_hpi
  if status ≠ .eok then
    sdmmc_reset
    return status
  else return status

/-- Whether background operations are due. -/
def bkopsDue (status : BitVec 32) (ticks : ℕ) : Bool :=
  if status = BKOPS_STATUS_OPERATIONS_NON_CRITICAL then ticks ≥ BKOPS_NC_TICKS
  else if status = BKOPS_STATUS_OPERATIONS_IMPACTED then ticks ≥ BKOPS_IMPACTED_TICKS
  else status = BKOPS_STATUS_OPERATIONS_CRITICAL

/-- `sdmmc_bkops`: poll the status, at a tick of the timer. -/
def pollBkops : SimM Unit := do
  sdmmc_pm .active
  modify fun w => if w.ext.bkops_status ≠ 0 then
    w.setExt fun e => { e with bkops_ticks := (e.bkops_ticks + 1) % 2 ^ 32 } else w
  let csd ← sdio_send_ext_csd
  modify fun w => if csd.1 = .eok ∧
      w.ext.bkops_status ≠ BitVec.ofNat 32 (csd.2 ECSD_BKOPS_STATUS % 256) then
    w.setExt fun e => { e with
      bkops_ticks := 0, bkops_status := BitVec.ofNat 32 (csd.2 ECSD_BKOPS_STATUS % 256) } else w

/-- `sdmmc_bkops`: start background operations. -/
def startBkops : SimM Unit := do
  let status ← sdio_mmc_switch ECSD_BKOPS_START 1
  if status = .eok then
    modify fun w => w.setExt fun e => { e with
      bkops_status := e.bkops_status ||| BKOPS_STATUS_OPERATIONS_INPROG, bkops_ticks := 0 }
  else if status = .etimedout then
    let _ ← interruptBkops
    return ()
  else return ()

def sdmmc_bkops (tick : Bool) : SimM Unit := do
  let w ← get
  if !w.ext.eflags.bkops ∨ w.ext.drvr_state = .pause then return ()
  else if w.ext.bkops_status &&& BKOPS_STATUS_OPERATIONS_INPROG ≠ 0 then
    sdmmc_pm .active
    if tick then return ()
    else
      let _ ← interruptBkops
      modify fun w => w.setExt fun e => { e with bkops_status := BKOPS_STATUS_OPERATIONS_NONE }
  else
    (if tick then pollBkops else return ())
    let w ← get
    if bkopsDue w.ext.bkops_status w.ext.bkops_ticks then startBkops else return ()

/-! ### What upkeep leaves as it was -/

/-- The table of partitions but for the write protection, and the data of the device. -/
structure Kept (w w' : World) : Prop where
  dtype : w'.ext.dtype = w.ext.dtype
  dev_inf : w'.ext.dev_inf = w.ext.dev_inf
  ntargs : w'.ext.ntargs = w.ext.ntargs
  nluns : w'.ext.nluns = w.ext.nluns
  part : ∀ t l, ∃ b, w'.part t l = { w.part t l with wp := (w.part t l).wp || b }
  info : w'.info = w.info
  raw_ecsd : w'.raw_ecsd = w.raw_ecsd
  selection : (w'.pactive = w.pactive ∧ w'.access = w.access) ∨ (w'.pactive = 0 ∧ w'.access = 0)
  gone : w.gone → w'.gone
  present : w'.ext.eflags.present → w.ext.eflags.present
  log : ∃ us : List Bool, w'.log = us.map Event.marked ++ w.log

namespace Kept

variable {w w' w'' : World}

theorem refl (w : World) : Kept w w where
  dtype := rfl
  dev_inf := rfl
  ntargs := rfl
  nluns := rfl
  part _ _ := ⟨false, by simp⟩
  info := rfl
  raw_ecsd := rfl
  selection := .inl ⟨rfl, rfl⟩
  gone := id
  present := id
  log := ⟨[], rfl⟩

/-- What happens one after the other is upkeep if both are. -/
theorem trans (h : Kept w w') (h' : Kept w' w'') : Kept w w'' where
  dtype := h'.dtype.trans h.dtype
  dev_inf := h'.dev_inf.trans h.dev_inf
  ntargs := h'.ntargs.trans h.ntargs
  nluns := h'.nluns.trans h.nluns
  part t l := by
    obtain ⟨b, hb⟩ := h.part t l
    obtain ⟨b', hb'⟩ := h'.part t l
    exact ⟨b || b', by rw [hb', hb, Bool.or_assoc]⟩
  info := h'.info.trans h.info
  raw_ecsd := h'.raw_ecsd.trans h.raw_ecsd
  selection := by
    rcases h'.selection with ⟨hp, ha⟩ | h0
    · rw [hp, ha]
      exact h.selection
    · exact .inr h0
  gone hg := h'.gone (h.gone hg)
  present hp := h.present (h'.present hp)
  log := by
    obtain ⟨us, hus⟩ := h.log
    obtain ⟨us', hus'⟩ := h'.log
    exact ⟨us' ++ us, by rw [hus', hus, List.map_append, List.append_assoc]⟩

instance : Std.Refl Kept := ⟨refl⟩

instance : IsTrans World Kept := ⟨fun _ _ _ => trans⟩

/-- A partition stays where it is. -/
theorem config (h : Kept w w') (t l : ℕ) : (w'.part t l).config = (w.part t l).config := by
  obtain ⟨b, hb⟩ := h.part t l
  rw [hb]

/-- A mark is not taken back. -/
theorem wp (h : Kept w w') {t l : ℕ} (hw : (w.part t l).wp = true) : (w'.part t l).wp = true := by
  obtain ⟨b, hb⟩ := h.part t l
  rw [hb, hw]
  rfl

end Kept

/-- What of the state `Kept` is about, the flags apart. -/
def World.frame (w : World) : DevType × DevInfo × ℕ × (ℕ → ℕ) × (ℕ → ℕ → Partition) × DevInfo ×
    (ℕ → ℕ) × ℕ × ℕ × List Event :=
  (w.ext.dtype, w.ext.dev_inf, w.ext.ntargs, w.ext.nluns, w.ext.partitions, w.info, w.raw_ecsd,
    w.pactive, w.access, w.log)

/-- Only flags change, but none that says that the device is there. -/
theorem Kept.of_frame {w w' : World} (h : w'.frame = w.frame) (hg : w.gone → w'.gone)
    (hp : w'.ext.eflags.present → w.ext.eflags.present) : Kept w w' := by
  simp only [World.frame, Prod.mk.injEq] at h
  obtain ⟨h1, h2, h3, h4, h5, h6, h7, h8, h9, h10⟩ := h
  refine ⟨h1, h2, h3, h4, fun t l => ⟨false, ?_⟩, h6, h7, .inl ⟨h8, h9⟩, hg, hp, [], h10⟩
  rw [World.part, h5, Bool.or_false]
  rfl

theorem Kept.of_frame' {w w' : World} (h : w'.frame = w.frame) (hg : w'.gone = w.gone)
    (hp : w'.ext.eflags.present = w.ext.eflags.present) : Kept w w' :=
  .of_frame h (fun h => by rw [hg]; exact h) fun h => by rw [← hp]; exact h

theorem Kept.ite {w w₁ w₂ : World} {c : Prop} [Decidable c] (h₁ : c → Kept w w₁)
    (h₂ : ¬ c → Kept w w₂) : Kept w (if c then w₁ else w₂) := by
  split
  · exact h₁ ‹_›
  · exact h₂ ‹_›

/-- A reset of the card selects the user area again, in the driver as well. -/
theorem kept_resetCard (w : World) : Kept w w.resetCard :=
  { Kept.refl w with selection := .inr ⟨rfl, rfl⟩ }

/-- Marking partitions is noted, and changes nothing else in the table. -/
theorem kept_set_partition_attr (p : ℕ) (w : World) (u : Bool) :
    Kept w ((sdmmc_set_partition_attr p w).logged (.marked u)) :=
  { Kept.refl w with
    part := fun t l => by
      refine ⟨decide (t ≤ w.ext.ntargs ∧ l ≤ w.ext.nluns t ∧
        partOf (w.ext.partitions t l).config = p), ?_⟩
      change (if t ≤ w.ext.ntargs ∧ l ≤ w.ext.nluns t ∧
      partOf (w.ext.partitions t l).config = p then
        { w.ext.partitions t l with wp := true } else w.ext.partitions t l) = _
      split
      case isTrue h => simp [World.part, h]
      case isFalse h => simp [World.part, h]
    log := ⟨[u], rfl⟩ }

/-- Every call may find the device gone; what it does otherwise is in `f`. -/
theorem moves_callDevice {α : Type} {R : World → World → Prop} [Std.Refl R] [IsTrans World R]
    {failed : α} {f : DevAnswer → SimM α} (hg : ∀ (w : World) b, R w { w with gone := w.gone || b })
    (hf : ∀ a, Prog.Moves R (f a)) : Prog.Moves R (callDevice failed f) := by
  refine .bind .ask fun a => .bind (.modify fun w => hg w _) fun _ => .bind .get fun w => ?_
  exact .ite (.pure _) (hf a)

/-- The call is not made if the device is gone by then. -/
theorem triple_callDevice {α : Type} {A : DevAnswer → Prop} {P : World → Prop}
    {Q : α → World → Prop} {failed : α} {f : DevAnswer → SimM α}
    (hg : ∀ (w : World) b, P w → P { w with gone := w.gone || b })
    (hfail : ∀ w, P w → w.gone = true → Q failed w)
    (hf : ∀ a, A a → Prog.Triple A (fun w => P w ∧ w.gone = false) (f a) Q) :
    Prog.Triple A P (callDevice failed f) Q := by
  refine .bind (Q := fun a w => A a ∧ P w) (.ask fun a w ha hw => ⟨ha, hw⟩) fun a => ?_
  refine .bind (Q := fun _ w => A a ∧ P w) (.modify fun w h => ⟨h.1, hg w _ h.2⟩) fun _ => ?_
  intro r hr w n h
  rw [Prog.bind_apply]
  change Q ((if w.gone = true then pure failed else f a) r (w, n)).1 _
  cases hgone : w.gone with
  | true => exact hfail w h.2 hgone
  | false => exact hf a h.1 r hr w n ⟨h.2, hgone⟩

theorem kept_gone (w : World) (b : Bool) : Kept w { w with gone := w.gone || b } :=
  .of_frame rfl (fun h => by simp [h]) id

/-- A byte of the extended CSD other than the one that selects the partition. -/
theorem mmc_switch_kept {index : ℕ} (hi : index ≠ ECSD_PART_CONFIG) (value : ℕ) (a : DevAnswer) :
    Prog.Moves Kept (mmc_switch index value a) := by
  refine .bind (.modify fun w => .ite (fun _ => ?_) fun _ => .refl w) fun _ => .pure _
  rw [World.switched, if_neg hi]
  exact .refl w

theorem sdio_mmc_switch_kept {index : ℕ} (hi : index ≠ ECSD_PART_CONFIG) (value : ℕ) :
    Prog.Moves Kept (sdio_mmc_switch index value) :=
  moves_callDevice kept_gone fun a => mmc_switch_kept hi value a

/-- Switching the cache and flushing it leave the partitions as they are. -/
theorem sdio_cache_kept (op : CacheOp) : Prog.Moves Kept (sdio_cache op) := by
  refine .bind .get fun w => .ite (.pure _) ?_
  refine moves_callDevice kept_gone fun a => .bind .get fun w => ?_
  cases op with
  | disable =>
      exact .bind (.modify fun w => .ite (fun _ => .of_frame' rfl rfl rfl) fun _ => .refl w)
        fun _ => .pure _
  | enable =>
      exact .bind (.modify fun w => .ite (fun _ => .of_frame' rfl rfl rfl) fun _ => .refl w)
        fun _ => .pure _
  | flush =>
      exact .bind (.modify fun w => .ite (fun _ => .of_frame' rfl rfl rfl) fun _ => .refl w)
        fun _ => .pure _

theorem sdio_pwroff_notify_kept (op : ℕ) : Prog.Moves Kept (sdio_pwroff_notify op) :=
  .bind .get fun _ => .ite (.pure _) (sdio_mmc_switch_kept (by decide) op)

/-- `sdio_reset` leaves the card reset, or the device gone. -/
theorem sdio_reset_kept : Prog.Moves Kept sdio_reset :=
  moves_callDevice kept_gone fun _ => .bind (.modify kept_resetCard) fun _ => .pure _

theorem sdio_hpi_kept : Prog.Moves Kept sdio_hpi := moves_callDevice kept_gone fun _ => .pure _

theorem sdio_retune_kept : Prog.Moves Kept sdio_retune :=
  moves_callDevice kept_gone fun _ => .pure _

theorem sdio_call_kept : Prog.Moves Kept sdio_call := moves_callDevice kept_gone fun _ => .pure _

theorem sdio_send_status_kept (rsp : BitVec 32) : Prog.Moves Kept (sdio_send_status rsp) :=
  moves_callDevice kept_gone fun _ => .pure _

theorem sdio_send_ext_csd_kept : Prog.Moves Kept sdio_send_ext_csd :=
  moves_callDevice kept_gone fun _ => .pure _

/-- Waking a card and putting it to sleep may reset it, and note the power state. -/
theorem sdio_pwrmgnt_kept (pm : Pm) : Prog.Moves Kept (sdio_pwrmgnt pm) := by
  refine moves_callDevice kept_gone fun a => .bind .get fun w => .ite (.pure _) ?_
  cases pm with
  | idle =>
      exact .bind (.modify fun w => .ite (fun _ => .of_frame' rfl rfl rfl) fun _ => .refl w)
        fun _ => .pure _
  | active =>
      refine .bind (.modify fun w => ?_) fun _ => .pure _
      split
      · exact (kept_resetCard w).trans (.of_frame' rfl rfl rfl)
      · exact .of_frame' rfl rfl rfl
  | sleep =>
      refine .ite ?_ ?_
      · exact .bind (.modify fun w => (kept_resetCard w).trans (.of_frame' rfl rfl rfl))
          fun _ => .pure _
      · exact .bind (.modify fun w => .of_frame' rfl rfl rfl) fun _ => .pure _
  | suspend =>
      exact .bind (.modify fun w => .of_frame' rfl rfl rfl) fun _ => .pure _

/-- `ENODEV` alone has an effect: the device is no longer present. -/
theorem sdmmc_error_kept (status : Errno) : Prog.Moves Kept (sdmmc_error status) := by
  cases status
  case enodev =>
    exact .bind (.modify fun w => .of_frame rfl id fun h => by cases h) fun _ => .pure _
  all_goals exact .pure _

theorem sdmmc_unit_ready_kept (t l : ℕ) : Prog.Moves Kept (sdmmc_unit_ready t l) := by
  refine .bind .get fun w => .bind (.ite (sdmmc_error_kept _) (.pure _)) fun _ => ?_
  exact .ite (sdmmc_error_kept _) (.pure _)

/-- The driver notes the power state for itself. -/
theorem sdmmc_pm_kept (op : Pm) : Prog.Moves Kept (sdmmc_pm op) := by
  refine .bind .get fun w => .ite (.pure _) (.bind (sdio_pwrmgnt_kept op) fun status => ?_)
  exact .modify fun w => .of_frame' rfl rfl rfl

/-- A flush clears the dirty flag if it succeeds. -/
theorem sdmmc_cache_flush_kept : Prog.Moves Kept sdmmc_cache_flush := by
  refine .bind .get fun w => .ite (.bind (sdio_cache_kept _) fun status => ?_) (.pure _)
  exact .bind (.modify fun w => .ite (fun _ => .of_frame' rfl rfl rfl) fun _ => .refl w)
    fun _ => .pure _

theorem sdmmc_bkops_cfg_kept (op : Bool) : Prog.Moves Kept (sdmmc_bkops_cfg op) :=
  .bind .get fun _ => .ite (.pure _) (sdio_mmc_switch_kept (by decide) _)

theorem cfgCache_kept : Prog.Moves Kept cfgCache := by
  refine .bind .get fun w => .ite (.bind (sdio_cache_kept _) fun status => ?_) (.pure _)
  exact .modify fun w => .ite (fun _ => .of_frame' rfl rfl rfl) fun _ => .refl w

/-- Only flags of the device are set and cleared. -/
theorem cfgMmc_kept : Prog.Moves Kept cfgMmc := by
  refine .bind .get fun w => .ite ?_ (.pure _)
  refine .bind (.modify fun w => .ite (fun _ => .of_frame' rfl rfl rfl) fun _ => .refl w)
    fun _ => ?_
  refine .bind (sdmmc_bkops_cfg_kept true) fun status => ?_
  refine .bind (.modify fun w => .ite (fun _ => .of_frame' rfl rfl rfl) fun _ => .refl w)
    fun _ => ?_
  exact .modify fun w => .ite (fun _ => .of_frame' rfl rfl rfl) fun _ => .refl w

theorem cfgPwroff_kept : Prog.Moves Kept cfgPwroff := by
  refine .bind .get fun w => .ite (.bind (sdio_pwroff_notify_kept _) fun status => ?_) (.pure _)
  exact .modify fun w => .ite (fun _ => .of_frame' rfl rfl rfl) fun _ => .refl w

/-- Nor does the configuration as a whole change more. -/
theorem sdmmc_dev_cfg_kept : Prog.Moves Kept sdmmc_dev_cfg :=
  .bind cfgCache_kept fun _ => .bind cfgMmc_kept fun _ => cfgPwroff_kept

theorem sdmmc_dev_dcfg_kept : Prog.Moves Kept sdmmc_dev_dcfg := by
  refine .bind .get fun w => .bind (.ite (sdio_cache_kept _) (.pure _)) fun status => ?_
  refine .bind (.ite (sdmmc_bkops_cfg_kept _) (.pure _)) fun status => ?_
  exact .ite (sdio_pwroff_notify_kept _) (.pure _)

/-- A cache that is lost with data in it marks the user partition. -/
theorem kept_cacheLost (w : World) : Kept w (cacheLost w) := by
  refine .ite (fun _ => ?_) fun _ => .refl w
  have hm : Kept w (if w.ext.eflags.vcache_dirty = true then
      (sdmmc_set_partition_attr MMC_PART_USER w).logged (.marked w.unflushed) else w) :=
    .ite (fun _ => kept_set_partition_attr MMC_PART_USER w w.unflushed) fun _ => .refl w
  exact hm.trans (.of_frame' rfl rfl rfl)

/-- **A reset of the driver** leaves the table of partitions, but for the marks. -/
theorem sdmmc_reset_kept : Prog.Moves Kept sdmmc_reset :=
  .bind sdio_reset_kept fun _ => .bind (.modify kept_cacheLost) fun _ => sdmmc_dev_cfg_kept

theorem interruptBkops_kept : Prog.Moves Kept interruptBkops :=
  .bind sdio_hpi_kept fun _ => .ite (.bind sdmmc_reset_kept fun _ => .pure _) (.pure _)

theorem pollBkops_kept : Prog.Moves Kept pollBkops := by
  refine .bind (sdmmc_pm_kept _) fun _ => ?_
  refine .bind (.modify fun w => .ite (fun _ => .of_frame' rfl rfl rfl) fun _ => .refl w)
    fun _ => ?_
  refine .bind sdio_send_ext_csd_kept fun csd => ?_
  exact .modify fun w => .ite (fun _ => .of_frame' rfl rfl rfl) fun _ => .refl w

theorem startBkops_kept : Prog.Moves Kept startBkops := by
  refine .bind (sdio_mmc_switch_kept (by decide) _) fun status => .ite ?_ (.ite ?_ (.pure _))
  · exact .modify fun w => .of_frame' rfl rfl rfl
  · exact .bind interruptBkops_kept fun _ => .pure _

/-- **Background operations** do, with the resets that they lead to. -/
theorem sdmmc_bkops_kept (tick : Bool) : Prog.Moves Kept (sdmmc_bkops tick) := by
  refine .bind .get fun w => .ite (.pure _) (.ite ?_ ?_)
  · refine .bind (sdmmc_pm_kept _) fun _ => .ite (.pure _) ?_
    exact .bind interruptBkops_kept fun _ => .modify fun w => .of_frame' rfl rfl rfl
  · refine .bind (.ite pollBkops_kept (.pure _)) fun _ => .bind .get fun w => ?_
    exact .ite startBkops_kept (.pure _)

/-! ### Readiness -/

/-- A unit that is ready is left as it is. -/
theorem unit_ready_of_ready {w : World} {t l : ℕ} (h : w.ready t l = true) (r : ℕ → DevAnswer)
    (n : ℕ) : sdmmc_unit_ready t l r (w, n) = (.req_cmp, w, n) := by
  simp only [World.ready, ne_eq, decide_not, Bool.and_eq_true, Bool.not_eq_eq_eq_not, Bool.not_true,
    decide_eq_false_iff_not] at h
  simp [sdmmc_unit_ready, h.1, h.2]

/-- A unit that is not ready gives an error. -/
theorem unit_ready_of_not_ready {w : World} {t l : ℕ} (h : w.ready t l = false) (r : ℕ → DevAnswer)
    (n : ℕ) : (sdmmc_unit_ready t l r (w, n)).1 ≠ .req_cmp := by
  simp only [sdmmc_unit_ready, Prog.bind_apply, Prog.get_apply, Prog.ite_apply']
  by_cases hn : (w.part t l).nlba = 0
  · rw [if_pos hn]
    exact nofun
  · have hp : w.ext.eflags.present = false := by simpa [World.ready, hn] using h
    simp [hn, hp, sdmmc_error]

/-- A function that ends unless the unit is ready. -/
theorem ite_not_ready {α : Type} {w : World} {t l : ℕ} (h : w.ready t l = false)
    (r : ℕ → DevAnswer) (n : ℕ) (m m' : CamStatus → SimM α) :
    (sdmmc_unit_ready t l >>= fun s => if s ≠ .req_cmp then m s else m' s) r (w, n) =
      m (sdmmc_unit_ready t l r (w, n)).1 r (sdmmc_unit_ready t l r (w, n)).2 := by
  rw [Prog.bind_apply, if_pos (unit_ready_of_not_ready h r n)]

theorem ite_ready {α : Type} {w : World} {t l : ℕ} (h : w.ready t l = true)
    (r : ℕ → DevAnswer) (n : ℕ) (m m' : CamStatus → SimM α) :
    (sdmmc_unit_ready t l >>= fun s => if s ≠ .req_cmp then m s else m' s) r (w, n) =
      m' .req_cmp r (w, n) := by
  rw [Prog.bind_of_eq (unit_ready_of_ready h r n), if_neg (by simp)]

end Sdmmc
