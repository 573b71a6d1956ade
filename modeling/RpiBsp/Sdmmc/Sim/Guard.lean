import RpiBsp.Sdmmc.Sim.Selection

/-!
# Sdmmc — Sim — guard

Data in the volatile cache of a card is lost when the card is reset or powered down.  The driver
keeps two flags, that the cache is on and that it is dirty, and marks the user partition read only
when it resets a card with a dirty cache.

* `Guarded` — the flags are right: what is unflushed is dirty, and the other way round, and lost
  data is lost with the partition marked.
* `Aside` — what has nothing to do with the cache; erases, write protection and most calls of the
  layer below are within it.
-/

namespace Sdmmc

open Support

/-! ### The invariant -/

/-- A write after data was lost goes to a marked card, and a card is marked for a reason. -/
def Event.safe : Event → Bool
  | .data out _ _ _ lost wp => !out || !lost || wp
  | .marked unflushed => unflushed
  | _ => true

/-- The cache is on, as far as the driver knows. -/
def World.enabled (w : World) : Bool := w.ext.dev_inf.caps.cache && w.ext.eflags.cache

def World.dirty (w : World) : Bool := w.ext.eflags.vcache_dirty

/-- The controller has put the card to sleep or switched it off. -/
def World.asleep (w : World) : Prop := w.hc_pm = .sleep ∨ w.hc_pm = .suspend

/-- What is unflushed may be lost. -/
def Spared (w : World) : Prop := w.unflushed = true → w.userWp = true

structure Guarded (w : World) : Prop where
  lost : w.lost = true → w.userWp = true
  covered : w.unflushed = true → w.dirty = true ∧ (w.enabled = true ∨ w.userWp = true)
  dirty : w.dirty = true → w.unflushed = true
  user : partOf (w.part 0 0).config = MMC_PART_USER
  caps : w.ext.dev_inf.caps.cache = w.info.caps.cache
  asleep : w.asleep → w.gone = true ∨ (w.has_pm = true ∧ Spared w ∧ w.ext.pm_state ≠ .active)
  suspended : w.ext.pm_state = .suspend → Spared w
  absent : w.attached = false → w.dirty = false
  log : ∀ e ∈ w.log, e.safe = true

/-- A card that is active or idle is not asleep. -/
theorem not_asleep {w : World} (h : w.hc_pm = .active ∨ w.hc_pm = .idle) : ¬ w.asleep := by
  rintro (hs | hs) <;> rcases h with h | h <;> rw [h] at hs <;> cases hs

/-- Where everything is flushed there is nothing to lose. -/
theorem spared_of_flushed {w : World} (h : w.unflushed = false) : Spared w := by
  intro hu
  rw [h] at hu
  cases hu

/-- Nothing is pending. -/
def Quiet (w : World) : Prop := Guarded w ∧ w.pending = false

/-- A reset does no harm. -/
def Safe (w : World) : Prop := Guarded w ∧ Spared w

/-- The cache is clean. -/
def Clean (w : World) : Prop := Guarded w ∧ w.dirty = false

/-- What is unflushed is dirty, so a clean cache holds nothing that is not on the card. -/
theorem Clean.flushed {w : World} (h : Clean w) : w.unflushed = false := by
  cases hu : w.unflushed with
  | false => rfl
  | true =>
      have hd := (h.1.covered hu).1
      rw [h.2] at hd
      cases hd

/-- A clean cache has nothing to flush. -/
theorem Clean.quiet {w : World} (h : Clean w) : Quiet w := by
  refine ⟨h.1, ?_⟩
  have hd : w.ext.eflags.vcache_dirty = false := h.2
  rw [World.pending, hd, Bool.and_false]

/-- With the cache on, nothing to flush means clean. -/
theorem Quiet.clean {w : World} (h : Quiet w) (he : w.enabled = true) : Clean w := by
  refine ⟨h.1, ?_⟩
  have hp : (w.enabled && w.dirty) = false := h.2
  rwa [he, Bool.true_and] at hp

/-- With nothing to flush a reset loses nothing: the cache is clean, or the partition is marked. -/
theorem Quiet.safe {w : World} (h : Quiet w) : Safe w := by
  refine ⟨h.1, fun hu => ?_⟩
  obtain ⟨hd, he | hwp⟩ := h.1.covered hu
  · rw [(h.clean he).2] at hd
    cases hd
  · exact hwp

/-! ### What has nothing to do with the cache -/

/-- What the invariant is about, but for the capabilities, the removal and the log. -/
def World.guards (w : World) :
    Bool × Bool × Bool × ℕ × Bool × Bool × DevInfo × Pm × Bool × Pm × Bool :=
  (w.lost, w.unflushed, (w.part 0 0).wp, (w.part 0 0).config, w.ext.eflags.cache,
    w.ext.eflags.vcache_dirty, w.info, w.hc_pm, w.has_pm, w.ext.pm_state, w.attached)

/-- What a partition is, but for the counts. -/
def Partition.shape (p : Partition) : Bool × Bool × ℕ × ℕ × ℕ × ℕ :=
  (p.wp, p.enh, p.config, p.slba, p.nlba, p.elba)

/-- The targets and their partitions. -/
def World.layout (w : World) : ℕ × (ℕ → ℕ) × Bool × (ℕ → ℕ → Bool × Bool × ℕ × ℕ × ℕ × ℕ) :=
  (w.ext.ntargs, w.ext.nluns, w.ext.eflags.partitions, fun t l => (w.part t l).shape)

structure Aside (w w' : World) : Prop where
  guards : w'.guards = w.guards
  layout : w'.layout = w.layout
  caps : w.ext.dev_inf.caps.cache = w.info.caps.cache →
    w'.ext.dev_inf.caps.cache = w.ext.dev_inf.caps.cache
  gone : w.gone = true → w'.gone = true
  log : ∀ e ∈ w'.log, e ∈ w.log ∨ ((w.lost = true → w.userWp = true) → e.safe = true)

namespace Aside

variable {w w' w'' : World}

theorem refl (w : World) : Aside w w := ⟨rfl, rfl, fun _ => rfl, id, fun _ => .inl⟩

theorem lost (h : Aside w w') : w'.lost = w.lost := congrArg (fun g => g.1) h.guards
theorem unflushed (h : Aside w w') : w'.unflushed = w.unflushed :=
  congrArg (fun g => g.2.1) h.guards
theorem wp (h : Aside w w') : w'.userWp = w.userWp := congrArg (fun g => g.2.2.1) h.guards
theorem config (h : Aside w w') : (w'.part 0 0).config = (w.part 0 0).config :=
  congrArg (fun g => g.2.2.2.1) h.guards
theorem cache (h : Aside w w') : w'.ext.eflags.cache = w.ext.eflags.cache :=
  congrArg (fun g => g.2.2.2.2.1) h.guards
theorem dirty (h : Aside w w') : w'.dirty = w.dirty := congrArg (fun g => g.2.2.2.2.2.1) h.guards
theorem info (h : Aside w w') : w'.info = w.info := congrArg (fun g => g.2.2.2.2.2.2.1) h.guards
theorem hc_pm (h : Aside w w') : w'.hc_pm = w.hc_pm :=
  congrArg (fun g => g.2.2.2.2.2.2.2.1) h.guards
theorem has_pm (h : Aside w w') : w'.has_pm = w.has_pm :=
  congrArg (fun g => g.2.2.2.2.2.2.2.2.1) h.guards
theorem pm_state (h : Aside w w') : w'.ext.pm_state = w.ext.pm_state :=
  congrArg (fun g => g.2.2.2.2.2.2.2.2.2.1) h.guards
theorem attached (h : Aside w w') : w'.attached = w.attached :=
  congrArg (fun g => g.2.2.2.2.2.2.2.2.2.2) h.guards

/-- What comes after one another is aside if both parts are; a log of safe events stays one. -/
theorem trans (h : Aside w w') (h' : Aside w' w'') : Aside w w'' where
  guards := h'.guards.trans h.guards
  layout := h'.layout.trans h.layout
  caps hc := (h'.caps (by rw [h.caps hc, hc, h.info])).trans (h.caps hc)
  gone hg := h'.gone (h.gone hg)
  log e he := by
    rcases h'.log e he with he | hs
    · exact h.log e he
    · refine .inr fun hl => hs ?_
      rw [h.lost, h.wp]
      exact hl

instance : Std.Refl Aside := ⟨refl⟩

instance : IsTrans World Aside := ⟨fun _ _ _ => trans⟩

theorem spared (h : Aside w w') (hs : Spared w) : Spared w' := by
  rw [Spared, h.unflushed, h.wp]
  exact hs

/-- **The invariant is kept** by everything that is aside. -/
theorem guarded (h : Aside w w') (hw : Guarded w) : Guarded w' where
  lost := by
    rw [h.lost, h.wp]
    exact hw.lost
  covered := by
    rw [h.unflushed, h.dirty, h.wp, World.enabled, h.cache, h.caps hw.caps]
    exact hw.covered
  dirty := by
    rw [h.unflushed, h.dirty]
    exact hw.dirty
  user := by
    rw [h.config]
    exact hw.user
  caps := by
    rw [h.caps hw.caps, h.info]
    exact hw.caps
  asleep := by
    rw [World.asleep, h.hc_pm, h.has_pm, h.pm_state]
    intro ha
    rcases hw.asleep ha with hg | ⟨hpm, hs, hact⟩
    · exact .inl (h.gone hg)
    · exact .inr ⟨hpm, h.spared hs, hact⟩
  suspended := by
    rw [h.pm_state]
    exact fun hp => h.spared (hw.suspended hp)
  absent := by
    rw [h.attached, h.dirty]
    exact hw.absent
  log e he := by
    rcases h.log e he with he | hs
    · exact hw.log e he
    · exact hs hw.lost

/-- A reset does no harm after it either. -/
theorem safe (h : Aside w w') (hw : Safe w) : Safe w' := ⟨h.guarded hw.1, h.spared hw.2⟩

theorem clean (h : Aside w w') (hw : Clean w) : Clean w' := ⟨h.guarded hw.1, h.dirty.trans hw.2⟩

/-- Nothing is pending after it either. -/
theorem quiet (h : Aside w w') (hw : Quiet w) : Quiet w' := by
  refine ⟨h.guarded hw.1, ?_⟩
  have hp : w'.pending = w.pending := by
    change (w'.enabled && w'.dirty) = (w.enabled && w.dirty)
    rw [World.enabled, h.caps hw.1.caps, h.cache, h.dirty]
    rfl
  rw [hp]
  exact hw.2

/-- What does not touch the device data either. -/
theorem of_guards (hg : w'.guards = w.guards) (hl : w'.layout = w.layout)
    (hd : w'.ext.dev_inf = w.ext.dev_inf) (hgone : w'.gone = w.gone) (hlog : w'.log = w.log) :
    Aside w w' :=
  ⟨hg, hl, fun _ => by rw [hd], fun h => by rw [hgone]; exact h, fun e he => .inl (hlog ▸ he)⟩

/-- An event that is safe may be noted. -/
theorem logged (w : World) {e : Event} (he : (w.lost = true → w.userWp = true) → e.safe = true) :
    Aside w (w.logged e) := by
  refine ⟨rfl, rfl, fun _ => rfl, id, fun e' he' => ?_⟩
  rcases List.mem_cons.mp he' with rfl | he'
  · exact .inr he
  · exact .inl he'

theorem ite {w₁ w₂ : World} {c : Prop} [Decidable c] (h₁ : Aside w w₁) (h₂ : Aside w w₂) :
    Aside w (if c then w₁ else w₂) := by
  split
  · exact h₁
  · exact h₂

/-- A partition may change in its counts. -/
theorem setPart (w : World) (t l : ℕ) {f : Partition → Partition}
    (hf : ∀ p, (f p).shape = p.shape) :
    Aside w (w.setPart t l f) := by
  have hp : ∀ t' l', ((w.setPart t l f).part t' l').shape = (w.part t' l').shape := by
    intro t' l'
    change (if t' = t ∧ l' = l then f (w.part t' l') else w.part t' l').shape = _
    split
    · exact hf _
    · rfl
  have hwp : ((w.setPart t l f).part 0 0).wp = (w.part 0 0).wp := congrArg (fun s => s.1) (hp 0 0)
  have hconfig : ((w.setPart t l f).part 0 0).config = (w.part 0 0).config :=
    congrArg (fun s => s.2.2.1) (hp 0 0)
  refine ⟨?_, ?_, fun _ => rfl, id, fun _ => .inl⟩
  · rw [World.guards, hwp, hconfig]
    rfl
  · simp only [World.layout, hp]
    rfl

end Aside

theorem aside_gone (w : World) (b : Bool) : Aside w { w with gone := w.gone || b } :=
  ⟨rfl, rfl, fun _ => rfl, fun h => by simp [h], fun _ => .inl⟩

theorem aside_switched (index value : ℕ) (w : World) : Aside w (w.switched index value) :=
  .ite (.of_guards rfl rfl rfl rfl rfl) (.refl w)

theorem sdio_call_aside : Prog.Moves Aside sdio_call := moves_callDevice aside_gone fun _ => .pure _

theorem sdio_send_status_aside (rsp : BitVec 32) : Prog.Moves Aside (sdio_send_status rsp) :=
  moves_callDevice aside_gone fun _ => .pure _

theorem sdio_hpi_aside : Prog.Moves Aside sdio_hpi := moves_callDevice aside_gone fun _ => .pure _

theorem sdio_retune_aside : Prog.Moves Aside sdio_retune :=
  moves_callDevice aside_gone fun _ => .pure _

theorem sdio_send_ext_csd_aside : Prog.Moves Aside sdio_send_ext_csd :=
  moves_callDevice aside_gone fun _ => .pure _

theorem mmc_switch_aside (index value : ℕ) (a : DevAnswer) :
    Prog.Moves Aside (mmc_switch index value a) :=
  .bind (.modify fun w => .ite (aside_switched index value w) (.refl w)) fun _ => .pure _

theorem sdio_mmc_switch_aside (index value : ℕ) : Prog.Moves Aside (sdio_mmc_switch index value) :=
  moves_callDevice aside_gone fun a => mmc_switch_aside index value a

theorem sdio_pwroff_notify_aside (op : ℕ) : Prog.Moves Aside (sdio_pwroff_notify op) :=
  .bind .get fun _ => .ite (.pure _) (sdio_mmc_switch_aside _ op)

theorem sdmmc_bkops_cfg_aside (op : Bool) : Prog.Moves Aside (sdmmc_bkops_cfg op) :=
  .bind .get fun _ => .ite (.pure _) (sdio_mmc_switch_aside _ _)

theorem cfgMmc_aside : Prog.Moves Aside cfgMmc := by
  refine .bind .get fun w => .ite ?_ (.pure _)
  refine .bind (.modify fun w => .ite (.of_guards rfl rfl rfl rfl rfl) (.refl w)) fun _ => ?_
  refine .bind (sdmmc_bkops_cfg_aside true) fun status => ?_
  refine .bind (.modify fun w => .ite (.of_guards rfl rfl rfl rfl rfl) (.refl w)) fun _ => ?_
  exact .modify fun w => .ite (.of_guards rfl rfl rfl rfl rfl) (.refl w)

theorem cfgPwroff_aside : Prog.Moves Aside cfgPwroff := by
  refine .bind .get fun w => .ite (.bind (sdio_pwroff_notify_aside _) fun status => ?_) (.pure _)
  exact .modify fun w => .ite (.of_guards rfl rfl rfl rfl rfl) (.refl w)

/-- An error may say that the device is no longer present, and nothing else. -/
theorem sdmmc_error_aside (status : Errno) : Prog.Moves Aside (sdmmc_error status) := by
  cases status
  case enodev => exact .bind (.modify fun w => .of_guards rfl rfl rfl rfl rfl) fun _ => .pure _
  all_goals exact .pure _

theorem sdmmc_unit_ready_aside (t l : ℕ) : Prog.Moves Aside (sdmmc_unit_ready t l) := by
  refine .bind .get fun w => .bind (.ite (sdmmc_error_aside _) (.pure _)) fun _ => ?_
  exact .ite (sdmmc_error_aside _) (.pure _)

/-- Data that is sent is noted with the mark it went out under. -/
theorem sendData_aside (out : Bool) (config lba : ℕ) :
    Prog.Moves Aside (sendData out config lba) := by
  refine moves_callDevice aside_gone fun a => .bind (.modify fun w => .logged w fun hl => ?_)
    fun _ => .pure _
  cases hlost : w.lost with
  | false => simp [Event.safe]
  | true => simp [Event.safe, hl hlost]

theorem afterFailed_aside (status : Errno) (rsp : BitVec 32) :
    Prog.Moves Aside (afterFailed status rsp) :=
  .bind (sdio_send_status_aside rsp) fun _ =>
    .ite (.bind sdio_call_aside fun _ => .pure _) (.pure _)

theorem afterSent_aside (t l blks : ℕ) (out stop : Bool) (rsp : BitVec 32) :
    Prog.Moves Aside (afterSent t l blks out stop rsp) := by
  refine .bind (.ite (.bind sdio_call_aside fun _ => .pure _) (.pure _)) fun s => ?_
  refine .bind (.ite (.bind (sdio_send_status_aside rsp) fun ready => ?_) (.pure _)) fun s => ?_
  · exact .bind (.ite (.bind sdio_call_aside fun _ => .pure _) (.pure _)) fun _ => .pure _
  · refine .bind (.modify fun w => .ite (.setPart w t l fun p => ?_) (.refl w)) fun _ => .pure _
    split <;> rfl

/-- Selecting a partition is aside: what counts is the configuration of the user partition, not
which one is selected. -/
theorem mmc_set_partition_aside (config : ℕ) (a : DevAnswer) :
    Prog.Moves Aside (mmc_set_partition config a) := by
  refine .bind .get fun w => .ite (.pure _) (.bind (mmc_switch_aside _ config a) fun s => ?_)
  exact .ite (.bind (.modify fun w => .of_guards rfl rfl rfl rfl rfl) fun _ => .pure _) (.pure _)

theorem sdio_set_partition_aside (config : ℕ) : Prog.Moves Aside (sdio_set_partition config) :=
  moves_callDevice aside_gone fun a => .bind .get fun _ =>
    .ite (mmc_set_partition_aside config a) (.pure _)

/-! ### Erases and write protection -/

theorem eraseRange_aside (config type lba nlba : ℕ) :
    Prog.Moves Aside (eraseRange config type lba nlba) := by
  refine .bind .ask fun a => .ite (.pure _) (.ite (.pure _) ?_)
  refine .bind .ask fun start => .ite (.pure _) ?_
  refine .bind .ask fun stop => .ite (.pure _) ?_
  exact .bind (.modify fun w => .logged w fun _ => rfl) fun _ => .bind .ask fun _ => .pure _

/-- **An erase** does not go through the cache, whatever of it is refused. -/
theorem sdio_erase_aside (config type lba nlba : ℕ) :
    Prog.Moves Aside (sdio_erase config type lba nlba) := by
  refine .bind (.modify fun w => .logged w fun _ => rfl) fun _ => ?_
  refine moves_callDevice aside_gone fun a => .bind .get fun w => .ite ?_ (eraseRange_aside _ _ _ _)
  exact .bind (mmc_set_partition_aside config a) fun _ => .ite (.pure _) (eraseRange_aside _ _ _ _)

/-- Only the counts change. -/
def Counts (f : ℕ → Partition → Partition) : Prop := ∀ n p, (f n p).shape = p.shape

theorem counts_addTc : Counts Partition.addTc := fun _ _ => rfl

theorem counts_addEc : Counts Partition.addEc := fun _ _ => rfl

theorem counts_addDc : Counts Partition.addDc := fun _ _ => rfl

theorem counted_aside (t l nlba : ℕ) {f : ℕ → Partition → Partition} (hf : Counts f)
    (status : Errno) :
    Prog.Moves Aside (counted t l nlba f status) :=
  .modify fun w => .ite (.setPart w t l (hf nlba)) (.refl w)

theorem eraseCounted_aside (t l config type lba nlba : ℕ) {f : ℕ → Partition → Partition}
    (hf : Counts f) : Prog.Moves Aside (eraseCounted t l config type lba nlba f) :=
  .bind (sdio_erase_aside _ _ _ _) fun _ => .bind (counted_aside t l nlba hf _) fun _ => .pure _

theorem groupAligned_aside (egs lba nlba : ℕ) : Prog.Moves Aside (groupAligned egs lba nlba) :=
  .bind (.modify fun w => .ite (.logged w fun _ => rfl) (.refl w)) fun _ => .pure _

theorem sdmmc_write_same_aside (t l : ℕ) (unmap : Bool) (lba : BitVec 64) (nlba : BitVec 32) :
    Prog.Moves Aside (sdmmc_write_same t l unmap lba nlba) := by
  refine .bind (sdmmc_unit_ready_aside t l) fun status => .ite (.pure _) ?_
  refine .bind .get fun w => .ite (sdmmc_error_aside _) ?_
  refine .bind (sdio_erase_aside _ _ _ _) fun status =>
    .bind (counted_aside _ _ _ counts_addTc _) fun _ => ?_
  exact .ite (sdmmc_error_aside _) (.pure _)

theorem sdmmc_erase12_aside (t l : ℕ) (lba nlba : BitVec 32) :
    Prog.Moves Aside (sdmmc_erase12 t l lba nlba) := by
  refine .bind .get fun w => .bind (sdmmc_unit_ready_aside t l) fun status => ?_
  refine .ite (.pure _)
    (.ite (sdmmc_error_aside _) (.bind (groupAligned_aside _ _ _) fun aligned => ?_))
  refine .ite (sdmmc_error_aside _) (.bind (sdio_erase_aside _ _ _ _) fun status => ?_)
  exact .bind (counted_aside _ _ _ counts_addEc _) fun _ => .ite (sdmmc_error_aside _) (.pure _)

/-- Every action of the devctl, with its own counter. -/
theorem eraseAction_aside (t l config egs : ℕ) (caps : DevCaps) (action : EraseAction)
    (slba nlba : ℕ) : Prog.Moves Aside (eraseAction t l config egs caps action slba nlba) := by
  cases action with
  | normal =>
      exact .bind (groupAligned_aside _ _ _) fun _ =>
        .ite (eraseCounted_aside _ _ _ _ _ _ counts_addEc) (.pure _)
  | secure =>
      exact .ite (.bind (groupAligned_aside _ _ _) fun _ =>
        .ite (eraseCounted_aside _ _ _ _ _ _ counts_addEc) (.pure _)) (.pure _)
  | trim => exact .ite (eraseCounted_aside _ _ _ _ _ _ counts_addTc) (.pure _)
  | secure_trim => exact .ite (eraseCounted_aside _ _ _ _ _ _ counts_addTc) (.pure _)
  | secure_purge => exact .ite (sdio_erase_aside _ _ _ _) (.pure _)
  | discard => exact .ite (eraseCounted_aside _ _ _ _ _ _ counts_addDc) (.pure _)
  | other => exact .pure _

theorem sdmmc_erase_devctl_aside (t l : ℕ) (action : EraseAction) (lba nlba : BitVec 64) :
    Prog.Moves Aside (sdmmc_erase_devctl t l action lba nlba) := by
  refine .bind .get fun w => .bind (sdmmc_unit_ready_aside t l) fun status => ?_
  exact .ite (.pure _) (.ite (.pure _) (eraseAction_aside _ _ _ _ _ _ _ _))

/-- One range after the other, up to the one that fails. -/
theorem sdmmc_dsm_aside (t l dtype : ℕ) (ranges : List DsmRange) :
    Prog.Moves Aside (sdmmc_dsm t l dtype ranges) := by
  induction ranges with
  | nil => exact .pure _
  | cons range ranges ih =>
      refine .bind .get fun w =>
        .ite (.pure _) (.bind (eraseCounted_aside _ _ _ _ _ _ ?_) fun _ => ?_)
      · split
        · exact counts_addTc
        · exact counts_addDc
      · exact .ite (.pure _) ih

theorem sdmmc_dsm_devctl_aside (t l : ℕ) (opt : DsmOpt) (fits : Bool) (ranges : List DsmRange) :
    Prog.Moves Aside (sdmmc_dsm_devctl t l opt fits ranges) := by
  refine .bind (sdmmc_unit_ready_aside t l) fun status => .bind .get fun w => ?_
  refine .ite (.pure _) (.ite (.pure _) ?_)
  cases opt with
  | trim => exact .ite (sdmmc_dsm_aside _ _ _ ranges) (.pure _)
  | discard => exact .ite (sdmmc_dsm_aside _ _ _ ranges) (.pure _)
  | other => exact .pure _

theorem sendProtect_aside (config op : ℕ) : Prog.Moves Aside (sendProtect config op) :=
  moves_callDevice aside_gone fun _ =>
    .bind (.modify fun w => .logged w fun _ => rfl) fun _ => .pure _

/-- One write protect group after the other. -/
theorem protectGroups_aside (config op grp fuel : ℕ) :
    ∀ nlba, Prog.Moves Aside (protectGroups config op grp fuel nlba) := by
  induction fuel with
  | zero => exact fun _ => .pure _
  | succ fuel ih =>
      intro nlba
      exact .ite (.pure _) (.bind (sendProtect_aside config op) fun _ => .ite (.pure _) (ih _))

theorem protectMode_aside (partition mode : ℕ) : Prog.Moves Aside (protectMode partition mode) :=
  .bind .get fun _ => .ite (sdio_mmc_switch_aside _ _) (.ite (sdio_mmc_switch_aside _ _) (.pure _))

/-- **Write protection** goes past the cache too. -/
theorem sdmmc_write_protect_aside (op partition mode lba nlba : ℕ) :
    Prog.Moves Aside (sdmmc_write_protect op partition mode lba nlba) := by
  refine .bind .get fun w => .ite (.pure _) (.ite (.pure _) ?_)
  refine .bind (sdio_set_partition_aside partition) fun status => .ite (.pure _) ?_
  refine .bind (.ite (protectMode_aside _ _) (.pure _)) fun status => .ite (.pure _) ?_
  refine .bind .ask fun a => .ite (.pure _) (.ite ?_ ?_)
  · exact protectGroups_aside _ _ _ _ _
  · exact sendProtect_aside _ _

theorem sdmmc_wp_devctl_aside (t l : ℕ) (action : WpAction) (mode : ℕ) (lba nlba : BitVec 64) :
    Prog.Moves Aside (sdmmc_wp_devctl t l action mode lba nlba) := by
  refine .bind .get fun w => .bind (sdmmc_unit_ready_aside t l) fun status => ?_
  exact .ite (.pure _) (.ite (.pure _) (.ite (.pure _) (sdmmc_write_protect_aside _ _ _ _ _)))

/-! ### What else the requests do -/

section Composed

/- A property that is kept by whatever is aside, by the driver's reset and by waking the device. -/
variable {A : DevAnswer → Prop} {I : World → Prop} (ha : ∀ w w', Aside w w' → I w → I w')
  (hreset : Prog.Keeps A I sdmmc_reset)

include ha hreset

/-- The driver resets a card that does not stop on demand. -/
theorem interruptBkops_keeps : Prog.Keeps A I interruptBkops :=
  .bind (sdio_hpi_aside.keeps ha) fun _ => .ite (.bind hreset fun _ => .pure _) (.pure _)

theorem startBkops_keeps : Prog.Keeps A I startBkops := by
  refine .bind ((sdio_mmc_switch_aside _ _).keeps ha) fun status => .ite ?_ (.ite ?_ (.pure _))
  · exact Prog.Moves.keeps (.modify fun w => .of_guards rfl rfl rfl rfl rfl) ha
  · exact .bind (interruptBkops_keeps ha hreset) fun _ => .pure _

/-- After a failed transfer there is one reset at most. -/
theorem recoverRw_keeps (sbc bus_err : Bool) (status : Errno) (rsp : BitVec 32) :
    Prog.Keeps A I (recoverRw sbc bus_err status rsp) := by
  refine .bind ((sdio_send_status_aside rsp).keeps ha) fun s => ?_
  refine .bind (.ite hreset (.pure _)) fun _ =>
    Prog.Moves.keeps (R := Aside) (.bind .get fun w => ?_) ha
  refine .bind (.ite (.bind sdio_call_aside fun _ => .pure _) (.pure _)) fun _ => ?_
  refine .bind (.modify fun w => ⟨rfl, rfl, fun hc => hc.symm, id, fun _ => .inl⟩) fun _ => ?_
  exact .modify fun w => .ite ⟨rfl, rfl, fun _ => rfl, id, fun _ => .inl⟩ (.refl w)

/-- A transfer of one command, with what follows it. -/
theorem sdmmc_rw_keeps (t l : ℕ) (out rlw : Bool) (addr dlen : ℕ) :
    Prog.Keeps A I (sdmmc_rw t l out rlw addr dlen) := by
  refine .bind .get fun w => .bind .ask fun a => .ite (.pure _) ?_
  refine .bind ((sendData_aside out _ _).keeps ha) fun reply => .ite (.pure _) ?_
  refine .bind (.ite ((afterFailed_aside _ _).keeps ha) ((afterSent_aside _ _ _ _ _ _).keeps ha))
    fun s => ?_
  refine .bind (Prog.Moves.keeps (.modify fun w => .ite (.of_guards rfl rfl rfl rfl rfl) (.refl w))
    ha) fun _ => ?_
  exact .ite (.bind (recoverRw_keeps ha hreset _ _ _ _) fun _ => .pure _) (.pure _)

/-- An entry of the list in pieces of a reliable write. -/
theorem writeReliable_keeps (t l rel fuel : ℕ) :
    ∀ lba sg_count, Prog.Keeps A I (writeReliable t l rel fuel lba sg_count) := by
  induction fuel with
  | zero => exact fun _ _ => .pure _
  | succ fuel ih =>
      intro lba sg_count
      refine .ite (.pure _) (.bind (sdmmc_rw_keeps ha hreset _ _ _ _ _ _) fun _ => ?_)
      exact .ite (.pure _) (ih _ _)

theorem writeReliableList_keeps (t l rel fuel : ℕ) (sgl : List ℕ) :
    ∀ lba, Prog.Keeps A I (writeReliableList t l rel fuel lba sgl) := by
  induction sgl with
  | nil => exact fun _ => .pure _
  | cons sg_count sgl ih =>
      intro lba
      exact .bind (writeReliable_keeps ha hreset _ _ _ _ _ _) fun _ => .ite (.pure _) (ih _)

theorem transfer_keeps (fuel t l : ℕ) (out rlw : Bool) (x : Transfer) :
    Prog.Keeps A I (transfer fuel t l out rlw x) := by
  refine .bind .get fun w => .bind (.ite ?_ ?_) fun status => .ite ?_ (.pure _)
  · exact writeReliableList_keeps ha hreset _ _ _ _ _ _
  · exact sdmmc_rw_keeps ha hreset _ _ _ _ _ _
  · exact (sdmmc_error_aside _).keeps ha

/-- Reading the extended CSD can fail in a way that resets the card. -/
theorem readRegister_keeps (type : RegType) : Prog.Keeps A I (readRegister type) := by
  refine .bind .get fun w => ?_
  cases type with
  | ext_csd =>
      refine .ite (.pure _) (.bind (sdio_send_ext_csd_aside.keeps ha) fun csd => ?_)
      exact .ite (.pure _) (.ite (.bind hreset fun _ => .pure _) (.pure _))
  | sds => exact .ite (.pure _) (.bind (sdio_call_aside.keeps ha) fun _ => .pure _)
  | cid => exact .pure _
  | csd => exact .pure _
  | scr => exact .pure _
  | other => exact .pure _

theorem sdmmc_card_register_devctl_keeps (t l : ℕ) (type : RegType) (action : RegAction) :
    Prog.Keeps A I (sdmmc_card_register_devctl t l type action) := by
  refine .bind ((sdmmc_unit_ready_aside t l).keeps ha) fun status => .ite (.pure _) ?_
  cases action with
  | read => exact readRegister_keeps ha hreset type
  | write address value =>
      refine .bind .get fun w => .ite (.ite (.pure _) ?_) (.pure _)
      exact .bind ((sdio_mmc_switch_aside _ _).keeps ha) fun _ => .pure _
  | other => exact .pure _

/-- A transfer to the RPMB resets the card if it fails. -/
theorem rpmbTransfer_keeps (config : ℕ) (out : Bool) :
    Prog.Keeps A I (rpmbTransfer config out) := by
  refine .bind (.bind ((sendData_aside out config 0).keeps ha) fun _ => .pure _) fun s => ?_
  exact .ite (.bind hreset fun _ => .pure _) (.pure _)

variable (hpm : Prog.Keeps A I (sdmmc_pm .active))

include hpm

omit hreset in
theorem pollBkops_keeps : Prog.Keeps A I pollBkops := by
  refine .bind hpm fun _ => Prog.Moves.keeps (R := Aside) ?_ ha
  refine .bind (.modify fun w => .ite (.of_guards rfl rfl rfl rfl rfl) (.refl w)) fun _ => ?_
  refine .bind sdio_send_ext_csd_aside fun csd => ?_
  exact .modify fun w => .ite (.of_guards rfl rfl rfl rfl rfl) (.refl w)

/-- Background operations: their status is polled, they are started, or they are interrupted. -/
theorem sdmmc_bkops_keeps (tick : Bool) : Prog.Keeps A I (sdmmc_bkops tick) := by
  refine .bind .get fun w => .ite (.pure _) (.ite ?_ ?_)
  · refine .bind hpm fun _ => .ite (.pure _) (.bind (interruptBkops_keeps ha hreset) fun _ => ?_)
    exact Prog.Moves.keeps (.modify fun w => .of_guards rfl rfl rfl rfl rfl) ha
  · refine .bind (.ite (pollBkops_keeps ha hpm) (.pure _)) fun _ => .bind .get fun w => ?_
    exact .ite (startBkops_keeps ha hreset) (.pure _)

/-- **Reads and writes** keep whatever is kept by what is aside, by a reset and by waking the
card. -/
theorem sdmmc_read_write_keeps (fuel t l : ℕ) (out : Bool) (x : Transfer) :
    Prog.Keeps A I (sdmmc_read_write fuel t l out x) := by
  have herror : ∀ e, Prog.Keeps A I (sdmmc_error e) := fun e => (sdmmc_error_aside e).keeps ha
  refine .bind ((sdmmc_unit_ready_aside t l).keeps ha) fun status => .ite (.pure _) ?_
  refine .bind .get fun w => .ite (herror _) (.ite (herror _) (.ite (.pure _) ?_))
  refine .bind ((sdio_set_partition_aside _).keeps ha) fun status => .ite ?_ ?_
  · exact .bind hreset fun _ => herror _
  · exact .bind (sdmmc_bkops_keeps ha hreset hpm false) fun _ =>
      transfer_keeps ha hreset _ _ _ _ _ _

/-- The devctl for the RPMB does, with up to three transfers. -/
theorem sdmmc_rpmb_devctl_keeps (t l : ℕ) (flags : RpmbFlag) (refused : Option Errno) :
    Prog.Keeps A I (sdmmc_rpmb_devctl t l flags refused) := by
  refine .bind .get fun w => .ite (.pure _) (.ite (.pure _) ?_)
  refine .bind ((sdmmc_unit_ready_aside t l).keeps ha) fun status => .ite (.pure _) ?_
  refine .bind (sdmmc_bkops_keeps ha hreset hpm false) fun _ => ?_
  refine .bind ((sdio_set_partition_aside _).keeps ha) fun status => .ite ?_ ?_
  · exact .bind hreset fun _ => .pure _
  refine .bind (.ite (rpmbTransfer_keeps ha hreset _ _) (.pure _)) fun s => .ite (.pure _) ?_
  refine .bind (rpmbTransfer_keeps ha hreset _ _) fun s => .ite (.pure _) ?_
  exact rpmbTransfer_keeps ha hreset _ _

end Composed

end Sdmmc
