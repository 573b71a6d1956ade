import RpiBsp.Sdmmc.Sim.Cache

/-!
# Sdmmc — Sim — reuse

The data of a bus outlives the card that was in it: `sdmmc_detach` keeps it, and what a new card
brings is added to it.

* `Lasting` — what no request changes while a card is attached.
* `Reusable` — a bus without a card is as good as new.
* `Tidy` — the cards and removals that leave it so: no partitions are enumerated, the user
  partition is not marked, and a card is removed with a clean cache and at rest.
* `reuse_run` — after a run of such steps a card finds the bus as it would find a new one.
* `target_left` — the partitions of an MMC card are counted again for the next, and stay for an SD
card.
-/

namespace Sdmmc

open Support

/-! ### What is left of a card -/

/-- The state of the cache and of background operations. -/
def World.rest (w : World) : Bool × Bool × ℕ × BitVec 32 :=
  (w.dirty, w.ext.eflags.bkops, w.ext.bkops_ticks, w.ext.bkops_status)

/-- What is compared between a bus that is used again and a new one. -/
def World.observed (w : World) : (ℕ × (ℕ → ℕ) × Bool × (ℕ → ℕ → Bool × Bool × ℕ × ℕ × ℕ × ℕ)) ×
    Bool × Bool × ℕ × BitVec 32 := (w.layout, w.rest)

/-- What a card leaves as it is while it is attached: a mark apart, the targets and the
partitions. -/
structure Lasting (w w' : World) : Prop where
  attached : w'.attached = w.attached
  ntargs : w'.ext.ntargs = w.ext.ntargs
  nluns : w'.ext.nluns = w.ext.nluns
  parted : w'.ext.eflags.partitions = w.ext.eflags.partitions
  hidden : ∀ t l, ¬ (t ≤ w.ext.ntargs ∧ l ≤ w.ext.nluns t) →
    (w'.part t l).shape = (w.part t l).shape
  enh : ∀ t l, (w'.part t l).enh = (w.part t l).enh

theorem part_shape_of_layout {w w' : World} (h : w'.layout = w.layout) (t l : ℕ) :
    (w'.part t l).shape = (w.part t l).shape :=
  congrArg (fun x : ℕ × (ℕ → ℕ) × Bool × (ℕ → ℕ → Bool × Bool × ℕ × ℕ × ℕ × ℕ) => x.2.2.2 t l) h

theorem ntargs_of_layout {w w' : World} (h : w'.layout = w.layout) : w'.ext.ntargs = w.ext.ntargs :=
  congrArg (fun x : ℕ × (ℕ → ℕ) × Bool × (ℕ → ℕ → Bool × Bool × ℕ × ℕ × ℕ × ℕ) => x.1) h

namespace Lasting

variable {w w' w'' : World}

theorem of_layout (h : w'.layout = w.layout) (ha : w'.attached = w.attached) : Lasting w w' where
  attached := ha
  ntargs := ntargs_of_layout h
  nluns := congrArg (fun x => x.2.1) h
  parted := congrArg (fun x => x.2.2.1) h
  hidden t l _ := part_shape_of_layout h t l
  enh t l := congrArg (fun s => s.2.1) (part_shape_of_layout h t l)

theorem refl (w : World) : Lasting w w := of_layout rfl rfl

theorem trans (h : Lasting w w') (h' : Lasting w' w'') : Lasting w w'' where
  attached := h'.attached.trans h.attached
  ntargs := h'.ntargs.trans h.ntargs
  nluns := h'.nluns.trans h.nluns
  parted := h'.parted.trans h.parted
  hidden t l hn := by
    rw [h'.hidden t l, h.hidden t l hn]
    rw [h.ntargs, h.nluns]
    exact hn
  enh t l := (h'.enh t l).trans (h.enh t l)

end Lasting

theorem Aside.lasting {w₀ w w' : World} (h : Aside w w') (hl : Lasting w₀ w) : Lasting w₀ w' :=
  hl.trans (.of_layout h.layout h.attached)

theorem lasting_cacheOff (w : World) : Lasting w (w.setFlags fun f => { f with cache := false }) :=
  .of_layout rfl rfl

theorem lasting_marked (w : World) (u : Bool) :
    Lasting w ((sdmmc_set_partition_attr MMC_PART_USER w).logged (.marked u)) := by
  have hp : ∀ t l, ((sdmmc_set_partition_attr MMC_PART_USER w).logged (.marked u)).part t l =
      if t ≤ w.ext.ntargs ∧ l ≤ w.ext.nluns t ∧ partOf (w.part t l).config = MMC_PART_USER then
        { w.part t l with wp := true } else w.part t l := fun _ _ => rfl
  refine ⟨rfl, rfl, rfl, rfl, fun t l hn => ?_, fun t l => ?_⟩
  · rw [hp, if_neg fun h => hn ⟨h.1, h.2.1⟩]
  · rw [hp]
    split <;> rfl

theorem lasting_cacheLost (w : World) : Lasting w (cacheLost w) := by
  rw [cacheLost]
  split
  · split
    · exact (lasting_marked w w.unflushed).trans (lasting_cacheOff _)
    · exact lasting_cacheOff w
  · exact .refl w

section Requests

variable {A : DevAnswer → Prop} {w₀ : World}

theorem aside_lasting (w w' : World) (h : Aside w w') : Lasting w₀ w → Lasting w₀ w' := h.lasting

theorem sdmmc_dev_cfg_lasting : Prog.Keeps A (Lasting w₀) sdmmc_dev_cfg :=
  sdmmc_dev_cfg_keeps aside_lasting fun w h => h.trans (lasting_cacheOff w)

theorem sdio_reset_lasting : Prog.Keeps A (Lasting w₀) sdio_reset := by
  refine triple_callDevice (fun w b h => (aside_gone w b).lasting h) (fun w h _ => h) fun a _ => ?_
  refine .bind (Q := fun _ => Lasting w₀) (.modify fun w h => ?_) fun _ => .pure fun _ h => h
  exact h.1.trans (.of_layout rfl rfl)

theorem sdmmc_reset_lasting : Prog.Keeps A (Lasting w₀) sdmmc_reset :=
  .bind sdio_reset_lasting fun _ =>
    .bind (.modify fun w h => h.trans (lasting_cacheLost w)) fun _ =>
    sdmmc_dev_cfg_lasting

theorem sdmmc_pm_lasting (op : Pm) : Prog.Keeps A (Lasting w₀) (sdmmc_pm op) := by
  intro r _ w n h
  have hk := sdmmc_pm_kept op r w n
  have hs := sdmmc_pm_steady op r w n
  refine h.trans ⟨hs.attached, hk.ntargs, hk.nluns, by rw [hs.eflags], fun t l _ =>
    ?_, fun t l => ?_⟩
  · rw [World.part, hs.partitions]
    rfl
  · rw [World.part, hs.partitions]
    rfl

theorem sdio_flush_lasting : Prog.Keeps A (Lasting w₀) (sdio_cache .flush) :=
  sdio_flush_triple aside_lasting (fun _ _ _ h => h) fun _ h => h.trans (.of_layout rfl rfl)

theorem sdmmc_cache_flush_lasting : Prog.Keeps A (Lasting w₀) sdmmc_cache_flush := by
  refine .bind .get fun w => .ite (.bind sdio_flush_lasting fun s => ?_) (.pure _)
  refine .bind (.modify fun w h => ?_) fun _ => .pure _
  split
  · exact h.trans (.of_layout rfl rfl)
  · exact h

theorem sdmmc_dev_dcfg_lasting : Prog.Keeps A (Lasting w₀) sdmmc_dev_dcfg := by
  refine .bind .get fun w => .bind (.ite sdio_flush_lasting (.pure _)) fun s => ?_
  refine .bind (.ite ((sdmmc_bkops_cfg_aside false).keeps aside_lasting) (.pure _)) fun s => ?_
  exact .ite ((sdio_pwroff_notify_aside _).keeps aside_lasting) (.pure _)

theorem sdmmc_read_write_lasting (fuel t l : ℕ) (out : Bool) (x : Transfer) :
    Prog.Keeps A (Lasting w₀) (sdmmc_read_write fuel t l out x) :=
  sdmmc_read_write_keeps aside_lasting sdmmc_reset_lasting (sdmmc_pm_lasting _) fuel t l out x

theorem write10_lasting (fuel t l : ℕ) (x : Transfer) :
    Prog.Keeps A (Lasting w₀) (write10 fuel t l x) := by
  refine .bind (.modify fun w h => ?_) fun _ => sdmmc_read_write_lasting fuel t l true x
  split
  · exact h.trans (.of_layout rfl rfl)
  · exact h

theorem sdmmc_sync_lasting (t l : ℕ) : Prog.Keeps A (Lasting w₀) (sdmmc_sync t l) := by
  refine .bind .get fun w => .ite (.pure _) ?_
  refine .bind ((sdmmc_unit_ready_aside t l).keeps aside_lasting) fun _ => .ite (.pure _) ?_
  exact .bind sdmmc_cache_flush_lasting fun _ => .pure _

theorem sdmmc_mpage_caching_lasting (wce : Bool) :
    Prog.Keeps A (Lasting w₀) (sdmmc_mpage_caching wce) := by
  have herror : ∀ e, Prog.Keeps A (Lasting w₀) (sdmmc_error e) := fun e =>
    (sdmmc_error_aside e).keeps aside_lasting
  refine .bind .get fun w =>
    .ite (.bind ((sdio_cache_aside ?_).keeps aside_lasting) fun s => ?_) (herror _)
  · cases wce <;> exact nofun
  · exact .ite (.bind (.modify fun w h => h.trans (.of_layout rfl rfl)) fun _ => .pure _) (herror _)

theorem sdmmc_drvr_state_devctl_lasting (t l : ℕ) (state : DrvrState) :
    Prog.Keeps A (Lasting w₀) (sdmmc_drvr_state_devctl t l state) := by
  have hdone : ∀ state, Prog.Keeps A (Lasting w₀) (do
      modify fun w : World => w.setExt fun e => { e with drvr_state := state }
      return .eok : SimM Errno) := fun state =>
    .bind (.modify fun w h => h.trans (.of_layout rfl rfl)) fun _ => .pure _
  refine .bind ((sdmmc_unit_ready_aside t l).keeps aside_lasting) fun s => .ite (.pure _) ?_
  cases state with
  | pause =>
      refine .bind sdmmc_dev_dcfg_lasting fun s => .ite (.pure _) ?_
      exact .bind (sdmmc_pm_lasting _) fun _ => hdone .pause
  | run =>
      refine .bind (sdmmc_pm_lasting _) fun _ => .bind sdio_reset_lasting fun _ => ?_
      exact .bind sdmmc_dev_cfg_lasting fun _ => hdone .run

theorem dispatch_lasting (fuel t l : ℕ) (rq : Request) :
    Prog.Keeps A (Lasting w₀) (dispatch fuel t l rq) := by
  cases rq with
  | read10 x => exact .bind (sdmmc_read_write_lasting fuel t l false x) fun _ => .pure _
  | write10 x => exact .bind (write10_lasting fuel t l x) fun _ => .pure _
  | sync => exact .bind (sdmmc_sync_lasting t l) fun _ => .pure _
  | mode_select wce => exact .bind (sdmmc_mpage_caching_lasting wce) fun _ => .pure _
  | erase12 lba nlba =>
      exact .bind ((sdmmc_erase12_aside _ _ _ _).keeps aside_lasting) fun _ => .pure _
  | write_same unmap lba nlba =>
      exact .bind ((sdmmc_write_same_aside _ _ _ _ _).keeps aside_lasting) fun _ => .pure _
  | erase action lba nlba =>
      exact .bind ((sdmmc_erase_devctl_aside _ _ _ _ _).keeps aside_lasting) fun _ => .pure _
  | dsm opt fits ranges =>
      exact .bind ((sdmmc_dsm_devctl_aside _ _ _ _ _).keeps aside_lasting) fun _ => .pure _
  | write_protect action mode lba nlba =>
      exact .bind ((sdmmc_wp_devctl_aside _ _ _ _ _ _).keeps aside_lasting) fun _ => .pure _
  | card_register type action =>
      exact .bind (sdmmc_card_register_devctl_keeps aside_lasting sdmmc_reset_lasting _ _ _ _)
        fun _ => .pure _
  | rpmb flags refused =>
      exact .bind (sdmmc_rpmb_devctl_keeps aside_lasting sdmmc_reset_lasting (sdmmc_pm_lasting _)
        _ _ _ _) fun _ => .pure _
  | drvr_state state => exact .bind (sdmmc_drvr_state_devctl_lasting t l state) fun _ => .pure _

theorem sdmmc_sim_action_lasting (fuel t l : ℕ) (rq : Request) :
    Prog.Keeps A (Lasting w₀) (sdmmc_sim_action fuel t l rq) := by
  refine .bind .get fun w => .ite (.bind (sdmmc_pm_lasting _) fun _ => ?_) (.pure _)
  refine .bind (dispatch_lasting fuel t l rq) fun _ =>
    .bind (sdio_retune_aside.keeps aside_lasting) fun _ => ?_
  exact .ite sdmmc_reset_lasting (.pure _)

theorem sdmmc_timer_lasting (elapsed : Bool) : Prog.Keeps A (Lasting w₀) (sdmmc_timer elapsed) := by
  refine .bind .get fun w =>
    .ite (.pure _) (.ite (.ite (sdmmc_pm_lasting _) (.pure _)) (.ite ?_ (.pure _)))
  exact .bind sdmmc_cache_flush_lasting fun _ => .ite (sdmmc_pm_lasting _) (.pure _)

theorem sim_timer_lasting : Prog.Keeps A (Lasting w₀) sim_timer :=
  .bind .get fun _ => .ite
    (sdmmc_bkops_keeps aside_lasting sdmmc_reset_lasting (sdmmc_pm_lasting _) true) (.pure _)

theorem sdmmc_suspend_lasting : Prog.Keeps A (Lasting w₀) sdmmc_suspend :=
  .bind (sdmmc_pm_lasting _) fun _ => .bind sdmmc_dev_dcfg_lasting fun _ => sdmmc_pm_lasting _

theorem sdmmc_resume_lasting : Prog.Keeps A (Lasting w₀) sdmmc_resume :=
  .bind (sdmmc_pm_lasting _) fun _ => sdmmc_dev_cfg_lasting

end Requests

/-! ### What is observed stays -/

section Observed

variable {A : DevAnswer → Prop} {o : (ℕ × (ℕ → ℕ) × Bool × (ℕ → ℕ → Bool × Bool × ℕ × ℕ × ℕ × ℕ)) ×
    Bool × Bool × ℕ × BitVec 32}

/-- What is observed is `o`. -/
def Shows (o : (ℕ × (ℕ → ℕ) × Bool × (ℕ → ℕ → Bool × Bool × ℕ × ℕ × ℕ × ℕ)) ×
    Bool × Bool × ℕ × BitVec 32) (w : World) : Prop := w.observed = o

theorem callDevice_shows {α : Type} {failed : α} {f : DevAnswer → SimM α}
    (hf : ∀ a, Prog.Keeps A (Shows o) (f a)) : Prog.Keeps A (Shows o) (callDevice failed f) :=
  .bind .ask fun a => .bind (.modify fun _ h => h) fun _ => .bind .get fun _ =>
    .ite (.pure _) (hf a)

theorem sdio_mmc_switch_shows (index value : ℕ) :
    Prog.Keeps A (Shows o) (sdio_mmc_switch index value) := by
  refine callDevice_shows fun a => .bind (.modify fun w h => ?_) fun _ => .pure _
  split
  · rw [World.switched]
    split <;> exact h
  · exact h

theorem sdio_pwroff_notify_shows (op : ℕ) : Prog.Keeps A (Shows o) (sdio_pwroff_notify op) :=
  .bind .get fun _ => .ite (.pure _) (sdio_mmc_switch_shows _ _)

theorem sdio_cache_shows (op : CacheOp) : Prog.Keeps A (Shows o) (sdio_cache op) := by
  refine .bind .get fun w => .ite (.pure _) (callDevice_shows fun a => .bind .get fun w₁ => ?_)
  have hdone : ∀ (status : Errno) (f : World → World), (∀ w, Shows o w → Shows o (f w)) →
      Prog.Keeps A (Shows o) (do modify f; return status : SimM Errno) := fun status f hf =>
    .bind (.modify hf) fun _ => .pure _
  cases op with
  | disable =>
      refine hdone _ _ fun w h => ?_
      split <;> exact h
  | enable =>
      refine hdone _ _ fun w h => ?_
      split <;> exact h
  | flush =>
      generalize (if w₁.wce = true then a.status else Errno.eok) = status
      refine hdone _ _ fun w h => ?_
      split <;> exact h

theorem cfgCache_shows : Prog.Keeps A (Shows o) cfgCache := by
  refine .bind .get fun w =>
    .ite (.bind (sdio_cache_shows _) fun s => .modify fun w h => ?_) (.pure _)
  split <;> exact h

theorem cfgPwroff_shows : Prog.Keeps A (Shows o) cfgPwroff := by
  refine .bind .get fun w =>
    .ite (.bind (sdio_pwroff_notify_shows _) fun s => .modify fun w h => ?_) (.pure _)
  split <;> exact h

theorem sdmmc_detach_shows : Prog.Keeps A (Shows o) sdmmc_detach := by
  refine .bind (.bind .get fun w => .bind (.ite (sdio_cache_shows _) (.pure _)) fun s => ?_)
    fun _ => .modify fun w h => h
  refine .bind (.ite (.bind .get fun _ => .ite (.pure _) (sdio_mmc_switch_shows _ _)) (.pure _))
    fun s => ?_
  exact .ite (sdio_pwroff_notify_shows _) (.pure _)

end Observed

/-! ### Insertion -/

/-- The state of a bus when a card is found and its partitions are set up. -/
def World.mounted (w : World) (card : Card) : World :=
  (w.found card).setExt (sdmmc_partition_config (w.found card).raw_ecsd)

/-- The rest of an insertion: the driver gets its thread, or not. -/
def registered : SimM Unit := do
  cfgPwroff
  let reg ← Prog.ask
  if !reg.alloc then sdmmc_detach
  else
    modify fun w => (w.setFlags fun f => { f with present := true }).setExt fun e =>
      { e with drvr_state := .run }

/-- The device is configured, as far as what is observed goes. -/
def configure : SimM Unit := do
  cfgCache
  cfgMmc

theorem sdmmc_sdio_insertion_apply {w : World} (hatt : w.attached = false) {card : Card}
    {r : ℕ → DevAnswer} (hr : (r 0).alloc = true) :
    (sdmmc_sdio_insertion card r (w, 0)).2.1 =
      (registered r (configure r (w.mounted card, 1)).2).2.1 := by
  rw [sdmmc_sdio_insertion, Prog.bind_apply, Prog.get_apply]
  dsimp only
  rw [Prog.bind_apply, Prog.ask_apply]
  dsimp only
  rw [Prog.ite_apply', if_neg (by simp [hatt, hr])]
  rfl

theorem registered_shows {A : DevAnswer → Prop} (o) : Prog.Keeps A (Shows o) registered :=
  .bind cfgPwroff_shows fun _ => .bind .ask fun _ => .ite sdmmc_detach_shows (.modify fun _ h => h)

theorem mounted_frame (w : World) (card : Card) : (w.mounted card).ext.nluns = w.ext.nluns ∧
    (w.mounted card).ext.eflags = w.ext.eflags ∧
    (w.mounted card).ext.bkops_ticks = w.ext.bkops_ticks ∧
    (w.mounted card).ext.bkops_status = w.ext.bkops_status ∧
    (w.mounted card).ext.dtype = card.dtype ∧
    (w.mounted card).ext.dev_inf = card.info := by
  change (sdmmc_partition_config _ _).nluns = _ ∧ (sdmmc_partition_config _ _).eflags = _ ∧
    (sdmmc_partition_config _ _).bkops_ticks = _ ∧ (sdmmc_partition_config _ _).bkops_status = _ ∧
    (sdmmc_partition_config _ _).dtype = _ ∧ (sdmmc_partition_config _ _).dev_inf = _
  rw [sdmmc_partition_config]
  split <;> exact ⟨rfl, rfl, rfl, rfl, rfl, rfl⟩

theorem configure_lasting {w : World} (r : ℕ → DevAnswer) (n : ℕ) :
    Lasting w (configure r (w, n)).2.1 := by
  have h : Prog.Keeps (fun _ => True) (Lasting w) configure :=
    .bind (cfgCache_keeps aside_lasting fun w h => h.trans (lasting_cacheOff w)) fun _ =>
      cfgMmc_aside.keeps aside_lasting
  exact h r (fun _ => trivial) w n (.refl w)

/-- Nothing of background operations is configured for an SD card. -/
theorem configure_sd {w : World} (hsd : w.ext.dtype = .sd) (r : ℕ → DevAnswer) (n : ℕ) :
    (configure r (w, n)).2.1.observed = w.observed := by
  have hc := cfgCache_shows (A := fun _ => True) (o := w.observed) r (fun _ => trivial) w n rfl
  have hd : (cfgCache r (w, n)).2.1.ext.dtype = .sd := (cfgCache_kept r w n).dtype.trans hsd
  rw [configure, Prog.bind_apply, cfgMmc, Prog.bind_apply, Prog.get_apply]
  dsimp only
  rw [hd, Prog.ite_apply', if_neg nofun]
  exact hc

theorem registered_attached :
    Prog.Keeps (fun a : DevAnswer => a.alloc = true) (fun w => w.attached = true) registered := by
  refine Prog.Triple.bind (cfgPwroff_aside.keeps fun _ _ ha h => ha.attached.trans h) fun _ => ?_
  refine .bind (Q := fun a w => a.alloc = true ∧ w.attached = true) (.ask fun a w ha h => ⟨ha, h⟩)
    fun reg => ?_
  intro r _ w n h
  rw [Prog.ite_apply', if_neg (by simp [h.1])]
  exact h.2

section Ends

variable {w : World} (hatt : w.attached = false) (card : Card) {r : ℕ → DevAnswer}
  (hr : (r 0).alloc = true)

include hatt hr

theorem insertion_shows : (sdmmc_sdio_insertion card r (w, 0)).2.1.observed =
    (configure r (w.mounted card, 1)).2.1.observed := by
  rw [sdmmc_sdio_insertion_apply hatt hr]
  exact registered_shows (A := fun _ => True) _ r (fun _ => trivial) _ _ rfl

theorem insertion_sd (hsd : card.dtype = .sd) :
    (sdmmc_sdio_insertion card r (w, 0)).2.1.observed = (w.mounted card).observed := by
  rw [insertion_shows hatt card hr]
  obtain ⟨_, _, _, _, hd, _⟩ := mounted_frame w card
  exact configure_sd (hd.trans hsd) r 1

theorem insertion_attached (halloc : ∀ k, (r k).alloc = true) :
    (sdmmc_sdio_insertion card r (w, 0)).2.1.attached = true := by
  rw [sdmmc_sdio_insertion_apply hatt hr]
  exact registered_attached r halloc _ _ (configure_lasting r 1).attached

end Ends

/-! ### Two buses with one card -/

/-- Two buses that a card cannot tell apart. -/
structure Alike (w w' : World) : Prop where
  observed : w.observed = w'.observed
  dtype : w.ext.dtype = w'.ext.dtype
  dev_inf : w.ext.dev_inf = w'.ext.dev_inf
  info : w.info = w'.info
  raw_ecsd : w.raw_ecsd = w'.raw_ecsd
  gone : w.gone = w'.gone

theorem Alike.bkops {w w' : World} (h : Alike w w') : w.ext.eflags.bkops = w'.ext.eflags.bkops :=
  congrArg (fun x => x.2.2.1) h.observed

theorem Alike.setBkops {w w' : World} (h : Alike w w') (b : Bool) :
    Alike (w.setFlags fun f => { f with bkops := b })
      (w'.setFlags fun f => { f with bkops := b }) := by
  refine { h with observed := ?_ }
  have ho := h.observed
  simp only [World.observed, World.rest, World.layout, Prod.mk.injEq] at ho ⊢
  exact ⟨ho.1, ho.2.1, rfl, ho.2.2.2⟩

theorem callDevice_alike {α : Type} {failed : α} {f f' : DevAnswer → SimM α}
    (hf : ∀ a, Prog.Lockstep Alike (f a) (f' a)) :
    Prog.Lockstep Alike (callDevice failed f) (callDevice failed f') := by
  refine .bind .ask fun a => .bind (.modify fun w w' h => ?_) fun _ => .get_bind fun w w' h => ?_
  · exact { h with gone := by rw [h.gone] }
  · exact .ite (by rw [h.gone]) (fun _ => .pure _) fun _ => hf a

/-- The cache may be switched on in one and off in the other. -/
theorem sdio_cache_alike {op op' : CacheOp} (hop : op ≠ .flush) (hop' : op' ≠ .flush) :
    Prog.Lockstep Alike (sdio_cache op) (sdio_cache op') := by
  refine .get_bind fun w w' h => .ite (by rw [h.info]) (fun _ => .pure _) fun _ => ?_
  refine callDevice_alike fun a => .get_bind fun _ _ _ => ?_
  have hdone : ∀ b b' : Bool, Prog.Lockstep Alike
      (do modify fun w : World => if a.status = .eok then { w with wce := b } else w
          return a.status : SimM Errno)
      (do modify fun w : World => if a.status = .eok then { w with wce := b' } else w
          return a.status : SimM Errno) := by
    intro b b'
    refine .bind (.modify fun w w' h => ?_) fun _ => .pure _
    by_cases hs : a.status = .eok
    · rw [if_pos hs, if_pos hs]
      exact { h with }
    · rw [if_neg hs, if_neg hs]
      exact h
  cases op with
  | disable =>
      cases op' with
      | disable => exact hdone false false
      | enable => exact hdone false true
      | flush => exact absurd rfl hop'
  | enable =>
      cases op' with
      | disable => exact hdone true false
      | enable => exact hdone true true
      | flush => exact absurd rfl hop'
  | flush => exact absurd rfl hop

theorem cfgCache_alike : Prog.Lockstep Alike cfgCache cfgCache := by
  refine .get_bind fun w w' h => .ite (by rw [h.dev_inf]) (fun _ => ?_) fun _ => .pure _
  refine .bind (sdio_cache_alike ?_ ?_) fun status => .modify fun w w' h => ?_
  · split <;> exact nofun
  · split <;> exact nofun
  · by_cases hs : status ≠ .eok
    · rw [if_pos hs, if_pos hs]
      exact { h with }
    · rw [if_neg hs, if_neg hs]
      exact h

theorem sdmmc_bkops_cfg_alike (op : Bool) :
    Prog.Lockstep Alike (sdmmc_bkops_cfg op) (sdmmc_bkops_cfg op) := by
  refine .get_bind fun w w' h => .ite (by rw [h.dev_inf]) (fun _ => .pure _) fun _ => ?_
  refine callDevice_alike fun a => .bind (.modify fun w w' h => ?_) fun _ => .pure _
  by_cases hs : a.status = .eok ∨ a.took ECSD_BKOPS_EN = true
  · rw [if_pos hs, if_pos hs]
    exact { h with }
  · rw [if_neg hs, if_neg hs]
    exact h

theorem cfgMmc_alike : Prog.Lockstep Alike cfgMmc cfgMmc := by
  refine .get_bind fun w w' h => .ite (by rw [h.dtype]) (fun _ => ?_) fun _ => .pure _
  refine .bind (.modify fun w w' h => ?_) fun _ =>
    .bind (sdmmc_bkops_cfg_alike true) fun status => ?_
  · rw [h.raw_ecsd]
    split
    · exact h.setBkops true
    · exact h
  refine .bind (.modify fun w w' h => ?_) fun _ => .modify fun w w' h => ?_
  · split
    · exact h.setBkops false
    · exact h
  · rw [h.dev_inf]
    split
    · exact { h with }
    · exact h

theorem configure_alike : Prog.Lockstep Alike configure configure :=
  .bind cfgCache_alike fun _ => cfgMmc_alike

/-! ### A bus that is as good as new -/

structure Reusable (opts : Eflags) (w : World) : Prop where
  ntargs : w.ext.ntargs = 0
  nluns : w.ext.nluns = fun _ => 0
  parted : w.ext.eflags.partitions = opts.partitions
  others : ∀ t l, ¬ (t = 0 ∧ l = 0) → (w.part t l).shape = Partition.shape {}
  enh : (w.part 0 0).enh = false
  left : w.attached = false → w.userWp = false ∧ w.rest = (false, opts.bkops, 0, 0)

theorem Reusable.of_lasting {opts : Eflags} {w w' : World} (h : Reusable opts w) (hl : Lasting w w')
    (hatt : w.attached = true) : Reusable opts w' where
  ntargs := hl.ntargs.trans h.ntargs
  nluns := hl.nluns.trans h.nluns
  parted := hl.parted.trans h.parted
  others t l hn := by
    rw [hl.hidden t l, h.others t l hn]
    rw [h.ntargs, h.nluns, Nat.le_zero, Nat.le_zero]
    exact hn
  enh := (hl.enh 0 0).trans h.enh
  left hatt' := by
    rw [hl.attached, hatt] at hatt'
    cases hatt'

theorem emptyBus_reusable (opts : Eflags) (has_pm : Bool) :
    Reusable opts (emptyBus opts has_pm) where
  ntargs := rfl
  nluns := rfl
  parted := rfl
  others _ _ _ := rfl
  enh := rfl
  left _ := ⟨rfl, rfl⟩

/-- The partition of a boot area, of RPMB or of a general purpose area has nothing of the one before
but the flags. -/
theorem shape_congr {p p' : Partition} (h : p.shape = p'.shape) (ecsd : ℕ → ℕ) (t : ℕ) :
    (bootPartition ecsd t p).shape = (bootPartition ecsd t p').shape ∧
      (rpmbPartition ecsd p).shape = (rpmbPartition ecsd p').shape ∧
      (gpPartition ecsd t p).shape = (gpPartition ecsd t p').shape := by
  have hwp : p.wp = p'.wp := congrArg (fun s => s.1) h
  have henh : p.enh = p'.enh := congrArg (fun s => s.2.1) h
  simp only [Partition.shape, bootPartition, rpmbPartition, gpPartition, hwp, henh, and_self]

section Mounted

variable {opts : Eflags} {w w' : World} (h : Reusable opts w) (h' : Reusable opts w')
  (hatt : w.attached = false) (hatt' : w'.attached = false) (card : Card)

include h h' in
/-- Whether partitions are enumerated is a matter of the card and the options. -/
theorem enumerated_iff :
    ((w.found card).ext.dtype = .mmc ∧ (w.found card).ext.eflags.partitions = true) ↔
    ((w'.found card).ext.dtype = .mmc ∧ (w'.found card).ext.eflags.partitions = true) := by
  change (card.dtype = .mmc ∧ w.ext.eflags.partitions = true) ↔
    (card.dtype = .mmc ∧ w'.ext.eflags.partitions = true)
  rw [h.parted, h'.parted]

include h h' hatt hatt' in
theorem mounted_user_shape :
    ((w.mounted card).part 0 0).shape = ((w'.mounted card).part 0 0).shape := by
  have hwp : (w.ext.partitions 0 0).wp = false := (h.left hatt).1
  have hwp' : (w'.ext.partitions 0 0).wp = false := (h'.left hatt').1
  have henh : (w.ext.partitions 0 0).enh = false := h.enh
  have henh' : (w'.ext.partitions 0 0).enh = false := h'.enh
  change ((sdmmc_partition_config _ _).partitions 0 0).shape =
    ((sdmmc_partition_config _ _).partitions 0 0).shape
  rw [sdmmc_partition_config_user, sdmmc_partition_config_user]
  simp only [Partition.shape, userPartition, World.found, hwp, hwp', henh, henh']
  rfl

include h h' in
theorem mounted_other_shape {t l : ℕ} (hn : ¬ (t = 0 ∧ l = 0)) :
    ((w.mounted card).part t l).shape = ((w'.mounted card).part t l).shape := by
  have hp : ((w.found card).ext.partitions t l).shape =
      ((w'.found card).ext.partitions t l).shape :=
    (h.others t l hn).trans (h'.others t l hn).symm
  change ((sdmmc_partition_config _ _).partitions t l).shape =
    ((sdmmc_partition_config _ _).partitions t l).shape
  rw [sdmmc_partition_config, sdmmc_partition_config]
  by_cases hc : (w.found card).ext.dtype = .mmc ∧ (w.found card).ext.eflags.partitions = true
  · rw [if_pos hc, if_pos ((enumerated_iff h h' card).mp hc)]
    simp only [sdmmc_partition_enum, if_neg hn]
    obtain ⟨hboot, hrpmb, hgp⟩ := shape_congr hp (w.found card).raw_ecsd t
    split
    · exact hp
    split
    · exact hboot
    split
    · exact hrpmb
    split
    · exact hgp
    · exact hp
  · rw [if_neg hc, if_neg fun hc' => hc ((enumerated_iff h h' card).mpr hc')]
    simp only [if_neg hn]
    exact hp

include h h' in
theorem mounted_ntargs : (w.mounted card).ext.ntargs = (w'.mounted card).ext.ntargs ∧
    (w.mounted card).ext.ntargs ≤ SDMMC_TARGET_MAX - 1 := by
  change (sdmmc_partition_config _ _).ntargs = (sdmmc_partition_config _ _).ntargs ∧
    (sdmmc_partition_config _ _).ntargs ≤ _
  rw [sdmmc_partition_config, sdmmc_partition_config]
  have hn : (w.found card).ext.ntargs = 0 := h.ntargs
  have hn' : (w'.found card).ext.ntargs = 0 := h'.ntargs
  by_cases hc : (w.found card).ext.dtype = .mmc ∧ (w.found card).ext.eflags.partitions = true
  · rw [if_pos hc, if_pos ((enumerated_iff h h' card).mp hc)]
    simp only [sdmmc_partition_enum, hn, hn']
    exact ⟨trivial, by decide⟩
  · rw [if_neg hc, if_neg fun hc' => hc ((enumerated_iff h h' card).mpr hc')]
    simp only [hn, hn']
    exact ⟨trivial, Nat.zero_le _⟩

theorem mounted_rest (w : World) (card : Card) : (w.mounted card).rest = w.rest := by
  obtain ⟨_, hf, ht, hs, _⟩ := mounted_frame w card
  simp only [World.rest, World.dirty, hf, ht, hs]

include h h' hatt hatt' in
theorem mounted_alike : Alike (w.mounted card) (w'.mounted card) := by
  obtain ⟨hl, hf, _, _, hd, hi⟩ := mounted_frame w card
  obtain ⟨hl', hf', _, _, hd', hi'⟩ := mounted_frame w' card
  refine ⟨?_, hd.trans hd'.symm, hi.trans hi'.symm, rfl, rfl, rfl⟩
  have hshape : (fun t l => ((w.mounted card).part t l).shape) =
      fun t l => ((w'.mounted card).part t l).shape := by
    funext t l
    by_cases hn : t = 0 ∧ l = 0
    · obtain ⟨rfl, rfl⟩ := hn
      exact mounted_user_shape h h' hatt hatt' card
    · exact mounted_other_shape h h' card hn
  have hrest : w.rest = w'.rest := (h.left hatt).2.trans (h'.left hatt').2.symm
  rw [World.observed, World.observed, mounted_rest, mounted_rest, hrest, World.layout,
    World.layout, hshape,
    (mounted_ntargs h h' card).1, hl, hl', hf, hf', h.nluns, h'.nluns, h.parted, h'.parted]

include h h' hatt hatt' in
/-- **One card on two buses** that are as good as new finds the same. -/
theorem insertion_observed (fuel : ℕ) {r : ℕ → DevAnswer} (hr : (r 0).alloc = true) :
    (step fuel w (.insertion card, r)).observed = (step fuel w' (.insertion card, r)).observed := by
  have hshow : ∀ w : World, w.attached = false → (step fuel w (.insertion card, r)).observed =
      (configure r (w.forget.mounted card, 1)).2.1.observed := fun w hatt =>
    insertion_shows (w := w.forget) hatt card hr
  rw [hshow w hatt, hshow w' hatt']
  have hm : Alike (w.forget.mounted card) (w'.forget.mounted card) :=
    { mounted_alike h h' hatt hatt' card with }
  exact (configure_alike r _ _ 1 hm).2.1.observed

end Mounted

/-! ### Runs -/

/-- The steps that leave a bus as good as new: of a card that is found, no partitions are
enumerated, it is not write protected, and if it is an MMC card it gets its driver; and a card is
removed unmarked, with a clean cache and at rest. -/
def Tidy (opts : Eflags) (w : World) (s : Step) (r : ℕ → DevAnswer) : Prop :=
  match s with
  | .insertion card => w.attached = false → (r 0).alloc = true →
      (opts.partitions = true → card.dtype = .sd) ∧ card.info.wp = false ∧
        (card.dtype = .mmc → ∀ k, (r k).alloc = true)
  | .removal => w.attached = true → w.userWp = false ∧ w.rest = (false, opts.bkops, 0, 0)
  | _ => True

/-- A card without partitions leaves the targets as they are. -/
theorem Reusable.mounted {opts : Eflags} {w : World} (h : Reusable opts w) {card : Card}
    (hsd : opts.partitions = true → card.dtype = .sd) : (w.mounted card).ext.ntargs = 0 ∧
      (∀ t l, ¬ (t = 0 ∧ l = 0) → (w.mounted card).part t l = w.part t l) ∧
      ((w.mounted card).part 0 0).enh = false ∧
      ((w.mounted card).part 0 0).wp = ((w.part 0 0).wp || card.info.wp) := by
  have hc : ¬ ((w.found card).ext.dtype = .mmc ∧ (w.found card).ext.eflags.partitions = true) := by
    rintro ⟨hmmc, hpart⟩
    have hpart' : w.ext.eflags.partitions = true := hpart
    have hd : card.dtype = .mmc := hmmc
    rw [hsd (h.parted.symm.trans hpart')] at hd
    cases hd
  change (sdmmc_partition_config _ _).ntargs = 0 ∧ (∀ t l, _ →
    (sdmmc_partition_config _ _).partitions t l = _) ∧
    ((sdmmc_partition_config _ _).partitions 0 0).enh = _ ∧
    ((sdmmc_partition_config _ _).partitions 0 0).wp = _
  rw [sdmmc_partition_config_user, sdmmc_partition_config, if_neg hc]
  exact ⟨h.ntargs, fun t l hn => if_neg hn, h.enh, rfl⟩

theorem Reusable.forget {opts : Eflags} {w : World} (h : Reusable opts w) :
    Reusable opts w.forget := { h with }

/-- The targets of a reusable bus stay so if nothing but a mark comes to them. -/
theorem Reusable.of_layout {opts : Eflags} {w w' : World} (h : Reusable opts w)
    (hl : w'.layout = w.layout)
    (hleft : w'.attached = false → w'.userWp = false ∧ w'.rest = (false, opts.bkops, 0, 0)) :
    Reusable opts w' where
  ntargs := (ntargs_of_layout hl).trans h.ntargs
  nluns := (congrArg (fun x => x.2.1) hl).trans h.nluns
  parted := (congrArg (fun x => x.2.2.1) hl).trans h.parted
  others t l hn := (part_shape_of_layout hl t l).trans (h.others t l hn)
  enh := (congrArg (fun s => s.2.1) (part_shape_of_layout hl 0 0)).trans h.enh
  left := hleft

/-- The bus with a card that is found and configured. -/
theorem Reusable.configured {opts : Eflags} {w : World} (h : Reusable opts w) {card : Card}
    (hsd : opts.partitions = true → card.dtype = .sd) (r : ℕ → DevAnswer) :
    Reusable opts (configure r (w.mounted card, 1)).2.1 := by
  obtain ⟨hn, hothers, henh, _⟩ := h.mounted hsd
  obtain ⟨hl, hf, _⟩ := mounted_frame w card
  have hm : Reusable opts (w.mounted card) :=
    ⟨hn, hl.trans h.nluns, by rw [hf]; exact h.parted, fun t l hne => by
      rw [hothers t l hne]
      exact h.others t l hne, henh, fun hatt => by cases hatt⟩
  exact hm.of_lasting (configure_lasting r 1) rfl

theorem sdmmc_sdio_insertion_reusable {opts : Eflags} {w : World} (h : Reusable opts w)
    {card : Card} {r : ℕ → DevAnswer} (ht : Tidy opts w (.insertion card) r) :
    Reusable opts (sdmmc_sdio_insertion card r (w, 0)).2.1 := by
  by_cases hc : w.attached = true ∨ (!(r 0).alloc) = true
  · rw [sdmmc_sdio_insertion, Prog.bind_apply, Prog.get_apply]
    dsimp only
    rw [Prog.bind_apply, Prog.ask_apply]
    dsimp only
    rw [Prog.ite_apply', if_pos hc]
    exact h
  obtain ⟨hatt, hr⟩ := not_or.mp hc
  have hatt : w.attached = false := Bool.eq_false_iff.mpr hatt
  have hr : (r 0).alloc = true := by simpa using hr
  obtain ⟨hsd, hwp, halloc⟩ := ht hatt hr
  have hshow := insertion_shows hatt card hr
  refine (h.configured hsd r).of_layout (congrArg (fun o => o.1) hshow) fun hend => ?_
  -- An MMC card got its driver, so this one is an SD card.
  have hsd' : card.dtype = .sd := by
    cases hd : card.dtype with
    | sd => rfl
    | mmc =>
        rw [insertion_attached hatt card hr (halloc hd)] at hend
        cases hend
  have hobs := insertion_sd hatt card hr hsd'
  obtain ⟨hwp₀, hrest₀⟩ := h.left hatt
  refine ⟨?_, ?_⟩
  · have hshape := part_shape_of_layout (congrArg (fun o => o.1) hobs) 0 0
    have hw : (sdmmc_sdio_insertion card r (w, 0)).2.1.userWp = ((w.mounted card).part 0 0).wp :=
      congrArg (fun s => s.1) hshape
    rw [hw, (h.mounted hsd).2.2.2, hwp, Bool.or_false]
    exact hwp₀
  · have hrest : (sdmmc_sdio_insertion card r (w, 0)).2.1.rest = (w.mounted card).rest :=
      congrArg (fun o => o.2) hobs
    rw [hrest, mounted_rest]
    exact hrest₀

theorem sdmmc_sdio_removal_reusable {opts : Eflags} {w : World} (h : Reusable opts w)
    {r : ℕ → DevAnswer} (ht : Tidy opts w .removal r) :
    Reusable opts (sdmmc_sdio_removal r (w, 0)).2.1 := by
  rw [sdmmc_sdio_removal, Prog.bind_apply, Prog.get_apply]
  dsimp only
  rw [Prog.ite_apply']
  by_cases hatt : (!w.attached) = true
  · rw [if_pos hatt]
    exact h
  · rw [if_neg hatt]
    have hatt : w.attached = true := by simpa using hatt
    have hobs : Shows w.observed (sdmmc_detach r ({ (w.poweredDown).setFlags (fun f =>
        { f with present := false }) with gone := true }, 0)).2.1 :=
      sdmmc_detach_shows (A := fun _ => True) r (fun _ => trivial) _ 0 rfl
    obtain ⟨hwp, hrest⟩ := ht hatt
    refine h.of_layout (congrArg (fun o => o.1) hobs) fun _ => ⟨?_, ?_⟩
    · exact (congrArg (fun s => s.1)
        (part_shape_of_layout (congrArg (fun o => o.1) hobs) 0 0)).trans hwp
    · exact (congrArg (fun o => o.2) hobs).trans hrest

/-- **One step** leaves a bus as good as new, or with a card in it. -/
theorem step_reusable (fuel : ℕ) {opts : Eflags} {w : World} {s : Step} {r : ℕ → DevAnswer}
    (h : Reusable opts w) (ht : Tidy opts w s r) : Reusable opts (step fuel w (s, r)) := by
  have hattached : ∀ m : SimM Unit, Prog.Keeps (fun _ => True) (Lasting w.forget) m →
      Reusable opts (whenAttached m r (w.forget, 0)).2.1 := by
    intro m hm
    rw [whenAttached, Prog.bind_apply, Prog.get_apply, Prog.ite_apply']
    split
    · exact h.forget.of_lasting (hm r (fun _ => trivial) _ 0 (.refl _)) ‹_›
    · exact h.forget
  cases s with
  | ccb t l rq => exact hattached _ (sdmmc_sim_action_lasting fuel t l rq)
  | pm_timer elapsed => exact hattached _ (sdmmc_timer_lasting elapsed)
  | sim_timer => exact hattached _ sim_timer_lasting
  | suspend => exact hattached _ sdmmc_suspend_lasting
  | resume => exact hattached _ sdmmc_resume_lasting
  | insertion card => exact sdmmc_sdio_insertion_reusable h.forget ht
  | removal => exact sdmmc_sdio_removal_reusable h.forget ht

theorem Reached.reusable {fuel : ℕ} {opts : Eflags} {w₀ w : World} (h₀ : Reusable opts w₀)
    (h : Reached fuel (Tidy opts) w₀ w) : Reusable opts w := by
  induction h with
  | start => exact h₀
  | step _ hC ih => exact step_reusable fuel ih hC

/-- **Reuse**: after a run of tidy steps, a card that is found on the bus without one gets the
targets, the partitions and the state that it would get on a new bus with the same options, and at
most seven targets beside the first. -/
theorem reuse_run (fuel : ℕ) (opts : Eflags) (has_pm : Bool) {w : World}
    (h : Reached fuel (Tidy opts) (emptyBus opts has_pm) w) (hatt : w.attached = false)
    (card : Card)
    {r : ℕ → DevAnswer} (hr : (r 0).alloc = true) :
    (step fuel w (.insertion card, r)).observed =
        (step fuel (emptyBus opts has_pm) (.insertion card, r)).observed ∧
      (step fuel w (.insertion card, r)).ext.ntargs ≤ SDMMC_TARGET_MAX - 1 := by
  have hw := h.reusable (emptyBus_reusable opts has_pm)
  have hnew := emptyBus_reusable opts has_pm
  refine ⟨insertion_observed hw hnew hatt rfl card fuel hr, ?_⟩
  have hshow := insertion_shows (w := w.forget) hatt card hr
  have hl : (step fuel w (.insertion card, r)).ext.ntargs =
      (configure r (w.forget.mounted card, 1)).2.1.ext.ntargs :=
    ntargs_of_layout (congrArg (fun o => o.1) hshow)
  rw [hl, (configure_lasting r 1).ntargs]
  exact (mounted_ntargs hw.forget hnew card).2

/-! ### What stays -/

/-- A bus after a card was put in and taken out. -/
def usedBus (opts : Eflags) (card : Card) : World :=
  step 0 (step 0 (emptyBus opts false) (.insertion card, willing)) (.removal, willing)

theorem reuse_usedBus :
    (usedBus { partitions := true } { bootCard with dtype := .sd }).attached = false ∧
    (step 0 (usedBus { partitions := true } { bootCard with dtype := .sd })
        (.insertion bootCard, willing)).observed = bootBus.observed := by
  have hatt : (usedBus { partitions := true } { bootCard with dtype := .sd }).attached = false := by
    decide +kernel
  refine ⟨hatt, (reuse_run 0 { partitions := true } false ?_ hatt bootCard (by rfl)).1⟩
  refine .step (.step .start fun _ _ => ⟨fun _ => rfl, rfl, fun h => by cases h⟩) fun _ => ⟨?_, ?_⟩
  · decide +kernel
  · decide +kernel

/-- With partitions on, an MMC card that is taken out and put in again has its targets counted
twice, and the boot partition of a card stays for an SD card that comes after it. -/
theorem target_left :
    bootBus.ext.ntargs = 7 ∧
      (step 0 (usedBus { partitions := true } bootCard) (.insertion bootCard, willing)).ext.ntargs =
        14 ∧
      (step 0 (usedBus { partitions := true } bootCard)
        (.insertion { bootCard with dtype := .sd }, willing)).admits 1 0
            (.read10 { lba := 0, len := 512 }) =
          true ∧
      ((step 0 (usedBus { partitions := true } bootCard)
        (.insertion { bootCard with dtype := .sd }, willing)).part 1 0).nlba = 256 := by
  refine ⟨?_, ?_, ?_, ?_⟩
  · decide +kernel
  · decide +kernel
  · decide +kernel
  · decide +kernel

end Sdmmc
