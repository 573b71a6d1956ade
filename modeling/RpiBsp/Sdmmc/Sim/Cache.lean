import RpiBsp.Sdmmc.Sim.Guard

/-!
# Sdmmc — Sim — cache

Reset, power states, requests and cards that come and go, and the flags of the volatile cache.

* `sdmmc_reset_guarded` — the driver's own reset keeps the flags right, whatever the device answers.
* `Settled` — the steps that keep them right: the functions that reset a card or switch its cache
  off without looking at the flags run only with nothing pending.
* `cache_run` — in a run of such steps no write is passed on after unmarked data was lost, and no
  reset marks the partition without need.
* `pause_run_cache` — a pause and a run of the driver break either half.
-/

namespace Sdmmc

open Support

/-! ### Reset -/

/-- The program keeps the flags right. -/
def KeepsGuard {α : Type} (m : SimM α) : Prop := Prog.Keeps (fun _ => True) Guarded m

theorem keepsGuard_of_aside {α : Type} {m : SimM α} (h : Prog.Moves Aside m) : KeepsGuard m :=
  h.keeps fun _ _ ha => ha.guarded

theorem KeepsGuard.of {α : Type} {m : SimM α} (h : KeepsGuard m) {P : World → Prop}
    (hP : ∀ w, P w → Guarded w) : Prog.Triple (fun _ => True) P m fun _ => Guarded :=
  Prog.Triple.pre (Q := fun _ => Guarded) h hP

theorem Safe.poweredDown {w : World} (h : Safe w) : Safe w.poweredDown where
  left :=
    { h.1 with
      lost := fun hl => by
        change (w.lost || w.unflushed) = true at hl
        rcases Bool.or_eq_true_iff.mp hl with hl | hu
        · exact h.1.lost hl
        · exact h.2 hu }
  right := h.2

theorem Safe.resetCard {w : World} (h : Safe w) : Safe w.resetCard :=
  ⟨{ h.poweredDown.1 with }, h.2⟩

/-- The cache is switched off. -/
theorem Safe.cacheOff {w : World} (h : Safe w) :
    Safe (w.setFlags fun f => { f with cache := false }) where
  left := { h.1 with covered := fun hu => ⟨(h.1.covered hu).1, .inr (h.2 hu)⟩ }
  right := h.2

theorem Clean.cacheOff {w : World} (h : Clean w) :
    Clean (w.setFlags fun f => { f with cache := false }) where
  left := h.quiet.safe.cacheOff.1
  right := h.2

/-- The device was reset, and the driver has not looked at its flags yet. -/
def Shaken (w : World) : Prop :=
  Guarded { w with lost := false } ∧ (w.lost = true → w.userWp = true ∨ w.unflushed = true)

theorem Guarded.shaken {w : World} (h : Guarded w) : Shaken w :=
  ⟨{ h with lost := fun hl => by cases hl }, fun hl => .inl (h.lost hl)⟩

theorem Guarded.shaken_resetCard {w : World} (h : Guarded w) : Shaken w.resetCard where
  left := { h with lost := fun hl => by cases hl }
  right hl := by
    change (w.lost || w.unflushed) = true at hl
    rcases Bool.or_eq_true_iff.mp hl with hl | hu
    · exact .inl (h.lost hl)
    · exact .inr hu

theorem Shaken.safe {w : World} (h : Shaken w) (hs : Spared w) : Safe w where
  left :=
    { h.1 with
      lost := fun hl => by
        rcases h.2 hl with hwp | hu
        · exact hwp
        · exact hs hu }
  right := hs

theorem userWp_set_partition_attr {w : World} (hu : partOf (w.part 0 0).config = MMC_PART_USER) :
    (sdmmc_set_partition_attr MMC_PART_USER w).userWp = true := by
  change (if 0 ≤ w.ext.ntargs ∧ 0 ≤ w.ext.nluns 0 ∧ partOf (w.part 0 0).config = MMC_PART_USER then
    { w.part 0 0 with wp := true } else w.part 0 0).wp = true
  rw [if_pos ⟨Nat.zero_le _, Nat.zero_le _, hu⟩]

/-- A partition that is marked excuses everything. -/
theorem Shaken.marked {w : World} (h : Shaken w) (hd : w.dirty = true) :
    Safe ((sdmmc_set_partition_attr MMC_PART_USER w).logged (.marked w.unflushed)) := by
  have hwp := userWp_set_partition_attr h.1.user
  refine ⟨⟨fun _ => hwp, fun hu => ⟨(h.1.covered hu).1, .inr hwp⟩, h.1.dirty, ?_, h.1.caps, ?_,
    fun _ _ => hwp, h.1.absent, fun e he => ?_⟩, fun _ => hwp⟩
  · change partOf (if 0 ≤ w.ext.ntargs ∧ 0 ≤ w.ext.nluns 0 ∧
      partOf (w.part 0 0).config = MMC_PART_USER then { w.part 0 0 with wp := true }
      else w.part 0 0).config = MMC_PART_USER
    split <;> exact h.1.user
  · intro ha
    rcases h.1.asleep ha with hg | ⟨hpm, _, hact⟩
    · exact .inl hg
    · exact .inr ⟨hpm, fun _ => hwp, hact⟩
  · rcases List.mem_cons.mp he with rfl | he
    · exact h.1.dirty hd
    · exact h.1.log e he

/-- **The mark**: after the driver has looked at its flags, a reset has done no harm. -/
theorem Shaken.cacheLost {w : World} (h : Shaken w) : Safe (cacheLost w) := by
  rw [Sdmmc.cacheLost]
  split
  case isTrue =>
    cases hd : w.ext.eflags.vcache_dirty with
    | true => exact (h.marked hd).cacheOff
    | false =>
        refine (h.safe fun hu => ?_).cacheOff
        have hd' : w.dirty = true := (h.1.covered hu).1
        rw [World.dirty, hd] at hd'
        cases hd'
  case isFalse hoff =>
    refine h.safe fun hu => ?_
    rcases (h.1.covered hu).2 with he | hwp
    · exact absurd (Bool.and_eq_true_iff.mp he) hoff
    · exact hwp

theorem sdio_cache_aside {op : CacheOp} (hop : op ≠ .flush) : Prog.Moves Aside (sdio_cache op) := by
  refine .bind .get fun w =>
    .ite (.pure _) (moves_callDevice aside_gone fun a => .bind .get fun w => ?_)
  cases op with
  | disable =>
      exact .bind (.modify fun w => .ite (.of_guards rfl rfl rfl rfl rfl) (.refl w)) fun _ =>
        .pure _
  | enable =>
      exact .bind (.modify fun w => .ite (.of_guards rfl rfl rfl rfl rfl) (.refl w)) fun _ =>
        .pure _
  | flush => exact absurd rfl hop

section Configuration

/- A property that holds with the cache on or off is kept by the configuration of the device. -/
variable {A : DevAnswer → Prop} {P : World → Prop} (ha : ∀ w w', Aside w w' → P w → P w')
  (hoff : ∀ w, P w → P (w.setFlags fun f => { f with cache := false }))

include ha hoff

theorem cfgCache_keeps : Prog.Keeps A P cfgCache := by
  refine .bind .get fun w =>
    .ite (.bind ((sdio_cache_aside ?_).keeps ha) fun s => .modify fun w h => ?_) (.pure _)
  · split <;> exact nofun
  · split
    · exact hoff w h
    · exact h

theorem sdmmc_dev_cfg_keeps : Prog.Keeps A P sdmmc_dev_cfg :=
  .bind (cfgCache_keeps ha hoff) fun _ => .bind (cfgMmc_aside.keeps ha) fun _ =>
    cfgPwroff_aside.keeps ha

end Configuration

/-- **Reset** keeps the flags right. -/
theorem sdmmc_reset_guarded : Prog.Triple (fun _ => True) Guarded sdmmc_reset fun _ => Safe := by
  refine .bind (Q := fun _ => Shaken) ?_ fun _ => .bind (Q := fun _ => Safe) ?_ fun _ => ?_
  · refine triple_callDevice (fun w b h => (aside_gone w b).guarded h) (fun w h _ => h.shaken)
      fun a _ => ?_
    exact .bind (Q := fun _ => Shaken) (.modify fun w h => h.1.shaken_resetCard) fun _ =>
      .pure fun _ h => h
  · exact .modify fun w h => h.cacheLost
  · exact sdmmc_dev_cfg_keeps (fun _ _ ha h => ha.safe h) fun w h => h.cacheOff

theorem sdmmc_reset_keepsGuard : KeepsGuard sdmmc_reset := sdmmc_reset_guarded.post fun _ _ h => h.1

/-! ### Flush and configuration -/

theorem Clean.flush {w : World} (h : Clean w) : Clean { w with unflushed := false } := by
  have hu := h.flushed
  rwa [show { w with unflushed := false } = w by rw [← hu]]

/-- A flush that succeeds leaves nothing unflushed, and one that fails changes nothing. -/
theorem sdio_flush_triple {A : DevAnswer → Prop} {P : World → Prop} {Q : Errno → World → Prop}
    (ha : ∀ w w', Aside w w' → P w → P w') (hfail : ∀ s w, s ≠ .eok → P w → Q s w)
    (hok : ∀ w, P w → Q .eok { w with unflushed := false }) :
    Prog.Triple A P (sdio_cache .flush) Q := by
  refine .bind (Q := fun _ => P) (.get fun _ h => h) fun w =>
    .ite (fun _ => .pure fun w h => ?_) fun _ => ?_
  · exact hfail _ w nofun h
  refine triple_callDevice (fun w b h => ha _ _ (aside_gone w b) h) (fun w h _ => hfail _ w nofun h)
    fun a _ => ?_
  refine .bind (Q := fun _ => P) (.get fun w h => h.1) fun w => ?_
  generalize (if w.wce = true then a.status else Errno.eok) = status
  intro r _ w n h
  change Q status (if status = .eok then { w with unflushed := false } else w)
  by_cases hs : status = .eok
  · rw [if_pos hs, hs]
    exact hok w h
  · rw [if_neg hs]
    exact hfail status w hs h

/-- With a clean cache a flush has nothing to do. -/
theorem sdio_flush_clean {A : DevAnswer → Prop} : Prog.Keeps A Clean (sdio_cache .flush) :=
  sdio_flush_triple (fun _ _ ha h => ha.clean h) (fun _ _ _ h => h) fun _ h => h.flush

/-- What is left after the flush of `sdmmc_dev_dcfg` and of `sdmmc_detach`: nothing of the flags. -/
theorem sdmmc_dev_dcfg_quiet {A : DevAnswer → Prop} : Prog.Keeps A Quiet sdmmc_dev_dcfg := by
  refine Prog.Triple.get_bind fun w₀ h₀ => ?_
  refine .bind (Q := fun _ => Quiet) (.ite (fun he => ?_) fun _ => .pure fun w hw => ?_)
    fun status => ?_
  · refine sdio_flush_clean.mono (fun w hw => ?_) fun _ _ h => h.quiet
    rw [hw]
    exact h₀.clean (Bool.and_eq_true_iff.mpr he)
  · rw [hw]
    exact h₀
  · have ha : ∀ w w', Aside w w' → Quiet w → Quiet w' := fun _ _ ha h => ha.quiet h
    refine Prog.Keeps.bind (.ite ((sdmmc_bkops_cfg_aside false).keeps ha) (.pure _))
      fun status => ?_
    exact .ite ((sdio_pwroff_notify_aside _).keeps ha) (.pure _)

theorem sdmmc_dev_dcfg_clean {A : DevAnswer → Prop} : Prog.Keeps A Clean sdmmc_dev_dcfg := by
  have ha : ∀ w w', Aside w w' → Clean w → Clean w' := fun _ _ ha h => ha.clean h
  refine .bind .get fun w => .bind (.ite sdio_flush_clean (.pure _)) fun status => ?_
  refine .bind (.ite ((sdmmc_bkops_cfg_aside false).keeps ha) (.pure _)) fun status => ?_
  exact .ite ((sdio_pwroff_notify_aside _).keeps ha) (.pure _)

/-- The flags of a flush that succeeded. -/
theorem Guarded.flush {w : World} (h : Guarded w) :
    Clean (World.setFlags (fun f => { f with vcache_dirty := false })
    { w with unflushed := false }) where
  left :=
    { h with
      covered := fun hu => by cases hu
      dirty := fun hd => by cases hd
      asleep := fun ha => by
        rcases h.asleep ha with hg | ⟨hpm, _, hact⟩
        · exact .inl hg
        · exact .inr ⟨hpm, spared_of_flushed rfl, hact⟩
      suspended := fun _ => spared_of_flushed rfl
      absent := fun _ => rfl }
  right := rfl

/-- **Flush**: a flush that succeeds leaves nothing pending. -/
theorem sdmmc_cache_flush_guarded {A : DevAnswer → Prop} :
    Prog.Triple A Guarded sdmmc_cache_flush fun s w => Guarded w ∧ (s = .eok → Quiet w) := by
  refine .get_bind fun w₀ h₀ => .ite (fun _ => ?_) fun hp => .pure fun w hw => ?_
  · refine .bind (Q := fun s w => (s ≠ .eok → Guarded w) ∧
      (s = .eok → Clean (w.setFlags fun f => { f with vcache_dirty := false }))) ?_ fun s => ?_
    · refine (sdio_flush_triple (P := Guarded) (fun _ _ ha h => ha.guarded h) (fun s w hs h => ?_)
        fun w h => ?_).pre fun w hw => by rw [hw]; exact h₀
      · exact ⟨fun _ => h, fun he => absurd he hs⟩
      · exact ⟨fun he => absurd rfl he, fun _ => h.flush⟩
    · refine .bind (Q := fun _ w => Guarded w ∧ (s = .eok → Quiet w)) (.modify fun w h => ?_)
        fun _ => .pure fun _ h => h
      by_cases hs : s = .eok
      · rw [if_pos hs]
        exact ⟨(h.2 hs).1, fun _ => (h.2 hs).quiet⟩
      · rw [if_neg hs]
        exact ⟨h.1 hs, fun he => absurd he hs⟩
  · rw [hw]
    exact ⟨h₀, fun _ => ⟨h₀, by simpa using hp⟩⟩

/-! ### Power states -/

/-- The card is awake, or no call gets through. -/
def Awake (w : World) : Prop := w.asleep → w.gone = true

theorem Guarded.awake {w : World} (h : Guarded w)
    (hpm : w.has_pm = false ∨ w.ext.pm_state = .active) :
    Awake w := by
  intro ha
  rcases h.asleep ha with hg | ⟨hhas, _, hact⟩
  · exact hg
  · rcases hpm with hpm | hpm
    · rw [hpm] at hhas
      cases hhas
    · exact absurd hpm hact

/-- The state of the device, as the driver has it, when the card is awake. -/
theorem Guarded.setActive {w : World} (h : Guarded w) (ha : Awake w) :
    Guarded (w.setExt fun e => { e with pm_state := .active }) :=
  { h with asleep := fun has => .inl (ha has), suspended := fun hs => by cases hs }

theorem Guarded.woken {w : World} (h : Guarded w) : Guarded { w with hc_pm := .active } :=
  { h with asleep := fun ha => absurd ha (not_asleep (.inl rfl)) }

theorem sdio_pwrmgnt_active_guarded :
    Prog.Triple (fun _ => True) Guarded (sdio_pwrmgnt .active) fun _ w => Guarded w ∧ Awake w := by
  refine triple_callDevice (fun w b h => (aside_gone w b).guarded h)
    (fun w h hg => ⟨h, fun _ => hg⟩) fun a _ => ?_
  refine .get_bind fun w₀ h₀ => .ite (fun hc => .pure fun w hw => ?_) fun hc => ?_
  · rw [hw]
    refine ⟨h₀.1, ?_⟩
    rcases hc with hhas | hact
    · exact h₀.1.awake (.inl (by simpa using hhas))
    · exact fun ha => absurd ha (not_asleep (.inl hact))
  · refine .bind (Q := fun _ w => Guarded w ∧ Awake w) (.modify fun w hw => ?_) fun _ =>
      .pure fun _ h => h
    rw [hw]
    refine ⟨?_, fun ha => absurd ha (not_asleep (.inl rfl))⟩
    split
    case isTrue hreset =>
      -- The card was asleep, so what is unflushed may be lost.
      have ha : w₀.asleep := by
        rcases hreset with hs | ⟨hs, _⟩
        · exact .inr hs
        · exact .inl hs
      rcases h₀.1.asleep ha with hg | ⟨_, hs, _⟩
      · rw [h₀.2] at hg
        cases hg
      · exact (Safe.resetCard ⟨h₀.1, hs⟩).1.woken
    case isFalse => exact h₀.1.woken

theorem sdmmc_pm_active_guarded : KeepsGuard (sdmmc_pm .active) := by
  refine Prog.Keeps.bind .get fun w => .ite (.pure _) ?_
  refine Prog.Triple.bind sdio_pwrmgnt_active_guarded fun status => ?_
  exact .modify fun w h => h.1.setActive h.2

theorem Guarded.setIdle {w : World} (h : Guarded w) :
    Guarded (w.setExt fun e => { e with pm_state := .idle }) :=
  { h with
    asleep := fun ha => by
      rcases h.asleep ha with hg | ⟨hpm, hs, _⟩
      · exact .inl hg
      · exact .inr ⟨hpm, hs, nofun⟩
    suspended := nofun }

theorem sdmmc_pm_idle_guarded : KeepsGuard (sdmmc_pm .idle) := by
  refine Prog.Keeps.bind .get fun w => .ite (.pure _) (.bind ?_ fun status => ?_)
  · refine triple_callDevice (fun w b h => (aside_gone w b).guarded h) (fun w h _ => h)
      fun a _ => ?_
    refine Prog.Triple.pre (P := Guarded) ?_ fun w h => h.1
    refine Prog.Keeps.bind .get fun w =>
      .ite (.pure _) (.bind (.modify fun w h => ?_) fun _ => .pure _)
    split
    · exact { h with asleep := fun ha => absurd ha (not_asleep (.inr rfl)) }
    · exact h
  · rw [if_neg (by simp)]
    exact .modify fun w h => h.setIdle

/-- A state in which what is unflushed may be lost, whatever the controller does. -/
def Dozing (w : World) : Prop :=
  Safe { w with hc_pm := .active } ∧ (w.asleep → w.gone = true ∨ w.has_pm = true)

theorem Safe.dozing {w : World} (h : Safe w) : Dozing w := by
  refine ⟨⟨h.1.woken, h.2⟩, fun ha => ?_⟩
  rcases h.1.asleep ha with hg | ⟨hpm, _⟩
  · exact .inl hg
  · exact .inr hpm

theorem Dozing.of_gone {w : World} (h : Dozing w) (b : Bool) :
    Dozing { w with gone := w.gone || b } := by
  refine ⟨(aside_gone _ b).safe h.1, fun ha => ?_⟩
  rcases h.2 ha with hg | hpm
  · refine .inl ?_
    change (w.gone || b) = true
    rw [hg, Bool.true_or]
  · exact .inr hpm

theorem Dozing.safe {w : World} (h : Dozing w) {pm : Pm} (hpm : pm ≠ .active) :
    Safe (w.setExt fun e => { e with pm_state := pm }) where
  left :=
    { h.1.1 with
      asleep := fun ha => by
        rcases h.2 ha with hg | hhas
        · exact .inl hg
        · exact .inr ⟨hhas, h.1.2, hpm⟩
      suspended := fun _ => h.1.2 }
  right := h.1.2

/-- The controller puts the card to sleep, or switches it off. -/
theorem sdio_pwrmgnt_dozing {pm : Pm} (hpm : pm = .sleep ∨ pm = .suspend) :
    Prog.Keeps (fun _ => True) Dozing (sdio_pwrmgnt pm) := by
  refine triple_callDevice (fun w b h => h.of_gone b) (fun w h _ => h) fun a _ => ?_
  refine .get_bind fun w₀ h₀ => .ite (fun _ => .pure fun w hw => by rw [hw]; exact h₀.1)
    fun hc => ?_
  have hhas : w₀.has_pm = true := by
    cases hh : w₀.has_pm with
    | true => rfl
    | false => exact absurd (.inl (by rw [hh]; rfl)) hc
  have hdone : ∀ (s : Errno) (f : World → World), Dozing (f w₀) →
      Prog.Triple (fun _ => True) (fun w => w = w₀) (do modify f; return s : SimM Errno)
        fun _ => Dozing :=
    fun s f hf => .bind (Q := fun _ => Dozing) (.modify fun w hw => by rw [hw]; exact hf) fun _ =>
      .pure fun _ h => h
  rcases hpm with rfl | rfl
  · refine .ite (fun _ => hdone _ _ ?_) fun _ => hdone _ _ ?_
    · refine ⟨h₀.1.1.resetCard, fun ha => ?_⟩
      exact absurd ha (not_asleep (.inr rfl))
    · exact ⟨h₀.1.1, fun _ => .inr hhas⟩
  · exact hdone _ _ ⟨h₀.1.1.poweredDown, fun _ => .inr hhas⟩

theorem sdmmc_pm_down_safe {pm : Pm} (hpm : pm = .sleep ∨ pm = .suspend) :
    Prog.Keeps (fun _ => True) Safe (sdmmc_pm pm) := by
  refine Prog.Keeps.bind .get fun w => .ite (.pure _) ?_
  refine Prog.Triple.bind ((sdio_pwrmgnt_dozing hpm).pre fun w h => h.dozing) fun status => ?_
  refine .modify fun w h => h.safe ?_
  split
  · exact nofun
  · rcases hpm with rfl | rfl <;> exact nofun

/-- What a change of the power state leaves as it was. -/
structure Steady (w w' : World) : Prop where
  eflags : w'.ext.eflags = w.ext.eflags
  dev_inf : w'.ext.dev_inf = w.ext.dev_inf
  partitions : w'.ext.partitions = w.ext.partitions
  attached : w'.attached = w.attached
  unflushed : w'.unflushed = w.unflushed

instance : Std.Refl Steady := ⟨fun _ => ⟨rfl, rfl, rfl, rfl, rfl⟩⟩

instance : IsTrans World Steady := ⟨fun _ _ _ h h' =>
  ⟨h'.eflags.trans h.eflags, h'.dev_inf.trans h.dev_inf, h'.partitions.trans h.partitions,
    h'.attached.trans h.attached, h'.unflushed.trans h.unflushed⟩⟩

theorem sdmmc_pm_steady (op : Pm) : Prog.Moves Steady (sdmmc_pm op) := by
  refine .bind .get fun w =>
    .ite (.pure _) (.bind ?_ fun status => .modify fun w => ⟨rfl, rfl, rfl, rfl, rfl⟩)
  refine moves_callDevice (fun w b => ⟨rfl, rfl, rfl, rfl, rfl⟩) fun a => .bind .get fun w =>
    .ite (.pure _) ?_
  have hdone : ∀ (s : Errno) (f : World → World), (∀ w, Steady w (f w)) →
      Prog.Moves Steady (do modify f; return s : SimM Errno) :=
    fun s f hf => .bind (.modify hf) fun _ => .pure _
  cases op with
  | idle =>
      refine hdone _ _ fun w => ?_
      split <;> exact ⟨rfl, rfl, rfl, rfl, rfl⟩
  | active =>
      refine hdone _ _ fun w => ?_
      split <;> exact ⟨rfl, rfl, rfl, rfl, rfl⟩
  | sleep =>
      exact .ite (hdone _ _ fun w => ⟨rfl, rfl, rfl, rfl, rfl⟩)
        (hdone _ _ fun w => ⟨rfl, rfl, rfl, rfl, rfl⟩)
  | suspend => exact hdone _ _ fun w => ⟨rfl, rfl, rfl, rfl, rfl⟩

theorem Steady.pending {w w' : World} (h : Steady w w') : w'.pending = w.pending := by
  rw [World.pending, h.eflags, h.dev_inf]
  rfl

theorem sdmmc_pm_active_quiet : Prog.Keeps (fun _ => True) Quiet (sdmmc_pm .active) :=
  fun r hr w n h => ⟨sdmmc_pm_active_guarded r hr w n h.1,
    (sdmmc_pm_steady .active r w n).pending.trans h.2⟩

/-! ### Requests -/

theorem aside_guarded (w w' : World) (h : Aside w w') : Guarded w → Guarded w' := h.guarded

/-- The state in which a request is served. -/
def Ready (w : World) : Prop := Guarded w ∧ w.attached = true ∧ w.ext.pm_state = .active

/-- A write makes the cache dirty. -/
theorem Ready.dirty {w : World} (h : Ready w) (he : w.enabled = true) :
    Guarded { w.setFlags (fun f => { f with vcache_dirty := true }) with unflushed := true } :=
  { h.1 with
    covered := fun _ => ⟨rfl, .inl he⟩
    dirty := fun _ => rfl
    asleep := fun ha => .inl (h.1.awake (.inr h.2.2) ha)
    suspended := fun hs => by
      change w.ext.pm_state = .suspend at hs
      rw [h.2.2] at hs
      cases hs
    absent := fun hatt => by
      change w.attached = false at hatt
      rw [h.2.1] at hatt
      cases hatt }

theorem write10_guarded (fuel t l : ℕ) (x : Transfer) :
    Prog.Triple (fun _ => True) Ready (write10 fuel t l x) fun _ => Guarded := by
  refine .bind (Q := fun _ => Guarded) (.modify fun w h => ?_) fun _ =>
    sdmmc_read_write_keeps aside_guarded sdmmc_reset_keepsGuard sdmmc_pm_active_guarded _ _ _ _ _
  split
  case isTrue he => exact h.dirty (Bool.and_eq_true_iff.mpr he)
  case isFalse => exact h.1

theorem sdmmc_sync_guarded (t l : ℕ) : KeepsGuard (sdmmc_sync t l) := by
  refine .bind .get fun w =>
    .ite (.pure _) (.bind (keepsGuard_of_aside (sdmmc_unit_ready_aside t l))
    fun _ => .ite (.pure _) (.bind ?_ fun _ => .pure _))
  exact sdmmc_cache_flush_guarded.post fun _ _ h => h.1

/-- The cache is switched on. -/
theorem Guarded.cacheOn {w : World} (h : Guarded w) :
    Guarded (w.setFlags fun f => { f with cache := true }) :=
  { h with
    covered := fun hu => by
      obtain ⟨hd, he | hwp⟩ := h.covered hu
      · exact ⟨hd, .inl (Bool.and_eq_true_iff.mpr ⟨(Bool.and_eq_true_iff.mp he).1, rfl⟩)⟩
      · exact ⟨hd, .inr hwp⟩ }

theorem sdmmc_mpage_caching_guarded (wce : Bool) :
    Prog.Triple (fun _ => True) (fun w => Guarded w ∧ (wce = false → Quiet w))
        (sdmmc_mpage_caching wce)
      fun _ => Guarded := by
  let P : World → Prop := fun w => Guarded w ∧ (wce = false → Quiet w)
  have ha : ∀ w w', Aside w w' → P w → P w' :=
    fun _ _ ha h => ⟨ha.guarded h.1, fun hw => ha.quiet (h.2 hw)⟩
  have herror : ∀ e, Prog.Triple (fun _ => True) P (sdmmc_error e) fun _ => Guarded := fun e =>
    ((sdmmc_error_aside e).keeps ha).post fun _ _ h => h.1
  refine .bind (Q := fun _ => P) (.get fun _ h => h) fun w => .ite (fun _ => ?_) fun _ => herror _
  refine .bind (Q := fun _ => P) ((sdio_cache_aside ?_).keeps ha) fun status => .ite (fun _ => ?_)
    fun _ => herror _
  · cases wce <;> exact nofun
  · refine .bind (Q := fun _ => Guarded) (.modify fun w h => ?_) fun _ => .pure fun _ h => h
    cases wce with
    | true => exact h.1.cacheOn
    | false => exact (h.2 rfl).safe.cacheOff.1

/-- Pause and run, with nothing pending. -/
theorem sdmmc_drvr_state_devctl_guarded (t l : ℕ) (state : DrvrState) :
    Prog.Triple (fun _ => True) Quiet (sdmmc_drvr_state_devctl t l state) fun _ => Guarded := by
  refine .bind (Q := fun _ => Quiet) ((sdmmc_unit_ready_aside t l).keeps fun _ _ ha h => ha.quiet h)
    fun status => .ite (fun _ => .pure fun w h => h.1) fun _ => ?_
  have hdone : ∀ state, KeepsGuard (do
      modify fun w : World => w.setExt fun e => { e with drvr_state := state }
      return .eok : SimM Errno) := fun state =>
    keepsGuard_of_aside (.bind (.modify fun w => .of_guards rfl rfl rfl rfl rfl) fun _ => .pure _)
  cases state with
  | pause =>
      refine .bind sdmmc_dev_dcfg_quiet fun status =>
        .ite (fun _ => .pure fun w h => h.1) fun _ => ?_
      exact .bind (sdmmc_pm_idle_guarded.of fun w h => h.1) fun _ => hdone .pause
  | run =>
      refine .bind sdmmc_pm_active_quiet fun _ => .bind (Q := fun _ => Safe) ?_ fun _ => ?_
      · refine (triple_callDevice (P := Safe) (fun w b h => (aside_gone w b).safe h)
          (fun w h _ => h) fun a _ => ?_).pre fun w h => h.safe
        exact .bind (Q := fun _ => Safe) (.modify fun w h => h.1.resetCard) fun _ =>
          .pure fun _ h => h
      · refine .bind (Q := fun _ => Safe)
          (sdmmc_dev_cfg_keeps (fun _ _ ha h => ha.safe h) fun w h =>
          h.cacheOff) fun _ => ?_
        exact (hdone .run).of fun w h => h.1

/-! ### Steps -/

/-- What a request needs. -/
def Request.Settled (w : World) : Request → Prop
  | .mode_select false => w.pending = false
  | .drvr_state _ => w.pending = false
  | _ => True

/-- The steps that keep the flags right. -/
def Settled (w : World) (s : Step) (_ : ℕ → DevAnswer) : Prop :=
  match s with
  | .ccb _ _ rq => rq.Settled w
  | .suspend => w.pending = false
  | .resume => w.ext.pm_state = .suspend
  | .removal => w.dirty = false
  | _ => True

theorem dispatch_guarded (fuel t l : ℕ) {rq : Request} {w : World} (hw : Ready w)
    (hs : rq.Settled w)
    (r : ℕ → DevAnswer) (n : ℕ) : Guarded (dispatch fuel t l rq r (w, n)).2.1 := by
  have hT : ∀ k, (fun _ : DevAnswer => True) (r k) := fun _ => trivial
  cases rq with
  | read10 x =>
      exact sdmmc_read_write_keeps aside_guarded sdmmc_reset_keepsGuard sdmmc_pm_active_guarded
        fuel t l false x r hT w n hw.1
  | write10 x => exact write10_guarded fuel t l x r hT w n hw
  | sync => exact sdmmc_sync_guarded t l r hT w n hw.1
  | mode_select wce =>
      refine sdmmc_mpage_caching_guarded wce r hT w n ⟨hw.1, fun hoff => ⟨hw.1, ?_⟩⟩
      rw [hoff] at hs
      exact hs
  | erase12 lba nlba => exact (sdmmc_erase12_aside t l lba nlba r w n).guarded hw.1
  | write_same unmap lba nlba =>
      exact (sdmmc_write_same_aside t l unmap lba nlba r w n).guarded hw.1
  | erase action lba nlba => exact (sdmmc_erase_devctl_aside t l action lba nlba r w n).guarded hw.1
  | dsm opt fits ranges => exact (sdmmc_dsm_devctl_aside t l opt fits ranges r w n).guarded hw.1
  | write_protect action mode lba nlba =>
      exact (sdmmc_wp_devctl_aside t l action mode lba nlba r w n).guarded hw.1
  | card_register type action =>
      exact sdmmc_card_register_devctl_keeps aside_guarded sdmmc_reset_keepsGuard t l type action
        r hT w n hw.1
  | rpmb flags refused =>
      exact sdmmc_rpmb_devctl_keeps aside_guarded sdmmc_reset_keepsGuard sdmmc_pm_active_guarded
        t l flags refused r hT w n hw.1
  | drvr_state state => exact sdmmc_drvr_state_devctl_guarded t l state r hT w n ⟨hw.1, hs⟩

theorem Request.Settled.of_steady {rq : Request} {w w' : World} (h : rq.Settled w)
    (hs : Steady w w') :
    rq.Settled w' := by
  cases rq with
  | mode_select wce =>
      cases wce with
      | true => trivial
      | false => exact hs.pending.trans h
  | drvr_state state => exact hs.pending.trans h
  | _ => trivial

theorem sdmmc_sim_action_guarded (fuel : ℕ) {t l : ℕ} {rq : Request} {w : World} (hw : Guarded w)
    (hatt : w.attached = true) (hs : rq.Settled w) (r : ℕ → DevAnswer) (n : ℕ) :
    Guarded (sdmmc_sim_action fuel t l rq r (w, n)).2.1 := by
  rw [sdmmc_sim_action, Prog.bind_apply, Prog.get_apply, Prog.ite_apply']
  split
  swap
  · exact hw
  have hst := sdmmc_pm_steady .active r w n
  have hend : KeepsGuard (do
      let status ← sdio_retune
      if status ≠ .eok then sdmmc_reset else return ()) :=
    .bind (keepsGuard_of_aside sdio_retune_aside) fun _ => .ite sdmmc_reset_keepsGuard (.pure _)
  refine hend r (fun _ => trivial) _ _ (dispatch_guarded fuel t l ?_ (hs.of_steady hst) r _)
  exact ⟨sdmmc_pm_active_guarded r (fun _ => trivial) w n hw, hst.attached.trans hatt,
    sdmmc_pm_active_state r w n⟩

theorem sdmmc_timer_guarded (elapsed : Bool) : KeepsGuard (sdmmc_timer elapsed) := by
  refine .bind .get fun w =>
    .ite (.pure _) (.ite (.ite sdmmc_pm_idle_guarded (.pure _)) (.ite ?_ (.pure _)))
  refine Prog.Triple.bind sdmmc_cache_flush_guarded fun status => .ite (fun hs => ?_) fun _ => ?_
  · exact (sdmmc_pm_down_safe (.inl rfl)).mono (fun w h => (h.2 hs).safe) fun _ _ h => h.1
  · exact .pure fun w h => h.1

theorem sim_timer_guarded : KeepsGuard sim_timer :=
  .bind .get fun _ => .ite
    (sdmmc_bkops_keeps aside_guarded sdmmc_reset_keepsGuard sdmmc_pm_active_guarded true) (.pure _)

theorem sdmmc_suspend_guarded :
    Prog.Triple (fun _ => True) Quiet sdmmc_suspend fun _ => Guarded := by
  refine .bind sdmmc_pm_active_quiet fun _ => .bind sdmmc_dev_dcfg_quiet fun _ => ?_
  exact (sdmmc_pm_down_safe (.inr rfl)).mono (fun w h => h.safe) fun _ _ h => h.1

theorem Steady.spared {w w' : World} (h : Steady w w') (hs : Spared w) : Spared w' := by
  intro hu
  rw [World.userWp, World.part, h.partitions]
  exact hs (h.unflushed.symm.trans hu)

/-- What was unflushed when the card was suspended may be lost. -/
theorem sdmmc_resume_guarded : Prog.Triple (fun _ => True) Safe sdmmc_resume fun _ => Guarded := by
  refine .bind (Q := fun _ => Safe) (fun r hr w n h => ?_) fun _ => ?_
  · exact ⟨sdmmc_pm_active_guarded r hr w n h.1, (sdmmc_pm_steady .active r w n).spared h.2⟩
  · have hcfg : Prog.Keeps (fun _ => True) Safe sdmmc_dev_cfg :=
      sdmmc_dev_cfg_keeps (fun _ _ ha h => ha.safe h) fun w h => h.cacheOff
    exact Prog.Triple.post hcfg fun _ _ h => h.1

/-! ### Insertion and removal -/

theorem partOf_pconf_user (ecsd : ℕ → ℕ) : partOf (pconf ecsd MMC_PART_USER) = MMC_PART_USER := by
  simp only [pconf, partOf, MMC_PART_USER]
  omega

/-- The user partition after the partitions of a card are set up. -/
theorem sdmmc_partition_config_user (ecsd : ℕ → ℕ) (e : Ext) :
    (sdmmc_partition_config ecsd e).partitions 0 0 = userPartition e ecsd (e.partitions 0 0) := by
  rw [sdmmc_partition_config]
  split <;> rfl

theorem sdmmc_partition_config_frame (ecsd : ℕ → ℕ) (e : Ext) :
    (sdmmc_partition_config ecsd e).eflags = e.eflags ∧
      (sdmmc_partition_config ecsd e).dev_inf = e.dev_inf ∧
      (sdmmc_partition_config ecsd e).pm_state = e.pm_state := by
  rw [sdmmc_partition_config]
  split <;> exact ⟨rfl, rfl, rfl⟩

/-- A card that is found has nothing unflushed. -/
theorem Clean.found {w : World} (h : Clean w) (card : Card) : Clean (w.found card) where
  left :=
    { h.1 with
      covered := fun hu => by cases hu
      dirty := fun hd => by
        have hd' : w.dirty = true := hd
        rw [h.2] at hd'
        cases hd'
      caps := rfl
      asleep := fun ha => absurd ha (not_asleep (.inl rfl))
      suspended := fun _ => spared_of_flushed rfl
      absent := fun hatt => by cases hatt }
  right := h.2

theorem Clean.configured {w : World} (h : Clean w) :
    Clean (w.setExt (sdmmc_partition_config w.raw_ecsd)) := by
  have hpart := sdmmc_partition_config_user w.raw_ecsd w.ext
  obtain ⟨hf, hd, hp⟩ := sdmmc_partition_config_frame w.raw_ecsd w.ext
  have hclean : (w.setExt (sdmmc_partition_config w.raw_ecsd)).dirty = false := by
    change (sdmmc_partition_config w.raw_ecsd w.ext).eflags.vcache_dirty = false
    rw [hf]
    exact h.2
  have hu : (w.setExt (sdmmc_partition_config w.raw_ecsd)).unflushed = false := h.flushed
  refine ⟨⟨fun hl => ?_, fun hu' => ?_, fun hd' => ?_, ?_, ?_, fun ha => ?_, fun _ =>
    ?_, fun _ => hclean, h.1.log⟩, hclean⟩
  · change ((sdmmc_partition_config w.raw_ecsd w.ext).partitions 0 0).wp = true
    have hwp : (w.ext.partitions 0 0).wp = true := h.1.lost hl
    rw [hpart, userPartition, hwp]
    rfl
  · rw [hu] at hu'
    cases hu'
  · rw [hclean] at hd'
    cases hd'
  · change partOf ((sdmmc_partition_config w.raw_ecsd w.ext).partitions 0 0).config = MMC_PART_USER
    rw [hpart, userPartition]
    dsimp only
    split
    · exact partOf_pconf_user _
    · rfl
  · change (sdmmc_partition_config w.raw_ecsd w.ext).dev_inf.caps.cache = w.info.caps.cache
    rw [hd]
    exact h.1.caps
  · rcases h.1.asleep ha with hg | ⟨hhas, _, hact⟩
    · exact .inl hg
    · exact .inr ⟨hhas, spared_of_flushed hu, hp ▸ hact⟩
  · exact spared_of_flushed hu

theorem sdmmc_detach_guarded : Prog.Triple (fun _ => True) Clean sdmmc_detach fun _ => Guarded := by
  refine .bind sdmmc_dev_dcfg_clean fun _ => .modify fun w h => ?_
  exact { h.1 with absent := fun _ => h.2 }

theorem sdmmc_sdio_insertion_guarded (card : Card) :
    Prog.Triple (fun _ => True) Guarded (sdmmc_sdio_insertion card) fun _ => Guarded := by
  refine .get_bind fun w₀ h₀ => ?_
  refine .bind (Q := fun _ w => w = w₀) (.ask fun _ _ _ h => h) fun a =>
    .ite (fun _ => ?_) fun hc => ?_
  · exact .pure fun w hw => by rw [hw]; exact h₀
  have hclean : Clean w₀ := by
    refine ⟨h₀, h₀.absent ?_⟩
    cases hatt : w₀.attached with
    | false => rfl
    | true => exact absurd (.inl hatt) hc
  refine Prog.Triple.pre (P := Clean) ?_ fun w hw => by rw [hw]; exact hclean
  refine .bind (Q := fun _ => Clean) (.modify fun w h => h.found card) fun _ => ?_
  refine .bind (Q := fun _ => Clean) (.modify fun w h => h.configured) fun _ => ?_
  have hcfg : Prog.Keeps (fun _ => True) Clean sdmmc_dev_cfg :=
    sdmmc_dev_cfg_keeps (fun _ _ ha h => ha.clean h) fun w h => h.cacheOff
  refine .bind hcfg fun _ => .bind (Q := fun _ => Clean) (.ask fun _ _ _ h => h) fun reg => ?_
  refine .ite (fun _ => sdmmc_detach_guarded) fun _ => .modify fun w h => { h.1 with }

theorem sdmmc_sdio_removal_guarded :
    Prog.Triple (fun _ => True) Clean sdmmc_sdio_removal fun _ => Guarded := by
  refine .bind (Q := fun _ => Clean) (.get fun _ h => h) fun w =>
    .ite (fun _ => .pure fun w h => h.1) fun _ => ?_
  refine .bind (Q := fun _ => Clean) (.modify fun w h => ?_) fun _ => sdmmc_detach_guarded
  have hdown := h.quiet.safe.poweredDown
  exact ⟨{ hdown.1 with asleep := fun _ => .inl rfl }, h.2⟩

/-! ### Runs -/

theorem Guarded.forget {w : World} (h : Guarded w) : Guarded w.forget :=
  { h with log := fun _ he => absurd he List.not_mem_nil }

/-- **One step** keeps the flags right. -/
theorem step_guarded (fuel : ℕ) {w : World} {s : Step} {r : ℕ → DevAnswer} (hw : Guarded w)
    (hs : Settled w s r) : Guarded (step fuel w (s, r)) := by
  have hT : ∀ k, (fun _ : DevAnswer => True) (r k) := fun _ => trivial
  have hattached : ∀ m : SimM Unit, (w.attached = true → Guarded (m r (w.forget, 0)).2.1) →
      Guarded (whenAttached m r (w.forget, 0)).2.1 := by
    intro m hm
    rw [whenAttached, Prog.bind_apply, Prog.get_apply, Prog.ite_apply']
    split
    · exact hm ‹_›
    · exact hw.forget
  cases s with
  | ccb t l rq =>
      exact hattached _ fun hatt => sdmmc_sim_action_guarded fuel hw.forget hatt (by exact hs) r 0
  | pm_timer elapsed => exact hattached _ fun _ => sdmmc_timer_guarded elapsed r hT _ 0 hw.forget
  | sim_timer => exact hattached _ fun _ => sim_timer_guarded r hT _ 0 hw.forget
  | suspend => exact hattached _ fun _ => sdmmc_suspend_guarded r hT _ 0 ⟨hw.forget, hs⟩
  | resume => exact hattached _ fun _ => sdmmc_resume_guarded r hT _ 0 ⟨hw.forget, hw.suspended hs⟩
  | insertion card => exact sdmmc_sdio_insertion_guarded card r hT _ 0 hw.forget
  | removal => exact sdmmc_sdio_removal_guarded r hT _ 0 ⟨hw.forget, hs⟩

theorem emptyBus_guarded (opts : Eflags) (has_pm : Bool) : Guarded (emptyBus opts has_pm) where
  lost h := by cases h
  covered h := by cases h
  dirty h := by cases h
  user := rfl
  caps := rfl
  asleep _ := .inl rfl
  suspended := nofun
  absent _ := rfl
  log _ he := absurd he List.not_mem_nil

theorem Reached.guarded {fuel : ℕ} {w₀ w : World} (h₀ : Guarded w₀)
    (h : Reached fuel Settled w₀ w) :
    Guarded w := by
  induction h with
  | start => exact h₀
  | step _ hC ih => exact step_guarded fuel ih hC

/-- **The volatile cache**: in every state of a run of settled steps, data was lost only with the
user partition marked; so it is before every write that is passed to the card, and no reset has
marked the partition with everything flushed. -/
theorem cache_run (fuel : ℕ) (opts : Eflags) (has_pm : Bool) {w : World}
    (h : Reached fuel Settled (emptyBus opts has_pm) w) :
    (w.lost = true → w.userWp = true) ∧
      (∀ config access lba lost wp, Event.data true config access lba lost wp ∈ w.log →
        lost = true → wp = true) ∧
      ∀ unflushed, Event.marked unflushed ∈ w.log → unflushed = true := by
  have hw := h.guarded (emptyBus_guarded opts has_pm)
  refine ⟨hw.lost, fun config access lba lost wp he hl => ?_, fun unflushed he => hw.log _ he⟩
  have hsafe := hw.log _ he
  rw [hl] at hsafe
  simpa [Event.safe] using hsafe

/-! ### Pause and run -/

/-- A card with a volatile cache. -/
def cacheCard : Card where
  dtype := .mmc
  info :=
    { caps := { hc := true, cache := true }, sectors := 1024, sector_size := 512
      erase_size := 8 }
  hc_inf := {}
  ecsd := fun _ => 0

/-- The card is found, a mode select switches its cache on, and a block is written to it. -/
def writtenBus (opts : Eflags) : World :=
  step 0 (step 0 (step 0 (emptyBus opts false) (.insertion cacheCard, willing))
    (.ccb 0 0 (.mode_select true), willing)) (.ccb 0 0 (.write10 { lba := 3, len := 512 }), willing)

theorem reached_writtenBus (opts : Eflags) :
    Reached 0 Settled (emptyBus opts false) (writtenBus opts) :=
  .step (.step (.step .start trivial) trivial) trivial

/-- A write whose response does not come. -/
def timedOut : ℕ → DevAnswer := fun k => if k = 0 then {} else { status := .etimedout }

/-- A reset with a dirty cache: the partition is marked, and the data was not flushed. -/
theorem cache_writtenBus :
    Event.marked true ∈
        (step 0 (writtenBus {}) (.ccb 0 0 (.read10 { lba := 3, len := 512 }), timedOut)).log ∧
      ∀ unflushed, Event.marked unflushed ∈
        (step 0 (writtenBus {}) (.ccb 0 0 (.read10 { lba := 3, len := 512 }), timedOut)).log →
          unflushed = true := by
  refine ⟨by decide +kernel, (cache_run 0 {} false ?_).2.2⟩
  exact .step (reached_writtenBus _) trivial

/-- The driver is paused, with the answers that the device gives then, and runs again. -/
def pausedBus (opts : Eflags) (r : ℕ → DevAnswer) : World :=
  step 0 (step 0 (writtenBus opts) (.ccb 0 0 (.drvr_state .pause), r))
    (.ccb 0 0 (.drvr_state .run), willing)

/-- A flush that fails. -/
def flushFails : ℕ → DevAnswer := fun k => if k = 0 then { status := .eio } else {}

/-- The flush of a pause leaves the cache dirty: a reset after the driver runs again marks the
partition although everything was flushed.  With power off notification the status of a flush that
fails is overwritten: the pause succeeds, the reset when the driver runs again loses the data, and
the next write goes to an unmarked partition. -/
theorem pause_run_cache :
    (pausedBus {} willing).unflushed = false ∧
      Event.marked false ∈ (step 0 (pausedBus {} willing)
        (.ccb 0 0 (.read10 { lba := 3, len := 512 }), timedOut)).log ∧
      Event.data true 0 0 4 true false ∈
        (step 0 (pausedBus { pwroff_notify := true } flushFails)
          (.ccb 0 0 (.write10 { lba := 4, len := 512 }), willing)).log := by
  refine ⟨?_, ?_, ?_⟩
  · decide +kernel
  · decide +kernel
  · decide +kernel

end Sdmmc
