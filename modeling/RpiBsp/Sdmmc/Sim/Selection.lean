import RpiBsp.Sdmmc.Sim.WriteProtect

/-!
# Sdmmc — Sim — selection

An MMC card has one partition selected at a time.  The driver remembers which in `dev->pactive`, and
does not switch when the partition it needs is the one it remembers.

* `Synced` — driver and card agree, and what was done to partitions was done while they were
selected.
* `Unmistaken` — the steps that keep it so: a switch that is reported as failed in an erase, a
  trim or a write protection request did fail; a write of a card register leaves the selection
  alone; and an interrupt of background operations succeeds before a transfer of a partition other
  than the user area.
* `selection_run` — in a run of such steps, every transfer, erase and protection command for a
  partition is executed while the card has it selected.
* `stale_selection` — a trim of a boot partition whose switch takes effect but is reported as failed
  makes the next write of the user area one of the boot partition.
-/

namespace Sdmmc

open Support

/-! ### The invariant -/

/-- What is done to a partition is done while it is selected. -/
def Event.selected : Event → Bool
  | .data _ config access _ _ _ => partOf config = access
  | .erase config access _ _ _ => partOf config = access
  | .protect config access _ => partOf config = access
  | _ => true

/-- What was done so far was right, and an SD card has only the user area. -/
structure Orderly (w : World) : Prop where
  log : ∀ e ∈ w.log, e.selected = true
  sd : w.ext.dtype = .sd → ∀ t l, partOf (w.part t l).config = MMC_PART_USER

/-- Driver and card agree on the partition. -/
structure Synced (w : World) : Prop extends Orderly w where
  sync : w.gone = false → partOf w.pactive = w.access
  user : w.ext.dtype = .sd → w.gone = false → w.access = MMC_PART_USER

/-- The partition of a configuration is selected. -/
def On (config : ℕ) (w : World) : Prop := w.gone = false → w.access = partOf config

theorem not_gone_of {w w' : World} (hg : w.gone = true → w'.gone = true) (h : w'.gone = false) :
    w.gone = false := by
  cases hw : w.gone with
  | false => rfl
  | true => rw [hg hw] at h; cases h

theorem selected_marked {us : List Bool} : ∀ e ∈ us.map Event.marked, e.selected = true := by
  intro e he
  obtain ⟨u, _, rfl⟩ := List.mem_map.mp he
  rfl

theorem Orderly.of_kept {w w' : World} (hk : Kept w w') (h : Orderly w) : Orderly w' where
  log := by
    obtain ⟨us, hus⟩ := hk.log
    intro e he
    rw [hus, List.mem_append] at he
    rcases he with he | he
    · exact selected_marked e he
    · exact h.log e he
  sd hsd t l := by
    rw [hk.config]
    exact h.sd (hk.dtype ▸ hsd) t l

theorem Synced.of_kept {w w' : World} (hk : Kept w w') (h : Synced w) : Synced w' where
  toOrderly := h.toOrderly.of_kept hk
  sync hg := by
    rcases hk.selection with ⟨hp, ha⟩ | ⟨hp, ha⟩
    · rw [hp, ha]
      exact h.sync (not_gone_of hk.gone hg)
    · rw [hp, ha]
      rfl
  user hsd hg := by
    rcases hk.selection with ⟨_, ha⟩ | ⟨_, ha⟩
    · rw [ha]
      exact h.user (hk.dtype ▸ hsd) (not_gone_of hk.gone hg)
    · exact ha

/-- Nothing that the selection depends on changes. -/
structure Still (w w' : World) : Prop where
  dtype : w'.ext.dtype = w.ext.dtype
  config : ∀ t l, (w'.part t l).config = (w.part t l).config
  pm_state : w'.ext.pm_state = w.ext.pm_state
  pactive : w'.pactive = w.pactive
  access : w'.access = w.access
  gone : w.gone = true → w'.gone = true
  log : w'.log = w.log

namespace Still

theorem refl (w : World) : Still w w := ⟨rfl, fun _ _ => rfl, rfl, rfl, rfl, id, rfl⟩

theorem trans {w w' w'' : World} (h : Still w w') (h' : Still w' w'') : Still w w'' :=
  ⟨h'.dtype.trans h.dtype, fun t l => (h'.config t l).trans (h.config t l),
    h'.pm_state.trans h.pm_state, h'.pactive.trans h.pactive, h'.access.trans h.access,
    fun hg => h'.gone (h.gone hg), h'.log.trans h.log⟩

instance : Std.Refl Still := ⟨refl⟩

instance : IsTrans World Still := ⟨fun _ _ _ => trans⟩

variable {w w' : World}

theorem orderly (hs : Still w w') (h : Orderly w) : Orderly w' :=
  ⟨by rw [hs.log]; exact h.log, fun hsd t l => by
    rw [hs.config]
    exact h.sd (hs.dtype ▸ hsd) t l⟩

theorem synced (hs : Still w w') (h : Synced w) : Synced w' where
  toOrderly := hs.orderly h.toOrderly
  sync hg := by
    rw [hs.pactive, hs.access]
    exact h.sync (not_gone_of hs.gone hg)
  user hsd hg := by
    rw [hs.access]
    exact h.user (hs.dtype ▸ hsd) (not_gone_of hs.gone hg)

theorem on (hs : Still w w') {config : ℕ} (h : On config w) : On config w' := by
  intro hg
  rw [hs.access]
  exact h (not_gone_of hs.gone hg)

end Still

theorem still_gone (w : World) (b : Bool) : Still w { w with gone := w.gone || b } :=
  ⟨rfl, fun _ _ => rfl, rfl, rfl, rfl, fun h => by simp [h], rfl⟩

theorem still_setExt {w : World} {f : Ext → Ext} (hd : (f w.ext).dtype = w.ext.dtype)
    (hp : (f w.ext).partitions = w.ext.partitions) (hm : (f w.ext).pm_state = w.ext.pm_state) :
    Still w (w.setExt f) :=
  ⟨hd, fun t l => congrArg (fun p : ℕ → ℕ → Partition => (p t l).config) hp, hm, rfl, rfl, id, rfl⟩

theorem still_setPart {w : World} {t l : ℕ} {f : Partition → Partition}
    (hf : ∀ p, (f p).config = p.config) : Still w (w.setPart t l f) := by
  refine ⟨rfl, fun t' l' => ?_, rfl, rfl, rfl, id, rfl⟩
  change (if t' = t ∧ l' = l then f (w.ext.partitions t' l') else w.ext.partitions t' l').config = _
  split
  · exact hf _
  · rfl

/-! ### Selecting a partition -/

/-- What `mmc_set_partition` does. -/
theorem mmc_set_partition_cases (config : ℕ) (a : DevAnswer) (r : ℕ → DevAnswer) (w : World)
    (n : ℕ) :
    (w.pactive = config ∧ mmc_set_partition config a r (w, n) = (.eok, w, n)) ∨
    (a.status = .eok ∧ mmc_set_partition config a r (w, n) =
      (.eok, { w with access := partOf config, pactive := config }, n)) ∨
    (a.status ≠ .eok ∧ a.took ECSD_PART_CONFIG = true ∧ mmc_set_partition config a r (w, n) =
      (a.status, { w with access := partOf config }, n)) ∨
    (a.status ≠ .eok ∧ a.took ECSD_PART_CONFIG = false ∧ mmc_set_partition config a r (w, n) =
      (a.status, w, n)) := by
  by_cases hp : w.pactive = config
  · exact .inl ⟨hp, by simp [mmc_set_partition, hp]⟩
  · by_cases hs : a.status = .eok
    · refine .inr (.inl ⟨hs, ?_⟩)
      simp [mmc_set_partition, mmc_switch, hp, hs, World.switched]
    · cases ht : a.took ECSD_PART_CONFIG with
      | true =>
          refine .inr (.inr (.inl ⟨hs, rfl, ?_⟩))
          simp [mmc_set_partition, mmc_switch, hp, hs, ht, World.switched]
      | false =>
          refine .inr (.inr (.inr ⟨hs, rfl, ?_⟩))
          simp [mmc_set_partition, mmc_switch, hp, hs, ht]

/-- A switch of the partition that is reported as failed did fail. -/
def Honest (a : DevAnswer) : Prop := a.status ≠ .eok → a.took ECSD_PART_CONFIG = false

/-- The state before a partition is selected. -/
def Before (config : ℕ) (w : World) : Prop :=
  Synced w ∧ (w.ext.dtype = .sd → partOf config = MMC_PART_USER)

theorem Before.of_gone {config : ℕ} {w : World} (h : Before config w) (b : Bool) :
    Before config { w with gone := w.gone || b } := ⟨(still_gone w b).synced h.1, h.2⟩

theorem mmc_set_partition_synced (config : ℕ) (a : DevAnswer) (r : ℕ → DevAnswer)
    {w : World} (n : ℕ) (hw : Synced w) (hmmc : w.ext.dtype = .mmc) (hg : w.gone = false) :
    Orderly (mmc_set_partition config a r (w, n)).2.1 ∧
      (Honest a → Synced (mmc_set_partition config a r (w, n)).2.1) ∧
      ((mmc_set_partition config a r (w, n)).1 = .eok →
        Synced (mmc_set_partition config a r (w, n)).2.1 ∧
          On config (mmc_set_partition config a r (w, n)).2.1) := by
  rcases mmc_set_partition_cases config a r w n with ⟨hp, h⟩ | ⟨hs, h⟩ | ⟨hs, ht, h⟩ | ⟨hs, ht, h⟩
  · rw [h]
    exact ⟨hw.toOrderly, fun _ => hw, fun _ => ⟨hw, fun _ => by rw [← hw.sync hg, hp]⟩⟩
  · rw [h]
    have hw' : Synced { w with access := partOf config, pactive := config } :=
      { log := hw.log, sd := hw.sd, sync := fun _ => rfl,
        user := fun hsd => by rw [hmmc] at hsd; cases hsd }
    exact ⟨hw'.toOrderly, fun _ => hw', fun _ => ⟨hw', fun _ => rfl⟩⟩
  · rw [h]
    refine ⟨⟨hw.log, hw.sd⟩, fun ha => ?_, fun he => absurd he hs⟩
    rw [ha hs] at ht
    cases ht
  · rw [h]
    exact ⟨hw.toOrderly, fun _ => hw, fun he => absurd he hs⟩

/-- **Selecting a partition**: what a success says, and what a failure says if it is honest. -/
theorem sdio_set_partition_synced {A : DevAnswer → Prop} (config : ℕ) :
    Prog.Triple A (Before config) (sdio_set_partition config) fun s w =>
      Orderly w ∧ ((∀ a, A a → Honest a) → Synced w) ∧ (s = .eok → Synced w ∧ On config w) := by
  refine triple_callDevice (fun w b h => h.of_gone b) (fun w h _ => ?_) fun a ha => ?_
  · exact ⟨h.1.toOrderly, fun _ => h.1, fun he => by cases he⟩
  intro r _ w n h
  rw [Prog.bind_apply, Prog.get_apply]
  dsimp only
  obtain ⟨⟨hw, hsd⟩, hg⟩ := h
  cases hd : w.ext.dtype with
  | mmc =>
      rw [if_pos rfl]
      obtain ⟨h1, h2, h3⟩ := mmc_set_partition_synced config a r n hw hd hg
      exact ⟨h1, fun hA => h2 (hA a ha), h3⟩
  | sd =>
      refine ⟨hw.toOrderly, fun _ => hw, fun _ => ⟨hw, fun _ => ?_⟩⟩
      change w.access = _
      rw [hw.user hd hg, hsd hd]

/-! ### Reset -/

theorem Orderly.synced_of_gone {w : World} (h : Orderly w) (hg : w.gone = true) : Synced w where
  toOrderly := h
  sync h' := by rw [hg] at h'; cases h'
  user _ h' := by rw [hg] at h'; cases h'

theorem Orderly.synced_resetCard {w : World} (h : Orderly w) : Synced w.resetCard where
  toOrderly := h.of_kept (kept_resetCard w)
  sync _ := rfl
  user _ _ := rfl

/-- After a reset driver and card agree again. -/
theorem sdmmc_reset_synced {A : DevAnswer → Prop} :
    Prog.Triple A Orderly sdmmc_reset fun _ => Synced := by
  refine .bind (Q := fun _ => Synced) ?_ fun _ => .bind (Q := fun _ => Synced) ?_ fun _ => ?_
  · refine triple_callDevice (fun w b h => (still_gone w b).orderly h)
      (fun w h hg => h.synced_of_gone hg) fun a _ => ?_
    exact .bind (Q := fun _ => Synced) (.modify fun w h => h.1.synced_resetCard) fun _ =>
      .pure fun _ h => h
  · exact .modify fun w h => h.of_kept (kept_cacheLost w)
  · exact sdmmc_dev_cfg_kept.keeps fun _ _ hk h => h.of_kept hk

/-! ### Transfers -/

/-- The partition of a logical unit is selected. -/
def Chosen (t l config : ℕ) (w : World) : Prop :=
  Synced w ∧ On config w ∧ (w.part t l).config = config

theorem Still.chosen {t l config : ℕ} {w w' : World} (hs : Still w w') (h : Chosen t l config w) :
    Chosen t l config w' := ⟨hs.synced h.1, hs.on h.2.1, (hs.config t l).trans h.2.2⟩

theorem Synced.logged {w : World} (h : Synced w) {e : Event} (he : e.selected = true) :
    Synced (w.logged e) where
  log e' he' := by
    rcases List.mem_cons.mp he' with rfl | he'
    · exact he
    · exact h.log e' he'
  sd := h.sd
  sync := h.sync
  user := h.user

theorem Chosen.logged {t l config : ℕ} {w : World} (h : Chosen t l config w) {e : Event}
    (he : e.selected = true) : Chosen t l config (w.logged e) := ⟨h.1.logged he, h.2.1, h.2.2⟩

variable {A : DevAnswer → Prop}

theorem sendData_chosen (t l : ℕ) (out : Bool) (config lba : ℕ) :
    Prog.Keeps A (Chosen t l config) (sendData out config lba) := by
  refine triple_callDevice (fun w b h => (still_gone w b).chosen h) (fun w h _ => h) fun a _ => ?_
  refine .bind (Q := fun _ => Chosen t l config) (.modify fun w h => h.1.logged ?_) fun _ =>
    .pure fun _ h => h
  simp only [Event.selected, decide_eq_true_eq]
  exact (h.1.2.1 h.2).symm

theorem sdio_call_still : Prog.Moves Still sdio_call := moves_callDevice still_gone fun _ => .pure _

theorem sdio_send_status_still (rsp : BitVec 32) : Prog.Moves Still (sdio_send_status rsp) :=
  moves_callDevice still_gone fun _ => .pure _

theorem afterFailed_still (status : Errno) (rsp : BitVec 32) :
    Prog.Moves Still (afterFailed status rsp) :=
  .bind (sdio_send_status_still rsp) fun _ =>
    .ite (.bind sdio_call_still fun _ => .pure _) (.pure _)

theorem afterSent_still (t l blks : ℕ) (out stop : Bool) (rsp : BitVec 32) :
    Prog.Moves Still (afterSent t l blks out stop rsp) := by
  refine .bind (.ite (.bind sdio_call_still fun _ => .pure _) (.pure _)) fun s => ?_
  refine .bind (.ite (.bind (sdio_send_status_still rsp) fun ready => ?_) (.pure _)) fun s => ?_
  · exact .bind (.ite (.bind sdio_call_still fun _ => .pure _) (.pure _)) fun _ => .pure _
  · refine .bind (.modify fun w => ?_) fun _ => .pure _
    split
    · refine still_setPart fun p => ?_
      split <;> rfl
    · exact .refl w

theorem recoverRw_synced (sbc bus_err : Bool) (status : Errno) (rsp : BitVec 32) :
    Prog.Keeps A Synced (recoverRw sbc bus_err status rsp) := by
  have hcall : Prog.Keeps A Synced sdio_call := sdio_call_kept.keeps fun _ _ hk h => h.of_kept hk
  have hreset : Prog.Keeps A Synced sdmmc_reset :=
    sdmmc_reset_kept.keeps fun _ _ hk h => h.of_kept hk
  refine .bind ((sdio_send_status_kept rsp).keeps fun _ _ hk h => h.of_kept hk) fun s => ?_
  refine .bind (.ite hreset (.pure _)) fun _ => .bind .get fun w => ?_
  refine .bind (.ite (.bind hcall fun _ => .pure _) (.pure _)) fun _ => ?_
  refine .bind (.modify fun w h => ?_) fun _ => .modify fun w h => ?_
  · exact (still_setExt rfl rfl rfl).synced h
  · split
    · exact (still_setExt rfl rfl rfl).synced h
    · exact h

/-- **One transfer** of a selected partition; it stays selected unless the transfer fails. -/
theorem sdmmc_rw_synced (t l : ℕ) (out rlw : Bool) (addr dlen config : ℕ) :
    Prog.Triple A (Chosen t l config) (sdmmc_rw t l out rlw addr dlen) fun s w =>
      Synced w ∧ (s = .eok → Chosen t l config w) := by
  refine .get_bind fun w₀ h₀ => ?_
  have hc : (w₀.part t l).config = config := h₀.2.2
  rw [hc]
  refine Prog.Triple.pre (P := Chosen t l config) ?_ fun w hw => by rw [hw]; exact h₀
  refine .bind (Q := fun _ => Chosen t l config) (.ask fun _ _ _ h => h) fun a =>
    .ite (fun _ => ?_) ?_
  · exact .pure fun w h => ⟨h.1, fun he => by cases he⟩
  intro _
  refine .bind (sendData_chosen t l out config _) fun reply => .ite (fun _ => ?_) fun _ => ?_
  · exact .pure fun w h => ⟨h.1, fun he => by cases he⟩
  refine .bind (Q := fun _ => Chosen t l config) (.ite (fun _ => ?_) fun _ => ?_) fun s => ?_
  · exact (afterFailed_still _ _).keeps fun _ _ hs h => hs.chosen h
  · exact (afterSent_still _ _ _ _ _ _).keeps fun _ _ hs h => hs.chosen h
  refine .bind (Q := fun _ => Chosen t l config) (.modify fun w h => ?_) fun _ => ?_
  · split
    · exact (still_setExt rfl rfl rfl).chosen h
    · exact h
  refine .ite (fun hs => ?_) fun _ => .pure fun w h => ⟨h.1, fun _ => h⟩
  refine .bind (Q := fun _ => Synced) (Prog.Triple.pre (recoverRw_synced _ _ _ _) fun w h => h.1)
    fun _ => ?_
  exact .pure fun w h => ⟨h, fun he => absurd he hs⟩

theorem writeReliable_synced (t l rel config : ℕ) : ∀ fuel lba sg_count,
    Prog.Triple A (Chosen t l config) (writeReliable t l rel fuel lba sg_count) fun s w =>
      Synced w ∧ (s.1 = .eok → Chosen t l config w) := by
  intro fuel
  induction fuel with
  | zero =>
      intro lba sg_count
      exact .pure fun w h => ⟨h.1, fun he => by cases he⟩
  | succ fuel ih =>
      intro lba sg_count
      rw [writeReliable]
      refine .ite (fun _ => .pure fun w h => ⟨h.1, fun _ => h⟩) fun _ => ?_
      refine .bind (sdmmc_rw_synced t l true true lba _ config) fun s =>
        .ite (fun hs => ?_) fun hs => ?_
      · exact .pure fun w h => ⟨h.1, fun he => absurd he hs⟩
      · exact (ih _ _).pre fun w h => h.2 (not_not.mp hs)

theorem writeReliableList_synced (t l rel fuel config : ℕ) (sgl : List ℕ) : ∀ lba,
    Prog.Triple A (Chosen t l config) (writeReliableList t l rel fuel lba sgl) fun _ => Synced := by
  induction sgl with
  | nil =>
      intro lba
      exact .pure fun w h => h.1
  | cons sg sgl ih =>
      intro lba
      rw [writeReliableList]
      refine .bind (writeReliable_synced t l rel config fuel lba sg) fun s =>
        .ite (fun _ => ?_) fun hs => ?_
      · exact .pure fun w h => h.1
      · exact (ih _).pre fun w h => h.2 (not_not.mp hs)

theorem transfer_synced (fuel t l config : ℕ) (out rlw : Bool) (x : Transfer) :
    Prog.Triple A (Chosen t l config) (transfer fuel t l out rlw x) fun _ => Synced := by
  refine .get_bind fun w₀ h₀ => ?_
  refine Prog.Triple.pre (P := Chosen t l config) ?_ fun w hw => by rw [hw]; exact h₀
  refine .bind (Q := fun _ => Synced) (.ite (fun _ => ?_) fun _ => ?_) fun s => ?_
  · exact writeReliableList_synced t l _ fuel config x.sgl _
  · exact (sdmmc_rw_synced t l out rlw _ x.len config).post fun _ _ h => h.1
  · exact .ite (fun _ => (sdmmc_error_kept s).keeps fun _ _ hk h => h.of_kept hk) fun _ =>
      .pure fun _ h => h

/-! ### Background operations before a transfer -/

/-- A partition stays selected if the device is gone, or if it is the user area. -/
theorem Chosen.of_kept {t l config : ℕ} {w w' : World} (hk : Kept w w') (h : Chosen t l config w)
    (ha : w.gone = true ∨ partOf config = MMC_PART_USER) : Chosen t l config w' := by
  refine ⟨h.1.of_kept hk, fun hg => ?_, (hk.config t l).trans h.2.2⟩
  have hg' := not_gone_of hk.gone hg
  rcases ha with ha | ha
  · rw [hg'] at ha
    cases ha
  · rcases hk.selection with ⟨_, hacc⟩ | ⟨_, hacc⟩
    · rw [hacc]
      exact h.2.1 hg'
    · rw [hacc, ha]
      rfl

/-- An interrupt succeeds if the partition is not the user area. -/
def Interruptible (A : DevAnswer → Prop) (config : ℕ) : Prop :=
  partOf config ≠ MMC_PART_USER → ∀ a, A a → a.hpi = .eok

theorem interruptBkops_chosen {t l config : ℕ} (hA : Interruptible A config) :
    Prog.Keeps A (Chosen t l config) interruptBkops := by
  refine Prog.Triple.bind (Q := fun s w => Chosen t l config w ∧
    (s ≠ .eok → w.gone = true ∨ partOf config = MMC_PART_USER)) ?_ fun s => ?_
  · refine triple_callDevice (fun w b h => (still_gone w b).chosen h) (fun w h hg => ?_)
      fun a ha => ?_
    · exact ⟨h, fun _ => .inl hg⟩
    · refine .pure fun w h => ⟨h.1, fun hs => .inr ?_⟩
      by_contra hc
      exact hs (hA hc a ha)
  · refine .ite (fun hs => ?_) fun _ => .pure fun w h => h.1
    refine .bind (Q := fun _ => Chosen t l config) (fun r _ w n h => ?_) fun _ => .pure fun _ h => h
    exact h.1.of_kept (sdmmc_reset_kept r w n) (h.2 hs)

theorem sdmmc_pm_active {w : World} (h : w.ext.pm_state = .active) (r : ℕ → DevAnswer) (n : ℕ) :
    sdmmc_pm .active r (w, n) = ((), w, n) := by
  simp [sdmmc_pm, h]

theorem mmc_switch_still {index : ℕ} (hi : index ≠ ECSD_PART_CONFIG) (value : ℕ) :
    Prog.Moves Still (sdio_mmc_switch index value) := by
  refine moves_callDevice still_gone fun a => .bind (.modify fun w => ?_) fun _ => .pure _
  rw [World.switched, if_neg hi]
  split <;> exact .refl w

theorem startBkops_chosen {t l config : ℕ} (hA : Interruptible A config) :
    Prog.Keeps A (Chosen t l config) startBkops := by
  refine .bind ((mmc_switch_still (by decide) _).keeps fun _ _ hs h => hs.chosen h) fun s => ?_
  refine .ite (.modify fun w h => (still_setExt rfl rfl rfl).chosen h) (.ite ?_ (.pure _))
  exact .bind (interruptBkops_chosen hA) fun _ => .pure _

theorem sdmmc_bkops_chosen {t l config : ℕ} (hA : Interruptible A config) :
    Prog.Triple A (fun w => Chosen t l config w ∧ w.ext.pm_state = .active) (sdmmc_bkops false)
      fun _ => Chosen t l config := by
  refine .get_bind fun w₀ h₀ => .ite (fun _ => .pure fun w hw => ?_) fun _ =>
    .ite (fun _ => ?_) fun _ => ?_
  · rw [hw]
    exact h₀.1
  · refine .bind (Q := fun _ => Chosen t l config) (fun r _ w n hw => ?_) fun _ => ?_
    · subst hw
      rw [sdmmc_pm_active h₀.2]
      exact h₀.1
    · rw [if_neg Bool.false_ne_true]
      exact Prog.Keeps.bind (interruptBkops_chosen hA) fun _ =>
        .modify fun w h => (still_setExt rfl rfl rfl).chosen h
  · refine Prog.Triple.pre (P := Chosen t l config) ?_ fun w hw => by rw [hw]; exact h₀.1
    rw [if_neg Bool.false_ne_true]
    exact Prog.Keeps.bind (.pure _) fun _ => .bind .get fun w =>
      .ite (startBkops_chosen hA) (.pure _)

/-! ### Reading and writing -/

/-- The state in which a request is served. -/
def Served (w : World) : Prop := Synced w ∧ w.ext.pm_state = .active

theorem sdio_set_partition_ext (config : ℕ) (e : Ext) :
    Prog.Keeps A (fun w => w.ext = e) (sdio_set_partition config) := by
  refine triple_callDevice (fun w b h => h) (fun w h _ => h) fun a _ => ?_
  intro r _ w n h
  rw [Prog.bind_apply, Prog.get_apply, Prog.ite_apply']
  split
  · rcases mmc_set_partition_cases config a r w n with ⟨_, h'⟩ | ⟨_, h'⟩ | ⟨_, _, h'⟩ | ⟨_, _, h'⟩
    all_goals
      rw [h']
      exact h.1
  · exact h.1

theorem Served.of_still {w w' : World} (hs : Still w w') (h : Served w) : Served w' :=
  ⟨hs.synced h.1, hs.pm_state.trans h.2⟩

theorem sdmmc_error_still (status : Errno) : Prog.Moves Still (sdmmc_error status) := by
  cases status
  case enodev =>
    exact .bind (.modify fun w => ⟨rfl, fun _ _ => rfl, rfl, rfl, rfl, id, rfl⟩) fun _ => .pure _
  all_goals exact .pure _

theorem sdmmc_unit_ready_still (t l : ℕ) : Prog.Moves Still (sdmmc_unit_ready t l) := by
  refine .bind .get fun w => .bind (.ite (sdmmc_error_still _) (.pure _)) fun _ => ?_
  exact .ite (sdmmc_error_still _) (.pure _)

/-- The partition of a unit is known, and if the card is an SD card it is the user area. -/
theorem Synced.before {w : World} (h : Synced w) (t l : ℕ) : Before (w.part t l).config w :=
  ⟨h, fun hsd => h.sd hsd t l⟩

theorem sdmmc_error_synced (status : Errno) : Prog.Keeps A Synced (sdmmc_error status) :=
  (sdmmc_error_kept status).keeps fun _ _ hk h => h.of_kept hk

/-- **A read or a write** goes to the partition that is selected. -/
theorem sdmmc_read_write_synced (fuel t l config : ℕ) (out : Bool) (x : Transfer)
    (hA : Interruptible A config) :
    Prog.Triple A (fun w => Served w ∧ (w.part t l).config = config)
      (sdmmc_read_write fuel t l out x) fun _ => Synced := by
  have hstill : ∀ w w', Still w w' → (Served w ∧ (w.part t l).config = config) →
      Served w' ∧ (w'.part t l).config = config := fun w w' hs h =>
    ⟨h.1.of_still hs, (hs.config t l).trans h.2⟩
  refine .bind (Q := fun _ w => Served w ∧ (w.part t l).config = config)
    ((sdmmc_unit_ready_still t l).keeps hstill) fun s => .ite (fun _ => ?_) fun _ => ?_
  · exact .pure fun w h => h.1.1
  refine .get_bind fun w₀ h₀ => ?_
  have herror : ∀ e, Prog.Triple A (fun w => w = w₀) (sdmmc_error e) fun _ => Synced := fun e =>
    (sdmmc_error_synced e).pre fun w hw => by rw [hw]; exact h₀.1.1
  refine .ite (fun _ => herror _) fun _ => .ite (fun _ => herror _) fun _ =>
    .ite (fun _ => ?_) fun _ => ?_
  · exact .pure fun w hw => by rw [hw]; exact h₀.1.1
  have hset := (sdio_set_partition_synced (A := A) (w₀.part t l).config).and
    (sdio_set_partition_ext (w₀.part t l).config w₀.ext)
  refine .bind (hset.pre fun w hw => by rw [hw]; exact ⟨h₀.1.1.before t l, rfl⟩) fun s => ?_
  refine .ite (fun _ => ?_) fun hs => ?_
  · refine .bind (Q := fun _ => Synced) (sdmmc_reset_synced.pre fun w h => h.1.1) fun _ => ?_
    exact sdmmc_error_synced _
  refine .bind (Q := fun _ => Chosen t l config) ?_ fun _ => transfer_synced fuel t l config out _ x
  refine (sdmmc_bkops_chosen hA).pre fun w h => ?_
  obtain ⟨⟨_, _, hok⟩, hext⟩ := h
  obtain ⟨hsync, hon⟩ := hok (not_not.mp hs)
  rw [h₀.2] at hon
  refine ⟨⟨hsync, hon, ?_⟩, ?_⟩
  · rw [World.part, hext]
    exact h₀.2
  · rw [hext]
    exact h₀.1.2

theorem write10_synced (fuel t l config : ℕ) (x : Transfer) (hA : Interruptible A config) :
    Prog.Triple A (fun w => Served w ∧ (w.part t l).config = config) (write10 fuel t l x)
      fun _ => Synced := by
  refine .bind (.modify fun w h => ?_) fun _ => sdmmc_read_write_synced fuel t l config true x hA
  split
  · refine ⟨Served.of_still (w := w) ?_ h.1, h.2⟩
    exact ⟨rfl, fun _ _ => rfl, rfl, rfl, rfl, id, rfl⟩
  · exact h

/-! ### Erases and write protection -/

theorem eraseRange_synced (config type lba nlba : ℕ) :
    Prog.Keeps A (fun w => Synced w ∧ w.access = partOf config)
      (eraseRange config type lba nlba) := by
  refine .bind .ask fun a => .ite (.pure _) (.ite (.pure _) (.bind .ask fun start => ?_))
  refine .ite (.pure _) (.bind .ask fun stop => .ite (.pure _) ?_)
  refine .bind (.modify fun w h => ⟨h.1.logged ?_, h.2⟩) fun _ => .bind .ask fun _ => .pure _
  simp only [Event.selected, decide_eq_true_eq]
  exact h.2.symm

/-- **An erase** of the partition that is selected. -/
theorem sdio_erase_synced (hA : ∀ a, A a → Honest a) (config type lba nlba : ℕ) :
    Prog.Triple A (Before config) (sdio_erase config type lba nlba) fun _ => Synced := by
  refine .bind (Q := fun _ => Before config) (.modify fun w h => ⟨h.1.logged rfl, h.2⟩) fun _ => ?_
  refine triple_callDevice (fun w b h => h.of_gone b) (fun w h _ => h.1) fun a ha => ?_
  refine .get_bind fun w₀ h₀ => ?_
  obtain ⟨⟨hw, hsd⟩, hg⟩ := h₀
  have herase : Prog.Triple A (fun w => Synced w ∧ w.access = partOf config)
      (eraseRange config type lba nlba) fun _ => Synced :=
    (eraseRange_synced config type lba nlba).post fun _ _ h => h.1
  cases hd : w₀.ext.dtype with
  | mmc =>
      rw [if_pos rfl]
      refine .bind (Q := fun s w => Synced w ∧ (s = .eok → w.access = partOf config)) ?_ fun s => ?_
      · intro r _ w n hw'
        subst hw'
        obtain ⟨_, h2, h3⟩ := mmc_set_partition_synced config a r n hw hd hg
        refine ⟨h2 (hA a ha), fun hs => (h3 hs).2 ?_⟩
        rcases mmc_set_partition_cases config a r w n with
          ⟨_, h'⟩ | ⟨_, h'⟩ | ⟨_, _, h'⟩ | ⟨_, _, h'⟩
        all_goals
          rw [h']
          exact hg
      · exact .ite (fun _ => .pure fun w h => h.1) fun hs =>
          herase.pre fun w h => ⟨h.1, h.2 (not_not.mp hs)⟩
  | sd =>
      rw [if_neg (by simp)]
      refine herase.pre fun w hw' => ?_
      subst hw'
      exact ⟨hw, by rw [hw.user hd hg, hsd hd]⟩

theorem Before.of_still {config : ℕ} {w w' : World} (hs : Still w w') (h : Before config w) :
    Before config w' := ⟨hs.synced h.1, fun hsd => h.2 (hs.dtype ▸ hsd)⟩

theorem counted_synced (t l nlba : ℕ) {f : ℕ → Partition → Partition}
    (hf : ∀ n p, (f n p).range = p.range) (status : Errno) :
    Prog.Keeps A Synced (counted t l nlba f status) := by
  refine .modify fun w h => ?_
  split
  · exact (still_setPart fun p => congrArg Prod.fst (hf nlba p)).synced h
  · exact h

theorem groupAligned_before (config egs lba nlba : ℕ) :
    Prog.Keeps A (Before config) (groupAligned egs lba nlba) := by
  refine .bind (.modify fun w h => ?_) fun _ => .pure _
  split
  · exact ⟨h.1.logged rfl, h.2⟩
  · exact h

section Erases

variable (hA : ∀ a, A a → Honest a)

include hA

theorem eraseCounted_synced (t l config type lba nlba : ℕ) {f : ℕ → Partition → Partition}
    (hf : ∀ n p, (f n p).range = p.range) :
    Prog.Triple A (Before config) (eraseCounted t l config type lba nlba f) fun _ => Synced :=
  .bind (sdio_erase_synced hA config type lba nlba) fun status =>
    .bind (counted_synced t l nlba hf status) fun _ => .pure fun _ h => h

theorem sdmmc_write_same_synced (t l : ℕ) (unmap : Bool) (lba : BitVec 64) (nlba : BitVec 32) :
    Prog.Keeps A Synced (sdmmc_write_same t l unmap lba nlba) := by
  refine .bind ((sdmmc_unit_ready_still t l).keeps fun _ _ hs h => hs.synced h) fun s => ?_
  refine .ite (.pure _) (Prog.Triple.get_bind fun w₀ h₀ => ?_)
  refine .ite (fun _ => (sdmmc_error_synced _).pre fun w hw => by rw [hw]; exact h₀) fun _ => ?_
  refine .bind ((sdio_erase_synced hA _ _ _ _).pre fun w hw => by rw [hw]; exact h₀.before t l)
    fun status => ?_
  exact Prog.Keeps.bind (counted_synced t l _ range_addTc status) fun _ =>
    .ite (sdmmc_error_synced _) (.pure _)

theorem sdmmc_erase12_synced (t l : ℕ) (lba nlba : BitVec 32) :
    Prog.Keeps A Synced (sdmmc_erase12 t l lba nlba) := by
  refine Prog.Triple.get_bind fun w₀ h₀ => ?_
  refine Prog.Triple.pre (P := Before (w₀.part t l).config) ?_
    fun w hw => by rw [hw]; exact h₀.before t l
  refine .bind (Q := fun _ => Before (w₀.part t l).config)
    ((sdmmc_unit_ready_still t l).keeps fun _ _ hs h => h.of_still hs) fun s => ?_
  have herror : ∀ e, Prog.Triple A (Before (w₀.part t l).config) (sdmmc_error e) fun _ => Synced :=
    fun e => (sdmmc_error_synced e).pre fun w h => h.1
  refine .ite (fun _ => .pure fun w h => h.1) fun _ => .ite (fun _ => herror _) fun _ => ?_
  refine .bind (groupAligned_before _ _ _ _) fun aligned => .ite (fun _ => herror _) fun _ => ?_
  refine .bind (sdio_erase_synced hA _ _ _ _) fun status => ?_
  exact Prog.Keeps.bind (counted_synced t l _ range_addEc status) fun _ =>
    .ite (sdmmc_error_synced _) (.pure _)

theorem eraseAction_synced (t l config egs : ℕ) (caps : DevCaps) (action : EraseAction)
    (slba nlba : ℕ) : Prog.Triple A (Before config)
      (eraseAction t l config egs caps action slba nlba) fun _ => Synced := by
  have hnone : ∀ e : Errno, Prog.Triple A (Before config) (pure e) fun _ => Synced := fun _ =>
    .pure fun w h => h.1
  have hec : ∀ type, Prog.Triple A (Before config)
      (eraseCounted t l config type slba nlba Partition.addEc) fun _ => Synced := fun type =>
    eraseCounted_synced hA t l config type slba nlba range_addEc
  cases action with
  | normal =>
      exact .bind (groupAligned_before _ _ _ _) fun _ => .ite (fun _ => hec _) fun _ => hnone _
  | secure =>
      refine .ite (fun _ => .bind (groupAligned_before _ _ _ _) fun _ => ?_) fun _ => hnone _
      exact .ite (fun _ => hec _) fun _ => hnone _
  | trim =>
      exact .ite (fun _ => eraseCounted_synced hA t l _ _ _ _ range_addTc) fun _ => hnone _
  | secure_trim =>
      exact .ite (fun _ => eraseCounted_synced hA t l _ _ _ _ range_addTc) fun _ => hnone _
  | secure_purge => exact .ite (fun _ => sdio_erase_synced hA _ _ _ _) fun _ => hnone _
  | discard =>
      exact .ite (fun _ => eraseCounted_synced hA t l _ _ _ _ range_addDc) fun _ => hnone _
  | other => exact hnone _

theorem sdmmc_erase_devctl_synced (t l : ℕ) (action : EraseAction) (lba nlba : BitVec 64) :
    Prog.Keeps A Synced (sdmmc_erase_devctl t l action lba nlba) := by
  refine Prog.Triple.get_bind fun w₀ h₀ => ?_
  refine Prog.Triple.pre (P := Before (w₀.part t l).config) ?_
    fun w hw => by rw [hw]; exact h₀.before t l
  refine .bind (Q := fun _ => Before (w₀.part t l).config)
    ((sdmmc_unit_ready_still t l).keeps fun _ _ hs h => h.of_still hs) fun s => ?_
  refine .ite (fun _ => .pure fun w h => h.1) fun _ =>
    .ite (fun _ => .pure fun w h => h.1) fun _ => ?_
  exact eraseAction_synced hA t l _ _ _ action _ _

theorem sdmmc_dsm_synced (t l dtype : ℕ) (ranges : List DsmRange) :
    Prog.Keeps A Synced (sdmmc_dsm t l dtype ranges) := by
  induction ranges with
  | nil => exact .pure _
  | cons x ranges ih =>
      refine Prog.Triple.get_bind fun w₀ h₀ =>
        .ite (fun _ => .pure fun w hw => by rw [hw]; exact h₀) fun _ => ?_
      refine .bind ((eraseCounted_synced hA t l _ _ _ _ (range_dsm dtype)).pre fun w hw => ?_)
        fun status => Prog.Keeps.ite (.pure _) ih
      rw [hw]
      exact h₀.before t l

theorem sdmmc_dsm_devctl_synced (t l : ℕ) (opt : DsmOpt) (fits : Bool) (ranges : List DsmRange) :
    Prog.Keeps A Synced (sdmmc_dsm_devctl t l opt fits ranges) := by
  refine .bind ((sdmmc_unit_ready_still t l).keeps fun _ _ hs h => hs.synced h) fun s => ?_
  refine .bind .get fun w => .ite (.pure _) (.ite (.pure _) ?_)
  cases opt with
  | trim => exact .ite (sdmmc_dsm_synced hA t l _ ranges) (.pure _)
  | discard => exact .ite (sdmmc_dsm_synced hA t l _ ranges) (.pure _)
  | other => exact .pure _

end Erases

/-- The partition is selected, or the device is gone. -/
def Held (config : ℕ) (w : World) : Prop := Synced w ∧ On config w

theorem Still.held {config : ℕ} {w w' : World} (hs : Still w w') (h : Held config w) :
    Held config w' := ⟨hs.synced h.1, hs.on h.2⟩

theorem sendProtect_held (config op : ℕ) : Prog.Keeps A (Held config) (sendProtect config op) := by
  refine triple_callDevice (fun w b h => (still_gone w b).held h) (fun w h _ => h) fun a _ => ?_
  refine .bind (Q := fun _ => Held config) (.modify fun w h => ⟨h.1.1.logged ?_, h.1.2⟩) fun _ =>
    .pure fun _ h => h
  simp only [Event.selected, decide_eq_true_eq]
  exact (h.1.2 h.2).symm

theorem protectGroups_held (config op grp fuel : ℕ) :
    ∀ nlba, Prog.Keeps A (Held config) (protectGroups config op grp fuel nlba) := by
  induction fuel with
  | zero => exact fun _ => .pure _
  | succ fuel ih =>
      intro nlba
      refine .ite (.pure _) (.bind (sendProtect_held config op) fun _ => .ite (.pure _) ?_)
      exact ih _

theorem protectMode_still (partition mode : ℕ) : Prog.Moves Still (protectMode partition mode) := by
  refine .bind .get fun w => .ite (mmc_switch_still (by decide) _) (.ite ?_ (.pure _))
  exact mmc_switch_still (by decide) _

theorem sdmmc_write_protect_synced (hA : ∀ a, A a → Honest a) (op config mode lba nlba : ℕ) :
    Prog.Triple A (Before config) (sdmmc_write_protect op config mode lba nlba) fun _ =>
      Synced := by
  refine .get_bind fun w₀ h₀ => ?_
  refine Prog.Triple.pre (P := Before config) ?_ fun w hw => by rw [hw]; exact h₀
  refine .ite (fun _ => .pure fun w h => h.1) fun _ =>
    .ite (fun _ => .pure fun w h => h.1) fun _ => ?_
  refine .bind (sdio_set_partition_synced config) fun s => .ite (fun _ => ?_) fun hs => ?_
  · exact .pure fun w h => h.2.1 hA
  refine Prog.Triple.pre (P := Held config) ?_ fun w h => h.2.2 (not_not.mp hs)
  refine Prog.Triple.post (Q := fun _ => Held config) ?_ fun _ _ h => h.1
  have hmode : Prog.Keeps A (Held config) (protectMode config mode) :=
    (protectMode_still config mode).keeps fun _ _ hs h => hs.held h
  refine Prog.Keeps.bind (.ite hmode (.pure _)) fun status => ?_
  refine .ite (.pure _) (.bind .ask fun a => .ite (.pure _) (.ite ?_ ?_))
  · exact protectGroups_held _ _ _ _ _
  · exact sendProtect_held _ _

theorem sdmmc_wp_devctl_synced (hA : ∀ a, A a → Honest a) (t l : ℕ) (action : WpAction) (mode : ℕ)
    (lba nlba : BitVec 64) : Prog.Keeps A Synced (sdmmc_wp_devctl t l action mode lba nlba) := by
  refine Prog.Triple.get_bind fun w₀ h₀ => ?_
  refine Prog.Triple.pre (P := Before (w₀.part t l).config) ?_
    fun w hw => by rw [hw]; exact h₀.before t l
  refine .bind (Q := fun _ => Before (w₀.part t l).config)
    ((sdmmc_unit_ready_still t l).keeps fun _ _ hs h => h.of_still hs) fun s => ?_
  have hnone : ∀ e : Errno, Prog.Triple A (Before (w₀.part t l).config) (pure e) fun _ => Synced :=
    fun _ => .pure fun w h => h.1
  refine .ite (fun _ => hnone _) fun _ => .ite (fun _ => hnone _) fun _ =>
    .ite (fun _ => hnone _) fun _ => ?_
  exact sdmmc_write_protect_synced hA _ _ _ _ _

/-! ### RPMB and card registers -/

theorem rpmbTransfer_synced (t l config : ℕ) (out : Bool) :
    Prog.Triple A (Chosen t l config) (rpmbTransfer config out) fun s w =>
      Synced w ∧ (s = .eok → Chosen t l config w) := by
  refine .bind (Q := fun _ => Chosen t l config) ?_ fun s => .ite (fun hs => ?_) fun _ => ?_
  · exact Prog.Keeps.bind (sendData_chosen t l out config 0) fun _ => .pure _
  · refine .bind (Q := fun _ => Synced) (sdmmc_reset_synced.pre fun w h => h.1.toOrderly)
      fun _ => ?_
    exact .pure fun w h => ⟨h, fun he => absurd he hs⟩
  · exact .pure fun w h => ⟨h.1, fun _ => h⟩

theorem sdmmc_rpmb_devctl_synced (t l : ℕ) (flags : RpmbFlag) (refused : Option Errno) :
    Prog.Keeps A Synced (sdmmc_rpmb_devctl t l flags refused) := by
  refine Prog.Triple.get_bind fun w₀ h₀ => ?_
  -- The configuration is the one that was read, all along.
  let I : World → Prop := fun w => Synced w ∧ (w.part t l).config = (w₀.part t l).config
  have hI : ∀ w w', Kept w w' → I w → I w' := fun w w' hk h =>
    ⟨h.1.of_kept hk, (hk.config t l).trans h.2⟩
  refine Prog.Triple.pre (P := I) ?_ fun w hw => by rw [hw]; exact ⟨h₀, rfl⟩
  refine .ite (fun _ => .pure fun w h => h.1) fun _ =>
    .ite (fun _ => .pure fun w h => h.1) fun _ => ?_
  refine .bind (Q := fun _ => I) ((sdmmc_unit_ready_kept t l).keeps hI) fun s => ?_
  refine .ite (fun _ => .pure fun w h => h.1) fun _ => ?_
  refine .bind (Q := fun _ => I) ((sdmmc_bkops_kept false).keeps hI) fun _ => ?_
  refine .bind (Q := fun s w => Orderly w ∧ (s = .eok → Chosen t l (w₀.part t l).config w)) ?_
    fun s => ?_
  · refine Prog.Triple.at fun w₁ h₁ => ?_
    have hset := (sdio_set_partition_synced (A := A) (w₀.part t l).config).and
      (sdio_set_partition_ext (w₀.part t l).config w₁.ext)
    refine hset.mono (fun w hw => ?_) fun s w h => ⟨h.1.1, fun hs => ?_⟩
    · rw [hw, ← h₁.2]
      exact ⟨h₁.1.before t l, rfl⟩
    · obtain ⟨hsync, hon⟩ := h.1.2.2 hs
      refine ⟨hsync, hon, ?_⟩
      rw [World.part, h.2]
      exact h₁.2
  have hreset : ∀ e : Errno, Prog.Triple A Orderly (do sdmmc_reset; return e) fun _ => Synced :=
    fun e => .bind sdmmc_reset_synced fun _ => .pure fun _ h => h
  refine .ite (fun _ => (hreset s).pre fun w h => h.1) fun hs => ?_
  refine Prog.Triple.pre (P := Chosen t l (w₀.part t l).config) ?_ fun w h => h.2 (not_not.mp hs)
  refine .bind (Q := fun s w => Synced w ∧ (s = .eok → Chosen t l (w₀.part t l).config w)) ?_
    fun s => ?_
  · refine .ite (fun _ => rpmbTransfer_synced t l _ true) fun _ => ?_
    exact .pure fun w h => ⟨h.1, fun _ => h⟩
  refine .ite (fun _ => .pure fun w h => h.1) fun hs => ?_
  refine Prog.Triple.pre (P := Chosen t l (w₀.part t l).config) ?_ fun w h => h.2 (not_not.mp hs)
  refine .bind (rpmbTransfer_synced t l _ true) fun s =>
    .ite (fun _ => .pure fun w h => h.1) fun hs => ?_
  exact (rpmbTransfer_synced t l _ false).mono (fun w h => h.2 (not_not.mp hs)) fun _ _ h => h.1

/-- A byte that selects the partition writes the one that is selected. -/
def Idle (index value : ℕ) (w : World) : Prop :=
  index = ECSD_PART_CONFIG → w.gone = false → w.access = partOf value

theorem sdio_mmc_switch_synced (index value : ℕ) :
    Prog.Triple A (fun w => Synced w ∧ Idle index value w) (sdio_mmc_switch index value)
      fun _ => Synced := by
  refine triple_callDevice (fun w b h => ?_) (fun w h _ => h.1) fun a _ => ?_
  · exact ⟨(still_gone w b).synced h.1, fun hi => (still_gone w b).on (h.2 hi)⟩
  refine .bind (Q := fun _ => Synced) (.modify fun w h => ?_) fun _ => .pure fun _ h => h
  obtain ⟨⟨hw, hidle⟩, hg⟩ := h
  rw [World.switched]
  split
  · split
    case isTrue hi =>
      rw [← hidle hi hg]
      exact hw
    case isFalse => exact hw
  · exact hw

/-! ### Steps -/

/-- What a request, and the answers while it is served, have to be. -/
def Request.Unmistaken (w : World) (t l : ℕ) (r : ℕ → DevAnswer) : Request → Prop
  | .read10 _ => partOf (w.part t l).config ≠ MMC_PART_USER → ∀ k, (r k).hpi = .eok
  | .write10 _ => partOf (w.part t l).config ≠ MMC_PART_USER → ∀ k, (r k).hpi = .eok
  | .erase12 .. => ∀ k, Honest (r k)
  | .write_same .. => ∀ k, Honest (r k)
  | .erase .. => ∀ k, Honest (r k)
  | .dsm .. => ∀ k, Honest (r k)
  | .write_protect .. => ∀ k, Honest (r k)
  | .card_register type (.write address value) => type = .ext_csd → w.ext.dtype = .mmc →
      address.toNat = ECSD_PART_CONFIG →
        w.access = partOf value.toNat ∧ (w.access = MMC_PART_USER ∨ w.ext.pm_state = .active)
  | _ => True

/-- The steps of a run with one card. -/
def Unmistaken (w : World) (s : Step) (r : ℕ → DevAnswer) : Prop :=
  match s with
  | .ccb t l rq => rq.Unmistaken w t l r
  | .insertion _ => False
  | .removal => False
  | _ => True

theorem keeps_synced_of_kept {α : Type} {m : SimM α} (h : Prog.Moves Kept m) :
    Prog.Keeps A Synced m := h.keeps fun _ _ hk h => h.of_kept hk

theorem sdmmc_pm_active_state (r : ℕ → DevAnswer) (w : World) (n : ℕ) :
    (sdmmc_pm .active r (w, n)).2.1.ext.pm_state = .active := by
  rw [sdmmc_pm, Prog.bind_apply, Prog.get_apply, Prog.ite_apply']
  split
  · assumption
  · rfl

/-- A register write that reaches the card selects the partition that is selected, if any. -/
def IdleWrite (type : RegType) (action : RegAction) (w : World) : Prop :=
  ∀ address value, action = .write address value → type = .ext_csd → w.ext.dtype = .mmc →
    Idle address.toNat value.toNat w

theorem sdmmc_card_register_devctl_synced (t l : ℕ) (type : RegType) (action : RegAction) :
    Prog.Triple A (fun w => Synced w ∧ IdleWrite type action w)
        (sdmmc_card_register_devctl t l type action)
      fun _ => Synced := by
  have hstill : ∀ w w', Still w w' → Synced w ∧ IdleWrite type action w → Synced w' ∧
      IdleWrite type action w' :=
    fun w w' hs h => ⟨hs.synced h.1, fun address value ha ht hd hi =>
      hs.on (h.2 address value ha ht (hs.dtype.symm.trans hd) hi)⟩
  refine .bind ((sdmmc_unit_ready_still t l).keeps hstill) fun s => ?_
  refine .ite (fun _ => .pure fun w h => h.1) fun _ => ?_
  cases action with
  | read => exact (keeps_synced_of_kept (readRegister_kept type)).pre fun w h => h.1
  | write address value =>
      refine .get_bind fun w₀ h₀ => .ite (fun hext => ?_) fun _ =>
        .pure fun w hw => by rw [hw]; exact h₀.1
      refine Prog.Triple.pre (P := fun w => Synced w ∧ Idle address.toNat value.toNat w) ?_
        fun w hw => by rw [hw]; exact ⟨h₀.1, h₀.2 _ _ rfl hext.1 hext.2⟩
      refine .ite (fun _ => .pure fun w h => h.1) fun _ => ?_
      exact .bind (sdio_mmc_switch_synced _ _) fun _ => .pure fun _ h => h
  | other => exact .pure fun w h => h.1

/-- **One request** keeps driver and card in agreement. -/
theorem dispatch_synced (fuel : ℕ) {t l : ℕ} {rq : Request} {w w' : World} {r : ℕ → DevAnswer}
    (hk : Kept w w') (hpm : w.ext.pm_state = .active → w' = w) (hw : Served w')
    (hg : rq.Unmistaken w t l r) (n : ℕ) : Synced (dispatch fuel t l rq r (w', n)).2.1 := by
  have hc : (w'.part t l).config = (w.part t l).config := hk.config t l
  have hT : ∀ k, (fun _ : DevAnswer => True) (r k) := fun _ => trivial
  -- What the answers of a transfer have to meet.
  let H : DevAnswer → Prop := fun a =>
    partOf (w.part t l).config ≠ MMC_PART_USER → a.hpi = .eok
  have hH : Interruptible H (w.part t l).config := fun hne a ha => ha hne
  cases rq with
  | read10 x =>
      exact sdmmc_read_write_synced fuel t l _ false x hH r (fun k hne => hg hne k) w' n ⟨hw, hc⟩
  | write10 x =>
      exact write10_synced fuel t l _ x hH r (fun k hne => hg hne k) w' n ⟨hw, hc⟩
  | sync => exact hw.1.of_kept (sdmmc_sync_kept t l r w' n)
  | mode_select wce => exact hw.1.of_kept (sdmmc_mpage_caching_kept wce r w' n)
  | erase12 lba nlba => exact sdmmc_erase12_synced (fun _ h => h) t l lba nlba r hg w' n hw.1
  | write_same unmap lba nlba =>
      exact sdmmc_write_same_synced (fun _ h => h) t l unmap lba nlba r hg w' n hw.1
  | erase action lba nlba =>
      exact sdmmc_erase_devctl_synced (fun _ h => h) t l action lba nlba r hg w' n hw.1
  | dsm opt fits ranges =>
      exact sdmmc_dsm_devctl_synced (fun _ h => h) t l opt fits ranges r hg w' n hw.1
  | write_protect action mode lba nlba =>
      exact sdmmc_wp_devctl_synced (fun _ h => h) t l action mode lba nlba r hg w' n hw.1
  | card_register type action =>
      refine sdmmc_card_register_devctl_synced (A := fun _ => True) t l type action r hT w' n
        ⟨hw.1, ?_⟩
      rintro address value rfl ht hd hi hgone
      obtain ⟨hacc, hor⟩ := hg ht (hk.dtype.symm.trans hd) hi
      rcases hor with h0 | hact
      · rcases hk.selection with ⟨_, ha⟩ | ⟨_, ha⟩
        · rw [ha, hacc]
        · rw [ha, ← hacc, h0]
          rfl
      · rw [hpm hact, hacc]
  | rpmb flags refused =>
      exact sdmmc_rpmb_devctl_synced (A := fun _ => True) t l flags refused r hT w' n hw.1
  | drvr_state state => exact hw.1.of_kept (sdmmc_drvr_state_devctl_kept t l state r w' n)

theorem sdmmc_timer_kept (elapsed : Bool) : Prog.Moves Kept (sdmmc_timer elapsed) := by
  refine .bind .get fun w =>
    .ite (.pure _) (.ite (.ite (sdmmc_pm_kept _) (.pure _)) (.ite ?_ (.pure _)))
  exact .bind sdmmc_cache_flush_kept fun _ => .ite (sdmmc_pm_kept _) (.pure _)

theorem sim_timer_kept : Prog.Moves Kept sim_timer :=
  .bind .get fun _ => .ite (sdmmc_bkops_kept true) (.pure _)

theorem sdmmc_suspend_kept : Prog.Moves Kept sdmmc_suspend :=
  .bind (sdmmc_pm_kept _) fun _ => .bind sdmmc_dev_dcfg_kept fun _ => sdmmc_pm_kept _

theorem sdmmc_resume_kept : Prog.Moves Kept sdmmc_resume :=
  .bind (sdmmc_pm_kept _) fun _ => sdmmc_dev_cfg_kept

theorem Synced.forget {w : World} (h : Synced w) : Synced w.forget where
  log _ he := absurd he List.not_mem_nil
  sd := h.sd
  sync := h.sync
  user := h.user

theorem sdmmc_sim_action_synced (fuel : ℕ) {t l : ℕ} {rq : Request} {w : World} {r : ℕ → DevAnswer}
    (hw : Synced w) (hg : rq.Unmistaken w t l r) (n : ℕ) :
    Synced (sdmmc_sim_action fuel t l rq r (w, n)).2.1 := by
  rw [sdmmc_sim_action, Prog.bind_apply, Prog.get_apply, Prog.ite_apply']
  split
  swap
  · exact hw
  have hk := sdmmc_pm_kept .active r w n
  have hend : Prog.Keeps (fun _ => True) Synced (do
      let status ← sdio_retune
      if status ≠ .eok then sdmmc_reset else return ()) :=
    .bind (keeps_synced_of_kept sdio_retune_kept) fun _ =>
      .ite (keeps_synced_of_kept sdmmc_reset_kept) (.pure _)
  refine hend r (fun _ => trivial) _ _ ?_
  refine dispatch_synced fuel hk (fun hact => ?_) ⟨hw.of_kept hk, sdmmc_pm_active_state r w n⟩ hg _
  rw [sdmmc_pm_active hact]

/-- **One step** keeps driver and card in agreement. -/
theorem step_synced (fuel : ℕ) {w : World} {s : Step} {r : ℕ → DevAnswer} (hw : Synced w)
    (hC : Unmistaken w s r) : Synced (step fuel w (s, r)) := by
  have hattached : ∀ m : SimM Unit, (Synced (m r (w.forget, 0)).2.1) →
      Synced (whenAttached m r (w.forget, 0)).2.1 := by
    intro m hm
    rw [whenAttached, Prog.bind_apply, Prog.get_apply, Prog.ite_apply']
    split
    · exact hm
    · exact hw.forget
  cases s with
  | ccb t l rq =>
      refine hattached _ (sdmmc_sim_action_synced fuel hw.forget ?_ 0)
      exact hC
  | pm_timer elapsed => exact hattached _ (hw.forget.of_kept (sdmmc_timer_kept elapsed r _ 0))
  | sim_timer => exact hattached _ (hw.forget.of_kept (sim_timer_kept r _ 0))
  | suspend => exact hattached _ (hw.forget.of_kept (sdmmc_suspend_kept r _ 0))
  | resume => exact hattached _ (hw.forget.of_kept (sdmmc_resume_kept r _ 0))
  | insertion card => exact hC.elim
  | removal => exact hC.elim

/-! ### Runs -/

/-- No partition other than the user area is set up. -/
def Fresh (w : World) : Prop := Synced w ∧ ∀ t l, partOf (w.part t l).config = MMC_PART_USER

theorem partOf_selected (card : Card) : partOf card.selected = card.selected := by
  rw [Card.selected]
  split
  · exact Nat.mod_mod _ _
  · rfl

theorem selected_of_sd {card : Card} (h : card.dtype = .sd) : card.selected = MMC_PART_USER := by
  rw [Card.selected, if_neg]
  rintro ⟨hmmc, _⟩
  rw [h] at hmmc
  cases hmmc

theorem Fresh.found {w : World} (h : Fresh w) (card : Card) : Fresh (w.found card) where
  left :=
    { log := h.1.log, sd := fun _ => h.2, sync := fun _ => partOf_selected card
      user := fun hsd _ => selected_of_sd hsd }
  right := h.2

/-- The partitions of a card other than the user area are set up for an MMC card only. -/
theorem sdmmc_partition_config_sd {ecsd : ℕ → ℕ} {e : Ext} (hsd : e.dtype = .sd)
    (h : ∀ t l, partOf (e.partitions t l).config = MMC_PART_USER) (t l : ℕ) :
    partOf ((sdmmc_partition_config ecsd e).partitions t l).config = MMC_PART_USER := by
  have hne : ¬ (e.dtype = .mmc ∧ e.eflags.partitions = true) := by rw [hsd]; rintro ⟨⟨⟩, _⟩
  rw [sdmmc_partition_config, if_neg hne]
  dsimp only
  split
  · rw [userPartition, hsd]
    rfl
  · exact h t l

theorem sdmmc_partition_config_dtype (ecsd : ℕ → ℕ) (e : Ext) :
    (sdmmc_partition_config ecsd e).dtype = e.dtype := by
  rw [sdmmc_partition_config]
  split <;> rfl

theorem Fresh.configured {w : World} (h : Fresh w) :
    Synced (w.setExt (sdmmc_partition_config w.raw_ecsd)) where
  log := h.1.log
  sd hsd := sdmmc_partition_config_sd ((sdmmc_partition_config_dtype _ _).symm.trans hsd) h.2
  sync := h.1.sync
  user hsd := h.1.user ((sdmmc_partition_config_dtype _ _).symm.trans hsd)

theorem sdmmc_detach_synced : Prog.Keeps A Synced sdmmc_detach :=
  .bind (keeps_synced_of_kept sdmmc_dev_dcfg_kept) fun _ =>
    .modify fun _ h => ⟨⟨h.log, h.sd⟩, h.sync, h.user⟩

/-- **Insertion** of the first card. -/
theorem sdmmc_sdio_insertion_synced (card : Card) :
    Prog.Triple A Fresh (sdmmc_sdio_insertion card) fun _ => Synced := by
  refine .get_bind fun w₀ h₀ => ?_
  refine Prog.Triple.pre (P := Fresh) ?_ fun w hw => by rw [hw]; exact h₀
  refine .bind (Q := fun _ => Fresh) (.ask fun _ _ _ h => h) fun a =>
    .ite (fun _ => .pure fun w h => h.1) fun _ => ?_
  refine .bind (Q := fun _ => Fresh) (.modify fun w h => h.found card) fun _ => ?_
  refine .bind (Q := fun _ => Synced) (.modify fun w h => h.configured) fun _ => ?_
  refine .bind (keeps_synced_of_kept sdmmc_dev_cfg_kept) fun _ => ?_
  refine .bind (Q := fun _ => Synced) (.ask fun _ _ _ h => h) fun reg => ?_
  refine .ite (fun _ => sdmmc_detach_synced) fun _ => .modify fun w h => ?_
  exact ⟨⟨h.log, h.sd⟩, h.sync, h.user⟩

theorem emptyBus_fresh (opts : Eflags) (has_pm : Bool) : Fresh (emptyBus opts has_pm).forget where
  left :=
    { log := fun _ he => absurd he List.not_mem_nil, sd := fun _ _ _ => rfl, sync := fun _ => rfl
      user := fun _ _ => rfl }
  right _ _ := rfl

theorem Reached.synced {fuel : ℕ} {w₀ w : World} (h₀ : Synced w₀)
    (h : Reached fuel Unmistaken w₀ w) : Synced w := by
  induction h with
  | start => exact h₀
  | step _ hC ih => exact step_synced fuel ih hC

/-- **Selection**: in every state of a run with one card whose steps are unmistaken, what was done
to a partition was done while the card had it selected, and the driver does not take another
partition for the selected one. -/
theorem selection_run (fuel : ℕ) (opts : Eflags) (has_pm : Bool) (card : Card) (r₀ : ℕ → DevAnswer)
    {w : World}
    (h : Reached fuel Unmistaken (step fuel (emptyBus opts has_pm) (.insertion card, r₀)) w) :
    (∀ e ∈ w.log, e.selected = true) ∧ (w.gone = false → ∀ t l,
      w.pactive = (w.part t l).config → w.access = partOf (w.part t l).config) := by
  have h₀ : Synced (step fuel (emptyBus opts has_pm) (.insertion card, r₀)) :=
    sdmmc_sdio_insertion_synced (A := fun _ => True) card r₀ (fun _ => trivial) _ 0
      (emptyBus_fresh opts has_pm)
  have hw := h.synced h₀
  refine ⟨hw.log, fun hg t l hp => ?_⟩
  rw [← hw.sync hg, hp]

/-! ### A selection that the driver does not know of -/

/-- A card with boot partitions of 128 KiB. -/
def bootCard : Card where
  dtype := .mmc
  info :=
    { caps := { hc := true, trim := true }, sectors := 1024, sector_size := 512
      erase_size := 8 }
  hc_inf := {}
  ecsd := fun i => if i = ECSD_REV then 8 else if i = ECSD_BOOT_SIZE_MULT then 1 else 0

def bootBus : World := step 0 (emptyBus { partitions := true } false) (.insertion bootCard, willing)

/-- A write of a boot partition that selects it, and does so while it is selected. -/
theorem selection_bootBus :
    Event.data true 1 1 3 false false ∈
        (step 0 bootBus (.ccb 1 0 (.write10 { lba := 3, len := 512 }), willing)).log ∧
      ∀ e ∈ (step 0 bootBus (.ccb 1 0 (.write10 { lba := 3, len := 512 }), willing)).log,
        e.selected = true := by
  refine ⟨by decide +kernel, (selection_run 0 { partitions := true } false bootCard willing ?_).1⟩
  exact .step .start fun _ _ => rfl

/-- The switch is carried out, and reported as failed. -/
def crcError : ℕ → DevAnswer := fun _ => { status := .eio, took := fun i => i = ECSD_PART_CONFIG }

/-- After a trim of a boot partition whose switch is reported as failed, a write of the user area
goes to the boot partition. -/
theorem stale_selection :
    (step 0 bootBus (.ccb 1 0 (.erase .trim 0 8), crcError)).pactive = 0 ∧
      Event.data true 0 1 3 false false ∈
        (step 0 (step 0 bootBus (.ccb 1 0 (.erase .trim 0 8), crcError))
          (.ccb 0 0 (.write10 { lba := 3, len := 512 }), willing)).log ∧
      (Event.data true 0 1 3 false false).selected = false := by
  refine ⟨?_, ?_, ?_⟩
  · decide +kernel
  · decide +kernel
  · decide +kernel

end Sdmmc
