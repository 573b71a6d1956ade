import RpiBsp.Sdmmc.Sim.Erase

/-!
# Sdmmc — Sim — write protection

A partition may be marked read only, by the switch of the card or after cached data was lost.
`sdmmc_read_write` looks at the mark; the functions that erase do not.

* `Accounted` — what modifies the card is accounted for by a call of `sdio_erase` with blocks to
  erase. Everything but a write keeps this.
* `write_protected` — in every state, if no erase request to a marked partition passes its own
  checks, no request modifies a marked partition.
* `marked_partition_erased` — a trim of a card with the switch set is carried out.
-/

namespace Sdmmc

open Support

/-! ### What modifies the card -/

/-- A write, or an erase, trim or discard. -/
def Event.modifies : Event → Bool
  | .data out .. => out
  | .erase .. => true
  | _ => false

/-! ### Requests that do not modify the card -/

/-- The log has no event that modifies the card. -/
def Unmodified (w : World) : Prop := ∀ e ∈ w.log, e.modifies = false

theorem Unmodified.of_log {w w' : World} (h : Unmodified w) (evs : List Event)
    (hlog : w'.log = evs ++ w.log) (hevs : ∀ e ∈ evs, e.modifies = false) : Unmodified w' := by
  intro e he
  rw [hlog, List.mem_append] at he
  rcases he with he | he
  · exact hevs e he
  · exact h e he

theorem Unmodified.of_log_eq {w w' : World} (h : Unmodified w) (hlog : w'.log = w.log) :
    Unmodified w' := h.of_log [] hlog fun _ he => absurd he List.not_mem_nil

theorem Unmodified.logged {w : World} (h : Unmodified w) {e : Event} (he : e.modifies = false) :
    Unmodified (w.logged e) :=
  h.of_log [e] rfl fun _ h' => by rw [List.mem_singleton.mp h']; exact he

theorem modifies_marked {us : List Bool} : ∀ e ∈ us.map Event.marked, e.modifies = false := by
  intro e he
  obtain ⟨u, _, rfl⟩ := List.mem_map.mp he
  rfl

theorem Unmodified.of_kept {w w' : World} (hk : Kept w w') (h : Unmodified w) : Unmodified w' := by
  obtain ⟨us, hus⟩ := hk.log
  exact h.of_log _ hus modifies_marked

/-- The program does not modify the card. -/
def KeepsClean {α : Type} (m : SimM α) : Prop := Prog.Keeps (fun _ => True) Unmodified m

theorem keepsClean_of_kept {α : Type} {m : SimM α} (h : Prog.Moves Kept m) : KeepsClean m :=
  h.keeps fun _ _ hk => Unmodified.of_kept hk

theorem keepsClean_callDevice {α : Type} {failed : α} {f : DevAnswer → SimM α}
    (hf : ∀ a, KeepsClean (f a)) : KeepsClean (callDevice failed f) := by
  refine .bind .ask fun a => .bind (.modify fun w h => h.of_log_eq rfl) fun _ =>
    .bind .get fun w => ?_
  exact .ite (.pure _) (hf a)

/-! ### Reads -/

theorem sendData_clean (config lba : ℕ) : KeepsClean (sendData false config lba) :=
  keepsClean_callDevice fun _ => .bind (.modify fun _ h => h.logged rfl) fun _ => .pure _

theorem afterFailed_kept (status : Errno) (rsp : BitVec 32) :
    Prog.Moves Kept (afterFailed status rsp) := by
  refine .bind (sdio_send_status_kept rsp) fun s => .ite ?_ (.pure _)
  exact .bind sdio_call_kept fun _ => .pure _

theorem afterSent_clean (t l blks : ℕ) (out stop : Bool) (rsp : BitVec 32) :
    KeepsClean (afterSent t l blks out stop rsp) := by
  refine .bind (.ite (.bind (keepsClean_of_kept sdio_call_kept) fun _ => .pure _) (.pure _))
    fun s => ?_
  refine .bind (.ite (.bind (keepsClean_of_kept (sdio_send_status_kept rsp)) fun ready => ?_)
    (.pure _)) fun s => ?_
  · refine .bind (.ite (.bind (keepsClean_of_kept sdio_call_kept) fun _ => .pure _) (.pure _))
      fun _ => .pure _
  · refine .bind (.modify fun w h => ?_) fun _ => .pure _
    split
    · exact h.of_log_eq rfl
    · exact h

theorem recoverRw_clean (sbc bus_err : Bool) (status : Errno) (rsp : BitVec 32) :
    KeepsClean (recoverRw sbc bus_err status rsp) := by
  refine .bind (keepsClean_of_kept (sdio_send_status_kept rsp)) fun s => ?_
  refine .bind (.ite (keepsClean_of_kept sdmmc_reset_kept) (.pure _)) fun _ =>
    .bind .get fun w => ?_
  refine .bind (.ite (.bind (keepsClean_of_kept sdio_call_kept) fun _ => .pure _) (.pure _))
    fun _ => ?_
  refine .bind (.modify fun w h => h.of_log_eq rfl) fun _ => .modify fun w h => ?_
  split
  · exact h.of_log_eq rfl
  · exact h

theorem sdmmc_rw_clean (t l : ℕ) (rlw : Bool) (addr dlen : ℕ) :
    KeepsClean (sdmmc_rw t l false rlw addr dlen) := by
  refine .bind .get fun w => .bind .ask fun a => .ite (.pure _) ?_
  refine .bind (sendData_clean _ _) fun reply => .ite (.pure _) ?_
  refine .bind (.ite (keepsClean_of_kept (afterFailed_kept _ _)) (afterSent_clean _ _ _ _ _ _))
    fun s => ?_
  refine .bind (.modify fun w h => ?_) fun _ => .ite ?_ (.pure _)
  · split
    · exact h.of_log_eq rfl
    · exact h
  · exact .bind (recoverRw_clean _ _ _ _) fun _ => .pure _

theorem transfer_clean (fuel t l : ℕ) (x : Transfer) :
    KeepsClean (transfer fuel t l false false x) := by
  refine .bind .get fun w => .bind ?_ fun status => .ite ?_ (.pure _)
  · rw [if_neg (by simp)]
    exact sdmmc_rw_clean t l false _ _
  · exact keepsClean_of_kept (sdmmc_error_kept status)

/-- Going to a partition leaves the log alone. -/
theorem mmc_set_partition_keeps {I : World → Prop} (hI : ∀ w w', w'.log = w.log → I w → I w')
    (partition : ℕ)
    (a : DevAnswer) : Prog.Keeps (fun _ => True) I (mmc_set_partition partition a) := by
  refine .bind .get fun w => .ite (.pure _) (.bind (.bind (.modify fun w h => ?_) fun _ => .pure _)
    fun status => .ite (.bind (.modify fun w h => hI w _ rfl h) fun _ => .pure _) (.pure _))
  split
  · refine hI _ _ ?_ h
    rw [World.switched]
    split <;> rfl
  · exact h

theorem sdio_set_partition_clean (partition : ℕ) :
    KeepsClean (sdio_set_partition partition) := by
  refine keepsClean_callDevice fun a => .bind .get fun w => .ite ?_ (.pure _)
  exact mmc_set_partition_keeps (fun _ _ hlog h => h.of_log_eq hlog) partition a

theorem sdmmc_read_clean (fuel t l : ℕ) (x : Transfer) :
    KeepsClean (sdmmc_read_write fuel t l false x) := by
  refine .bind (keepsClean_of_kept (sdmmc_unit_ready_kept t l)) fun status => .ite (.pure _) ?_
  refine .bind .get fun w => .ite (keepsClean_of_kept (sdmmc_error_kept _)) ?_
  refine .ite (keepsClean_of_kept (sdmmc_error_kept _)) (.ite (.pure _) ?_)
  refine .bind (sdio_set_partition_clean _) fun status => .ite ?_ ?_
  · exact .bind (keepsClean_of_kept sdmmc_reset_kept) fun _ =>
      keepsClean_of_kept (sdmmc_error_kept _)
  · refine .bind (keepsClean_of_kept (sdmmc_bkops_kept false)) fun _ => ?_
    have hrlw : decide (false = true ∧ (w.ext.eflags.relwr = true ∨
        (x.fua = true ∧ w.ext.dev_inf.caps.wr_rel = true))) = false := by simp
    rw [hrlw]
    exact transfer_clean fuel t l x

/-! ### The other requests -/

theorem sdmmc_sync_kept (t l : ℕ) : Prog.Moves Kept (sdmmc_sync t l) := by
  refine .bind .get fun w => .ite (.pure _) (.bind (sdmmc_unit_ready_kept t l) fun _ => ?_)
  exact .ite (.pure _) (.bind sdmmc_cache_flush_kept fun _ => .pure _)

theorem sdmmc_mpage_caching_kept (wce : Bool) : Prog.Moves Kept (sdmmc_mpage_caching wce) := by
  refine .bind .get fun w => .ite (.bind (sdio_cache_kept _) fun status => ?_) (sdmmc_error_kept _)
  refine .ite (.bind (.modify fun w => .of_frame' rfl rfl rfl) fun _ => .pure _) ?_
  exact sdmmc_error_kept _

theorem sendProtect_clean (config op : ℕ) : KeepsClean (sendProtect config op) :=
  keepsClean_callDevice fun _ => .bind (.modify fun _ h => h.logged rfl) fun _ => .pure _

theorem protectGroups_clean (config op grp : ℕ) :
    ∀ fuel nlba, KeepsClean (protectGroups config op grp fuel nlba)
  | 0, _ => .pure _
  | fuel + 1, nlba => by
      refine .ite (.pure _) (.bind (sendProtect_clean config op) fun _ => .ite (.pure _) ?_)
      exact protectGroups_clean config op grp fuel _

theorem protectMode_kept (partition mode : ℕ) : Prog.Moves Kept (protectMode partition mode) := by
  refine .bind .get fun w => .ite (sdio_mmc_switch_kept (by decide) _) (.ite ?_ (.pure _))
  exact sdio_mmc_switch_kept (by decide) _

theorem sdmmc_write_protect_clean (op partition mode lba nlba : ℕ) :
    KeepsClean (sdmmc_write_protect op partition mode lba nlba) := by
  refine .bind .get fun w => .ite (.pure _) (.ite (.pure _) ?_)
  refine .bind (sdio_set_partition_clean partition) fun status => .ite (.pure _) ?_
  refine .bind (.ite (keepsClean_of_kept (protectMode_kept _ _)) (.pure _)) fun status => ?_
  refine .ite (.pure _) (.bind .ask fun a => .ite (.pure _) (.ite ?_ ?_))
  · exact protectGroups_clean _ _ _ _ _
  · exact sendProtect_clean _ _

theorem sdmmc_wp_devctl_clean (t l : ℕ) (action : WpAction) (mode : ℕ) (lba nlba : BitVec 64) :
    KeepsClean (sdmmc_wp_devctl t l action mode lba nlba) := by
  refine .bind .get fun w => .bind (keepsClean_of_kept (sdmmc_unit_ready_kept t l)) fun status => ?_
  refine .ite (.pure _) (.ite (.pure _) (.ite (.pure _) ?_))
  exact sdmmc_write_protect_clean _ _ _ _ _

theorem readRegister_kept (type : RegType) : Prog.Moves Kept (readRegister type) := by
  refine .bind .get fun w => ?_
  cases type with
  | ext_csd =>
      refine .ite (.pure _) (.bind sdio_send_ext_csd_kept fun csd =>
        .ite (.pure _) (.ite ?_ (.pure _)))
      exact .bind sdmmc_reset_kept fun _ => .pure _
  | sds => exact .ite (.pure _) (.bind sdio_call_kept fun _ => .pure _)
  | cid => exact .pure _
  | csd => exact .pure _
  | scr => exact .pure _
  | other => exact .pure _

theorem sdio_mmc_switch_clean (index value : ℕ) : KeepsClean (sdio_mmc_switch index value) := by
  refine keepsClean_callDevice fun a => .bind (.modify fun w h => ?_) fun _ => .pure _
  split
  · refine h.of_log_eq ?_
    rw [World.switched]
    split <;> rfl
  · exact h

theorem sdmmc_card_register_devctl_clean (t l : ℕ) (type : RegType) (action : RegAction) :
    KeepsClean (sdmmc_card_register_devctl t l type action) := by
  refine .bind (keepsClean_of_kept (sdmmc_unit_ready_kept t l)) fun status => .ite (.pure _) ?_
  cases action with
  | read => exact keepsClean_of_kept (readRegister_kept type)
  | write address value =>
      refine .bind .get fun w => .ite (.ite (.pure _) ?_) (.pure _)
      exact .bind (sdio_mmc_switch_clean _ _) fun _ => .pure _
  | other => exact .pure _

theorem sdmmc_drvr_state_devctl_kept (t l : ℕ) (state : DrvrState) :
    Prog.Moves Kept (sdmmc_drvr_state_devctl t l state) := by
  refine .bind (sdmmc_unit_ready_kept t l) fun status => .ite (.pure _) ?_
  cases state with
  | pause =>
      refine .bind sdmmc_dev_dcfg_kept fun status =>
        .ite (.pure _) (.bind (sdmmc_pm_kept _) fun _ => ?_)
      exact .bind (.modify fun w => .of_frame' rfl rfl rfl) fun _ => .pure _
  | run =>
      refine .bind (sdmmc_pm_kept _) fun _ => .bind sdio_reset_kept fun _ => ?_
      refine .bind sdmmc_dev_cfg_kept fun _ => ?_
      exact .bind (.modify fun w => .of_frame' rfl rfl rfl) fun _ => .pure _

/-! ### Writes -/

/-- A write to a marked partition is refused. -/
theorem sdmmc_write_refused (fuel : ℕ) {t l : ℕ} (x : Transfer) {w : World}
    (hwp : (w.part t l).wp = true) (r : ℕ → DevAnswer) (n : ℕ) :
    Kept w (sdmmc_read_write fuel t l true x r (w, n)).2.1 := by
  rw [sdmmc_read_write]
  cases hr : w.ready t l with
  | false =>
      rw [ite_not_ready hr]
      exact sdmmc_unit_ready_kept t l r w n
  | true =>
      rw [ite_ready hr, Prog.bind_apply, Prog.get_apply]
      dsimp only
      rw [Prog.ite_apply']
      split
      · exact sdmmc_error_kept _ r w n
      · rw [if_pos ⟨rfl, hwp⟩]
        exact sdmmc_error_kept _ r w n

theorem write10_clean (fuel t l : ℕ) (x : Transfer) :
    Prog.Triple (fun _ => True) (fun w => Unmodified w ∧ (w.part t l).wp = true)
      (write10 fuel t l x) fun _ => Unmodified := by
  rw [write10]
  refine Prog.Triple.bind (Q := fun _ w => Unmodified w ∧ (w.part t l).wp = true) ?_ fun _ => ?_
  · refine .modify fun w h => ?_
    split
    · exact ⟨h.1.of_log_eq rfl, h.2⟩
    · exact h
  · intro r _ w n h
    exact h.1.of_kept (sdmmc_write_refused fuel x h.2 r n)

/-! ### Erases -/

/-- There are blocks to erase in a call of `sdio_erase`. -/
def World.erases (w : World) : Prop :=
  ∃ config type lba n, n ≠ 0 ∧ Event.erase_call config type lba n ∈ w.log

/-- What modifies the card is accounted for by a call of `sdio_erase`. -/
def Accounted (w : World) : Prop := (∃ e ∈ w.log, e.modifies = true) → w.erases

theorem Accounted.of_log {w w' : World} (h : Accounted w) (evs : List Event)
    (hlog : w'.log = evs ++ w.log) (hevs : ∀ e ∈ evs, e.modifies = false) : Accounted w' := by
  rintro ⟨e, he, hm⟩
  rw [hlog, List.mem_append] at he
  have he' : e ∈ w.log := by
    rcases he with he | he
    · rw [hevs e he] at hm
      cases hm
    · exact he
  obtain ⟨config, type, lba, n, hn, hc⟩ := h ⟨e, he', hm⟩
  exact ⟨config, type, lba, n, hn, by rw [hlog]; exact List.mem_append_right evs hc⟩

theorem Accounted.of_log_eq {w w' : World} (h : Accounted w) (hlog : w'.log = w.log) :
    Accounted w' := h.of_log [] hlog fun _ he => absurd he List.not_mem_nil

theorem Accounted.logged {w : World} (h : Accounted w) {e : Event} (he : e.modifies = false) :
    Accounted (w.logged e) :=
  h.of_log [e] rfl fun _ h' => by rw [List.mem_singleton.mp h']; exact he

theorem Accounted.of_kept {w w' : World} (hk : Kept w w') (h : Accounted w) : Accounted w' := by
  obtain ⟨us, hus⟩ := hk.log
  exact h.of_log _ hus modifies_marked

/-- The program keeps the account. -/
def KeepsAccount {α : Type} (m : SimM α) : Prop := Prog.Keeps (fun _ => True) Accounted m

theorem keepsAccount_of_kept {α : Type} {m : SimM α} (h : Prog.Moves Kept m) : KeepsAccount m :=
  h.keeps fun _ _ hk => Accounted.of_kept hk

/-- The call that is being served is noted. -/
def Called (config type lba nlba : ℕ) (w : World) : Prop :=
  Accounted w ∧ Event.erase_call config type lba nlba ∈ w.log

section Called

variable {config type lba nlba : ℕ}

theorem Called.of_log_eq {w w' : World} (h : Called config type lba nlba w)
    (hlog : w'.log = w.log) :
    Called config type lba nlba w' := ⟨h.1.of_log_eq hlog, by rw [hlog]; exact h.2⟩

theorem Called.erased {w : World} (h : Called config type lba nlba w) (hn : nlba ≠ 0)
    (access : ℕ) : Called config type lba nlba (w.logged (.erase config access type lba nlba)) :=
  ⟨fun _ => ⟨config, type, lba, nlba, hn, List.mem_cons_of_mem _ h.2⟩, List.mem_cons_of_mem _ h.2⟩

theorem eraseRange_called :
    Prog.Keeps (fun _ => True) (Called config type lba nlba) (eraseRange config type lba nlba) := by
  refine .bind .ask fun a => .ite (.pure _) (.ite_of (fun _ => .pure _) fun hn => ?_)
  refine .bind .ask fun start => .ite (.pure _) (.bind .ask fun stop => .ite (.pure _) ?_)
  exact .bind (.modify fun w h => h.erased hn w.access) fun _ => .bind .ask fun _ => .pure _

end Called

theorem sdio_erase_account (config type lba nlba : ℕ) :
    KeepsAccount (sdio_erase config type lba nlba) := by
  change Prog.Triple (fun _ => True) Accounted (sdio_erase config type lba nlba) fun _ => Accounted
  rw [sdio_erase]
  refine Prog.Triple.bind (Q := fun _ => Called config type lba nlba) ?_ fun _ =>
    Prog.Triple.post (Q := fun _ => Called config type lba nlba) ?_ fun _ _ h => h.1
  · exact .modify fun w h => ⟨h.logged rfl, List.mem_cons_self⟩
  · refine Prog.Keeps.bind .ask fun a => ?_
    refine Prog.Keeps.bind (.modify fun w h => h.of_log_eq rfl) fun _ => .bind .get fun w => ?_
    refine .ite (.pure _) (.bind .get fun w => .ite ?_ eraseRange_called)
    exact .bind (mmc_set_partition_keeps (fun _ _ hlog h => h.of_log_eq hlog) config a) fun _ =>
      .ite (.pure _) eraseRange_called

theorem counted_account (t l nlba : ℕ) (f : ℕ → Partition → Partition) (status : Errno) :
    KeepsAccount (counted t l nlba f status) := by
  refine .modify fun w h => ?_
  split
  · exact h.of_log_eq rfl
  · exact h

theorem eraseCounted_account (t l config type lba nlba : ℕ) (f : ℕ → Partition → Partition) :
    KeepsAccount (eraseCounted t l config type lba nlba f) :=
  .bind (sdio_erase_account _ _ _ _) fun _ => .bind (counted_account _ _ _ _ _) fun _ => .pure _

theorem groupAligned_account (egs lba nlba : ℕ) : KeepsAccount (groupAligned egs lba nlba) := by
  refine .bind (.modify fun w h => ?_) fun _ => .pure _
  split
  · exact h.logged rfl
  · exact h

theorem sdmmc_write_same_account (t l : ℕ) (unmap : Bool) (lba : BitVec 64) (nlba : BitVec 32) :
    KeepsAccount (sdmmc_write_same t l unmap lba nlba) := by
  refine .bind (keepsAccount_of_kept (sdmmc_unit_ready_kept t l)) fun status => .ite (.pure _) ?_
  refine .bind .get fun w => .ite (keepsAccount_of_kept (sdmmc_error_kept _)) ?_
  refine .bind (sdio_erase_account _ _ _ _) fun status =>
    .bind (counted_account _ _ _ _ _) fun _ => ?_
  exact .ite (keepsAccount_of_kept (sdmmc_error_kept _)) (.pure _)

theorem sdmmc_erase12_account (t l : ℕ) (lba nlba : BitVec 32) :
    KeepsAccount (sdmmc_erase12 t l lba nlba) := by
  refine .bind .get fun w => .bind (keepsAccount_of_kept (sdmmc_unit_ready_kept t l))
    fun status => ?_
  refine .ite (.pure _) (.ite (keepsAccount_of_kept (sdmmc_error_kept _)) ?_)
  refine .bind (groupAligned_account _ _ _) fun aligned => ?_
  refine .ite (keepsAccount_of_kept (sdmmc_error_kept _)) ?_
  refine .bind (sdio_erase_account _ _ _ _) fun status =>
    .bind (counted_account _ _ _ _ _) fun _ => ?_
  exact .ite (keepsAccount_of_kept (sdmmc_error_kept _)) (.pure _)

theorem eraseAction_account (t l config egs : ℕ) (caps : DevCaps) (action : EraseAction)
    (slba nlba : ℕ) : KeepsAccount (eraseAction t l config egs caps action slba nlba) := by
  cases action with
  | normal =>
      exact .bind (groupAligned_account _ _ _) fun _ =>
        .ite (eraseCounted_account _ _ _ _ _ _ _) (.pure _)
  | secure =>
      exact .ite (.bind (groupAligned_account _ _ _) fun _ =>
        .ite (eraseCounted_account _ _ _ _ _ _ _) (.pure _)) (.pure _)
  | trim => exact .ite (eraseCounted_account _ _ _ _ _ _ _) (.pure _)
  | secure_trim => exact .ite (eraseCounted_account _ _ _ _ _ _ _) (.pure _)
  | secure_purge => exact .ite (sdio_erase_account _ _ _ _) (.pure _)
  | discard => exact .ite (eraseCounted_account _ _ _ _ _ _ _) (.pure _)
  | other => exact .pure _

theorem sdmmc_erase_devctl_account (t l : ℕ) (action : EraseAction) (lba nlba : BitVec 64) :
    KeepsAccount (sdmmc_erase_devctl t l action lba nlba) := by
  refine .bind .get fun w => .bind (keepsAccount_of_kept (sdmmc_unit_ready_kept t l))
    fun status => ?_
  exact .ite (.pure _) (.ite (.pure _) (eraseAction_account _ _ _ _ _ _ _ _))

theorem sdmmc_dsm_account (t l dtype : ℕ) : ∀ ranges, KeepsAccount (sdmmc_dsm t l dtype ranges)
  | [] => .pure _
  | _ :: ranges => by
      refine .bind .get fun w =>
        .ite (.pure _) (.bind (eraseCounted_account _ _ _ _ _ _ _) fun _ => ?_)
      exact .ite (.pure _) (sdmmc_dsm_account t l dtype ranges)

theorem sdmmc_dsm_devctl_account (t l : ℕ) (opt : DsmOpt) (fits : Bool) (ranges : List DsmRange) :
    KeepsAccount (sdmmc_dsm_devctl t l opt fits ranges) := by
  refine .bind (keepsAccount_of_kept (sdmmc_unit_ready_kept t l)) fun status =>
    .bind .get fun w => ?_
  refine .ite (.pure _) (.ite (.pure _) ?_)
  cases opt with
  | trim => exact .ite (sdmmc_dsm_account _ _ _ ranges) (.pure _)
  | discard => exact .ite (sdmmc_dsm_account _ _ _ ranges) (.pure _)
  | other => exact .pure _

/-! ### Runs -/

def DsmOpt.allowed (caps : DevCaps) : DsmOpt → Bool
  | .trim => caps.trim
  | .discard => caps.discard
  | .other => false

/-- An erase request that its own checks do not refuse, with blocks to erase. -/
def Request.Erases (w : World) (t l : ℕ) : Request → Prop
  | .write_same unmap _ nlba =>
      w.ready t l ∧ w.ext.dev_inf.caps.trim ∧ unmap ∧ nlba.toNat ≠ 0
  | .erase12 lba nlba =>
      let start := (lba.toNat + (w.part t l).slba) % 2 ^ 32
      let egs := w.ext.dev_inf.erase_size / 512
      w.ready t l ∧ (w.part t l).inRange32 start nlba.toNat ∧
        egs ≠ 0 ∧ start % egs = 0 ∧ nlba.toNat % egs = 0 ∧ nlba.toNat ≠ 0
  | .erase action lba nlba =>
      let start := ((w.part t l).slba + lba.toNat) % 2 ^ 64
      let n := nlba.toNat % 2 ^ 32
      let egs := w.ext.dev_inf.erase_size / 512
      w.ready t l ∧ (w.part t l).inRange start n ∧ action.allowed w.ext.dev_inf.caps ∧
        (action.grouped → egs ≠ 0 ∧ start % egs = 0 ∧ n % egs = 0) ∧ n ≠ 0
  | .dsm opt fits ranges =>
      w.ready t l ∧ fits ∧ opt.allowed w.ext.dev_inf.caps ∧
        ∃ x ∈ dsmTaken (w.part t l) ranges, x.nlba.toNat ≠ 0
  | _ => False

/-- No erase request to a marked partition passes its own checks. -/
def NoMarkedErase (w : World) (s : Step) (_ : ℕ → DevAnswer) : Prop :=
  ∀ t l rq, s = .ccb t l rq → (w.part t l).wp = true → ¬ rq.Erases w t l

theorem erases_iff_calls {w : World} : w.erases ↔
    ∃ config type lba n, n ≠ 0 ∧ Event.erase_call config type lba n ∈ w.calls := by
  constructor
  · rintro ⟨config, type, lba, n, hn, h⟩
    exact ⟨config, type, lba, n, hn, List.mem_filter.mpr ⟨h, rfl⟩⟩
  · rintro ⟨config, type, lba, n, hn, h⟩
    exact ⟨config, type, lba, n, hn, (List.mem_filter.mp h).1⟩

theorem not_erases_of_calls {w : World} (h : w.calls = []) : ¬ w.erases := by
  intro he
  obtain ⟨c, ty, b, k, _, hmem⟩ := erases_iff_calls.mp he
  rw [h] at hmem
  cases hmem

theorem mem_groupCalls {egs lba nlba c ty b k : ℕ} {e : Event}
    (h : Event.erase_call c ty b k ∈ groupCalls egs lba nlba e) :
    egs ≠ 0 ∧ lba % egs = 0 ∧ nlba % egs = 0 ∧ e = .erase_call c ty b k := by
  rw [groupCalls] at h
  by_cases h0 : egs = 0
  · rw [if_pos h0, List.mem_singleton] at h
    cases h
  · rw [if_neg h0] at h
    split at h
    case isTrue ha => exact ⟨h0, ha.1, ha.2, (List.mem_singleton.mp h).symm⟩
    case isFalse => cases h

theorem mem_ite_nil {c : Prop} [Decidable c] {cs : List Event} {e : Event}
    (h : e ∈ (if c then cs else [])) : c ∧ e ∈ cs := by
  split at h
  case isTrue hc => exact ⟨hc, h⟩
  case isFalse => cases h

section dispatch

variable {w : World} {t l : ℕ} {r : ℕ → DevAnswer} {n : ℕ} (h0 : w.calls = [])

include h0

theorem write_same_erases {unmap : Bool} {lba : BitVec 64} {nlba : BitVec 32}
    (h : (sdmmc_write_same t l unmap lba nlba r (w, n)).2.1.erases) :
    (Request.write_same unmap lba nlba).Erases w t l := by
  obtain ⟨c, ty, b, k, hk, hmem⟩ := erases_iff_calls.mp h
  rw [write_same_calls, h0, List.append_nil] at hmem
  obtain ⟨hc, hmem⟩ := mem_ite_nil hmem
  rw [List.mem_singleton, Event.erase_call.injEq] at hmem
  obtain ⟨_, _, _, rfl⟩ := hmem
  exact ⟨hc.1, hc.2.1, hc.2.2, hk⟩

theorem erase12_erases {lba nlba : BitVec 32}
    (h : (sdmmc_erase12 t l lba nlba r (w, n)).2.1.erases) :
    (Request.erase12 lba nlba).Erases w t l := by
  obtain ⟨c, ty, b, k, hk, hmem⟩ := erases_iff_calls.mp h
  rw [erase12_calls, h0, List.append_nil] at hmem
  obtain ⟨hc, hmem⟩ := mem_ite_nil hmem
  obtain ⟨he, hl, hn, heq⟩ := mem_groupCalls hmem
  rw [Event.erase_call.injEq] at heq
  obtain ⟨_, _, _, rfl⟩ := heq
  exact ⟨hc.1, hc.2, he, hl, hn, hk⟩

theorem erase_devctl_erases {action : EraseAction} {lba nlba : BitVec 64}
    (h : (sdmmc_erase_devctl t l action lba nlba r (w, n)).2.1.erases) :
    (Request.erase action lba nlba).Erases w t l := by
  obtain ⟨c, ty, b, k, hk, hmem⟩ := erases_iff_calls.mp h
  rw [erase_devctl_calls, h0, List.append_nil] at hmem
  obtain ⟨hc, hmem⟩ := mem_ite_nil hmem
  obtain ⟨ha, hmem⟩ := mem_ite_nil hmem
  by_cases hg : action.grouped = true
  · rw [if_pos hg] at hmem
    obtain ⟨he, hl, hn, heq⟩ := mem_groupCalls hmem
    rw [Event.erase_call.injEq] at heq
    obtain ⟨_, _, _, rfl⟩ := heq
    exact ⟨hc.1, hc.2, ha, fun _ => ⟨he, hl, hn⟩, hk⟩
  · rw [if_neg hg, List.mem_singleton, Event.erase_call.injEq] at hmem
    obtain ⟨_, _, _, rfl⟩ := hmem
    exact ⟨hc.1, hc.2, ha, fun h => absurd h hg, hk⟩

theorem dsm_taken_of_erases {dtype : ℕ} {ranges : List DsmRange}
    (h : (sdmmc_dsm t l dtype ranges r (w, n)).2.1.erases) :
    ∃ x ∈ dsmTaken (w.part t l) ranges, x.nlba.toNat ≠ 0 := by
  obtain ⟨c, ty, b, k, hk, hmem⟩ := erases_iff_calls.mp h
  rcases dsm_calls_subset t l r dtype (w.part t l) ranges w n rfl _ hmem with he | ⟨x, hx, heq⟩
  · rw [h0] at he
    cases he
  · rw [dsmCall, Event.erase_call.injEq] at heq
    exact ⟨x, hx, by rw [← heq.2.2.2]; exact hk⟩

theorem dsm_devctl_erases {opt : DsmOpt} {fits : Bool} {ranges : List DsmRange}
    (h : (sdmmc_dsm_devctl t l opt fits ranges r (w, n)).2.1.erases) :
    (Request.dsm opt fits ranges).Erases w t l := by
  have hnone : ∀ {w' : World}, w'.calls = w.calls → ¬ w'.erases := fun hw' =>
    not_erases_of_calls (hw'.trans h0)
  rw [sdmmc_dsm_devctl] at h
  cases hr : w.ready t l with
  | false =>
      rw [Prog.bind_apply, Prog.bind_apply, Prog.get_apply] at h
      dsimp only at h
      rw [if_pos (unit_ready_of_not_ready hr r n)] at h
      exact absurd h (hnone (Calm.of_kept (sdmmc_unit_ready_kept t l r w n)).calls)
  | true =>
      rw [Prog.bind_of_eq (unit_ready_of_ready hr r n), Prog.bind_apply, Prog.get_apply] at h
      dsimp only at h
      rw [if_neg (by simp)] at h
      cases hf : fits with
      | false =>
          rw [hf, if_pos Bool.not_false] at h
          exact absurd h (hnone rfl)
      | true =>
          rw [hf, if_neg (by simp)] at h
          cases opt with
          | trim =>
              dsimp only at h
              rw [Prog.ite_apply'] at h
              split at h
              case isTrue ht => exact ⟨hr, rfl, ht, dsm_taken_of_erases h0 h⟩
              case isFalse => exact absurd h (hnone rfl)
          | discard =>
              dsimp only at h
              rw [Prog.ite_apply'] at h
              split at h
              case isTrue ht => exact ⟨hr, rfl, ht, dsm_taken_of_erases h0 h⟩
              case isFalse => exact absurd h (hnone rfl)
          | other => exact absurd h (hnone rfl)

end dispatch

theorem inRange32_congr {p q : Partition} (h : p.range = q.range) : p.inRange32 = q.inRange32 := by
  simp only [Partition.range, Prod.mk.injEq] at h
  funext lba nlba
  simp only [Partition.inRange32, h.2.1, h.2.2]

theorem dsmTaken_congr {p q : Partition} (h : p.range = q.range) : dsmTaken p = dsmTaken q := by
  have hin := inRange_congr h
  simp only [Partition.range, Prod.mk.injEq] at h
  funext ranges
  simp only [dsmTaken, hin, h.2.1]

theorem Kept.ready {w w' : World} (hk : Kept w w') {t l : ℕ} (h : w'.ready t l = true) :
    w.ready t l = true := by
  obtain ⟨b, hb⟩ := hk.part t l
  simp only [World.ready, Bool.and_eq_true, decide_eq_true_eq, hb] at h ⊢
  exact ⟨hk.present h.1, h.2⟩

/-- The checks of an erase request see the same before and after upkeep. -/
theorem Request.Erases.of_kept {w w' : World} (hk : Kept w w') {t l : ℕ} {rq : Request}
    (h : rq.Erases w' t l) : rq.Erases w t l := by
  have hrange : (w'.part t l).range = (w.part t l).range := (Calm.of_kept hk).range t l
  have hslba : (w'.part t l).slba = (w.part t l).slba := congrArg (fun x => x.2.1) hrange
  cases rq with
  | write_same unmap lba nlba =>
      simp only [Request.Erases, hk.dev_inf] at h ⊢
      exact ⟨hk.ready h.1, h.2⟩
  | erase12 lba nlba =>
      simp only [Request.Erases, hk.dev_inf, hslba, inRange32_congr hrange] at h ⊢
      exact ⟨hk.ready h.1, h.2⟩
  | erase action lba nlba =>
      simp only [Request.Erases, hk.dev_inf, hslba, inRange_congr hrange] at h ⊢
      exact ⟨hk.ready h.1, h.2⟩
  | dsm opt fits ranges =>
      simp only [Request.Erases, hk.dev_inf, dsmTaken_congr hrange] at h ⊢
      exact ⟨hk.ready h.1, h.2⟩
  | _ => exact h

theorem Accounted.unmodified {w : World} (h : Accounted w) (he : ¬ w.erases) : Unmodified w := by
  intro e hmem
  cases hm : e.modifies with
  | false => rfl
  | true => exact absurd (h ⟨e, hmem, hm⟩) he

/-- The end of an erase request that its checks refuse. -/
theorem unmodified_of_refused {α : Type} {m : SimM α} (hm : KeepsAccount m) {w : World}
    (hw : Unmodified w) {r : ℕ → DevAnswer} {n : ℕ} (he : ¬ (m r (w, n)).2.1.erases) :
    Unmodified (m r (w, n)).2.1 := by
  have ha : Accounted w := by
    rintro ⟨e, hmem, hmod⟩
    rw [hw e hmem] at hmod
    cases hmod
  exact (hm r (fun _ => trivial) w n ha).unmodified he

/-- **One request**: a marked partition is not modified unless an erase passes its checks. -/
theorem dispatch_unmodified (fuel : ℕ) {t l : ℕ} {rq : Request} {w : World} (hw : Unmodified w)
    (h0 : w.calls = []) (hwp : (w.part t l).wp = true) (he : ¬ rq.Erases w t l)
    (hrq : ∀ flags refused, rq ≠ .rpmb flags refused) (r : ℕ → DevAnswer) (n : ℕ) :
    Unmodified (dispatch fuel t l rq r (w, n)).2.1 := by
  have hA : ∀ k, (fun _ : DevAnswer => True) (r k) := fun _ => trivial
  cases rq with
  | read10 x => exact sdmmc_read_clean fuel t l x r hA w n hw
  | write10 x => exact write10_clean fuel t l x r hA w n ⟨hw, hwp⟩
  | sync => exact hw.of_kept (sdmmc_sync_kept t l r w n)
  | mode_select wce => exact hw.of_kept (sdmmc_mpage_caching_kept wce r w n)
  | erase12 lba nlba =>
      exact unmodified_of_refused (sdmmc_erase12_account t l lba nlba) hw fun h =>
        he (erase12_erases h0 h)
  | write_same unmap lba nlba =>
      exact unmodified_of_refused (sdmmc_write_same_account t l unmap lba nlba) hw fun h =>
        he (write_same_erases h0 h)
  | erase action lba nlba =>
      exact unmodified_of_refused (sdmmc_erase_devctl_account t l action lba nlba) hw fun h =>
        he (erase_devctl_erases h0 h)
  | dsm opt fits ranges =>
      exact unmodified_of_refused (sdmmc_dsm_devctl_account t l opt fits ranges) hw fun h =>
        he (dsm_devctl_erases h0 h)
  | write_protect action mode lba nlba =>
      exact sdmmc_wp_devctl_clean t l action mode lba nlba r hA w n hw
  | card_register type action => exact sdmmc_card_register_devctl_clean t l type action r hA w n hw
  | rpmb flags refused => exact absurd rfl (hrq flags refused)
  | drvr_state state => exact hw.of_kept (sdmmc_drvr_state_devctl_kept t l state r w n)

/-- **One step** with a request to a marked partition. -/
theorem step_unmodified (fuel : ℕ) {t l : ℕ} {rq : Request} {w : World} {r : ℕ → DevAnswer}
    (hwp : (w.part t l).wp = true) (he : ¬ rq.Erases w t l)
    (hrq : ∀ flags refused, rq ≠ .rpmb flags refused) :
    Unmodified (step fuel w (.ccb t l rq, r)) := by
  have hstart : Unmodified w.forget := fun e he => absurd he List.not_mem_nil
  have hend : KeepsClean (do
      let status ← sdio_retune
      if status ≠ .eok then sdmmc_reset else return ()) :=
    .bind (keepsClean_of_kept sdio_retune_kept) fun _ =>
      .ite (keepsClean_of_kept sdmmc_reset_kept) (.pure _)
  change Unmodified (whenAttached (sdmmc_sim_action fuel t l rq) r (w.forget, 0)).2.1
  rw [whenAttached, Prog.bind_apply, Prog.get_apply, Prog.ite_apply']
  split
  swap
  · exact hstart
  rw [sdmmc_sim_action, Prog.bind_apply, Prog.get_apply, Prog.ite_apply']
  split
  swap
  · exact hstart
  have hpm := sdmmc_pm_kept .active r w.forget 0
  refine hend r (fun _ => trivial) _ _ ?_
  refine dispatch_unmodified fuel (hstart.of_kept hpm) ?_ (hpm.wp hwp) (fun h => ?_) hrq r _
  · exact (Calm.of_kept hpm).calls
  · exact he (h.of_kept hpm)

/-- **Write protection**: in every state, and so in every state of a run, no request modifies a
marked partition, unless it is an erase request that passes its own checks. -/
theorem write_protected (fuel : ℕ) {w : World} {t l : ℕ} {rq : Request} {r : ℕ → DevAnswer}
    (hC : NoMarkedErase w (.ccb t l rq) r) (hwp : (w.part t l).wp = true)
    (hrq : ∀ flags refused, rq ≠ .rpmb flags refused) :
    ∀ e ∈ (step fuel w (.ccb t l rq, r)).log, e.modifies = false :=
  step_unmodified fuel hwp (hC t l rq rfl hwp) hrq

/-! ### A marked partition that is erased -/

/-- A card with its switch set. -/
def lockedCard : Card := { smallCard with info := { smallCard.info with wp := true } }

def lockedBus : World := step 0 (emptyBus {} false) (.insertion lockedCard, willing)

theorem write_protected_lockedBus :
    (lockedBus.part 0 0).wp = true ∧
      ∀ e ∈ (step 0 lockedBus (.ccb 0 0 (.write10 { lba := 3, len := 512 }), willing)).log,
        e.modifies = false := by
  have hwp : (lockedBus.part 0 0).wp = true := by decide +kernel
  refine ⟨hwp, write_protected 0 ?_ hwp fun _ _ h => by cases h⟩
  rintro t l rq ⟨⟩ _ he
  exact he

/-- A trim of 8 blocks of a card with its switch set is carried out. -/
theorem marked_partition_erased :
    Reached 0 NoMarkedErase (emptyBus {} false) lockedBus ∧ (lockedBus.part 0 0).wp = true ∧
      Event.erase 0 0 MMC_ERASE_TRIM 0 8 ∈
        (step 0 lockedBus (.ccb 0 0 (.erase .trim 0 8), willing)).log := by
  refine ⟨.step .start fun _ _ _ h => ?_, ?_, ?_⟩
  · cases h
  · decide +kernel
  · decide +kernel

end Sdmmc
