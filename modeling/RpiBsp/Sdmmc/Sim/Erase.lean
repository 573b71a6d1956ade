import Mathlib.Data.List.TakeWhile
import RpiBsp.Sdmmc.Sim.Bus

/-!
# Sdmmc — Sim — erase

Four kinds of request erase blocks of a partition.  They come to `sdio_erase` with an absolute
range, and compute and check it each in its own way: `sdmmc_erase_devctl` and `sdmmc_dsm` in 64
bits, `sdmmc_erase12` in 32, `sdmmc_write_same` not at all.

* `Within p e` — an event is no division by zero, and a call of `sdio_erase` is for the
  configuration and for blocks of `p`, in unbounded arithmetic.
* `EraseReq.Sound` — what the request has to be: it has blocks, its start does not wrap and its
  end is checked, and there is an erase group where it is divided by.
* `erase_within_iff` — the calls are within the partition for all answers of the device if and
  only if the request is sound.
-/

namespace Sdmmc

open Support

/-! ### The requests -/

/-- The functions that erase, with what they are given. -/
inductive EraseReq where
  | write_same (unmap : Bool) (lba : BitVec 64) (nlba : BitVec 32)
  | erase12 (lba nlba : BitVec 32)
  | erase (action : EraseAction) (lba nlba : BitVec 64)
  | dsm (dtype : ℕ) (ranges : List DsmRange)

def EraseReq.exec (t l : ℕ) : EraseReq → SimM Unit
  | .write_same unmap lba nlba => do let _ ← sdmmc_write_same t l unmap lba nlba
  | .erase12 lba nlba => do let _ ← sdmmc_erase12 t l lba nlba
  | .erase action lba nlba => do let _ ← sdmmc_erase_devctl t l action lba nlba
  | .dsm dtype ranges => do let _ ← sdmmc_dsm t l dtype ranges

/-- A call of `sdio_erase` is within a partition, and nothing is divided by zero. -/
def Within (p : Partition) : Event → Prop
  | .erase_call config _ lba n =>
      config = p.config ∧ 1 ≤ n ∧ p.slba ≤ lba ∧ lba + n - 1 ≤ p.slba + p.nlba - 1
  | .div_zero => False
  | _ => True

/-- The device can do it. -/
def EraseAction.allowed (caps : DevCaps) : EraseAction → Bool
  | .normal => true
  | .secure => caps.secure
  | .trim => caps.trim
  | .secure_trim => caps.secure ∧ caps.trim
  | .secure_purge => caps.secure ∧ caps.trim
  | .discard => caps.trim
  | .other => false

/-- The argument of the erase command. -/
def EraseAction.type : EraseAction → ℕ
  | .normal => MMC_ERASE_NORM
  | .secure => MMC_ERASE_SECURE
  | .trim => MMC_ERASE_TRIM
  | .secure_trim => MMC_ERASE_SECURE_TRIM
  | .secure_purge => MMC_ERASE_SECURE_TRIM_PURGE
  | .discard => MMC_ERASE_DISCARD
  | .other => MMC_ERASE_NORM

/-- The range has to be one of erase groups. -/
def EraseAction.grouped : EraseAction → Bool
  | .normal => true
  | .secure => true
  | _ => false

/-- There are erase groups, and if the range is one of them it meets `P`. -/
def GroupsMeet (egs lba n : ℕ) (P : Prop) : Prop :=
  egs ≠ 0 ∧ (lba % egs = 0 → n % egs = 0 → P)

/-- What a request has to be if the function does not refuse it. -/
def EraseReq.Sound (w : World) (t l : ℕ) : EraseReq → Prop
  | .write_same unmap lba nlba =>
      w.ready t l → w.ext.dev_inf.caps.trim → unmap →
        nlba.toNat ≠ 0 ∧ lba.toNat + nlba.toNat ≤ (w.part t l).nlba
  | .erase12 lba nlba =>
      let start := (lba.toNat + (w.part t l).slba) % 2 ^ 32
      w.ready t l → (w.part t l).inRange32 start nlba.toNat →
        GroupsMeet (w.ext.dev_inf.erase_size / 512) start nlba.toNat
          (nlba.toNat ≠ 0 ∧ (w.part t l).slba + lba.toNat < 2 ^ 32 ∧
            lba.toNat + nlba.toNat ≤ (w.part t l).nlba)
  | .erase action lba nlba =>
      let start := ((w.part t l).slba + lba.toNat) % 2 ^ 64
      let n := nlba.toNat % 2 ^ 32
      w.ready t l → (w.part t l).inRange start n → action.allowed w.ext.dev_inf.caps →
        if action.grouped then
          GroupsMeet (w.ext.dev_inf.erase_size / 512) start n
            (n ≠ 0 ∧ (w.part t l).slba + lba.toNat < 2 ^ 64)
        else n ≠ 0 ∧ (w.part t l).slba + lba.toNat < 2 ^ 64
  | .dsm _ ranges =>
      -- The ranges are taken one after the other, up to one that is refused; a device that is being
      -- removed fails at the first.
      ∀ x ∈ (if w.gone then ranges.take 1 else ranges).takeWhile fun x =>
          (w.part t l).inRange (((w.part t l).slba + x.lba.toNat) % 2 ^ 64) x.nlba.toNat,
        x.nlba.toNat ≠ 0 ∧ (w.part t l).slba + x.lba.toNat < 2 ^ 64

/-! ### The calls of a run -/

/-- A call of `sdio_erase`, or a division by zero. -/
def Event.critical : Event → Bool
  | .erase_call .. => true
  | .div_zero => true
  | _ => false

def World.calls (w : World) : List Event := w.log.filter Event.critical

theorem within_of_not_critical {e : Event} (h : e.critical = false) (p : Partition) :
    Within p e := by
  cases e <;> first | exact trivial | cases h

theorem within_log_iff {w : World} {p : Partition} :
    (∀ e ∈ w.log, Within p e) ↔ ∀ e ∈ w.calls, Within p e := by
  constructor
  · intro h e he
    exact h e (List.mem_filter.mp he).1
  · intro h e he
    cases hc : e.critical with
    | true => exact h e (List.mem_filter.mpr ⟨he, hc⟩)
    | false => exact within_of_not_critical hc p

/-- What the functions read of a partition. -/
def Partition.range (p : Partition) : ℕ × ℕ × ℕ := (p.config, p.slba, p.nlba)

/-- No call is made and no partition moves. -/
structure Calm (w w' : World) : Prop where
  range : ∀ t l, (w'.part t l).range = (w.part t l).range
  calls : w'.calls = w.calls

namespace Calm

theorem refl (w : World) : Calm w w := ⟨fun _ _ => rfl, rfl⟩

theorem trans {w w' w'' : World} (h : Calm w w') (h' : Calm w' w'') : Calm w w'' :=
  ⟨fun t l => (h'.range t l).trans (h.range t l), h'.calls.trans h.calls⟩

instance : Std.Refl Calm := ⟨refl⟩

instance : IsTrans World Calm := ⟨fun _ _ _ => trans⟩

theorem of_kept {w w' : World} (h : Kept w w') : Calm w w' := by
  refine ⟨fun t l => ?_, ?_⟩
  · obtain ⟨b, hb⟩ := h.part t l
    rw [hb]
    rfl
  · obtain ⟨us, hus⟩ := h.log
    have hnone : (us.map Event.marked).filter Event.critical = [] := by
      rw [List.filter_eq_nil_iff]
      intro e he
      obtain ⟨u, _, rfl⟩ := List.mem_map.mp he
      exact Bool.false_ne_true
    rw [World.calls, World.calls, hus, List.filter_append, hnone, List.nil_append]

theorem of_moves {α : Type} {m : SimM α} (h : Prog.Moves Kept m) : Prog.Moves Calm m :=
  fun r s n => of_kept (h r s n)

end Calm

theorem calm_setPart {w : World} {t l : ℕ} {f : Partition → Partition}
    (hf : ∀ p, (f p).range = p.range) : Calm w (w.setPart t l f) := by
  refine ⟨fun t' l' => ?_, rfl⟩
  change (if t' = t ∧ l' = l then f (w.ext.partitions t' l') else w.ext.partitions t' l').range = _
  split
  · exact hf _
  · rfl

theorem counted_calm (t l nlba : ℕ) {f : ℕ → Partition → Partition}
    (hf : ∀ n p, (f n p).range = p.range) (status : Errno) :
    Prog.Moves Calm (counted t l nlba f status) := by
  refine .modify fun w => ?_
  split
  · exact calm_setPart (hf nlba)
  · exact .refl w

theorem range_addTc (n : ℕ) (p : Partition) : (p.addTc n).range = p.range := rfl

theorem range_addEc (n : ℕ) (p : Partition) : (p.addEc n).range = p.range := rfl

theorem range_addDc (n : ℕ) (p : Partition) : (p.addDc n).range = p.range := rfl

/-! ### `sdio_erase` -/

theorem mmc_set_partition_calm (partition : ℕ) (a : DevAnswer) :
    Prog.Moves Calm (mmc_set_partition partition a) := by
  refine .bind .get fun w => .ite (.pure _) (.bind (.bind (.modify fun w => ?_) fun _ => .pure _)
    fun status => .ite (.bind (.modify fun w => ⟨fun _ _ => rfl, rfl⟩) fun _ => .pure _) (.pure _))
  split
  · rw [World.switched]
    split <;> exact ⟨fun _ _ => rfl, rfl⟩
  · exact .refl w

theorem eraseRange_calm (config type lba nlba : ℕ) :
    Prog.Moves Calm (eraseRange config type lba nlba) := by
  refine .bind .ask fun a => .ite (.pure _) (.ite (.pure _) (.bind .ask fun start => ?_))
  refine .ite (.pure _) (.bind .ask fun stop => .ite (.pure _) ?_)
  exact .bind (.modify fun w => ⟨fun _ _ => rfl, rfl⟩) fun _ => .bind .ask fun _ => .pure _

/-- `sdio_erase`, once the call is noted. -/
theorem sdio_erase_tail_calm (config type lba nlba : ℕ) :
    Prog.Moves Calm (callDevice Errno.enxio fun a => do
      let w ← get
      if w.ext.dtype = .mmc then
        let status ← mmc_set_partition config a
        if status ≠ .eok then return status else eraseRange config type lba nlba
      else eraseRange config type lba nlba) := by
  refine moves_callDevice (fun w b => Calm.of_kept (kept_gone w b)) fun a => .bind .get fun w => ?_
  refine .ite (.bind (mmc_set_partition_calm config a) fun _ => .ite (.pure _) ?_) ?_
  · exact eraseRange_calm config type lba nlba
  · exact eraseRange_calm config type lba nlba

section sdio_erase

variable (config type lba nlba : ℕ) (r : ℕ → DevAnswer) (w : World) (n : ℕ)

theorem sdio_erase_calls :
    (sdio_erase config type lba nlba r (w, n)).2.1.calls =
      .erase_call config type lba nlba :: w.calls := by
  have h := sdio_erase_tail_calm config type lba nlba r
    (w.logged (.erase_call config type lba nlba)) n
  exact h.calls

theorem sdio_erase_range (t l : ℕ) :
    ((sdio_erase config type lba nlba r (w, n)).2.1.part t l).range = (w.part t l).range := by
  have h := sdio_erase_tail_calm config type lba nlba r
    (w.logged (.erase_call config type lba nlba)) n
  exact h.range t l

end sdio_erase

/-- What follows the erase makes no call. -/
theorem erase_then_calls {α : Type} {config type lba nlba : ℕ} {f : Errno → SimM α}
    (hf : ∀ status, Prog.Moves Calm (f status)) (r : ℕ → DevAnswer) (w : World) (n : ℕ) :
    ((sdio_erase config type lba nlba >>= f) r (w, n)).2.1.calls =
      [.erase_call config type lba nlba] ++ w.calls := by
  rw [Prog.bind_apply]
  exact (hf _ r _ _).calls.trans (sdio_erase_calls config type lba nlba r w n)

/-- The end of a SCSI request that erases. -/
theorem erase_end_calm (t l nlba : ℕ) {f : ℕ → Partition → Partition}
    (hf : ∀ n p, (f n p).range = p.range) (status : Errno) : Prog.Moves Calm (do
      counted t l nlba f status
      if status ≠ .eok then sdmmc_error status else return CamStatus.req_cmp) := by
  refine .bind (counted_calm t l nlba hf status) fun _ => .ite ?_ (.pure _)
  exact .of_moves (sdmmc_error_kept status)

theorem eraseCounted_calls (t l : ℕ) {config type lba nlba : ℕ} {f : ℕ → Partition → Partition}
    (hf : ∀ n p, (f n p).range = p.range) (r : ℕ → DevAnswer) (w : World) (n : ℕ) :
    (eraseCounted t l config type lba nlba f r (w, n)).2.1.calls =
      [.erase_call config type lba nlba] ++ w.calls :=
  erase_then_calls (fun status => .bind (counted_calm t l nlba hf status) fun _ => .pure _) r w n

theorem guarded_calls {c : Prop} [Decidable c] {m : SimM Errno} {es : List Event}
    {r : ℕ → DevAnswer} {w : World} {n : ℕ} (h : (m r (w, n)).2.1.calls = es ++ w.calls) :
    ((if c then m else return .einval) r (w, n)).2.1.calls = (if c then es else []) ++ w.calls := by
  split
  · exact h
  · rfl

/-- What the test of the erase groups, and what is done if it holds, add to the calls. -/
def groupCalls (egs lba nlba : ℕ) (e : Event) : List Event :=
  if egs = 0 then [.div_zero] else if lba % egs = 0 ∧ nlba % egs = 0 then [e] else []

theorem groupAligned_then_calls {α : Type} {egs lba nlba : ℕ} {e : Event} {f : Bool → SimM α}
    {r : ℕ → DevAnswer} {w : World} {n : ℕ}
    (ht : (f true r (w, n)).2.1.calls = [e] ++ w.calls)
    (hf : Prog.Moves Calm (f false)) :
    ((groupAligned egs lba nlba >>= f) r (w, n)).2.1.calls =
      groupCalls egs lba nlba e ++ w.calls := by
  rw [groupCalls, Prog.bind_apply, groupAligned, Prog.bind_apply, Prog.modify_apply,
    Prog.pure_apply]
  by_cases h0 : egs = 0
  · rw [if_pos h0, if_pos h0]
    have hd : decide (egs ≠ 0 ∧ lba % egs = 0 ∧ nlba % egs = 0) = false := by simp [h0]
    rw [hd]
    exact (hf r _ n).calls
  · rw [if_neg h0, if_neg h0]
    by_cases ha : lba % egs = 0 ∧ nlba % egs = 0
    · have hd : decide (egs ≠ 0 ∧ lba % egs = 0 ∧ nlba % egs = 0) = true := by simp [h0, ha]
      rw [if_pos ha, hd]
      exact ht
    · have hd : decide (egs ≠ 0 ∧ lba % egs = 0 ∧ nlba % egs = 0) = false := by simp [ha]
      rw [if_neg ha, hd]
      exact (hf r _ n).calls

/-! ### The calls of each function -/

section functions

variable (t l : ℕ) (r : ℕ → DevAnswer) (w : World) (n : ℕ)

theorem write_same_calls (unmap : Bool) (lba : BitVec 64) (nlba : BitVec 32) :
    (sdmmc_write_same t l unmap lba nlba r (w, n)).2.1.calls =
      (if w.ready t l ∧ w.ext.dev_inf.caps.trim ∧ unmap then
        [.erase_call (w.part t l).config MMC_ERASE_TRIM
          ((lba.toNat + (w.part t l).slba) % 2 ^ 64) nlba.toNat] else []) ++ w.calls := by
  cases hr : w.ready t l with
  | false =>
      rw [sdmmc_write_same, ite_not_ready hr]
      exact (Calm.of_kept (sdmmc_unit_ready_kept t l r w n)).calls
  | true =>
      rw [sdmmc_write_same, ite_ready hr, Prog.bind_apply, Prog.get_apply, Prog.ite_apply']
      by_cases hc : w.ext.dev_inf.caps.trim = true ∧ unmap = true
      · rw [if_neg (by simp [hc.1, hc.2]), if_pos ⟨rfl, hc⟩]
        exact erase_then_calls (fun status => erase_end_calm t l _ range_addTc status) r w n
      · rw [if_pos (by simpa [or_iff_not_imp_left] using hc), if_neg (by simpa using hc)]
        exact (Calm.of_kept (sdmmc_error_kept _ r w n)).calls

theorem erase12_calls (lba nlba : BitVec 32) :
    (sdmmc_erase12 t l lba nlba r (w, n)).2.1.calls =
      (if w.ready t l ∧ (w.part t l).inRange32 ((lba.toNat + (w.part t l).slba) % 2 ^ 32)
        nlba.toNat then
        groupCalls (w.ext.dev_inf.erase_size / 512) ((lba.toNat + (w.part t l).slba) % 2 ^ 32)
          nlba.toNat (.erase_call (w.part t l).config MMC_ERASE_SECURE
            ((lba.toNat + (w.part t l).slba) % 2 ^ 32) nlba.toNat) else []) ++ w.calls := by
  rw [sdmmc_erase12, Prog.bind_apply, Prog.get_apply]
  dsimp only
  generalize (lba.toNat + (w.part t l).slba) % 2 ^ 32 = start
  cases hr : w.ready t l with
  | false =>
      rw [ite_not_ready hr]
      exact (Calm.of_kept (sdmmc_unit_ready_kept t l r w n)).calls
  | true =>
      rw [ite_ready hr, Prog.ite_apply']
      cases hc : (w.part t l).inRange32 start nlba.toNat with
      | false =>
          rw [if_pos Bool.not_false, if_neg (by simp)]
          exact (Calm.of_kept (sdmmc_error_kept _ r w n)).calls
      | true =>
          rw [if_neg (by simp), if_pos ⟨rfl, rfl⟩]
          refine groupAligned_then_calls ?_ ?_
          · exact erase_then_calls (fun status => erase_end_calm t l _ range_addEc status) r w n
          · change Prog.Moves Calm (sdmmc_error .einval)
            exact .of_moves (sdmmc_error_kept .einval)

/-- What an action adds to the calls. -/
def EraseAction.calls (config egs : ℕ) (caps : DevCaps) (slba nlba : ℕ) (action : EraseAction) :
    List Event :=
  if action.allowed caps then
    if action.grouped then groupCalls egs slba nlba (.erase_call config action.type slba nlba)
    else [.erase_call config action.type slba nlba]
  else []

theorem eraseAction_calls (config egs : ℕ) (caps : DevCaps) (action : EraseAction) (slba nlba : ℕ) :
    (eraseAction t l config egs caps action slba nlba r (w, n)).2.1.calls =
      action.calls config egs caps slba nlba ++ w.calls := by
  cases action with
  | normal => exact groupAligned_then_calls (eraseCounted_calls t l range_addEc r w n) (.pure _)
  | secure =>
      refine guarded_calls ?_
      exact groupAligned_then_calls (eraseCounted_calls t l range_addEc r w n) (.pure _)
  | trim => exact guarded_calls (eraseCounted_calls t l range_addTc r w n)
  | secure_trim =>
      rw [EraseAction.calls, EraseAction.allowed]
      simp only [decide_eq_true_eq]
      exact guarded_calls (eraseCounted_calls t l range_addTc r w n)
  | secure_purge =>
      rw [EraseAction.calls, EraseAction.allowed]
      simp only [decide_eq_true_eq]
      exact guarded_calls (sdio_erase_calls _ _ _ _ r w n)
  | discard => exact guarded_calls (eraseCounted_calls t l range_addDc r w n)
  | other => rfl

theorem erase_devctl_calls (action : EraseAction) (lba nlba : BitVec 64) :
    (sdmmc_erase_devctl t l action lba nlba r (w, n)).2.1.calls =
      (if w.ready t l ∧ (w.part t l).inRange (((w.part t l).slba + lba.toNat) % 2 ^ 64)
          (nlba.toNat % 2 ^ 32) then
        action.calls (w.part t l).config (w.ext.dev_inf.erase_size / 512) w.ext.dev_inf.caps
          (((w.part t l).slba + lba.toNat) % 2 ^ 64) (nlba.toNat % 2 ^ 32)
        else []) ++ w.calls := by
  rw [sdmmc_erase_devctl, Prog.bind_apply, Prog.get_apply]
  dsimp only
  generalize ((w.part t l).slba + lba.toNat) % 2 ^ 64 = start
  generalize nlba.toNat % 2 ^ 32 = count
  cases hr : w.ready t l with
  | false =>
      rw [ite_not_ready hr]
      exact (Calm.of_kept (sdmmc_unit_ready_kept t l r w n)).calls
  | true =>
      rw [ite_ready hr, Prog.ite_apply']
      cases hc : (w.part t l).inRange start count with
      | false =>
          rw [if_pos Bool.not_false, if_neg (by simp)]
          rfl
      | true =>
          rw [if_neg (by simp), if_pos ⟨rfl, rfl⟩]
          exact eraseAction_calls t l r w n _ _ _ action start count

/-- The ranges that `sdmmc_dsm` does not refuse, up to the first that it does. -/
def dsmTaken (p : Partition) (ranges : List DsmRange) : List DsmRange :=
  ranges.takeWhile fun x => p.inRange ((p.slba + x.lba.toNat) % 2 ^ 64) x.nlba.toNat

/-- The call for a range. -/
def dsmCall (p : Partition) (dtype : ℕ) (x : DsmRange) : Event :=
  .erase_call p.config dtype ((p.slba + x.lba.toNat) % 2 ^ 64) x.nlba.toNat

theorem inRange_congr {p q : Partition} (h : p.range = q.range) : p.inRange = q.inRange := by
  simp only [Partition.range, Prod.mk.injEq] at h
  funext lba nlba
  simp only [Partition.inRange, h.2.1, h.2.2]

theorem eraseCounted_range {config type lba nlba : ℕ} {f : ℕ → Partition → Partition}
    (hf : ∀ n p, (f n p).range = p.range) :
    ((eraseCounted t l config type lba nlba f r (w, n)).2.1.part t l).range =
      (w.part t l).range := by
  have hm : ∀ status, Prog.Moves Calm (do counted t l nlba f status; return status) := fun status =>
    .bind (counted_calm t l nlba hf status) fun _ => .pure _
  exact ((hm _ r _ _).range t l).trans (sdio_erase_range config type lba nlba r w n t l)

theorem range_dsm (dtype k : ℕ) (p : Partition) :
    ((if dtype = MMC_ERASE_TRIM then Partition.addTc else Partition.addDc) k p).range =
      p.range := by
  split <;> rfl

/-- The erase of a range. -/
def dsmErase (p : Partition) (dtype : ℕ) (x : DsmRange) : SimM Errno :=
  eraseCounted t l p.config dtype ((p.slba + x.lba.toNat) % 2 ^ 64) x.nlba.toNat
    (if dtype = MMC_ERASE_TRIM then Partition.addTc else Partition.addDc)

theorem dsmErase_calls (p : Partition) (dtype : ℕ) (x : DsmRange) :
    (dsmErase t l p dtype x r (w, n)).2.1.calls = [dsmCall p dtype x] ++ w.calls :=
  eraseCounted_calls t l (range_dsm dtype) r w n

theorem dsmErase_range (p : Partition) (dtype : ℕ) (x : DsmRange) :
    ((dsmErase t l p dtype x r (w, n)).2.1.part t l).range = (w.part t l).range :=
  eraseCounted_range t l r w n (range_dsm dtype)

/-- One round of `sdmmc_dsm`. -/
theorem dsm_cons {p : Partition} {w : World} (hp : (w.part t l).range = p.range) (dtype : ℕ)
    (x : DsmRange) (ranges : List DsmRange) :
    sdmmc_dsm t l dtype (x :: ranges) r (w, n) =
      if p.inRange ((p.slba + x.lba.toNat) % 2 ^ 64) x.nlba.toNat then
        if (dsmErase t l p dtype x r (w, n)).1 = .eok then
          sdmmc_dsm t l dtype ranges r (dsmErase t l p dtype x r (w, n)).2
        else dsmErase t l p dtype x r (w, n)
      else (.einval, w, n) := by
  have hin := inRange_congr hp
  simp only [Partition.range, Prod.mk.injEq] at hp
  rw [sdmmc_dsm, Prog.bind_apply, Prog.get_apply]
  dsimp only
  rw [Prog.ite_apply', hin, hp.1, hp.2.1]
  cases p.inRange ((p.slba + x.lba.toNat) % 2 ^ 64) x.nlba.toNat with
  | false => rfl
  | true =>
      rw [if_neg (by simp), if_pos rfl, Prog.bind_apply, Prog.ite_apply']
      change (if (dsmErase t l p dtype x r (w, n)).1 ≠ .eok then _ else _) = _
      by_cases hs : (dsmErase t l p dtype x r (w, n)).1 = .eok
      · rw [if_neg (by simpa using hs), if_pos hs]
        rfl
      · rw [if_pos hs, if_neg hs]
        rfl

/-- **Every call of `sdmmc_dsm`** is for a range that is taken. -/
theorem dsm_calls_subset (dtype : ℕ) (p : Partition) :
    ∀ (ranges : List DsmRange) (w : World) (n : ℕ),
    (w.part t l).range = p.range → ∀ e ∈ (sdmmc_dsm t l dtype ranges r (w, n)).2.1.calls,
      e ∈ w.calls ∨ ∃ x ∈ dsmTaken p ranges, e = dsmCall p dtype x
  | [], w, n, _ => fun e he => .inl he
  | x :: ranges, w, n, hp => by
      intro e he
      rw [dsm_cons t l r n hp] at he
      by_cases hin : p.inRange ((p.slba + x.lba.toNat) % 2 ^ 64) x.nlba.toNat = true
      · have htaken : dsmTaken p (x :: ranges) = x :: dsmTaken p ranges :=
          List.takeWhile_cons_of_pos hin
        have hfirst : ∀ e ∈ (dsmErase t l p dtype x r (w, n)).2.1.calls,
            e ∈ w.calls ∨ ∃ y ∈ dsmTaken p (x :: ranges), e = dsmCall p dtype y := by
          intro e he
          rw [dsmErase_calls, List.singleton_append, List.mem_cons] at he
          rcases he with rfl | he
          · exact .inr ⟨x, by rw [htaken]; exact List.mem_cons_self, rfl⟩
          · exact .inl he
        rw [if_pos hin] at he
        split at he
        · have hp' := (dsmErase_range t l r w n p dtype x).trans hp
          rcases dsm_calls_subset dtype p ranges _ _ hp' e he with h | ⟨y, hy, rfl⟩
          · exact hfirst e h
          · exact .inr ⟨y, by rw [htaken]; exact List.mem_cons_of_mem _ hy, rfl⟩
        · exact hfirst e he
      · rw [if_neg hin] at he
        exact .inl he

end functions

/-! ### A device that does what it is told, and one that is gone -/

/-- Every call succeeds. -/
def willing : ℕ → DevAnswer := fun _ => {}

theorem mmc_set_partition_willing (partition : ℕ) (a : DevAnswer) (ha : a.status = .eok)
    (r : ℕ → DevAnswer) (w : World) (n : ℕ) :
    (mmc_set_partition partition a r (w, n)).1 = .eok ∧
      (mmc_set_partition partition a r (w, n)).2.1.gone = w.gone := by
  simp only [mmc_set_partition, mmc_switch, ha, Prog.bind_apply, Prog.get_apply, Prog.ite_apply',
    Prog.modify_apply, Prog.pure_apply, true_or, if_true]
  split
  · exact ⟨rfl, rfl⟩
  · refine ⟨rfl, ?_⟩
    change (World.switched _ _ w).gone = _
    rw [World.switched]
    split <;> rfl

theorem eraseRange_willing (config type lba nlba : ℕ) (w : World) (n : ℕ) :
    (eraseRange config type lba nlba willing (w, n)).1 = .eok ∧
      (eraseRange config type lba nlba willing (w, n)).2.1.gone = w.gone := by
  cases nlba with
  | zero => exact ⟨rfl, rfl⟩
  | succ k => exact ⟨rfl, rfl⟩

theorem sdio_erase_willing (config type lba nlba : ℕ) {w : World} (hg : w.gone = false) (n : ℕ) :
    (sdio_erase config type lba nlba willing (w, n)).1 = .eok ∧
      (sdio_erase config type lba nlba willing (w, n)).2.1.gone = false := by
  have hg' : ((w.logged (.erase_call config type lba nlba)).gone || (willing n).gone) = false := by
    change (w.gone || false) = false
    rw [hg, Bool.or_false]
  simp only [sdio_erase, callDevice, Prog.bind_apply, Prog.modify_apply, Prog.ask_apply,
    Prog.get_apply, Prog.ite_apply', hg', Bool.false_eq_true, if_false]
  split
  · obtain ⟨hs, hk⟩ := mmc_set_partition_willing config (willing n) rfl willing
      { w.logged (.erase_call config type lba nlba) with gone := false } (n + 1)
    rw [if_neg (by rw [hs]; exact fun h => h rfl)]
    obtain ⟨hs', hk'⟩ := eraseRange_willing config type lba nlba _ _
    exact ⟨hs', hk'.trans hk⟩
  · obtain ⟨hs', hk'⟩ := eraseRange_willing config type lba nlba _ _
    exact ⟨hs', hk'⟩

theorem dsmErase_willing (t l : ℕ) (p : Partition) (dtype : ℕ) (x : DsmRange) {w : World}
    (hg : w.gone = false) (n : ℕ) :
    (dsmErase t l p dtype x willing (w, n)).1 = .eok ∧
      (dsmErase t l p dtype x willing (w, n)).2.1.gone = false := by
  obtain ⟨hs, hk⟩ := sdio_erase_willing p.config dtype ((p.slba + x.lba.toNat) % 2 ^ 64)
    x.nlba.toNat hg n
  refine ⟨hs, Eq.trans ?_ hk⟩
  simp only [dsmErase, eraseCounted, counted, Prog.bind_apply, Prog.modify_apply, Prog.pure_apply]
  split <;> rfl

/-- With a willing device there is a call for every range that is taken. -/
theorem dsm_calls_all (t l dtype : ℕ) (p : Partition) :
    ∀ (ranges : List DsmRange) (w : World) (n : ℕ),
    (w.part t l).range = p.range → (w.gone = false ∨ ranges.length ≤ 1) →
    ∀ e, (e ∈ w.calls ∨ ∃ x ∈ dsmTaken p ranges, e = dsmCall p dtype x) →
      e ∈ (sdmmc_dsm t l dtype ranges willing (w, n)).2.1.calls
  | [], w, n, _, _ => by
      rintro e (he | ⟨x, hx, _⟩)
      · exact he
      · cases hx
  | x :: ranges, w, n, hp, hw => by
      intro e he
      rw [dsm_cons t l willing n hp]
      by_cases hin : p.inRange ((p.slba + x.lba.toNat) % 2 ^ 64) x.nlba.toNat = true
      · have htaken : dsmTaken p (x :: ranges) = x :: dsmTaken p ranges :=
          List.takeWhile_cons_of_pos hin
        rw [htaken] at he
        have he' : e ∈ (dsmErase t l p dtype x willing (w, n)).2.1.calls ∨
            ∃ y ∈ dsmTaken p ranges, e = dsmCall p dtype y := by
          rw [dsmErase_calls, List.singleton_append]
          rcases he with he | ⟨y, hy, rfl⟩
          · exact .inl (List.mem_cons_of_mem _ he)
          · rcases List.mem_cons.mp hy with rfl | hy
            · exact .inl List.mem_cons_self
            · exact .inr ⟨y, hy, rfl⟩
        have hp' := (dsmErase_range t l willing w n p dtype x).trans hp
        rw [if_pos hin]
        rcases hw with hg | hlen
        · obtain ⟨hs, hk⟩ := dsmErase_willing t l p dtype x hg n
          rw [if_pos hs]
          exact dsm_calls_all t l dtype p ranges _ _ hp' (.inl hk) e he'
        · have hnil : ranges = [] := by
            rw [List.length_cons] at hlen
            exact List.length_eq_zero_iff.mp (by omega)
          subst hnil
          rcases he' with he' | ⟨y, hy, _⟩
          · split <;> exact he'
          · cases hy
      · rw [if_neg hin]
        rcases he with he | ⟨y, hy, _⟩
        · exact he
        · have htaken : dsmTaken p (x :: ranges) = [] := List.takeWhile_cons_of_neg hin
          rw [htaken] at hy
          cases hy

theorem sdio_erase_gone (config type lba nlba : ℕ) {w : World} (hg : w.gone = true)
    (r : ℕ → DevAnswer) (n : ℕ) : (sdio_erase config type lba nlba r (w, n)).1 = .enxio := by
  simp [sdio_erase, callDevice, World.logged, hg]

/-- A device that is gone fails at the first range. -/
theorem dsm_take_gone (t l dtype : ℕ) (ranges : List DsmRange) {w : World} (hg : w.gone = true)
    (r : ℕ → DevAnswer) (n : ℕ) :
    sdmmc_dsm t l dtype ranges r (w, n) = sdmmc_dsm t l dtype (ranges.take 1) r (w, n) := by
  cases ranges with
  | nil => rfl
  | cons x ranges =>
      have hs : (dsmErase t l (w.part t l) dtype x r (w, n)).1 ≠ .eok := by
        have := sdio_erase_gone (w.part t l).config dtype
          (((w.part t l).slba + x.lba.toNat) % 2 ^ 64) x.nlba.toNat hg r n
        change (sdio_erase _ _ _ _ r (w, n)).1 ≠ .eok
        rw [this]
        exact nofun
      rw [List.take_succ_cons, dsm_cons t l r n rfl, dsm_cons t l r n rfl, if_neg hs, if_neg hs]

/-! ### Arithmetic -/

/-- 64 bits: only an empty range, and one whose start wraps, pass the check without being within the
partition. -/
theorem inRange_within {p : Partition} (hp : 0 < p.nlba) (hb : p.slba + p.nlba ≤ 2 ^ 63) {lba n : ℕ}
    (hl : lba < 2 ^ 64) (hn : n < 2 ^ 32)
    (hin : p.inRange ((p.slba + lba) % 2 ^ 64) n = true) (config type : ℕ)
    (hc : config = p.config) :
    Within p (.erase_call config type ((p.slba + lba) % 2 ^ 64) n) ↔ n ≠ 0 ∧
    p.slba + lba < 2 ^ 64 := by
  simp only [Partition.inRange, decide_eq_true_eq] at hin
  obtain ⟨h1, h2⟩ := hin
  have hpend : (p.slba + p.nlba + 2 ^ 64 - 1) % 2 ^ 64 = p.slba + p.nlba - 1 := by omega
  rw [hpend] at h1 h2
  simp only [Within, hc, true_and]
  constructor
  · rintro ⟨hn1, hs, _⟩
    refine ⟨by omega, ?_⟩
    by_contra hlt
    omega
  · rintro ⟨hn0, hlt⟩
    rw [Nat.mod_eq_of_lt hlt] at h1 h2 ⊢
    refine ⟨by omega, by omega, ?_⟩
    omega

/-- 32 bits: the end may wrap as well, and the end of the partition is cut off. -/
theorem inRange32_within {p : Partition} (hp : 0 < p.nlba) {lba n : ℕ} (hl : lba < 2 ^ 32)
    (hn : n < 2 ^ 32) (config type : ℕ) (hc : config = p.config) :
    Within p (.erase_call config type ((lba + p.slba) % 2 ^ 32) n) ↔
      n ≠ 0 ∧ p.slba + lba < 2 ^ 32 ∧ lba + n ≤ p.nlba := by
  simp only [Within, hc, true_and]
  constructor
  · rintro ⟨hn1, hs, he⟩
    have hlt : p.slba + lba < 2 ^ 32 := by
      by_contra hge
      omega
    refine ⟨by omega, hlt, ?_⟩
    rw [Nat.mod_eq_of_lt (by omega)] at he
    omega
  · rintro ⟨hn0, hlt, hle⟩
    rw [Nat.mod_eq_of_lt (by omega)]
    refine ⟨by omega, by omega, by omega⟩

/-- No check: the range itself has to be one of the partition. -/
theorem write_same_within {p : Partition} (hp : 0 < p.nlba) (hb : p.slba + p.nlba ≤ 2 ^ 63)
    {lba n : ℕ} (hl : lba < 2 ^ 64) (config type : ℕ) (hc : config = p.config) :
    Within p (.erase_call config type ((lba + p.slba) % 2 ^ 64) n) ↔
      n ≠ 0 ∧ lba + n ≤ p.nlba := by
  simp only [Within, hc, true_and]
  constructor
  · rintro ⟨hn1, hs, he⟩
    have hlt : lba + p.slba < 2 ^ 64 := by
      by_contra hge
      omega
    rw [Nat.mod_eq_of_lt hlt] at he
    exact ⟨by omega, by omega⟩
  · rintro ⟨hn0, hle⟩
    rw [Nat.mod_eq_of_lt (by omega)]
    exact ⟨by omega, by omega, by omega⟩

theorem groupCalls_within {p : Partition} {egs lba n : ℕ} {e : Event} {P : Prop}
    (h : Within p e ↔ P) :
      (∀ e' ∈ groupCalls egs lba n e, Within p e') ↔ GroupsMeet egs lba n P := by
  rw [groupCalls, GroupsMeet]
  by_cases h0 : egs = 0
  · simp [h0, Within]
  · by_cases ha : lba % egs = 0 ∧ n % egs = 0
    · simp [h0, ha, h]
    · rw [if_neg h0, if_neg ha]
      simp only [List.not_mem_nil, false_imp_iff, implies_true, true_iff]
      exact ⟨h0, fun h1 h2 => absurd ⟨h1, h2⟩ ha⟩

/-! ### The main result -/

/-- The calls that a request makes are within the partition, whatever the device answers. -/
def EraseReq.CallsWithin (w : World) (t l : ℕ) (rq : EraseReq) : Prop :=
  ∀ r, ∀ e ∈ ((rq.exec t l).run r w.forget).2.log, Within (w.part t l) e

theorem forget_calls (w : World) : w.forget.calls = [] := rfl

/-- The calls do not depend on the answers. -/
theorem callsWithin_of_calls (w : World) (t l : ℕ) (rq : EraseReq) {cs : List Event}
    (h : ∀ r, (rq.exec t l r (w.forget, 0)).2.1.calls = cs ++ w.forget.calls) :
    rq.CallsWithin w t l ↔ ∀ e ∈ cs, Within (w.part t l) e := by
  have hlog : ∀ r, (∀ e ∈ ((rq.exec t l).run r w.forget).2.log, Within (w.part t l) e) ↔
      ∀ e ∈ cs, Within (w.part t l) e := by
    intro r
    rw [within_log_iff]
    change (∀ e ∈ (rq.exec t l r (w.forget, 0)).2.1.calls, _) ↔ _
    rw [h r, forget_calls, List.append_nil]
  exact ⟨fun hw => (hlog willing).mp (hw willing), fun hw r => (hlog r).mpr hw⟩

theorem within_ite {p : Partition} {c P : Prop} [Decidable c] {cs : List Event}
    (h : c → ((∀ e ∈ cs, Within p e) ↔ P)) :
    (∀ e ∈ (if c then cs else []), Within p e) ↔ (c → P) := by
  by_cases hc : c
  · rw [if_pos hc, h hc]
    exact ⟨fun hP _ => hP, fun hP => hP hc⟩
  · rw [if_neg hc]
    exact ⟨fun _ hc' => absurd hc' hc, fun _ e he => absurd he List.not_mem_nil⟩

theorem within_singleton {p : Partition} {e : Event} : (∀ e' ∈ [e], Within p e') ↔ Within p e :=
  List.forall_mem_singleton

theorem action_calls_within {p : Partition} {config egs : ℕ} {caps : DevCaps} {slba nlba : ℕ}
    {action : EraseAction} {P : Prop}
    (h : Within p (.erase_call config action.type slba nlba) ↔ P) :
    (∀ e ∈ action.calls config egs caps slba nlba, Within p e) ↔ (action.allowed caps →
      if action.grouped then GroupsMeet egs slba nlba P else P) := by
  refine within_ite fun _ => ?_
  split
  · exact groupCalls_within h
  · exact within_singleton.trans h

section main

variable {w : World} {t l : ℕ} (hp : 0 < (w.part t l).nlba)
  (hb : (w.part t l).slba + (w.part t l).nlba ≤ 2 ^ 63)

include hp

theorem erase12_within_iff (lba nlba : BitVec 32) :
    (EraseReq.erase12 lba nlba).CallsWithin w t l ↔ (EraseReq.erase12 lba nlba).Sound w t l := by
  refine (callsWithin_of_calls w t l (.erase12 lba nlba) fun r =>
    erase12_calls t l r w.forget 0 lba nlba).trans ?_
  refine (within_ite fun _ => groupCalls_within
    (inRange32_within hp lba.isLt nlba.isLt _ _ rfl)).trans ?_
  exact ⟨fun h hr hin => h ⟨hr, hin⟩, fun h hc => h hc.1 hc.2⟩

include hb

theorem write_same_within_iff (unmap : Bool) (lba : BitVec 64) (nlba : BitVec 32) :
    (EraseReq.write_same unmap lba nlba).CallsWithin w t l ↔
      (EraseReq.write_same unmap lba nlba).Sound w t l := by
  refine (callsWithin_of_calls w t l (.write_same unmap lba nlba) fun r =>
    write_same_calls t l r w.forget 0 unmap lba nlba).trans ?_
  refine (within_ite fun _ => within_singleton.trans
    (write_same_within hp hb lba.isLt _ _ rfl)).trans ?_
  exact ⟨fun h hr ht hu => h ⟨hr, ht, hu⟩, fun h hc => h hc.1 hc.2.1 hc.2.2⟩

theorem erase_devctl_within_iff (action : EraseAction) (lba nlba : BitVec 64) :
    (EraseReq.erase action lba nlba).CallsWithin w t l ↔
      (EraseReq.erase action lba nlba).Sound w t l := by
  refine (callsWithin_of_calls w t l (.erase action lba nlba) fun r =>
    erase_devctl_calls t l r w.forget 0 action lba nlba).trans ?_
  have hn : nlba.toNat % 2 ^ 32 < 2 ^ 32 := Nat.mod_lt _ (by decide)
  refine (within_ite fun hc => action_calls_within
    (inRange_within hp hb lba.isLt hn hc.2 (w.part t l).config action.type rfl)).trans ?_
  exact ⟨fun h hr hin => h ⟨hr, hin⟩, fun h hc => h hc.1 hc.2⟩

theorem dsm_within_iff (dtype : ℕ) (ranges : List DsmRange) :
    (EraseReq.dsm dtype ranges).CallsWithin w t l ↔ (EraseReq.dsm dtype ranges).Sound w t l := by
  -- A device that is gone sees at most the first range.
  obtain ⟨rs, hrs, hlen, hrun⟩ : ∃ rs, rs = (if w.gone then ranges.take 1 else ranges) ∧
      (w.gone = false ∨ rs.length ≤ 1) ∧ ∀ r,
        sdmmc_dsm t l dtype ranges r (w.forget, 0) = sdmmc_dsm t l dtype rs r (w.forget, 0) := by
    cases hg : w.gone with
    | false => exact ⟨ranges, rfl, .inl rfl, fun r => rfl⟩
    | true =>
        refine ⟨ranges.take 1, rfl, .inr (List.length_take_le 1 ranges), fun r => ?_⟩
        exact dsm_take_gone t l dtype ranges (show w.forget.gone = true from hg) r 0
  have hw : ∀ x ∈ dsmTaken (w.part t l) rs, Within (w.part t l) (dsmCall (w.part t l) dtype x) ↔
      x.nlba.toNat ≠ 0 ∧ (w.part t l).slba + x.lba.toNat < 2 ^ 64 := by
    intro x hx
    have hin := List.mem_takeWhile_imp hx
    exact inRange_within hp hb x.lba.isLt x.nlba.isLt hin _ _ rfl
  have hsound : (EraseReq.dsm dtype ranges).Sound w t l ↔
      ∀ x ∈ dsmTaken (w.part t l) rs, Within (w.part t l) (dsmCall (w.part t l) dtype x) := by
    rw [hrs] at hw ⊢
    exact forall₂_congr fun x hx => (hw x hx).symm
  rw [hsound]
  constructor
  · intro h x hx
    refine within_log_iff.mp (h willing) _ ?_
    change _ ∈ (sdmmc_dsm t l dtype ranges willing (w.forget, 0)).2.1.calls
    rw [hrun willing]
    exact dsm_calls_all t l dtype (w.part t l) rs w.forget 0 rfl hlen _ (.inr ⟨x, hx, rfl⟩)
  · intro h r
    refine within_log_iff.mpr fun e he => ?_
    change e ∈ (sdmmc_dsm t l dtype ranges r (w.forget, 0)).2.1.calls at he
    rw [hrun r] at he
    rcases dsm_calls_subset t l r dtype (w.part t l) rs w.forget 0 rfl e he with he' | ⟨x, hx, rfl⟩
    · cases he'
    · exact h x hx

/-- **Erase range**: the calls of `sdio_erase` are for blocks of the addressed partition, and
nothing is divided by zero, whatever the device answers, if and only if the request is sound. -/
theorem erase_within_iff (rq : EraseReq) : rq.CallsWithin w t l ↔ rq.Sound w t l := by
  cases rq with
  | write_same unmap lba nlba => exact write_same_within_iff hp hb unmap lba nlba
  | erase12 lba nlba => exact erase12_within_iff hp lba nlba
  | erase action lba nlba => exact erase_devctl_within_iff hp hb action lba nlba
  | dsm dtype ranges => exact dsm_within_iff hp hb dtype ranges

end main

/-! ### Requests that leave the partition -/

/-- A card of 1000 blocks that can trim, as it is found on an empty bus. -/
def smallCard : Card where
  dtype := .mmc
  info :=
    { caps := { hc := true, trim := true }
      sectors := 1000
      sector_size := 512
      erase_size := 512 }
  hc_inf := {}
  ecsd := fun _ => 0

def smallBus : World := step 0 (emptyBus {} false) (.insertion smallCard, willing)

theorem erase_within_iff_smallBus :
    0 < (smallBus.part 0 0).nlba ∧ (smallBus.part 0 0).slba + (smallBus.part 0 0).nlba ≤ 2 ^ 63 ∧
      (EraseReq.write_same true 990 10).CallsWithin smallBus 0 0 := by
  have hp : 0 < (smallBus.part 0 0).nlba := by decide +kernel
  have hb : (smallBus.part 0 0).slba + (smallBus.part 0 0).nlba ≤ 2 ^ 63 := by decide +kernel
  refine ⟨hp, hb, (erase_within_iff hp hb _).mpr fun _ _ _ => ⟨by decide, ?_⟩⟩
  decide +kernel

/-- `WRITE SAME` of 20 blocks from block 990 trims blocks 1000 to 1009, which are not there, and
`DCMD_SDMMC_ERASE` asks for 0 blocks. -/
theorem write_same_past_end :
    0 < (smallBus.part 0 0).nlba ∧ (smallBus.part 0 0).slba + (smallBus.part 0 0).nlba ≤ 2 ^ 63 ∧
      ¬ (EraseReq.write_same true 990 20).CallsWithin smallBus 0 0 ∧
      ¬ (EraseReq.erase .trim 5 0).CallsWithin smallBus 0 0 := by
  refine ⟨by decide +kernel, by decide +kernel, fun h => ?_, fun h => ?_⟩
  · have hw := h willing (.erase_call 0 MMC_ERASE_TRIM 990 20) (by decide +kernel)
    exact absurd hw.2.2.2 (by decide +kernel)
  · have hw := h willing (.erase_call 0 MMC_ERASE_TRIM 5 0) (by decide +kernel)
    exact absurd hw.2.1 (by decide)

end Sdmmc
