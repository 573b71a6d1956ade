import RpiBsp.Sdmmc.Definitions
import Mathlib.Tactic.Cases

/-!
# Sdmmc — the block length of a card

The driver remembers in `dev->block_length` which length it has set on the card with
`MMC_SET_BLOCKLEN`, and sends the command only if that changes.  The length is changed by a general
or manufacturer command (`mmc_gen_man_cmd` in `mmc.c`), by locking and unlocking
(`_sdio_lock_unlock` in `base.c`), by a firmware download (`sdmmc_ffu` in `sim_sdmmc.c`), by the
security commands (`sim_assd.c`) and by the initialisation of the bus; when the power is switched
off and on, the card goes back to 512 bytes.  How each command comes out is an input, and so is the
speed mode that an initialisation ends in.

* `At n` — the driver and the card agree on the length `n`, and all that was sent so far was sent
with the right length.
* `Op.Sound` — what an operation needs: the length is really set, and really set back.
* `length_run` — in every history of such operations, the driver and the card agree, every
  transfer has the length of the card, and `mmc_gen_man_cmd` returns `EOK` only for a command that
  succeeded.
-/

namespace Sdmmc.BlockLength

/-! ### Definitions -/

def SDIO_DFLT_BLKSZ : ℕ := 512
def SDIO_RESET_RETRIES : ℕ := 3
def SD_PSI_SIZE : ℕ := 32
def SD_SEC_CMD_SIZE : ℕ := 512

/-- What the registers of a card say: that it has a high capacity (`DEV_CAP_HC`), the two sector
sizes and which of them is used, whether the firmware can be updated, and whether that is done in
sectors of 4 KiB. -/
structure Info where
  hc : Bool := true
  csd_blksz : ℕ := 512
  ecsd_blksz : ℕ := 512
  by_ecsd : Bool := true
  ffu : Bool := false
  native4k : Bool := false
deriving DecidableEq, Repr

def Info.sector_size (i : Info) (dtype : DevType) : ℕ :=
  if dtype = .mmc ∧ i.by_ecsd then i.ecsd_blksz else i.csd_blksz

def Info.dssize (i : Info) : ℕ := if i.native4k then 4096 else 512

/-- The device.  `fixed` is one of the flags `DEV_FLAG_DDR`, `DEV_FLAG_HS400` and
`DEV_FLAG_HS400ES`.  The last three fields are not part of the code: the length in force on the
card; for each transfer its block size and the length on the card; and for each general or
manufacturer command what `mmc_gen_man_cmd` returned and how the command itself came out, if it was
sent. -/
structure State where
  attached : Bool := false
  dtype : DevType := .mmc
  fixed : Bool := false
  locked : Bool := false
  pwd_len : ℕ := 0
  block_length : ℕ := 0
  info : Info := {}
  sector_size : ℕ := 0
  card : ℕ := SDIO_DFLT_BLKSZ
  transfers : List (ℕ × ℕ) := []
  commands : List (Errno × Option Errno) := []
deriving DecidableEq, Repr

/-- How a command comes out: what it returns, and whether the card has obeyed although it failed.
Without memory for the command it is not sent. -/
structure Sent where
  status : Errno := .eok
  taken : Bool := false
deriving DecidableEq, Repr

/-- The data of a transfer are sent in blocks of `n` bytes. -/
def State.issued (s : State) (n : ℕ) : State := { s with transfers := (n, s.card) :: s.transfers }

/-- The power is switched off and on. -/
def State.cycled (s : State) : State := { s with card := SDIO_DFLT_BLKSZ }

/-- `sdio_dev_info`. -/
def sdio_dev_info (s : State) : State := { s with sector_size := s.info.sector_size s.dtype }

/-! ### The block length -/

/-- In the fastest modes, cards with a high capacity have a fixed block length. -/
def State.skips (s : State) : Bool := s.fixed && s.info.hc

/-- `_sdio_set_block_length`. -/
def _sdio_set_block_length (o : Sent) (blklen : ℕ) (s : State) : Errno × State :=
  if s.skips then (.eok, s)
  else if s.block_length = blklen then (.eok, s)
  else if o.status = .eok then (.eok, { s with card := blklen, block_length := blklen })
  else (o.status, if o.taken then { s with card := blklen } else s)

/-! ### Lock and unlock -/

/-- How `_sdio_lock_unlock` comes out: `locked` is what `_sdio_send_status` says afterwards. -/
structure LockRun where
  alloc : Bool := true
  set : Sent := {}
  sent : Errno := .eok
  restore : Sent := {}
  locked : Except Errno Bool := .ok false
deriving DecidableEq, Repr

/-- The password with its two bytes in front, in an even number of bytes. -/
def lockLength (pwd_len : ℕ) : ℕ := if (pwd_len + 2) % 2 = 1 then pwd_len + 2 + 1 else pwd_len + 2

/-- `_sdio_lock_unlock`: after the command the card is asked whether it is locked. -/
def lockStatus (o : LockRun) (s : State) : Errno × State :=
  if o.sent ≠ .eok then (o.sent, s)
  else
    match o.locked with
    | .error status => (status, s)
    | .ok locked => (.eok, { s with locked := locked })

/-- `_sdio_lock_unlock`. -/
def _sdio_lock_unlock (o : LockRun) (pwd_len : ℕ) (s : State) : Errno × State :=
  if o.alloc = false then (.enomem, s)
  else
    let x := _sdio_set_block_length o.set (lockLength pwd_len) s
    if x.1 ≠ .eok then x
    else lockStatus o (_sdio_set_block_length o.restore SDIO_DFLT_BLKSZ
      (x.2.issued (lockLength pwd_len))).2

/-! ### Initialisation -/

/-- How an initialisation comes out.  `stops` is a failure before the card is selected, and `caps`
one between that and the initialisation of the bus; `locked` is what the card says when it is
selected, and `unlock` how `sd_unlock` comes out.  An SD card on a bus at 1.8 V (`uhs`) does not get
a block length. -/
structure InitRun where
  stops : Errno := .eok
  locked : Bool := false
  unlock : LockRun := {}
  caps : Errno := .eok
  fixed : Bool := false
  uhs : Bool := false
  set : Sent := {}
  assd : Errno := .eok
deriving DecidableEq, Repr

/-- `mmc_init_bus`: the speed mode, then the block length. -/
def mmc_init_bus (o : InitRun) (s : State) : Errno × State :=
  _sdio_set_block_length o.set SDIO_DFLT_BLKSZ { s with fixed := o.fixed }

/-- `sd_init_bus`. -/
def sd_init_bus (o : InitRun) (s : State) : Errno × State :=
  let x := if o.uhs then (.eok, s) else _sdio_set_block_length o.set SDIO_DFLT_BLKSZ s
  if x.1 ≠ .eok then x else (o.assd, x.2)

/-- `mmc_init_device`, after the card was selected. -/
def mmc_init_selected (o : InitRun) (s : State) : Errno × State :=
  if s.locked then (.eok, s)
  else if o.caps ≠ .eok then (o.caps, s)
  else mmc_init_bus o s

/-- `sd_unlock`. -/
def sd_unlock (o : LockRun) (s : State) : Errno × State :=
  if s.locked ∧ s.pwd_len ≠ 0 then _sdio_lock_unlock o s.pwd_len s else (.eok, s)

/-- `sd_init_device`, after the card was selected. -/
def sd_init_selected (o : InitRun) (s : State) : Errno × State :=
  let x := sd_unlock o.unlock s
  if x.1 ≠ .eok then x
  else if x.2.locked then (.eok, x.2)
  else if o.caps ≠ .eok then (o.caps, x.2)
  else sd_init_bus o x.2

/-- `mmc_init_device` and `sd_init_device`. -/
def init_device (dtype : DevType) (o : InitRun) (s : State) : Errno × State :=
  if o.stops ≠ .eok then (o.stops, s)
  else
    let s := { s with locked := s.locked || o.locked }
    match dtype with
    | .mmc => mmc_init_selected o s
    | .sd => sd_init_selected o s

/-- `_sdio_reset`: `n` passes are left, and `r` says how they come out. -/
def resetPasses (r : ℕ → InitRun) : ℕ → State → State
  | 0, s => s
  | n + 1, s =>
      let x := init_device s.dtype (r n) s.cycled
      if x.1 = .enxio ∨ x.1 = .eok then x.2 else resetPasses r n x.2

/-- `_sdio_reset`. -/
def _sdio_reset (r : ℕ → InitRun) (s : State) : State := resetPasses r SDIO_RESET_RETRIES s

/-- An attempt to identify a card; without `cycled`, the power is left on. -/
structure Attempt where
  dtype : DevType
  cycled : Bool := true
  run : InitRun := {}
deriving DecidableEq, Repr

/-- `_sdio_attach`, after the data of the device are cleared. -/
def identify : List Attempt → State → State
  | [], s => s
  | a :: as, s =>
      let x := init_device a.dtype a.run (if a.cycled then s.cycled else s)
      if x.1 = .eok then sdio_dev_info { x.2 with attached := true, dtype := a.dtype }
      else identify as x.2

/-- `_sdio_attach`: `left` is the length that the card was left with. -/
def _sdio_attach (left : ℕ) (info : Info) (as : List Attempt) (s : State) : State :=
  identify as { info := info, card := left, transfers := s.transfers, commands := s.commands }

/-! ### Requests -/

/-- A general or manufacturer command: the arguments, how it comes out, and the reset after a
failure. -/
structure GenRun where
  adtc : Bool := true
  blklen : ℕ
  blkcnt : ℕ := 1
  alloc : Bool := true
  set : Sent := {}
  buffer : Bool := true
  sent : Errno := .eok
  restore : Sent := {}
  reset : ℕ → InitRun := fun _ => {}

/-- `mmc_gen_man_cmd`, with how the command itself came out. -/
def mmc_gen_man_cmd (o : GenRun) (s : State) : (Errno × Option Errno) × State :=
  if 1 < o.blkcnt then ((.enotsup, none), s)
  else if o.alloc = false then ((.enomem, none), s)
  else if o.adtc = false then ((o.sent, some o.sent), s)
  else
    let x := if o.blklen ≠ SDIO_DFLT_BLKSZ then _sdio_set_block_length o.set o.blklen s
      else (.eok, s)
    if x.1 ≠ .eok then ((x.1, none), x.2)
    else if o.buffer = false then ((.enomem, none), x.2)
    else if o.blklen ≠ SDIO_DFLT_BLKSZ then
      let y := _sdio_set_block_length o.restore SDIO_DFLT_BLKSZ (x.2.issued o.blklen)
      ((y.1, some o.sent), y.2)
    else ((o.sent, some o.sent), x.2.issued o.blklen)

/-- `sdmmc_gencmd_devctl` and `sdmmc_mancmd_devctl`, for one command. -/
def sdmmc_gencmd_devctl (o : GenRun) (s : State) : State :=
  let x := mmc_gen_man_cmd o s
  let s := { x.2 with commands := x.1 :: x.2.commands }
  if x.1.1 ≠ .eok then _sdio_reset o.reset s else s

/-- A request to lock or unlock: the length of the password, how it comes out, and the
initialisation of an SD card that is unlocked. -/
structure LockReq where
  pwd_len : ℕ
  unlock : Bool := true
  run : LockRun := {}
  caps : Errno := .eok
  bus : InitRun := {}
deriving DecidableEq, Repr

/-- `sd_lock_unlock`. -/
def sd_lock_unlock (o : LockReq) (s : State) : Errno × State :=
  let x := _sdio_lock_unlock o.run o.pwd_len { s with pwd_len := if o.pwd_len ≠ 0 then o.pwd_len
    else s.pwd_len }
  if x.2.locked then (if o.unlock then .eacces else x.1, x.2)
  else if s.locked then
    if o.caps ≠ .eok then (o.caps, x.2) else sd_init_bus o.bus x.2
  else x

/-- `sdmmc_lock_unlock_devctl`. -/
def sdmmc_lock_unlock_devctl (o : LockReq) (s : State) : State :=
  if s.dtype = .mmc then s
  else
    let x := sd_lock_unlock o s
    if x.1 = .eok then sdio_dev_info x.2 else x.2

/-- How `sdmmc_rw` comes out: what it returns, whether the card was removed, and after a failure
whether the card is reset, and whether the bus of an SD card is initialised again. -/
structure RwRun where
  alloc : Bool := true
  removed : Bool := false
  status : Errno := .eok
  reset : Option (ℕ → InitRun) := none
  bus : Option InitRun := none

/-- `sdmmc_rw`. -/
def sdmmc_rw (o : RwRun) (s : State) : State :=
  if o.alloc = false then s
  else
    let s := s.issued s.sector_size
    if o.removed ∨ o.status = .eok then s
    else
      let s := match o.reset with
        | some r => _sdio_reset r s
        | none => s
      let s := match o.bus with
        | some b => if s.dtype = .sd then (sd_init_bus b s).2 else s
        | none => s
      sdio_dev_info s

/-- A firmware update.  `ready` is that it is permitted, that the mode is known and that the unit is
ready; `activate` is the reset after the new firmware was activated; without it a part of the
firmware is downloaded, and `prepared` is that the card is in the mode for that. -/
structure FfuRun where
  ready : Bool := true
  activate : Option (ℕ → InitRun) := none
  prepared : Bool := true
  dxfer_len : ℕ := 512
  set : Sent := {}
  rw : RwRun := {}

/-- `sdmmc_ffu`. -/
def sdmmc_ffu (o : FfuRun) (s : State) : State :=
  if s.dtype ≠ .mmc ∨ s.info.ffu = false ∨ o.ready = false then s
  else
    match o.activate with
    | some r => _sdio_reset r s
    | none =>
        if o.prepared = false then s
        else if o.dxfer_len = 0 ∨ o.dxfer_len % s.info.dssize ≠ 0 then s
        else
          let x := if s.sector_size ≠ s.info.dssize then
            _sdio_set_block_length o.set s.info.dssize s else (.eok, s)
          if x.1 ≠ .eok then x.2
          else { sdmmc_rw o.rw { x.2 with sector_size := s.info.dssize } with
            sector_size := s.info.ecsd_blksz }

/-- How `assd_send_psi` comes out. -/
structure PsiRun where
  set : Sent := {}
  alloc : Bool := true
  restore : Sent := {}
deriving DecidableEq, Repr

/-- `assd_send_psi`: whether the length could be set is not looked at. -/
def assd_send_psi (o : PsiRun) (s : State) : State :=
  let s := (_sdio_set_block_length o.set SD_PSI_SIZE s).2
  if o.alloc = false then s
  else (_sdio_set_block_length o.restore SDIO_DFLT_BLKSZ (s.issued SD_PSI_SIZE)).2

/-- `assd_write_sec_cmd` and `assd_read_sec_cmd`. -/
def assd_sec_cmd (set : Sent) (alloc : Bool) (s : State) : State :=
  let x := _sdio_set_block_length set SD_SEC_CMD_SIZE s
  if x.1 ≠ .eok ∨ alloc = false then x.2 else x.2.issued SD_SEC_CMD_SIZE

/-! ### Histories -/

/-- What happens to a device. -/
inductive Op where
  | attach (left : ℕ) (info : Info) (as : List Attempt)
  | genMan (o : GenRun)
  | lockUnlock (o : LockReq)
  | ffu (o : FfuRun)
  | rw (o : RwRun)
  | psi (o : PsiRun)
  | sec (set : Sent) (alloc : Bool)
  | reset (r : ℕ → InitRun)
  /-- Bus errors: the bus is initialised again. -/
  | busError (o : InitRun)

/-- An operation on an attached device. -/
def Op.exec (s : State) : Op → State
  | .attach left info as => _sdio_attach left info as s
  | .genMan o => sdmmc_gencmd_devctl o s
  | .lockUnlock o => sdmmc_lock_unlock_devctl o s
  | .ffu o => sdmmc_ffu o s
  | .rw o => sdmmc_rw o s
  | .psi o => assd_send_psi o s
  | .sec set alloc => assd_sec_cmd set alloc s
  | .reset r => _sdio_reset r s
  | .busError o => (if s.dtype = .mmc then mmc_init_bus o s else sd_init_bus o s).2

/-- Without a device there is nothing but to attach one. -/
def Op.apply (s : State) (op : Op) : State :=
  match op with
  | .attach left info as => _sdio_attach left info as s
  | op => if s.attached then op.exec s else s

def run (s : State) (ops : List Op) : State := ops.foldl Op.apply s

/-! ### What is asked -/

structure Correct (s : State) : Prop where
  length : s.attached = true → s.block_length = s.card
  transfers : ∀ t ∈ s.transfers, t.1 = t.2
  commands : ∀ c ∈ s.commands, c.1 = .eok → c.2 = some .eok

/-! ### What an operation needs -/

/-- A command that fails is not obeyed. -/
def Sent.Plain (o : Sent) : Prop := o.status ≠ .eok → o.taken = false

/-- The sector size is the block length that the bus is initialised with. -/
def Info.Plain (i : Info) (dtype : DevType) : Prop :=
  i.sector_size dtype = SDIO_DFLT_BLKSZ ∧
    (dtype = .mmc → i.ffu = true → i.ecsd_blksz = SDIO_DFLT_BLKSZ)

/-- The length is set back if it could be set. -/
def LockRun.Sound (pwd_len : ℕ) (o : LockRun) : Prop :=
  o.alloc = true → lockLength pwd_len ≠ SDIO_DFLT_BLKSZ →
    o.set.Plain ∧ (o.set.status = .eok → o.restore.status = .eok)

/-- The flag for the fastest modes, after an initialisation. -/
def InitRun.flag (dtype : DevType) (fixed : Bool) (o : InitRun) : Bool :=
  if dtype = .mmc ∧ o.stops = .eok ∧ o.caps = .eok then o.fixed else fixed

/-- The initialisation comes to the block length, in a mode where that is not fixed. -/
def InitRun.Sends (dtype : DevType) (fixed hc : Bool) (o : InitRun) : Prop :=
  o.stops = .eok ∧ o.caps = .eok ∧ (o.flag dtype fixed && hc) = false ∧
    ¬ (dtype = .sd ∧ o.uhs = true)

/-- And sets it. -/
def InitRun.Sets (dtype : DevType) (fixed hc : Bool) (o : InitRun) : Prop :=
  o.Sends dtype fixed hc ∧ o.set.status = .eok

instance (dtype : DevType) (fixed hc : Bool) (o : InitRun) : Decidable (o.Sends dtype fixed hc) :=
  inferInstanceAs (Decidable (_ ∧ _))

/-- What an initialisation returns for a card that is not locked and has no block length yet. -/
def InitRun.result (dtype : DevType) (fixed hc : Bool) (o : InitRun) : Errno :=
  if o.stops ≠ .eok then o.stops
  else if o.caps ≠ .eok then o.caps
  else
    let status := if o.Sends dtype fixed hc then o.set.status else .eok
    if status ≠ .eok then status else if dtype = .sd then o.assd else .eok

/-- Before a pass of a reset succeeds, one has set the block length. -/
def Restored (dtype : DevType) (fixed hc : Bool) (r : ℕ → InitRun) : ℕ → Prop
  | 0 => False
  | n + 1 => (r n).locked = false ∧ ((r n).Sets dtype fixed hc ∨
      ((r n).result dtype fixed hc ≠ .enxio ∧ (r n).result dtype fixed hc ≠ .eok ∧
        Restored dtype ((r n).flag dtype fixed) hc r n))

/-- Before an attempt succeeds, one has set the block length. -/
def Lands (hc : Bool) : Bool → List Attempt → Prop
  | _, [] => True
  | fixed, a :: as => a.run.Sets a.dtype fixed hc ∨
      (a.run.result a.dtype fixed hc ≠ .eok ∧ Lands hc (a.run.flag a.dtype fixed) as)

/-- A locked SD card is unlocked in a reset. -/
def ResetSound (s : State) (r : ℕ → InitRun) : Prop :=
  s.dtype = .sd → s.pwd_len ≠ 0 → s.fixed = false ∧ ∀ k, (r k).unlock.Sound s.pwd_len

/-- The length can be set; if it could be, either it is set back and the command succeeded, or the
reset sets it back. -/
def GenRun.Sound (s : State) (o : GenRun) : Prop :=
  o.blkcnt ≤ 1 → o.alloc = true → o.adtc = true → o.blklen ≠ SDIO_DFLT_BLKSZ →
    s.skips = false ∧ o.set.Plain ∧ (o.set.status = .eok →
      if o.buffer = true ∧ o.restore.status = .eok then o.sent = .eok
      else s.locked = false ∧ Restored s.dtype s.fixed s.info.hc o.reset SDIO_RESET_RETRIES)

/-- The firmware has the sectors of the card, or the length is refused. -/
def FfuRun.Sound (s : State) (o : FfuRun) : Prop :=
  s.dtype = .mmc → s.info.ffu = true → o.ready = true → o.activate = none → o.prepared = true →
    o.dxfer_len ≠ 0 → o.dxfer_len % s.info.dssize = 0 →
    s.info.dssize = SDIO_DFLT_BLKSZ ∨ (s.skips = false ∧ o.set.status ≠ .eok ∧ o.set.taken = false)

/-- **What an operation needs.** -/
def Op.Sound (s : State) : Op → Prop
  | .attach _ info as =>
      (∀ a ∈ as, a.run.stops = .eok → a.run.locked = false ∧ info.Plain a.dtype) ∧
        Lands info.hc false as
  | .genMan o => ResetSound s o.reset ∧ o.Sound s
  | .lockUnlock o => s.dtype = .sd → s.skips = false ∧ o.run.Sound o.pwd_len
  | .ffu o => o.Sound s
  | .rw o => ∀ r, o.reset = some r → ResetSound s r
  | .psi o => s.skips = false ∧ o.set.status = .eok ∧ o.alloc = true ∧ o.restore.status = .eok
  | .sec _ _ => True
  | .reset r => ResetSound s r
  | .busError _ => True

/-- The condition of a history: every operation has what it needs. -/
def AllSound : State → List Op → Prop
  | _, [] => True
  | s, op :: ops => (s.attached = true ∨ (∃ left info as, op = .attach left info as) → op.Sound s) ∧
      AllSound (op.apply s) ops

/-! ### What a step leaves alone -/

/-- What the operations below a request do not change; the modes with a fixed block length are those
of MMC. -/
structure Frame (d : DevType) (s s' : State) : Prop where
  attached : s'.attached = s.attached
  dtype : s'.dtype = s.dtype
  pwd_len : s'.pwd_len = s.pwd_len
  info : s'.info = s.info
  sector_size : s'.sector_size = s.sector_size
  fixed : d = .sd → s'.fixed = s.fixed

theorem Frame.refl (d : DevType) (s : State) : Frame d s s :=
  ⟨rfl, rfl, rfl, rfl, rfl, fun _ => rfl⟩

theorem Frame.trans {d : DevType} {s s' s'' : State} (h : Frame d s s') (h' : Frame d s' s'') :
    Frame d s s'' where
  attached := h'.attached.trans h.attached
  dtype := h'.dtype.trans h.dtype
  pwd_len := h'.pwd_len.trans h.pwd_len
  info := h'.info.trans h.info
  sector_size := h'.sector_size.trans h.sector_size
  fixed := fun hd => (h'.fixed hd).trans (h.fixed hd)

/-- The driver and the card agree on the length, and all that was sent so far was sent with the
right one. -/
structure At (n : ℕ) (s : State) : Prop where
  length : s.block_length = n
  card : s.card = n
  transfers : ∀ t ∈ s.transfers, t.1 = t.2
  commands : ∀ c ∈ s.commands, c.1 = .eok → c.2 = some .eok

theorem At.issued {n : ℕ} {s : State} (h : At n s) : At n (s.issued n) := by
  refine ⟨h.length, h.card, fun t ht => ?_, h.commands⟩
  rcases List.mem_cons.mp ht with rfl | ht
  · exact h.card.symm
  · exact h.transfers t ht

/-! ### The block length is set -/

theorem set_same {n : ℕ} {s : State} (o : Sent) (h : s.block_length = n) :
    _sdio_set_block_length o n s = (.eok, s) := by
  unfold _sdio_set_block_length
  split
  · rfl
  · rfl

theorem set_sends {n : ℕ} {s : State} {o : Sent} (hk : s.skips = false) (hn : s.block_length ≠ n)
    (ho : o.status = .eok) :
      _sdio_set_block_length o n s = (.eok, { s with card := n, block_length := n }) := by
  rw [_sdio_set_block_length, hk, if_neg (by decide), if_neg hn, if_pos ho]

theorem set_refused {n : ℕ} {s : State} {o : Sent} (hk : s.skips = false) (hn : s.block_length ≠ n)
    (ho : o.status ≠ .eok) :
    _sdio_set_block_length o n s = (o.status, if o.taken then { s with card := n } else s) := by
  rw [_sdio_set_block_length, hk, if_neg (by decide), if_neg hn, if_neg ho]

theorem set_frame (d : DevType) (o : Sent) (n : ℕ) (s : State) :
    Frame d s (_sdio_set_block_length o n s).2 := by
  unfold _sdio_set_block_length
  split_ifs <;> exact ⟨rfl, rfl, rfl, rfl, rfl, fun _ => rfl⟩

/-- A length that can be set is set. -/
theorem At.set {m n : ℕ} {s : State} {o : Sent} (h : At m s) (hk : s.skips = false)
    (ho : o.status = .eok) :
    (_sdio_set_block_length o n s).1 = .eok ∧ At n (_sdio_set_block_length o n s).2 := by
  by_cases hn : s.block_length = n
  · rw [set_same o hn]
    exact ⟨rfl, hn, h.card.trans (h.length.symm.trans hn), h.transfers, h.commands⟩
  · rw [set_sends hk hn ho]
    exact ⟨rfl, rfl, rfl, h.transfers, h.commands⟩

/-! ### Lock and unlock -/

theorem issued_frame (d : DevType) (n : ℕ) (s : State) : Frame d s (s.issued n) :=
  ⟨rfl, rfl, rfl, rfl, rfl, fun _ => rfl⟩

theorem lockStatus_frame (o : LockRun) (s : State) : Frame .sd s (lockStatus o s).2 := by
  unfold lockStatus
  split
  · exact Frame.refl _ s
  · split
    · exact Frame.refl _ s
    · exact ⟨rfl, rfl, rfl, rfl, rfl, fun _ => rfl⟩

theorem lock_frame (o : LockRun) (pwd_len : ℕ) (s : State) :
    Frame .sd s (_sdio_lock_unlock o pwd_len s).2 := by
  have hset := set_frame .sd o.set (lockLength pwd_len) s
  unfold _sdio_lock_unlock
  dsimp only
  split
  · exact Frame.refl _ s
  · split
    · exact hset
    · exact (hset.trans (issued_frame _ _ _)).trans <|
        (set_frame _ _ _ _).trans (lockStatus_frame o _)

theorem Frame.skips {s s' : State} (h : Frame .sd s s') : s'.skips = s.skips := by
  rw [State.skips, State.skips, h.fixed rfl, h.info]

theorem At.lockStatus {n : ℕ} {s : State} (h : At n s) (o : LockRun) : At n (lockStatus o s).2 := by
  unfold BlockLength.lockStatus
  split
  · exact h
  · split
    · exact h
    · exact ⟨h.length, h.card, h.transfers, h.commands⟩

/-- Locking leaves the length as it was, if it can set it back. -/
theorem At.lock {s : State} (h : At SDIO_DFLT_BLKSZ s) {o : LockRun} {pwd_len : ℕ}
    (hk : s.skips = false)
    (ho : o.Sound pwd_len) : At SDIO_DFLT_BLKSZ (_sdio_lock_unlock o pwd_len s).2 := by
  unfold _sdio_lock_unlock
  dsimp only
  split
  · exact h
  · rename_i halloc
    by_cases hl : lockLength pwd_len = SDIO_DFLT_BLKSZ
    · rw [hl, set_same o.set h.length, if_neg (not_not_intro rfl),
        set_same o.restore h.issued.length]
      exact h.issued.lockStatus o
    · obtain ⟨hplain, hback⟩ := ho ((Bool.not_eq_false _).mp halloc) hl
      by_cases hset : o.set.status = .eok
      · obtain ⟨hstatus, hat⟩ := h.set (n := lockLength pwd_len) hk hset
        have hframe := (set_frame .sd o.set (lockLength pwd_len) s).trans
          (issued_frame .sd (lockLength pwd_len) _)
        rw [hstatus, if_neg (by decide)]
        exact (hat.issued.set (hframe.skips.trans hk) (hback hset)).2.lockStatus o
      · have hrefused := set_refused hk (h.length.trans_ne (Ne.symm hl)) hset
        rw [hplain hset] at hrefused
        rw [hrefused, if_pos hset]
        exact h

/-! ### Initialisation -/

theorem sd_bus_frame (o : InitRun) (s : State) : Frame .sd s (sd_init_bus o s).2 := by
  have hbus : Frame .sd s (if o.uhs then (.eok, s)
      else _sdio_set_block_length o.set SDIO_DFLT_BLKSZ s).2 := by
    split
    · exact Frame.refl _ s
    · exact set_frame _ _ _ s
  unfold sd_init_bus
  generalize (if o.uhs then (.eok, s) else _sdio_set_block_length o.set SDIO_DFLT_BLKSZ s) =
    x at hbus ⊢
  dsimp only
  split <;> exact hbus

/-- A bus that is initialised again keeps its block length. -/
theorem sd_bus_same {s : State} (o : InitRun) (h : s.block_length = SDIO_DFLT_BLKSZ) :
    (sd_init_bus o s).2 = s := by
  have hbus : (if o.uhs then (Errno.eok, s) else _sdio_set_block_length o.set SDIO_DFLT_BLKSZ s) =
      (.eok, s) := by
    split
    · rfl
    · exact set_same o.set h
  rw [sd_init_bus, hbus]
  rfl

theorem mmc_bus_same {s : State} (o : InitRun) (h : s.block_length = SDIO_DFLT_BLKSZ) :
    (mmc_init_bus o s).2 = { s with fixed := o.fixed } := by
  rw [mmc_init_bus, set_same o.set
    (show ({ s with fixed := o.fixed } : State).block_length = _ from h)]

theorem mmc_selected_frame (o : InitRun) (s : State) : Frame .mmc s (mmc_init_selected o s).2 := by
  have hflag : Frame .mmc s { s with fixed := o.fixed } :=
    ⟨rfl, rfl, rfl, rfl, rfl, fun hd => (nomatch hd)⟩
  have hbus : Frame .mmc s (mmc_init_bus o s).2 :=
    hflag.trans (set_frame .mmc o.set SDIO_DFLT_BLKSZ _)
  unfold mmc_init_selected
  split
  · exact Frame.refl _ s
  · split
    · exact Frame.refl _ s
    · exact hbus

theorem unlock_frame (o : LockRun) (s : State) : Frame .sd s (sd_unlock o s).2 := by
  unfold sd_unlock
  split
  · exact lock_frame o _ s
  · exact Frame.refl _ s

theorem sd_selected_frame (o : InitRun) (s : State) : Frame .sd s (sd_init_selected o s).2 := by
  have hunlock := unlock_frame o.unlock s
  unfold sd_init_selected
  dsimp only
  split
  · exact hunlock
  · split
    · exact hunlock
    · split
      · exact hunlock
      · exact hunlock.trans (sd_bus_frame o _)

theorem init_frame (d : DevType) (o : InitRun) (s : State) : Frame d s (init_device d o s).2 := by
  have hlock : ∀ d, Frame d s { s with locked := s.locked || o.locked } :=
    fun _ => ⟨rfl, rfl, rfl, rfl, rfl, fun _ => rfl⟩
  unfold init_device
  split
  · exact Frame.refl _ s
  · cases d with
    | mmc => exact (hlock .mmc).trans (mmc_selected_frame o _)
    | sd => exact (hlock .sd).trans (sd_selected_frame o _)

theorem At.mmc_selected {s : State} (h : At SDIO_DFLT_BLKSZ s) (o : InitRun) :
    At SDIO_DFLT_BLKSZ (mmc_init_selected o s).2 := by
  unfold mmc_init_selected
  split
  · exact h
  · split
    · exact h
    · rw [mmc_bus_same o h.length]
      exact ⟨h.length, h.card, h.transfers, h.commands⟩

theorem At.sd_selected {s : State} (h : At SDIO_DFLT_BLKSZ s) {o : InitRun}
    (ho : s.pwd_len ≠ 0 → s.fixed = false ∧ o.unlock.Sound s.pwd_len) :
      At SDIO_DFLT_BLKSZ (sd_init_selected o s).2 := by
  have hunlock : At SDIO_DFLT_BLKSZ (sd_unlock o.unlock s).2 := by
    unfold sd_unlock
    split
    · rename_i hknown
      obtain ⟨hfixed, hsound⟩ := ho hknown.2
      have hk : s.skips = false := by
        rw [State.skips, hfixed]
        rfl
      exact h.lock hk hsound
    · exact h
  unfold sd_init_selected
  dsimp only
  split
  · exact hunlock
  · split
    · exact hunlock
    · split
      · exact hunlock
      · rw [sd_bus_same o hunlock.length]
        exact hunlock

/-- An initialisation keeps the length of a card that has one. -/
theorem At.init {s : State} (h : At SDIO_DFLT_BLKSZ s) {d : DevType} {o : InitRun}
    (ho : d = .sd → s.pwd_len ≠ 0 → s.fixed = false ∧ o.unlock.Sound s.pwd_len) :
    At SDIO_DFLT_BLKSZ (init_device d o s).2 := by
  have hlock : At SDIO_DFLT_BLKSZ { s with locked := s.locked || o.locked } :=
    ⟨h.length, h.card, h.transfers, h.commands⟩
  unfold init_device
  split
  · exact h
  · cases d with
    | mmc => exact hlock.mmc_selected o
    | sd => exact hlock.sd_selected (ho rfl)

theorem At.cycled {s : State} (h : At SDIO_DFLT_BLKSZ s) : At SDIO_DFLT_BLKSZ s.cycled :=
  ⟨h.length, rfl, h.transfers, h.commands⟩

theorem cycled_frame (d : DevType) (s : State) : Frame d s s.cycled :=
  ⟨rfl, rfl, rfl, rfl, rfl, fun _ => rfl⟩

theorem ResetSound.frame {s s' : State} {r : ℕ → InitRun} (hr : ResetSound s r)
    (h : Frame s.dtype s s') :
    ResetSound s' r := by
  intro hd hp
  have hsd : s.dtype = .sd := h.dtype.symm.trans hd
  rw [h.pwd_len] at hp ⊢
  rw [h.fixed hsd]
  exact hr hsd hp

/-- A reset keeps the length of a card that has one, whatever happens in it. -/
theorem At.reset {r : ℕ → InitRun} (n : ℕ) : ∀ {s : State}, At SDIO_DFLT_BLKSZ s → ResetSound s r →
    At SDIO_DFLT_BLKSZ (resetPasses r n s) ∧ Frame s.dtype s (resetPasses r n s) := by
  induction n with
  | zero => exact fun h _ => ⟨h, Frame.refl _ _⟩
  | succ n ih =>
      intro s h hr
      have hat : At SDIO_DFLT_BLKSZ (init_device s.dtype (r n) s.cycled).2 :=
        h.cycled.init fun hd hp => ⟨(hr hd hp).1, (hr hd hp).2 n⟩
      have hframe : Frame s.dtype s (init_device s.dtype (r n) s.cycled).2 :=
        (cycled_frame s.dtype s).trans (init_frame s.dtype (r n) s.cycled)
      rw [resetPasses]
      split
      · exact ⟨hat, hframe⟩
      · obtain ⟨hend, hrest⟩ := ih hat (hr.frame hframe)
        rw [hframe.dtype] at hrest
        exact ⟨hend, hframe.trans hrest⟩

/-! ### A card without a length -/

/-- An initialisation of a card that is not locked. -/
theorem init_unlocked {s : State} {o : InitRun} (d : DevType) (hs : s.locked = false)
    (ho : o.locked = false) (hstops : o.stops = .eok) :
    init_device d o s = if o.caps ≠ .eok then (o.caps, s) else
      match d with
      | .mmc => mmc_init_bus o s
      | .sd => sd_init_bus o s := by
  have hsame : ({ s with locked := s.locked || o.locked } : State) = s := by
    rw [hs, ho]
    exact congrArg (fun b => { s with locked := b }) hs.symm
  rw [init_device, hstops, if_neg (by decide)]
  dsimp only
  rw [hsame]
  cases d with
  | mmc =>
      change mmc_init_selected o s = _
      rw [mmc_init_selected, hs, if_neg (by decide)]
  | sd =>
      have hunlock : sd_unlock o.unlock s = (.eok, s) :=
        if_neg fun h => absurd (hs.symm.trans h.1) (by decide)
      change sd_init_selected o s = _
      rw [sd_init_selected, hunlock]
      dsimp only
      rw [if_neg (not_not_intro rfl), hs, if_neg (by decide)]

variable {s : State} {o : InitRun} {d : DevType}

theorem flag_mmc (fixed : Bool) (hstops : o.stops = .eok) (hcaps : o.caps = .eok) :
    o.flag .mmc fixed = o.fixed :=
  if_pos ⟨rfl, hstops, hcaps⟩

theorem flag_sd (fixed : Bool) (o : InitRun) : o.flag .sd fixed = fixed :=
  if_neg fun h => (nomatch h.1)

/-- An initialisation that sets the length. -/
theorem init_sets (hlen : s.block_length ≠ SDIO_DFLT_BLKSZ) (hs : s.locked = false)
    (ho : o.locked = false) (h : o.Sets d s.fixed s.info.hc) : (init_device d o s).2 =
      { s with fixed := o.flag d s.fixed, card := SDIO_DFLT_BLKSZ, block_length :=
        SDIO_DFLT_BLKSZ } := by
  obtain ⟨⟨hstops, hcaps, hk, huhs⟩, hset⟩ := h
  rw [init_unlocked d hs ho hstops, hcaps, if_neg (by decide)]
  cases d with
  | mmc =>
      rw [flag_mmc s.fixed hstops hcaps] at hk ⊢
      have hskip : ({ s with fixed := o.fixed } : State).skips = false := hk
      change (mmc_init_bus o s).2 = _
      rw [mmc_init_bus, set_sends hskip hlen hset]
  | sd =>
      rw [flag_sd] at hk ⊢
      change (sd_init_bus o s).2 = _
      rw [sd_init_bus, if_neg fun hu => huhs ⟨rfl, hu⟩, set_sends hk hlen hset]
      dsimp only
      rw [if_neg (not_not_intro rfl)]

theorem result_stops {fixed hc : Bool} (h : o.stops ≠ .eok) : o.result d fixed hc = o.stops :=
  if_pos h

theorem result_caps {fixed hc : Bool} (hstops : o.stops = .eok) (h : o.caps ≠ .eok) :
    o.result d fixed hc = o.caps := by
  rw [InitRun.result, hstops, if_neg (by decide), if_pos h]

theorem result_bus {fixed hc : Bool} (hstops : o.stops = .eok) (h : o.caps = .eok) :
    o.result d fixed hc =
    if (if o.Sends d fixed hc then o.set.status else .eok) ≠ .eok then
      (if o.Sends d fixed hc then o.set.status else .eok)
    else if d = .sd then o.assd else .eok := by
  rw [InitRun.result, hstops, if_neg (by decide), h, if_neg (by decide)]

/-- An initialisation that does not: it returns what was expected, and the driver has no length
either. -/
theorem init_fresh (hlen : s.block_length ≠ SDIO_DFLT_BLKSZ) (hs : s.locked = false)
    (ho : o.locked = false)
    (h : ¬ o.Sets d s.fixed s.info.hc) :
        ∃ card, (s.card = SDIO_DFLT_BLKSZ → card = SDIO_DFLT_BLKSZ) ∧
      init_device d o s =
        (o.result d s.fixed s.info.hc, { s with fixed := o.flag d s.fixed, card := card }) := by
  by_cases hstops : o.stops = .eok
  · rw [init_unlocked d hs ho hstops]
    by_cases hcaps : o.caps = .eok
    · rw [if_neg (not_not_intro hcaps), result_bus hstops hcaps]
      by_cases hsends : o.Sends d s.fixed s.info.hc
      · -- the card refuses the length
        have hset : o.set.status ≠ .eok := fun hok => h ⟨hsends, hok⟩
        rw [if_pos hsends, if_pos hset]
        obtain ⟨-, -, hk, huhs⟩ := hsends
        refine ⟨if o.set.taken then SDIO_DFLT_BLKSZ else s.card, fun hc => by rw [hc, ite_self], ?_⟩
        cases d with
        | mmc =>
            rw [flag_mmc s.fixed hstops hcaps] at hk ⊢
            have hskip : ({ s with fixed := o.fixed } : State).skips = false := hk
            change mmc_init_bus o s = _
            rw [mmc_init_bus, set_refused hskip hlen hset]
            cases o.set.taken <;> rfl
        | sd =>
            rw [flag_sd] at hk ⊢
            change sd_init_bus o s = _
            rw [sd_init_bus, if_neg fun hu => huhs ⟨rfl, hu⟩, set_refused hk hlen hset]
            dsimp only
            rw [if_pos hset]
            cases o.set.taken <;> rfl
      · -- no length is set
        rw [if_neg hsends, if_neg (not_not_intro rfl)]
        refine ⟨s.card, id, ?_⟩
        cases d with
        | mmc =>
            have hk : (o.fixed && s.info.hc) = true := by
              rw [← flag_mmc s.fixed hstops hcaps]
              by_contra hne
              exact hsends ⟨hstops, hcaps, (Bool.not_eq_true _).mp hne, fun hsd => (nomatch hsd.1)⟩
            rw [flag_mmc s.fixed hstops hcaps, if_neg (by decide)]
            change mmc_init_bus o s = _
            rw [mmc_init_bus, _sdio_set_block_length]
            exact if_pos hk
        | sd =>
            have hbus : (if o.uhs then (Errno.eok, s)
                else _sdio_set_block_length o.set SDIO_DFLT_BLKSZ s) = (.eok, s) := by
              split
              · rfl
              · rename_i huhs
                rw [_sdio_set_block_length]
                refine if_pos ?_
                by_contra hne
                exact hsends ⟨hstops, hcaps, by rw [flag_sd]; exact (Bool.not_eq_true _).mp hne,
                  fun hsd => huhs hsd.2⟩
            rw [flag_sd, if_pos rfl]
            change sd_init_bus o s = _
            rw [sd_init_bus, hbus]
            rfl
    · have hflag : o.flag d s.fixed = s.fixed := if_neg fun hboth => hcaps hboth.2.2
      refine ⟨s.card, id, ?_⟩
      rw [if_pos hcaps, result_caps hstops hcaps, hflag]
  · have hflag : o.flag d s.fixed = s.fixed := if_neg fun hboth => hstops hboth.2.1
    refine ⟨s.card, id, ?_⟩
    rw [result_stops hstops, hflag, init_device, if_pos hstops]

/-- A reset that sets the length. -/
theorem At.restored {r : ℕ → InitRun} (n : ℕ) :
    ∀ {s : State}, s.block_length ≠ SDIO_DFLT_BLKSZ → s.locked = false →
    (∀ t ∈ s.transfers, t.1 = t.2) → (∀ c ∈ s.commands, c.1 = .eok → c.2 = some .eok) →
    ResetSound s r →
    Restored s.dtype s.fixed s.info.hc r n →
    At SDIO_DFLT_BLKSZ (resetPasses r n s) ∧ Frame s.dtype s (resetPasses r n s) := by
  induction n with
  | zero => exact fun _ _ _ _ _ h => h.elim
  | succ n ih =>
      intro s hlen hs ht hc hr h
      obtain ⟨ho, h⟩ := h
      have hframe : Frame s.dtype s (init_device s.dtype (r n) s.cycled).2 :=
        (cycled_frame s.dtype s).trans (init_frame s.dtype (r n) s.cycled)
      have hr' := hr.frame hframe
      rw [resetPasses]
      by_cases hsets : (r n).Sets s.dtype s.fixed s.info.hc
      · have hat : At SDIO_DFLT_BLKSZ (init_device s.dtype (r n) s.cycled).2 := by
          have hinit := init_sets (s := s.cycled) (d := s.dtype) hlen hs ho hsets
          rw [hinit]
          exact ⟨rfl, rfl, ht, hc⟩
        split
        · exact ⟨hat, hframe⟩
        · obtain ⟨hend, hrest⟩ := At.reset n hat hr'
          rw [hframe.dtype] at hrest
          exact ⟨hend, hframe.trans hrest⟩
      · obtain ⟨henxio, heok, hrest⟩ := h.resolve_left hsets
        obtain ⟨card, -, hinit⟩ := init_fresh (s := s.cycled) (d := s.dtype) hlen hs ho hsets
        rw [hinit] at hframe hr' ⊢
        dsimp only at hframe hr' ⊢
        rw [if_neg fun hor => hor.elim henxio heok]
        obtain ⟨hend, hframe'⟩ :=
          ih (s := { s.cycled with fixed := (r n).flag s.dtype s.fixed, card := card })
          hlen hs ht hc hr' hrest
        exact ⟨hend, hframe.trans hframe'⟩

/-! ### General and manufacturer commands -/

/-- What a command leaves behind: the length of before, with a status that is right, or another one,
and a reset that sets it back. -/
structure Commanded (o : GenRun) (s : State) (x : (Errno × Option Errno) × State) : Prop where
  frame : Frame .sd s x.2
  locked : x.2.locked = s.locked
  ends : (At SDIO_DFLT_BLKSZ x.2 ∧ (x.1.1 = .eok → x.1.2 = some .eok)) ∨
    (x.1.1 ≠ .eok ∧ x.2.block_length ≠ SDIO_DFLT_BLKSZ ∧ (∀ t ∈ x.2.transfers, t.1 = t.2) ∧
      (∀ c ∈ x.2.commands, c.1 = .eok → c.2 = some .eok) ∧ s.locked = false ∧
      Restored s.dtype s.fixed s.info.hc o.reset SDIO_RESET_RETRIES)

/-- A status other than `EOK` promises nothing. -/
theorem Commanded.same {o : GenRun} {s : State} (h : At SDIO_DFLT_BLKSZ s) {status : Errno}
    (sent : Option Errno) (hne : status ≠ .eok) : Commanded o s ((status, sent), s) :=
  ⟨Frame.refl _ s, rfl, Or.inl ⟨h, fun hok => absurd hok hne⟩⟩

theorem set_locked (o : Sent) (n : ℕ) (s : State) :
    (_sdio_set_block_length o n s).2.locked = s.locked := by
  unfold _sdio_set_block_length
  split_ifs <;> rfl

/-- With a length of its own. -/
theorem commanded_length {o : GenRun} {s : State} (h : At SDIO_DFLT_BLKSZ s) (ho : o.Sound s)
    (hcnt : ¬ 1 < o.blkcnt)
    (halloc : o.alloc = true) (hadtc : o.adtc = true) (hl : o.blklen ≠ SDIO_DFLT_BLKSZ) :
    Commanded o s (mmc_gen_man_cmd o s) := by
  obtain ⟨hk, hplain, hrest⟩ := ho (Nat.le_of_not_lt hcnt) halloc hadtc hl
  have hframe := set_frame .sd o.set o.blklen s
  rw [mmc_gen_man_cmd, if_neg hcnt, halloc, if_neg (by decide), hadtc, if_neg (by decide)]
  dsimp only
  rw [if_pos hl, if_pos hl]
  by_cases hset : o.set.status = .eok
  · obtain ⟨hstatus, hat⟩ := h.set (n := o.blklen) hk hset
    have hlen : (_sdio_set_block_length o.set o.blklen s).2.block_length ≠ SDIO_DFLT_BLKSZ :=
      hat.length.trans_ne hl
    have hlocked := set_locked o.set o.blklen s
    rw [hstatus, if_neg (by decide)]
    generalize (_sdio_set_block_length o.set o.blklen s).2 = s₁ at *
    specialize hrest hset
    split
    · rename_i hbuffer
      rw [if_neg fun hboth => absurd (hbuffer.symm.trans hboth.1) (by decide)] at hrest
      exact ⟨hframe, hlocked,
        Or.inr ⟨fun hne => (nomatch hne), hlen, hat.transfers, hat.commands, hrest⟩⟩
    · rename_i hbuffer
      have hframe' := hframe.trans <|
        (issued_frame .sd o.blklen s₁).trans (set_frame .sd o.restore SDIO_DFLT_BLKSZ _)
      have hskip : (s₁.issued o.blklen).skips = false :=
        ((hframe.trans (issued_frame .sd o.blklen s₁)).skips).trans hk
      have hlocked' := (set_locked o.restore SDIO_DFLT_BLKSZ (s₁.issued o.blklen)).trans hlocked
      by_cases hback : o.restore.status = .eok
      · rw [if_pos ⟨(Bool.not_eq_false _).mp hbuffer, hback⟩] at hrest
        obtain ⟨-, hat'⟩ := hat.issued.set (n := SDIO_DFLT_BLKSZ) hskip hback
        exact ⟨hframe', hlocked', Or.inl ⟨hat', fun _ => congrArg some hrest⟩⟩
      · rw [if_neg fun hboth => hback hboth.2] at hrest
        have hrefused := set_refused (s := s₁.issued o.blklen) hskip hlen hback
        rw [hrefused] at hframe' hlocked' ⊢
        refine ⟨hframe', hlocked', Or.inr ⟨hback, ?_⟩⟩
        cases o.restore.taken <;> exact ⟨hlen, hat.issued.transfers, hat.issued.commands, hrest⟩
  · have hrefused := set_refused hk (h.length.trans_ne (Ne.symm hl)) hset
    rw [hplain hset] at hrefused
    rw [hrefused, if_pos hset]
    exact Commanded.same h none hset

theorem commanded {o : GenRun} {s : State} (h : At SDIO_DFLT_BLKSZ s) (ho : o.Sound s) :
    Commanded o s (mmc_gen_man_cmd o s) := by
  by_cases hcnt : 1 < o.blkcnt
  · rw [mmc_gen_man_cmd, if_pos hcnt]
    exact Commanded.same h none (by decide)
  cases halloc : o.alloc with
  | false =>
      rw [mmc_gen_man_cmd, if_neg hcnt, if_pos halloc]
      exact Commanded.same h none (by decide)
  | true =>
      cases hadtc : o.adtc with
      | false =>
          rw [mmc_gen_man_cmd, if_neg hcnt, halloc, if_neg (by decide), if_pos hadtc]
          exact ⟨Frame.refl _ s, rfl, Or.inl ⟨h, congrArg some⟩⟩
      | true =>
          by_cases hl : o.blklen = SDIO_DFLT_BLKSZ
          · rw [mmc_gen_man_cmd, if_neg hcnt, halloc, if_neg (by decide), hadtc,
              if_neg (by decide), hl]
            dsimp only
            rw [if_neg (not_not_intro rfl), if_neg (not_not_intro rfl), if_neg (not_not_intro rfl)]
            split
            · exact Commanded.same h none (by decide)
            · exact ⟨issued_frame _ _ s, rfl, Or.inl ⟨h.issued, congrArg some⟩⟩
          · exact commanded_length h ho hcnt halloc hadtc hl

/-- A command leaves the length as it was. -/
theorem At.gencmd {o : GenRun} {s : State} (h : At SDIO_DFLT_BLKSZ s) (hr : ResetSound s o.reset)
    (ho : o.Sound s) :
    At SDIO_DFLT_BLKSZ (sdmmc_gencmd_devctl o s) ∧ Frame s.dtype s (sdmmc_gencmd_devctl o s) := by
  obtain ⟨hframe, hlocked, hends⟩ := commanded h ho
  unfold sdmmc_gencmd_devctl
  generalize mmc_gen_man_cmd o s = x at *
  dsimp only
  have hframe' : Frame s.dtype s { x.2 with commands := x.1 :: x.2.commands } :=
    ⟨hframe.attached, hframe.dtype, hframe.pwd_len, hframe.info, hframe.sector_size, fun _ =>
      hframe.fixed rfl⟩
  have hr' := hr.frame hframe'
  rcases hends with ⟨hat, hok⟩ | ⟨hne, hlen, ht, hc, hs, hback⟩
  · have hat' : At SDIO_DFLT_BLKSZ { x.2 with commands := x.1 :: x.2.commands } := by
      refine ⟨hat.length, hat.card, hat.transfers, fun c hc => ?_⟩
      rcases List.mem_cons.mp hc with rfl | hc
      · exact hok
      · exact hat.commands c hc
    split
    · obtain ⟨hend, hrest⟩ := hat'.reset SDIO_RESET_RETRIES hr'
      rw [hframe'.dtype] at hrest
      exact ⟨hend, hframe'.trans hrest⟩
    · exact ⟨hat', hframe'⟩
  · rw [if_pos hne]
    have hc' : ∀ c ∈ x.1 :: x.2.commands, c.1 = .eok → c.2 = some .eok := by
      intro c hmem
      rcases List.mem_cons.mp hmem with rfl | hmem
      · exact fun hok => absurd hok hne
      · exact hc c hmem
    have hback' : Restored x.2.dtype x.2.fixed x.2.info.hc o.reset SDIO_RESET_RETRIES := by
      rw [hframe.dtype, hframe.fixed rfl, hframe.info]
      exact hback
    obtain ⟨hend, hrest⟩ :=
      At.restored (s := { x.2 with commands := x.1 :: x.2.commands }) SDIO_RESET_RETRIES hlen
      (hlocked.trans hs) ht hc' hr' hback'
    rw [hframe'.dtype] at hrest
    exact ⟨hend, hframe'.trans hrest⟩

/-! ### Requests -/

/-- A device that can be used: its length is the one that the bus was initialised with, and that of
its sectors. -/
structure Ready (s : State) : Prop where
  length : At SDIO_DFLT_BLKSZ s
  sector_size : s.sector_size = SDIO_DFLT_BLKSZ
  plain : s.info.Plain s.dtype

theorem Ready.of_frame {d : DevType} {s s' : State} (h : Ready s) (hat : At SDIO_DFLT_BLKSZ s')
    (hframe : Frame d s s') :
    Ready s' := by
  refine ⟨hat, hframe.sector_size.trans h.sector_size, ?_⟩
  rw [hframe.info, hframe.dtype]
  exact h.plain

theorem At.info {n : ℕ} {s : State} (h : At n s) : At n (sdio_dev_info s) :=
  ⟨h.length, h.card, h.transfers, h.commands⟩

theorem Ready.info {s : State} (h : Ready s) : Ready (sdio_dev_info s) :=
  ⟨h.length.info, h.plain.1, h.plain⟩

theorem Ready.reset {s : State} (h : Ready s) {r : ℕ → InitRun} (hr : ResetSound s r) :
    Ready (_sdio_reset r s) :=
  have hend := h.length.reset SDIO_RESET_RETRIES hr
  h.of_frame hend.1 hend.2

theorem Ready.sd_bus {s : State} (h : Ready s) (o : InitRun) : Ready (sd_init_bus o s).2 := by
  rw [sd_bus_same o h.length.length]
  exact h

theorem Ready.lockUnlock {s : State} (h : Ready s) {o : LockReq}
    (ho : s.dtype = .sd → s.skips = false ∧ o.run.Sound o.pwd_len) :
      Ready (sdmmc_lock_unlock_devctl o s) := by
  have hreq : s.dtype = .sd → Ready (sd_lock_unlock o s).2 := by
    intro hsd
    obtain ⟨hk, hrun⟩ := ho hsd
    have hpwd : Ready { s with pwd_len := if o.pwd_len ≠ 0 then o.pwd_len else s.pwd_len } :=
      ⟨⟨h.length.length, h.length.card, h.length.transfers, h.length.commands⟩, h.sector_size,
        h.plain⟩
    have hlock := hpwd.of_frame (hpwd.length.lock hk hrun) (lock_frame o.run o.pwd_len _)
    unfold sd_lock_unlock
    generalize _sdio_lock_unlock o.run o.pwd_len _ = x at hlock ⊢
    dsimp only
    split
    · exact hlock
    · split
      · split
        · exact hlock
        · exact hlock.sd_bus o.bus
      · exact hlock
  unfold sdmmc_lock_unlock_devctl
  split
  · exact h
  · rename_i hmmc
    have hsd : s.dtype = .sd := by
      cases hd : s.dtype with
      | mmc => exact absurd hd hmmc
      | sd => rfl
    dsimp only
    split
    · exact (hreq hsd).info
    · exact hreq hsd

theorem Ready.rw {s : State} (h : Ready s) {o : RwRun}
    (ho : ∀ r, o.reset = some r → ResetSound s r) :
    Ready (sdmmc_rw o s) := by
  have hissued : Ready (s.issued s.sector_size) := by
    rw [h.sector_size]
    exact h.of_frame h.length.issued (issued_frame .sd _ s)
  have hreset : Ready (match o.reset with
      | some r => _sdio_reset r (s.issued s.sector_size)
      | none => s.issued s.sector_size) := by
    split
    · rename_i r hr
      exact hissued.reset ((ho r hr).frame (issued_frame _ _ s))
    · exact hissued
  unfold sdmmc_rw
  dsimp only
  split
  · exact h
  · split
    · exact hissued
    · refine Ready.info ?_
      generalize (match o.reset with
        | some r => _sdio_reset r (s.issued s.sector_size)
        | none => s.issued s.sector_size) = s₁ at hreset ⊢
      split
      · split
        · exact hreset.sd_bus _
        · exact hreset
      · exact hreset

/-- On an MMC card a reset needs nothing. -/
theorem ResetSound.mmc {s : State} (h : s.dtype = .mmc) (r : ℕ → InitRun) : ResetSound s r := by
  intro hsd
  rw [h] at hsd
  exact (nomatch hsd)

theorem Ready.ffu {s : State} (h : Ready s) {o : FfuRun} (ho : o.Sound s) :
    Ready (sdmmc_ffu o s) := by
  unfold sdmmc_ffu
  split
  · exact h
  rename_i hgo
  have hmmc : s.dtype = .mmc := not_not.mp fun hne => hgo (Or.inl hne)
  have hffu : s.info.ffu = true := (Bool.not_eq_false _).mp fun hno => hgo (Or.inr (Or.inl hno))
  have hready : o.ready = true := (Bool.not_eq_false _).mp fun hno => hgo (Or.inr (Or.inr hno))
  split
  · exact h.reset (ResetSound.mmc hmmc _)
  rename_i hactivate
  split
  · exact h
  rename_i hprepared
  split
  · exact h
  rename_i hlen
  have hneeds := ho hmmc hffu hready hactivate ((Bool.not_eq_false _).mp hprepared)
    (fun h0 => hlen (Or.inl h0)) (not_not.mp fun hne => hlen (Or.inr hne))
  by_cases hsize : s.info.dssize = SDIO_DFLT_BLKSZ
  · have hrw := h.rw (o := o.rw) fun r _ => ResetSound.mmc hmmc r
    have hsame : ({ s with sector_size := SDIO_DFLT_BLKSZ } : State) = s :=
      congrArg (fun n => { s with sector_size := n }) h.sector_size.symm
    dsimp only
    rw [hsize, h.sector_size, if_neg (not_not_intro rfl), if_neg (not_not_intro rfl), hsame,
      h.plain.2 hmmc hffu]
    exact ⟨⟨hrw.length.length, hrw.length.card, hrw.length.transfers, hrw.length.commands⟩, rfl,
      hrw.plain⟩
  · obtain ⟨hk, hset, htaken⟩ := hneeds.resolve_left hsize
    have hrefused := set_refused hk (h.length.length.trans_ne (Ne.symm hsize)) hset
    rw [htaken] at hrefused
    dsimp only
    rw [h.sector_size, if_pos (Ne.symm hsize), hrefused, if_pos hset]
    exact h

theorem Ready.psi {s : State} (h : Ready s) {o : PsiRun} (hk : s.skips = false)
    (hset : o.set.status = .eok)
    (halloc : o.alloc = true) (hback : o.restore.status = .eok) : Ready (assd_send_psi o s) := by
  obtain ⟨-, hat⟩ := h.length.set (n := SD_PSI_SIZE) hk hset
  have hframe := (set_frame .sd o.set SD_PSI_SIZE s).trans (issued_frame .sd SD_PSI_SIZE _)
  have hend := hat.issued.set (n := SDIO_DFLT_BLKSZ) (hframe.skips.trans hk) hback
  unfold assd_send_psi
  dsimp only
  rw [halloc, if_neg (by decide)]
  exact h.of_frame hend.2 (hframe.trans (set_frame .sd _ _ _))

theorem Ready.sec {s : State} (h : Ready s) (set : Sent) (alloc : Bool) :
    Ready (assd_sec_cmd set alloc s) := by
  unfold assd_sec_cmd
  rw [show SD_SEC_CMD_SIZE = SDIO_DFLT_BLKSZ from rfl, set_same set h.length.length]
  dsimp only
  split
  · exact h
  · exact h.of_frame h.length.issued (issued_frame .sd _ s)

theorem Ready.busError {s : State} (h : Ready s) (o : InitRun) :
    Ready (if s.dtype = .mmc then mmc_init_bus o s else sd_init_bus o s).2 := by
  split
  · rw [mmc_bus_same o h.length.length]
    exact ⟨⟨h.length.length, h.length.card, h.length.transfers, h.length.commands⟩, h.sector_size,
      h.plain⟩
  · exact h.sd_bus o

/-! ### Every history -/

/-- A device that is attached is ready; of what was sent before, the lists say that it was right. -/
structure Inv (s : State) : Prop where
  ready : s.attached = true → Ready s
  transfers : ∀ t ∈ s.transfers, t.1 = t.2
  commands : ∀ c ∈ s.commands, c.1 = .eok → c.2 = some .eok

theorem Ready.inv {s : State} (h : Ready s) : Inv s :=
  ⟨fun _ => h, h.length.transfers, h.length.commands⟩

/-- A device with a length, in the attempts that are left. -/
theorem identify_at (as : List Attempt) :
    ∀ {s : State}, At SDIO_DFLT_BLKSZ s → s.pwd_len = 0 → s.attached = false →
    (∀ a ∈ as, a.run.stops = .eok → a.run.locked = false ∧ s.info.Plain a.dtype) →
    Inv (identify as s) := by
  induction as with
  | nil =>
      exact fun h _ ha _ =>
        ⟨fun hattached => absurd (ha.symm.trans hattached) (by decide), h.transfers, h.commands⟩
  | cons a as ih =>
      intro s h hpwd ha hall
      have hstart : At SDIO_DFLT_BLKSZ (if a.cycled then s.cycled else s) ∧
          Frame a.dtype s (if a.cycled then s.cycled else s) := by
        split
        · exact ⟨h.cycled, cycled_frame _ s⟩
        · exact ⟨h, Frame.refl _ s⟩
      unfold identify
      generalize (if a.cycled then s.cycled else s) = s₁ at hstart ⊢
      obtain ⟨hat, hframe⟩ := hstart
      have hend : At SDIO_DFLT_BLKSZ (init_device a.dtype a.run s₁).2 :=
        hat.init fun _ hp => absurd (hframe.pwd_len.trans hpwd) hp
      have hframe' := hframe.trans (init_frame a.dtype a.run s₁)
      dsimp only
      split
      · rename_i hok
        have hstops : a.run.stops = .eok := by
          by_contra hne
          rw [init_device, if_pos hne] at hok
          exact hne hok
        have hplain := (hall a (List.mem_cons_self ..) hstops).2
        rw [← hframe'.info] at hplain
        exact Ready.inv ⟨⟨hend.length, hend.card, hend.transfers, hend.commands⟩, hplain.1, hplain⟩
      · refine ih hend (hframe'.pwd_len.trans hpwd) (hframe'.attached.trans ha) fun b hb => ?_
        rw [hframe'.info]
        exact hall b (List.mem_cons_of_mem _ hb)

/-- A device without one. -/
theorem identify_fresh (as : List Attempt) :
    ∀ {s : State}, s.block_length ≠ SDIO_DFLT_BLKSZ → s.locked = false →
    (∀ t ∈ s.transfers, t.1 = t.2) → (∀ c ∈ s.commands, c.1 = .eok → c.2 = some .eok) →
    s.pwd_len = 0 → s.attached = false →
    (∀ a ∈ as, a.run.stops = .eok → a.run.locked = false ∧ s.info.Plain a.dtype) →
    Lands s.info.hc s.fixed as →
    Inv (identify as s) := by
  induction as with
  | nil =>
      exact fun _ _ ht hc _ ha _ _ =>
        ⟨fun hattached => absurd (ha.symm.trans hattached) (by decide), ht, hc⟩
  | cons a as ih =>
      intro s hlen hs ht hc hpwd ha hall hlands
      have hstart : ∃ card, (if a.cycled then s.cycled else s) = { s with card := card } := by
        split
        · exact ⟨SDIO_DFLT_BLKSZ, rfl⟩
        · exact ⟨s.card, rfl⟩
      obtain ⟨card, hstart⟩ := hstart
      rw [identify, hstart]
      dsimp only
      by_cases hsets : a.run.Sets a.dtype s.fixed s.info.hc
      · obtain ⟨ho, hplain⟩ := hall a (List.mem_cons_self ..) hsets.1.1
        have hinit := init_sets (s := { s with card := card }) hlen hs ho hsets
        rw [hinit]
        split
        · exact Ready.inv ⟨⟨rfl, rfl, ht, hc⟩, hplain.1, hplain⟩
        · exact identify_at as ⟨rfl, rfl, ht, hc⟩ hpwd ha fun b hb =>
            hall b (List.mem_cons_of_mem _ hb)
      · obtain ⟨hresult, hrest⟩ := hlands.resolve_left hsets
        have hfresh : ∃ card', init_device a.dtype a.run { s with card := card } =
            (a.run.result a.dtype s.fixed s.info.hc,
            { s with fixed := a.run.flag a.dtype s.fixed, card := card' }) := by
          by_cases hstops : a.run.stops = .eok
          · have ho := (hall a (List.mem_cons_self ..) hstops).1
            obtain ⟨card', -, hinit⟩ := init_fresh (s := { s with card := card }) hlen hs ho hsets
            exact ⟨card', hinit⟩
          · have hflag : a.run.flag a.dtype s.fixed = s.fixed :=
              if_neg fun hboth => hstops hboth.2.1
            rw [result_stops hstops, hflag, init_device, if_pos hstops]
            exact ⟨card, rfl⟩
        obtain ⟨card', hinit⟩ := hfresh
        rw [hinit, if_neg hresult]
        exact ih hlen hs ht hc hpwd ha (fun b hb => hall b (List.mem_cons_of_mem _ hb)) hrest

theorem Inv.attach {s : State} (hi : Inv s) (left : ℕ) {info : Info} {as : List Attempt}
    (h : (Op.attach left info as).Sound s) : Inv (_sdio_attach left info as s) :=
  identify_fresh as (s := {
    info := info, card := left, transfers := s.transfers, commands := s.commands })
    (show 0 ≠ SDIO_DFLT_BLKSZ by decide) rfl hi.transfers hi.commands rfl rfl h.1 h.2

/-- One operation. -/
theorem Inv.apply {s : State} (hi : Inv s) (op : Op)
    (h : s.attached = true ∨ (∃ left info as, op = .attach left info as) → op.Sound s) :
      Inv (op.apply s) := by
  -- what is done without a device is nothing
  have hexec : (s.attached = true → Ready (op.exec s)) →
      Inv (if s.attached then op.exec s else s) := by
    intro hready
    split
    · rename_i ha
      exact (hready ha).inv
    · exact hi
  cases op with
  | attach left info as => exact hi.attach left (h (Or.inr ⟨left, info, as, rfl⟩))
  | genMan o =>
      refine hexec fun ha => ?_
      obtain ⟨hr, ho⟩ := h (Or.inl ha)
      obtain ⟨hat, hframe⟩ := (hi.ready ha).length.gencmd hr ho
      exact (hi.ready ha).of_frame hat hframe
  | lockUnlock o => exact hexec fun ha => (hi.ready ha).lockUnlock (h (Or.inl ha))
  | ffu o => exact hexec fun ha => (hi.ready ha).ffu (h (Or.inl ha))
  | rw o => exact hexec fun ha => (hi.ready ha).rw (h (Or.inl ha))
  | psi o =>
      refine hexec fun ha => ?_
      obtain ⟨hk, hset, halloc, hback⟩ := h (Or.inl ha)
      exact (hi.ready ha).psi hk hset halloc hback
  | sec set alloc => exact hexec fun ha => (hi.ready ha).sec set alloc
  | reset r => exact hexec fun ha => (hi.ready ha).reset (h (Or.inl ha))
  | busError o => exact hexec fun ha => (hi.ready ha).busError o

theorem inv_run (ops : List Op) : ∀ {s : State}, Inv s → AllSound s ops → Inv (run s ops) := by
  induction ops with
  | nil => exact fun hi _ => hi
  | cons op ops ih => exact fun hi hall => ih (hi.apply op hall.1) hall.2

/-- **In every history of sound operations the driver knows the block length of the card**, every
transfer has that length, and `mmc_gen_man_cmd` returns `EOK` only for a command that succeeded. -/
theorem length_run {ops : List Op} (h : AllSound {} ops) : Correct (run {} ops) := by
  have hstart : Inv {} := ⟨fun ha => (nomatch ha), fun _ ht => absurd ht List.not_mem_nil,
    fun _ hc => absurd hc List.not_mem_nil⟩
  have hend := inv_run ops hstart h
  refine ⟨fun ha => ?_, hend.transfers, hend.commands⟩
  have hat := (hend.ready ha).length
  exact hat.length.trans hat.card.symm

/-- A card is attached, a general command of eight bytes succeeds, and a sector is read. -/
def wellUsed : List Op := [.attach 512 {} [{ dtype := .mmc }], .genMan { blklen := 8 }, .rw {}]

theorem length_run_gen :
    (run {} wellUsed).transfers = [(512, 512), (8, 8)] ∧ Correct (run {} wellUsed) := by
  refine ⟨by decide, length_run ⟨fun _ => ⟨fun a ha _ => ?_, Or.inl ?_⟩, fun _ =>
    ⟨fun hd => ?_, fun _ _ _ _ => ?_⟩, ?_⟩⟩
  · rw [List.mem_singleton.mp ha]
    exact ⟨rfl, rfl, fun _ hffu => (nomatch hffu)⟩
  · exact ⟨⟨rfl, rfl, rfl, fun hsd => (nomatch hsd.1)⟩, rfl⟩
  · exact absurd hd (by decide)
  · exact ⟨by decide, fun hne => absurd rfl hne, fun _ => rfl⟩
  · exact ⟨fun _ r hr => (nomatch hr), trivial⟩

/-- A general command of eight bytes times out, and the length is set back: `mmc_gen_man_cmd`
returns `EOK`. -/
theorem restore_hides_failure :
    ¬ Correct (run {} [.attach 512 {} [{ dtype := .mmc }],
    .genMan { blklen := 8, sent := .etimedout }]) := by
  intro h
  exact absurd (h.commands (.eok, some .etimedout) (by decide) rfl) (by decide)

end Sdmmc.BlockLength
