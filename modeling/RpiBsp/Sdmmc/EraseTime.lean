import RpiBsp.Sdmmc.Capacity
import RpiBsp.Support.Prog

/-!
# Sdmmc — the time an erase gets

`sd_erase` and `mmc_erase`, how long they let the erase command take, and the registers that this is
computed from.  A timeout is a product, of 32 bits for an SD card and of 64 bits for an MMC device,
and `_sdio_send_cmd` takes 32 bits of it.

* `init_device` — the device as initialisation leaves it, for any content of the registers;
* `sdio_erase_sends` — an erase command goes out with the timeout of the range, cut to 32 bits;
* `sdio_erase_waits_iff` — when that timeout is long enough for every run.

Of the initialisation only what an erase reads is here, with every command of it answered; a round
of either erase loop takes the whole range, so the loop is its body.
-/

namespace Sdmmc.EraseTime

open Support
open Sdmmc.Capacity

/-! ### Registers and device -/

/-- `SD_ERASE_TIMEOUT`, `MMC_ERASE_TIMEOUT` and `MMC_ERASE_TIMEOUT_MIN`, in ms. -/
def SD_ERASE_TIMEOUT : ℕ := 250
def MMC_ERASE_TIMEOUT : ℕ := 300
def MMC_ERASE_TIMEOUT_MIN : ℕ := 2000
def MMC_ERASE_GRP_512K : ℕ := 0x80000
def SDIO_TIME_DEFAULT : ℕ := 1000

def ECSD_ERASE_GRP_DEF : ℕ := 175
def ECSD_REV : ℕ := 192
def ECSD_SEC_CNT : ℕ := 212
def ECSD_ERASE_MULT : ℕ := 223
def ECSD_ERASE_GRP_SIZE : ℕ := 224
def ECSD_SEC_TRIM_MULT : ℕ := 229
def ECSD_SEC_ERASE_MULT : ℕ := 230
def ECSD_TRIM_MULT : ℕ := 232

/-- `CCC_APP_SPEC`. -/
def CCC_APP_SPEC : ℕ := 1 <<< 8

/-- What a card has in its registers: the CSD, whether it is locked, the capacity bit of its OCR,
the bytes of the extended CSD and the sixteen words of the SD status. -/
structure Regs where
  dtype : DevType
  csd : Rsp
  locked : Bool
  hcs : Bool
  raw_ecsd : ℕ → ℕ
  raw_ecsd_lt : ∀ i, raw_ecsd i < 2 ^ 8
  sds : List ℕ
  sds_length : sds.length = 16
  sds_lt : ∀ x ∈ sds, x < 2 ^ 32

/-- What an erase reads of `sdio_dev_t`. -/
structure Dev where
  dtype : DevType
  caps : Caps
  csd : Csd
  raw_ecsd : ℕ → ℕ := fun _ => 0
  erase_grp_def : ℕ := 0
  hc_erase_group_size : ℕ := 0
  erase_timeout : ℕ := 0
  erase_offset : ℕ := 0

/-- `mmc_parse_ext_csd`. -/
def mmc_parse_ext_csd (dev : Dev) : Dev :=
  let sectors := dev.raw_ecsd ECSD_SEC_CNT + dev.raw_ecsd (ECSD_SEC_CNT + 1) * 2 ^ 8 +
    dev.raw_ecsd (ECSD_SEC_CNT + 2) * 2 ^ 16 + dev.raw_ecsd (ECSD_SEC_CNT + 3) * 2 ^ 24
  { dev with
    caps := if 2 ≤ dev.raw_ecsd ECSD_REV ∧ sectors > 0x400000 then { dev.caps with hc := true }
      else dev.caps
    erase_grp_def := dev.raw_ecsd ECSD_ERASE_GRP_DEF
    hc_erase_group_size := dev.raw_ecsd ECSD_ERASE_GRP_SIZE }

/-- `mmc_init_device`.  `mmc_parse_cid` refuses the specification versions above 4. -/
def mmc_init_device (r : Regs) : Option Dev :=
  let p := mmc_parse_csd {} r.csd.words
  let dev : Dev := { dtype := .mmc, caps := p.caps, csd := p.csd }
  if 4 < p.csd.spec_vers then none
  else if r.locked then some dev
  else if p.csd.spec_vers < 4 then some dev
  else
    let dev := mmc_parse_ext_csd { dev with raw_ecsd := r.raw_ecsd }
    let dev :=
      if dev.raw_ecsd ECSD_ERASE_GRP_SIZE ≠ 0 ∧ dev.raw_ecsd ECSD_ERASE_MULT ≠ 0 then
        { dev with erase_grp_def := 1 }
      else dev
    some (if r.hcs then { dev with caps := { dev.caps with hc := true } } else dev)

/-- `sd_read_status`. -/
def sd_read_status (dev : Dev) (sds : List ℕ) : Dev :=
  if dev.csd.ccc &&& CCC_APP_SPEC = 0 then dev
  else if sdio_extract_bits sds 512 428 4 = 0 then dev
  else
    let e_size := sdio_extract_bits sds 512 408 16
    let e_offset := sdio_extract_bits sds 512 400 2
    let e_timeout := sdio_extract_bits sds 512 402 6
    if e_size ≠ 0 ∧ e_timeout ≠ 0 then
      { dev with erase_offset := e_offset * 1000, erase_timeout := e_timeout * 1000 / e_size }
    else dev

/-- `sd_init_device`. -/
def sd_init_device (r : Regs) : Option Dev :=
  let p := sd_parse_csd {} r.csd.words
  let dev : Dev := { dtype := .sd, caps := p.caps, csd := p.csd }
  if p.status ≠ .eok then none
  else if r.locked then some dev
  else some (sd_read_status dev r.sds)

/-- The device that initialisation makes of the registers, if it accepts them. -/
def init_device (r : Regs) : Option Dev :=
  match r.dtype with
  | .mmc => mmc_init_device r
  | .sd => sd_init_device r

/-! ### Timeouts -/

/-- `MMC_ERASE_*`. -/
def MMC_ERASE_NORM : ℕ := 0x00000000
def MMC_ERASE_TRIM : ℕ := 0x00000001
def MMC_ERASE_DISCARD : ℕ := 0x00000003
def MMC_ERASE_SECURE : ℕ := 0x80000000
def MMC_ERASE_SECURE_TRIM : ℕ := 0x80000001
def MMC_ERASE_SECURE_TRIM_PURGE : ℕ := 0x80008000

/-- `mmc_erase_grp_size`. -/
def mmc_erase_grp_size (dev : Dev) : ℕ :=
  if dev.erase_grp_def ≠ 0 then dev.hc_erase_group_size * MMC_ERASE_GRP_512K
  else (dev.csd.erase_grp_size + 1) * (dev.csd.erase_grp_mult + 1) * 512

/-- `tmult` of `mmc_erase_timeout`, in 32 bits. -/
def mmc_tmult (dev : Dev) (etype : ℕ) : ℕ :=
  let ecsd := dev.raw_ecsd
  if dev.erase_grp_def ≠ 0 then
    if etype = MMC_ERASE_NORM then MMC_ERASE_TIMEOUT * ecsd ECSD_ERASE_MULT % 2 ^ 32
    else if etype = MMC_ERASE_TRIM ∨ etype = MMC_ERASE_DISCARD then
      MMC_ERASE_TIMEOUT * ecsd ECSD_TRIM_MULT % 2 ^ 32
    else if etype = MMC_ERASE_SECURE then
      MMC_ERASE_TIMEOUT * ecsd ECSD_ERASE_MULT % 2 ^ 32 * ecsd ECSD_SEC_ERASE_MULT % 2 ^ 32
    else if etype = MMC_ERASE_SECURE_TRIM ∨ etype = MMC_ERASE_SECURE_TRIM_PURGE then
      MMC_ERASE_TIMEOUT * ecsd ECSD_ERASE_MULT % 2 ^ 32 * ecsd ECSD_SEC_TRIM_MULT % 2 ^ 32
    else MMC_ERASE_TIMEOUT * ecsd ECSD_ERASE_MULT % 2 ^ 32
  else MMC_ERASE_TIMEOUT

/-- `mmc_erase_timeout`, in 64 bits; `none` is a division by zero. -/
def mmc_erase_timeout (dev : Dev) (etype nlba : ℕ) : Option ℕ :=
  let erase_grp_size := mmc_erase_grp_size dev / 512
  if erase_grp_size = 0 then none
  else
    let timeout := mmc_tmult dev etype * (nlba / erase_grp_size + 2) % 2 ^ 64
    some (max timeout MMC_ERASE_TIMEOUT_MIN)

/-- `sd_erase_timeout`: sums and products of 32 bits. -/
def sd_erase_timeout (dev : Dev) (nlba : ℕ) : ℕ :=
  if dev.erase_timeout ≠ 0 then (dev.erase_timeout * nlba % 2 ^ 32 + dev.erase_offset) % 2 ^ 32
  else SD_ERASE_TIMEOUT * nlba % 2 ^ 32

/-! ### Erasing -/

/-- The commands of an erase, and the wait for the card after it. -/
inductive Op where
  | sd_erase_wr_blk_start
  | sd_erase_wr_blk_end
  | sd_erase
  | mmc_tag_erase_group_start
  | mmc_tag_erase_group_end
  | mmc_erase
  | wait_card_status
deriving DecidableEq, Repr

/-- A command that was sent, with its argument and its timeout. -/
structure Sent where
  op : Op
  arg : ℕ
  timeout : ℕ
deriving DecidableEq, Repr

/-- A run logs what it sends, and every command is answered with a status. -/
abbrev EraseM : Type → Type := Prog Errno (List Sent)

/-- `_sdio_send_cmd` and `_sdio_wait_card_status`, whose timeout is a `uint32_t`. -/
def _sdio_send_cmd (op : Op) (arg timeout : ℕ) : EraseM Errno := do
  modify fun log => log ++ [{ op := op, arg := arg % 2 ^ 32, timeout := timeout % 2 ^ 32 }]
  Prog.ask

/-- The address of a block: blocks for a high capacity card, else bytes. -/
def addr (dev : Dev) (lba : ℕ) : ℕ := if dev.caps.hc then lba else lba * dev.csd.blksz % 2 ^ 64

/-- `sd_erase`. -/
def sd_erase (dev : Dev) (flgs lba nlba : ℕ) : EraseM Errno := do
  let cmd ← Prog.ask
  if cmd ≠ .eok then return .enomem
  if nlba = 0 then return .eok
  let status ← _sdio_send_cmd .sd_erase_wr_blk_start (addr dev lba) SDIO_TIME_DEFAULT
  if status ≠ .eok then return status
  let timeout := sd_erase_timeout dev nlba
  let status ← _sdio_send_cmd .sd_erase_wr_blk_end (addr dev (subW 64 (addW 64 lba nlba) 1))
    SDIO_TIME_DEFAULT
  if status ≠ .eok then return status
  _sdio_send_cmd .sd_erase flgs timeout

/-- `mmc_erase`, after the partition is selected; `none` is a division by zero. -/
def mmc_erase (dev : Dev) (flgs lba nlba : ℕ) : EraseM (Option Errno) := do
  let status ← Prog.ask
  if status ≠ .eok then return some status
  let cmd ← Prog.ask
  if cmd ≠ .eok then return some .enomem
  if nlba = 0 then return some .eok
  let status ← _sdio_send_cmd .mmc_tag_erase_group_start (addr dev lba) SDIO_TIME_DEFAULT
  if status ≠ .eok then return some status
  match mmc_erase_timeout dev flgs nlba with
  | none => return none
  | some timeout =>
      let status ←
        _sdio_send_cmd .mmc_tag_erase_group_end (addr dev (addW 64 lba (nlba - 1)))
          SDIO_TIME_DEFAULT
      if status ≠ .eok then return some status
      let status ← _sdio_send_cmd .mmc_erase flgs timeout
      if status ≠ .eok then return some status
      let status ← _sdio_send_cmd .wait_card_status 0 timeout
      return some status

/-- `sdio_erase`, with the device synchronised. -/
def sdio_erase (dev : Dev) (flgs lba nlba : ℕ) : EraseM (Option Errno) := do
  let status ← Prog.ask
  if status ≠ .eok then return some status
  match dev.dtype with
  | .mmc => mmc_erase dev flgs lba nlba
  | .sd => do
      let status ← sd_erase dev flgs lba nlba
      return some status

/-! ### What a run sends -/

/-- The command that erases. -/
def Sent.Erases (s : Sent) : Prop := s.op = .sd_erase ∨ s.op = .mmc_erase

/-- The timeout of a range, before it is cut. -/
def erase_timeout (dev : Dev) (etype nlba : ℕ) : Option ℕ :=
  match dev.dtype with
  | .mmc => mmc_erase_timeout dev etype nlba
  | .sd => some (sd_erase_timeout dev nlba)

/-- Every erase command of a log has the low 32 bits of the timeout. -/
def Cut (timeout : Option ℕ) (log : List Sent) : Prop :=
  ∀ s ∈ log, s.Erases → ∃ t, timeout = some t ∧ s.timeout = t % 2 ^ 32

variable {A : Errno → Prop} {timeout : Option ℕ}

theorem Cut.nil : Cut timeout [] := fun _ h => absurd h List.not_mem_nil

/-- A command of another kind, or the erase command with the timeout. -/
theorem send_cut {op : Op} {arg t : ℕ} (h : (op = .sd_erase ∨ op = .mmc_erase) → timeout = some t) :
    Prog.Triple A (Cut timeout) (_sdio_send_cmd op arg t) fun _ => Cut timeout := by
  refine .bind (.modify fun log hlog => ?_) fun _ => .ask fun _ _ _ hlog => hlog
  intro s hs herases
  rcases List.mem_append.mp hs with hs | hs
  case inl => exact hlog s hs herases
  case inr =>
    obtain rfl := List.mem_singleton.mp hs
    exact ⟨t, h herases, rfl⟩

theorem sd_erase_cut (dev : Dev) (flgs lba nlba : ℕ) :
    Prog.Triple A (Cut (some (sd_erase_timeout dev nlba))) (sd_erase dev flgs lba nlba)
      fun _ => Cut (some (sd_erase_timeout dev nlba)) := by
  refine .bind (.ask fun _ _ _ h => h) fun cmd => ?_
  refine .ite (fun _ => .pure fun _ h => h) fun _ => ?_
  refine .ite (fun _ => .pure fun _ h => h) fun _ => ?_
  refine .bind (send_cut (by simp)) fun status => ?_
  refine .ite (fun _ => .pure fun _ h => h) fun _ => ?_
  refine .bind (send_cut (by simp)) fun status => ?_
  exact .ite (fun _ => .pure fun _ h => h) fun _ => send_cut fun _ => rfl

/-- A run of an MMC erase stops without a status only at the division by zero. -/
theorem mmc_erase_cut (dev : Dev) (flgs lba nlba : ℕ) :
    Prog.Triple A (Cut (mmc_erase_timeout dev flgs nlba)) (mmc_erase dev flgs lba nlba)
      fun a log => Cut (mmc_erase_timeout dev flgs nlba) log ∧
        (a = none → mmc_erase_timeout dev flgs nlba = none) := by
  have done : ∀ status : Errno, Prog.Triple A (Cut (mmc_erase_timeout dev flgs nlba))
      (pure (some status)) fun a log => Cut (mmc_erase_timeout dev flgs nlba) log ∧
        (a = none → mmc_erase_timeout dev flgs nlba = none) :=
    fun status => .pure fun log h => ⟨h, by simp⟩
  refine .bind (.ask fun _ _ _ h => h) fun status => ?_
  refine .ite (fun _ => done _) fun _ => ?_
  refine .bind (.ask fun _ _ _ h => h) fun cmd => ?_
  refine .ite (fun _ => done _) fun _ => ?_
  refine .ite (fun _ => done _) fun _ => ?_
  refine .bind (send_cut (by simp)) fun status => ?_
  refine .ite (fun _ => done _) fun _ => ?_
  split
  case h_1 ht => exact .pure fun log h => ⟨h, fun _ => ht⟩
  case h_2 t ht =>
    refine .bind (send_cut (by simp)) fun status => ?_
    refine .ite (fun _ => done _) fun _ => ?_
    refine .bind (send_cut fun _ => ht) fun status => ?_
    refine .ite (fun _ => done _) fun _ => ?_
    exact .bind (send_cut (by simp)) fun status => done _

/-- **What an erase sends.**  Whatever the card answers, an erase command goes out with the timeout
of the range cut to 32 bits, and a run stops without a status only where the timeout divides by
zero. -/
theorem sdio_erase_sends (dev : Dev) (flgs lba nlba : ℕ) (r : ℕ → Errno) :
    Cut (erase_timeout dev flgs nlba) ((sdio_erase dev flgs lba nlba).run r []).2 ∧
      (((sdio_erase dev flgs lba nlba).run r []).1 = none →
      erase_timeout dev flgs nlba = none) := by
  have h : Prog.Triple (fun _ => True) (Cut (erase_timeout dev flgs nlba))
      (sdio_erase dev flgs lba nlba) fun a log => Cut (erase_timeout dev flgs nlba) log ∧
        (a = none → erase_timeout dev flgs nlba = none) := by
    refine .bind (.ask fun _ _ _ h => h) fun status => ?_
    refine .ite (fun _ => .pure fun log h => ⟨h, by simp⟩) fun _ => ?_
    rcases hd : dev.dtype with _ | _
    case mmc =>
      simp only [erase_timeout, hd]
      exact mmc_erase_cut dev flgs lba nlba
    case sd =>
      simp only [erase_timeout, hd]
      exact .bind (sd_erase_cut dev flgs lba nlba) fun status => .pure fun log h => ⟨h, by simp⟩
  exact h.run (fun _ => trivial) Cut.nil

/-- Where the card accepts every command, the erase command is reached. -/
theorem sdio_erase_reaches (dev : Dev) (flgs lba : ℕ) {nlba : ℕ} (hn : nlba ≠ 0) :
    match erase_timeout dev flgs nlba with
    | none => ((sdio_erase dev flgs lba nlba).run (fun _ => .eok) []).1 = none
    | some t => ∃ s ∈ ((sdio_erase dev flgs lba nlba).run (fun _ => .eok) []).2,
        s.Erases ∧ s.timeout = t % 2 ^ 32 := by
  rcases hd : dev.dtype with _ | _
  case mmc =>
    rcases ht : mmc_erase_timeout dev flgs nlba with _ | t
    all_goals simp [erase_timeout, sdio_erase, mmc_erase, _sdio_send_cmd, Prog.run, hd, hn, ht,
      Sent.Erases]
  case sd =>
    simp [erase_timeout, sdio_erase, sd_erase, _sdio_send_cmd, Prog.run, hd, hn, Sent.Erases]

/-! ### The time that is due -/

/-- The multiplier that the extended CSD has for an erase type. -/
def multiplier (ecsd : ℕ → ℕ) (etype : ℕ) : ℕ :=
  if etype = MMC_ERASE_TRIM ∨ etype = MMC_ERASE_DISCARD then ecsd ECSD_TRIM_MULT
  else if etype = MMC_ERASE_SECURE then ecsd ECSD_ERASE_MULT * ecsd ECSD_SEC_ERASE_MULT
  else if etype = MMC_ERASE_SECURE_TRIM ∨ etype = MMC_ERASE_SECURE_TRIM_PURGE then
    ecsd ECSD_ERASE_MULT * ecsd ECSD_SEC_TRIM_MULT
  else ecsd ECSD_ERASE_MULT

/-- The time of one unit. -/
def unitTime (dev : Dev) (etype : ℕ) : ℕ :=
  match dev.dtype with
  | .mmc => if dev.erase_grp_def = 0 then 300 else 300 * multiplier dev.raw_ecsd etype
  | .sd => if dev.erase_timeout = 0 then 250 else dev.erase_timeout

/-- The units of a range: blocks for an SD card, for an MMC device erase groups and two more where
the range is not aligned to them. -/
def units (dev : Dev) (nlba : ℕ) : ℕ :=
  match dev.dtype with
  | .mmc => nlba / (mmc_erase_grp_size dev / 512) + 2
  | .sd => nlba

/-- The time of a range. -/
def due (dev : Dev) (etype nlba : ℕ) : ℕ := unitTime dev etype * units dev nlba

/-- The offset that an SD card adds to it. -/
def offset (dev : Dev) : ℕ := if dev.erase_timeout = 0 then 0 else dev.erase_offset

/-- What initialisation makes sure of. -/
structure Initialised (dev : Dev) : Prop where
  raw_ecsd : ∀ i, dev.raw_ecsd i < 2 ^ 8
  offset : dev.erase_offset < 2 ^ 32

/-- A device that no extended register was read of. -/
theorem blank_initialised (dtype : DevType) (caps : Caps) (csd : Csd) :
    Initialised { dtype := dtype, caps := caps, csd := csd } :=
  ⟨fun _ => Nat.two_pow_pos 8, Nat.two_pow_pos 32⟩

theorem sd_read_status_initialised {dev : Dev} (h : Initialised dev) (r : Regs) :
    Initialised (sd_read_status dev r.sds) := by
  have hword : sdio_extract_bits r.sds 512 400 2 < 4 := by
    have h512 := @extract_bits _ r.sds_lt 400 2 (by decide) (by decide)
      (by rw [r.sds_length]; decide)
    rw [r.sds_length] at h512
    rw [show (512 : ℕ) = 32 * 16 from rfl, h512]
    exact window_lt _ _ 2
  simp only [sd_read_status]
  split
  case isTrue => exact h
  case isFalse =>
    split
    case isTrue => exact h
    case isFalse =>
      split
      case isFalse => exact h
      case isTrue =>
        have hoffset : sdio_extract_bits r.sds 512 400 2 * 1000 < 2 ^ 32 := by omega
        exact ⟨h.raw_ecsd, hoffset⟩

theorem init_device_initialised {r : Regs} {dev : Dev} (h : init_device r = some dev) :
    Initialised dev := by
  rcases hd : r.dtype with _ | _
  case mmc =>
    simp only [init_device, hd, mmc_init_device] at h
    split at h
    case isTrue => exact absurd h (by simp)
    case isFalse =>
      split at h
      case isTrue =>
        obtain rfl := Option.some.inj h
        exact blank_initialised _ _ _
      case isFalse =>
        split at h
        case isTrue =>
          obtain rfl := Option.some.inj h
          exact blank_initialised _ _ _
        case isFalse =>
          obtain rfl := Option.some.inj h
          constructor
          · intro i
            have := r.raw_ecsd_lt i
            split <;> split <;> simpa [mmc_parse_ext_csd] using this
          · split <;> split <;> simp [mmc_parse_ext_csd]
  case sd =>
    simp only [init_device, hd, sd_init_device] at h
    split at h
    case isTrue => exact absurd h (by simp)
    case isFalse =>
      split at h
      case isTrue =>
        obtain rfl := Option.some.inj h
        exact blank_initialised _ _ _
      case isFalse =>
        obtain rfl := Option.some.inj h
        exact sd_read_status_initialised (blank_initialised _ _ _) r

/-- No multiplier is above the product of two bytes. -/
theorem multiplier_le {ecsd : ℕ → ℕ} (h : ∀ i, ecsd i < 2 ^ 8) (etype : ℕ) :
    multiplier ecsd etype ≤ 2 ^ 16 := by
  have hbyte : ∀ i, ecsd i ≤ 2 ^ 16 := fun i => (h i).le.trans (by decide)
  have hprod : ∀ i j, ecsd i * ecsd j ≤ 2 ^ 16 := fun i j =>
    (Nat.mul_le_mul (h i).le (h j).le).trans (by decide)
  unfold multiplier
  split_ifs
  · exact hbyte _
  · exact hprod _ _
  · exact hprod _ _
  · exact hbyte _

/-- No product of the multipliers wraps. -/
theorem mmc_tmult_eq {dev : Dev} (hi : Initialised dev) (hd : dev.dtype = .mmc) (etype : ℕ) :
    mmc_tmult dev etype = unitTime dev etype := by
  have hfit : ∀ i, 300 * dev.raw_ecsd i % 2 ^ 32 = 300 * dev.raw_ecsd i := fun i =>
    Nat.mod_eq_of_lt ((Nat.mul_lt_mul_of_pos_left (hi.raw_ecsd i) (by decide)).trans (by decide))
  have hfit' : ∀ i j, 300 * dev.raw_ecsd i * dev.raw_ecsd j % 2 ^ 32 =
      300 * (dev.raw_ecsd i * dev.raw_ecsd j) := by
    intro i j
    have : dev.raw_ecsd i * dev.raw_ecsd j ≤ 2 ^ 8 * 2 ^ 8 :=
      Nat.mul_le_mul (hi.raw_ecsd i).le (hi.raw_ecsd j).le
    rw [Nat.mul_assoc]
    exact Nat.mod_eq_of_lt (by omega)
  simp only [mmc_tmult, unitTime, hd, multiplier, MMC_ERASE_TIMEOUT, hfit, hfit']
  by_cases hdef : dev.erase_grp_def = 0
  case pos => simp [hdef]
  case neg =>
    simp only [hdef, ne_eq, not_false_eq_true, if_true, if_false]
    by_cases hnorm : etype = MMC_ERASE_NORM
    case pos =>
      subst hnorm
      simp [MMC_ERASE_NORM, MMC_ERASE_TRIM, MMC_ERASE_DISCARD, MMC_ERASE_SECURE,
        MMC_ERASE_SECURE_TRIM, MMC_ERASE_SECURE_TRIM_PURGE]
    case neg =>
      simp only [hnorm, if_false]
      split_ifs <;> rfl

/-- The time of an erase group is an even number, and a product of three small ones. -/
theorem unitTime_even {dev : Dev} (hi : Initialised dev) (hd : dev.dtype = .mmc) (etype : ℕ) :
    ∃ k, unitTime dev etype = 2 * k ∧ k ≤ 2 ^ 24 := by
  simp only [unitTime, hd]
  split
  case isTrue => exact ⟨150, rfl, by decide⟩
  case isFalse =>
    have := multiplier_le hi.raw_ecsd etype
    exact ⟨150 * multiplier dev.raw_ecsd etype, by ring, by omega⟩

/-! ### When the time is enough -/

/-- The wait for an erase is as long as is due, or as long as it can be, no run divides by zero, and
a smaller range waits no longer. -/
structure Waits (dev : Dev) (flgs lba nlba : ℕ) : Prop where
  divides : ∀ r, ((sdio_erase dev flgs lba nlba).run r []).1 ≠ none
  due : ∀ r, ∀ s ∈ ((sdio_erase dev flgs lba nlba).run r []).2, s.Erases →
    min (2 ^ 32 - 1) (due dev flgs nlba) ≤ s.timeout
  grows : ∀ m, 1 ≤ m → m ≤ nlba → ∀ r r', ∀ s ∈ ((sdio_erase dev flgs lba nlba).run r []).2,
    ∀ s' ∈ ((sdio_erase dev flgs lba m).run r' []).2, s.Erases → s'.Erases → s'.timeout ≤ s.timeout

/-- The erase groups have a size, and the time of the range fits 32 bits.  An odd SD card time that
is cut to the largest number of 32 bits is no loss either. -/
def Fits (dev : Dev) (flgs nlba : ℕ) : Prop :=
  match dev.dtype with
  | .mmc => ¬ (dev.erase_grp_def ≠ 0 ∧ dev.hc_erase_group_size = 0) ∧ due dev flgs nlba < 2 ^ 32
  | .sd => due dev flgs nlba + offset dev < 2 ^ 32 ∨
      (due dev flgs nlba + offset dev) % 2 ^ 32 = 2 ^ 32 - 1

/-- What `Waits` says of the runs, said of the timeout. -/
theorem waits_of_timeout {dev : Dev} {flgs lba nlba t : ℕ}
    (ht : erase_timeout dev flgs nlba = some t)
    (hdue : min (2 ^ 32 - 1) (due dev flgs nlba) ≤ t % 2 ^ 32)
    (hgrows : ∀ m, 1 ≤ m → m ≤ nlba → ∀ t', erase_timeout dev flgs m = some t' →
      t' % 2 ^ 32 ≤ t % 2 ^ 32) : Waits dev flgs lba nlba := by
  have hsent : ∀ r, ∀ s ∈ ((sdio_erase dev flgs lba nlba).run r []).2, s.Erases →
      s.timeout = t % 2 ^ 32 := by
    intro r s hs he
    obtain ⟨t', ht', hs'⟩ := (sdio_erase_sends dev flgs lba nlba r).1 s hs he
    rw [ht] at ht'
    obtain rfl := Option.some.inj ht'
    exact hs'
  constructor
  case divides =>
    intro r hnone
    rw [(sdio_erase_sends dev flgs lba nlba r).2 hnone] at ht
    exact absurd ht (by simp)
  case due =>
    intro r s hs he
    rw [hsent r s hs he]
    exact hdue
  case grows =>
    intro m hm hle r r' s hs s' hs' he he'
    obtain ⟨t', ht', htime⟩ := (sdio_erase_sends dev flgs lba m r').1 s' hs' he'
    rw [hsent r s hs he, htime]
    exact hgrows m hm hle t' ht'

/-- Conversely, the run in which every command is accepted shows the timeout. -/
theorem timeout_of_waits {dev : Dev} {flgs lba nlba : ℕ} (hn : 1 ≤ nlba)
    (h : Waits dev flgs lba nlba) :
    ∃ t, erase_timeout dev flgs nlba = some t ∧
    min (2 ^ 32 - 1) (due dev flgs nlba) ≤ t % 2 ^ 32 := by
  have hreach := sdio_erase_reaches dev flgs lba (Nat.pos_iff_ne_zero.mp hn)
  rcases ht : erase_timeout dev flgs nlba with _ | t
  case none =>
    rw [ht] at hreach
    exact absurd hreach (h.divides _)
  case some =>
    rw [ht] at hreach
    obtain ⟨s, hs, he, htime⟩ := hreach
    have hdue := h.due _ s hs he
    rw [htime] at hdue
    exact ⟨t, rfl, hdue⟩

/-- The erase groups of an MMC device have no size only where the extended CSD has none. -/
theorem grp_size_zero_iff (dev : Dev) :
    mmc_erase_grp_size dev / 512 = 0 ↔ dev.erase_grp_def ≠ 0 ∧ dev.hc_erase_group_size = 0 := by
  unfold mmc_erase_grp_size
  split
  case isTrue h =>
    rw [MMC_ERASE_GRP_512K]
    constructor
    · intro hz
      exact ⟨h, by omega⟩
    · rintro ⟨-, hz⟩
      rw [hz]
  case isFalse h =>
    rw [Nat.mul_div_cancel _ (by decide)]
    constructor
    · intro hz
      exact absurd hz (Nat.mul_pos (Nat.succ_pos _) (Nat.succ_pos _)).ne'
    · exact fun hz => absurd hz.1 h

/-- The timeout of an MMC device is the time due, and not below two seconds. -/
theorem mmc_erase_timeout_eq {dev : Dev} (hi : Initialised dev) (hd : dev.dtype = .mmc)
    {etype nlba : ℕ} (hn : nlba < 2 ^ 32) (hz : mmc_erase_grp_size dev / 512 ≠ 0) :
    mmc_erase_timeout dev etype nlba = some (max (due dev etype nlba) 2000) := by
  obtain ⟨k, hk, hle⟩ := unitTime_even hi hd etype
  have hdiv : nlba / (mmc_erase_grp_size dev / 512) ≤ nlba := Nat.div_le_self _ _
  have hfit : unitTime dev etype * (nlba / (mmc_erase_grp_size dev / 512) + 2) < 2 ^ 64 := by
    calc unitTime dev etype * (nlba / (mmc_erase_grp_size dev / 512) + 2)
        ≤ 2 ^ 25 * (2 ^ 32 + 2) := Nat.mul_le_mul (by omega) (by omega)
      _ < 2 ^ 64 := by decide
  simp only [mmc_erase_timeout, hz, if_false, mmc_tmult_eq hi hd, Nat.mod_eq_of_lt hfit, due,
    units, hd, MMC_ERASE_TIMEOUT_MIN]

theorem due_mono (dev : Dev) (etype : ℕ) {m n : ℕ} (h : m ≤ n) :
    due dev etype m ≤ due dev etype n := by
  refine Nat.mul_le_mul_left _ ?_
  unfold units
  split
  · exact Nat.add_le_add_right (Nat.div_le_div_right h) 2
  · exact h

theorem mmc_waits_iff {dev : Dev} (hi : Initialised dev) (hd : dev.dtype = .mmc) (flgs lba : ℕ)
    {nlba : ℕ}
    (hn : 1 ≤ nlba) (hn' : nlba < 2 ^ 32) : Waits dev flgs lba nlba ↔ Fits dev flgs nlba := by
  simp only [Fits, hd, ← grp_size_zero_iff]
  have htimeout : ∀ m < 2 ^ 32, mmc_erase_grp_size dev / 512 ≠ 0 →
      erase_timeout dev flgs m = some (max (due dev flgs m) 2000) := by
    intro m hm hz
    simp only [erase_timeout, hd]
    exact mmc_erase_timeout_eq hi hd hm hz
  constructor
  · intro h
    obtain ⟨t, ht, hdue⟩ := timeout_of_waits hn h
    have hz : mmc_erase_grp_size dev / 512 ≠ 0 := by
      intro hz
      simp [erase_timeout, hd, mmc_erase_timeout, hz] at ht
    refine ⟨hz, ?_⟩
    rw [htimeout nlba hn' hz] at ht
    obtain rfl := Option.some.inj ht
    obtain ⟨k, hk, -⟩ := unitTime_even hi hd flgs
    -- The time due is even, so it is not cut to the largest number of 32 bits.
    have heven : due dev flgs nlba = 2 * (k * units dev nlba) := by rw [due, hk, Nat.mul_assoc]
    generalize k * units dev nlba = e at heven
    omega
  · rintro ⟨hz, hfit⟩
    refine waits_of_timeout (htimeout nlba hn' hz) ?_ ?_
    · rw [Nat.mod_eq_of_lt (by omega)]
      omega
    · intro m _ hm t' ht'
      have hmono := due_mono dev flgs hm
      rw [htimeout m (by omega) hz] at ht'
      obtain rfl := Option.some.inj ht'
      rw [Nat.mod_eq_of_lt (by omega), Nat.mod_eq_of_lt (by omega)]
      omega

/-- The timeout of an SD card is what 32 bits hold of the time due and the offset. -/
theorem sd_erase_timeout_eq {dev : Dev} (hd : dev.dtype = .sd) (etype nlba : ℕ) :
    sd_erase_timeout dev nlba = (due dev etype nlba + offset dev) % 2 ^ 32 := by
  simp only [sd_erase_timeout, due, unitTime, units, offset, hd, SD_ERASE_TIMEOUT]
  by_cases h : dev.erase_timeout = 0
  case pos => simp [h]
  case neg => simp [h]

theorem sd_waits_iff {dev : Dev} (hi : Initialised dev) (hd : dev.dtype = .sd) (flgs lba : ℕ)
    {nlba : ℕ} (hn : 1 ≤ nlba) : Waits dev flgs lba nlba ↔ Fits dev flgs nlba := by
  have htimeout : ∀ m, erase_timeout dev flgs m =
      some ((due dev flgs m + offset dev) % 2 ^ 32) := by
    intro m
    simp only [erase_timeout, hd, sd_erase_timeout_eq hd flgs]
  have hoffset : offset dev < 2 ^ 32 := by
    unfold offset
    split
    · decide
    · exact hi.offset
  simp only [Fits, hd]
  constructor
  · intro h
    obtain ⟨t, ht, hdue⟩ := timeout_of_waits hn h
    rw [htimeout nlba] at ht
    obtain rfl := Option.some.inj ht
    omega
  · intro hfit
    refine waits_of_timeout (htimeout nlba) ?_ ?_
    · omega
    · intro m _ hm t' ht'
      have hmono := due_mono dev flgs hm
      rw [htimeout m] at ht'
      obtain rfl := Option.some.inj ht'
      omega

/-- **Enough time.**  Of every device that initialisation makes, an erase waits as long as is due
for every answer of the card, exactly where the erase groups have a size and the time fits the 32
bits that the products and the parameter of `_sdio_send_cmd` have. -/
theorem sdio_erase_waits_iff (r : Regs) {dev : Dev} (h : init_device r = some dev) (flgs lba : ℕ)
    {nlba : ℕ}
    (hn : 1 ≤ nlba) (hn' : nlba < 2 ^ 32) : Waits dev flgs lba nlba ↔ Fits dev flgs nlba := by
  have hi := init_device_initialised h
  rcases hd : dev.dtype with _ | _
  case mmc => exact mmc_waits_iff hi hd flgs lba hn hn'
  case sd => exact sd_waits_iff hi hd flgs lba hn

/-- An SD card of 16 GiB that says nothing about the time of an erase. -/
def plainCard : Regs where
  dtype := .sd
  csd := highCapacity 0x7fff (by decide)
  locked := false
  hcs := true
  raw_ecsd := fun _ => 0
  raw_ecsd_lt := fun _ => Nat.two_pow_pos 8
  sds := List.replicate 16 0
  sds_length := rfl
  sds_lt := by decide

def plainDev : Dev where
  dtype := .sd
  caps := { hc := true }
  csd := (sd_parse_csd {} plainCard.csd.words).csd

theorem sdio_erase_waits_plain :
    init_device plainCard = some plainDev ∧ Waits plainDev 0 0 1000 :=
  ⟨rfl, (sdio_erase_waits_iff plainCard rfl 0 0 (by decide) (by decide)).mpr (.inl (by decide))⟩

/-- Half of that card gets 204 ms in place of all that 32 bits can hold. -/
theorem sdio_erase_cut_short :
    ¬ ∀ (r : Regs) (dev : Dev), init_device r = some dev → ∀ flgs lba nlba : ℕ, 1 ≤ nlba →
      nlba < 2 ^ 32 → Waits dev flgs lba nlba := by
  intro h
  have hwaits := h plainCard plainDev rfl 0 0 17179870 (by decide) (by decide)
  obtain ⟨t, ht, hdue⟩ := timeout_of_waits (by decide) hwaits
  obtain rfl := Option.some.inj ht
  exact absurd hdue (by decide)

end Sdmmc.EraseTime
