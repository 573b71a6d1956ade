import RpiBsp.Sdmmc.Definitions
import RpiBsp.Support.Access
import RpiBsp.Support.Memory

/-!
# Sdmmc — Devctl — the buffers of a client

The requests of a client whose data stand in a buffer of any size: general and manufacturer
commands, which can be linked, RPMB frames, registers (`sim_sdmmc.c`) and APDUs (`sim_assd.c`).
What the card and the layers below answer is part of the input, and the places in a buffer are
counted from its start.

* `linked_iff` — the chains, by the requests they reach;
* `devctl_contained_iff` — exactly which requests stay in their buffers.

The chains never look at the size of the buffer, and the other functions look at it once.
-/

namespace Sdmmc.Devctl

open Support Touching

/-! ### What the functions are given -/

/-- The buffer of the client, and the buffers of the functions. -/
inductive Region where
  | buffer
  /-- For a register, or for an APDU. -/
  | data
  | data_sds

/-- `CCB_DEVCTL`: what stands at `cam_devctl_data`, and behind it. -/
structure Ccb where
  cam_devctl_size : ℕ
  size_lt : cam_devctl_size < 2 ^ 63
  mem : ℕ → UInt8

def Ccb.sizes (ccb : Ccb) : Region → ℕ
  | .buffer => ccb.cam_devctl_size
  | .data => 512
  | .data_sds => 64

def SDIO_DFLT_BLKSZ : ℕ := 512

/-! ### Linked commands -/

/-- What becomes of a command: of the calls before it, of the block length, the buffer and the
command itself, and of the block length after it; and the data that are read. -/
structure Command where
  started : Errno
  blklen_set : Errno
  allocated : Bool
  sent : Errno
  restored : Errno
  data : ℕ → UInt8

/-- `sdio_mmc_gen_man`, with `mmc_gen_man_cmd`, for one block: the status, and the memory. -/
def sdio_mmc_gen_man (c : Command) (buf blklen : ℕ) (adtc dir_in : Bool) (mem : ℕ → UInt8) :
    Touching Region (Errno × (ℕ → UInt8)) :=
  if c.started ≠ .eok then pure (c.started, mem)
  else if adtc = false then pure (c.sent, mem)
  else if blklen ≠ SDIO_DFLT_BLKSZ ∧ c.blklen_set ≠ .eok then pure (c.blklen_set, mem)
  else if c.allocated = false then pure (.enomem, mem)
  else do
    if dir_in = false then touch .buffer buf blklen
    if c.sent = .eok ∧ dir_in = true then touch .buffer buf blklen
    pure (if blklen ≠ SDIO_DFLT_BLKSZ then c.restored else c.sent,
      if c.sent = .eok ∧ dir_in = true then
        fun j => if buf ≤ j ∧ j < buf + blklen then c.data (j - buf) else mem j
      else mem)

/-- `SDMMC_GEN_CMD` at a place: `arg`, `flags` and `blklen`. -/
def SIZEOF_GEN_CMD : ℕ := 8

/-- A round of `sdmmc_gencmd_devctl`, for the request at `s.1`. -/
def gencmdStep (cmds : ℕ → Command) (i : ℕ) (s : ℕ × (ℕ → UInt8)) :
    Touching Region (Errno ⊕ ℕ × (ℕ → UInt8)) := do
  let buf := s.1 + SIZEOF_GEN_CMD
  touch .buffer s.1 8
  let r ← sdio_mmc_gen_man (cmds i) buf (load 2 (s.1 + 6) s.2) true
    ((load 2 (s.1 + 4) s.2).testBit 0) s.2
  if r.1 ≠ .eok then pure (.inl r.1)
  else if (load 2 (s.1 + 4) r.2).testBit 15 = false then pure (.inl .eok)
  else pure (.inr (buf + load 2 (s.1 + 6) r.2, r.2))

/-- `sdmmc_gencmd_devctl`: nothing if the loop has not ended. -/
def sdmmc_gencmd_devctl (ready : Bool) (cmds : ℕ → Command) (ccb : Ccb) (fuel : ℕ) :
    Touching Region (Option Errno) :=
  if ready = false then pure (some .eio) else loop (gencmdStep cmds) fuel 0 (0, ccb.mem)

/-- `SDMMC_MAN_CMD` at a place: `flags`, `arg`, `blklen` and `blkcnt`. -/
def SIZEOF_MAN_CMD : ℕ := 12

def MMC_MAN_CMD1 : ℕ := 60
def MMC_MAN_CMD4 : ℕ := 63

/-- A round of `sdmmc_mancmd_devctl`.  `blkcnt` is not looked at. -/
def mancmdStep (cmds : ℕ → Command) (i : ℕ) (s : ℕ × (ℕ → UInt8)) :
    Touching Region (Errno ⊕ ℕ × (ℕ → UInt8)) := do
  touch .buffer s.1 4
  let flags := load 4 s.1 s.2
  let op := flags % 256
  if op < MMC_MAN_CMD1 ∨ MMC_MAN_CMD4 < op then pure (.inl .enotsup)
  else do
    touch .buffer (s.1 + 4) 6
    let r ← sdio_mmc_gen_man (cmds i) (s.1 + SIZEOF_MAN_CMD) (load 2 (s.1 + 8) s.2)
      (flags.testBit 16) (!flags.testBit 17) s.2
    if r.1 ≠ .eok then pure (.inl r.1)
    else if (load 4 s.1 r.2).testBit 31 = false then pure (.inl .eok)
    else pure (.inr (s.1 + SIZEOF_MAN_CMD + load 2 (s.1 + 8) r.2, r.2))

/-- `sdmmc_mancmd_devctl`. -/
def sdmmc_mancmd_devctl (ready : Bool) (cmds : ℕ → Command) (ccb : Ccb) (fuel : ℕ) :
    Touching Region (Option Errno) :=
  if ready = false then pure (some .eio) else loop (mancmdStep cmds) fuel 0 (0, ccb.mem)

/-! ### RPMB frames -/

def RPMB_FRAME_SIZE : ℕ := 512

/-- `RPMB_CMDHDR` of the system, and its flags: where the fields are, and how wide. -/
structure RpmbLayout where
  size : ℕ
  flags : ℕ
  flags_w : ℕ
  nframes : ℕ
  nframes_w : ℕ
  RPMB_FLG_READ : ℕ
  RPMB_FLG_RL_WRITE : ℕ
  size_lt : size < RPMB_FRAME_SIZE
  flags_le : flags + flags_w ≤ size
  nframes_le : nframes + nframes_w ≤ size
  nframes_pos : 0 < nframes_w

/-- A transfer of frames: the calls before it, with the buffer, and the transfer. -/
structure Frames where
  started : Errno
  sent : Errno

/-- `sdio_mmc_rpmb_rw`, with `mmc_rpmb_rw`. -/
def sdio_mmc_rpmb_rw (f : Frames) (pf nf : ℕ) (dir_in : Bool) : Touching Region Errno :=
  if f.started ≠ .eok then pure f.started
  else do
    if dir_in = false then touch .buffer pf (nf * RPMB_FRAME_SIZE % 2 ^ 32)
    if f.sent = .eok ∧ dir_in = true then touch .buffer pf (nf * RPMB_FRAME_SIZE % 2 ^ 32)
    pure f.sent

/-- What the device is, and what becomes of the calls. -/
structure Rpmb where
  mmc : Bool
  /-- The partition of the request is the RPMB partition. -/
  rpmb : Bool
  write_protect : Bool
  maxio : ℕ
  ready : Bool
  set_partition : Errno
  write : Frames
  request : Frames
  read : Frames

/-- A 32-bit integer as a `size_t`. -/
def sizeOfInt (x : ℕ) : ℕ :=
  if x % 2 ^ 32 < 2 ^ 31 then x % 2 ^ 32 else 2 ^ 64 - 2 ^ 32 + x % 2 ^ 32

/-- `sdmmc_rpmb_info`: what it returns. -/
def sdmmc_rpmb_info (e : Rpmb) (ccb : Ccb) (minsz : ℕ) : Errno :=
  if e.mmc = false then .enotsup
  else if e.rpmb = false then .enotsup
  else if ccb.cam_devctl_size < sizeOfInt minsz then .einval
  else .eok

/-- The end of `sdmmc_rpmb_devctl`: the frames are written, the result is asked for, and frames are
read. -/
def rpmbFrames (h : RpmbLayout) (e : Rpmb) (flags nframes : ℕ) : Touching Region Errno := do
  let s ← if flags ≠ h.RPMB_FLG_READ then sdio_mmc_rpmb_rw e.write h.size nframes false
    else pure .eok
  if s ≠ .eok then pure s
  else do
    if flags ≠ h.RPMB_FLG_READ then do
      touch .buffer h.size RPMB_FRAME_SIZE
      touch .buffer (h.size + 510) 2
    touch .buffer (h.size + 506) 2
    let s ← sdio_mmc_rpmb_rw e.request h.size 1 false
    if s ≠ .eok then pure s
    else sdio_mmc_rpmb_rw e.read h.size (if flags = h.RPMB_FLG_READ then nframes else 1) true

/-- `sdmmc_rpmb_devctl`. -/
def sdmmc_rpmb_devctl (h : RpmbLayout) (e : Rpmb) (ccb : Ccb) : Touching Region Errno := do
  touch .buffer h.nframes h.nframes_w
  let nframes := load h.nframes_w h.nframes ccb.mem
  let info := sdmmc_rpmb_info e ccb (h.size + nframes * RPMB_FRAME_SIZE % 2 ^ 32)
  if info ≠ .eok then pure info
  else do
    touch .buffer h.flags h.flags_w
    let flags := load h.flags_w h.flags ccb.mem
    if flags = h.RPMB_FLG_RL_WRITE ∧ e.write_protect = true then pure .eacces
    else if flags = h.RPMB_FLG_RL_WRITE ∧ e.maxio < nframes then pure .einval
    else if e.ready = false then pure .eio
    else if e.set_partition ≠ .eok then pure e.set_partition
    else rpmbFrames h e flags nframes

/-! ### Registers -/

def DEV_TYPE_MMC : ℕ := 1
def DEV_TYPE_SD : ℕ := 2

def SDMMC_CR_ACTION_READ : ℕ := 0
def SDMMC_CR_ACTION_WRITE : ℕ := 1

def SDMMC_REG_TYPE_CID : ℕ := 0
def SDMMC_REG_TYPE_CSD : ℕ := 1
def SDMMC_REG_TYPE_EXT_CSD : ℕ := 2
def SDMMC_REG_TYPE_SCR : ℕ := 3
def SDMMC_REG_TYPE_SDS : ℕ := 4

def MMC_CID_SIZE : ℕ := 16
def MMC_CSD_SIZE : ℕ := 16
def SD_SCR_SIZE : ℕ := 8

def ECSD_REV : ℕ := 192

/-- `SDMMC_CARD_REGISTER`: `action`, `type`, `address` and more. -/
def SIZEOF_CARD_REGISTER : ℕ := 24

structure Register where
  ready : Bool
  dtype : ℕ
  send_ext_csd : Errno
  app_read_status : Errno
  switch : Errno

/-- `cam_devctl_size - sizeof( SDMMC_CARD_REGISTER )`, before it is taken for an `int`. -/
def Ccb.len (ccb : Ccb) : ℕ := (ccb.cam_devctl_size + (2 ^ 64 - SIZEOF_CARD_REGISTER)) % 2 ^ 64

/-- `min( len, n )` for integers, as the `size_t` that `memcpy` takes: less than nothing is very
much. -/
def Ccb.minInt (ccb : Ccb) (n : ℕ) : ℕ :=
  if ccb.len % 2 ^ 32 < 2 ^ 31 then min (ccb.len % 2 ^ 32) n else sizeOfInt ccb.len

/-- `min( len, sizeof )`, which compares two of `size_t`. -/
def Ccb.minSize (ccb : Ccb) (n : ℕ) : ℕ := min (sizeOfInt ccb.len) n

/-- The reading of a register into the buffer. -/
def readRegister (e : Register) (ccb : Ccb) (type : ℕ) : Touching Region Errno :=
  if type = SDMMC_REG_TYPE_CID then do
    touch .buffer SIZEOF_CARD_REGISTER (ccb.minInt MMC_CID_SIZE)
    pure .eok
  else if type = SDMMC_REG_TYPE_CSD then do
    touch .buffer SIZEOF_CARD_REGISTER (ccb.minInt MMC_CSD_SIZE)
    pure .eok
  else if type = SDMMC_REG_TYPE_EXT_CSD then
    if e.dtype ≠ DEV_TYPE_MMC then pure .enotsup
    else if e.send_ext_csd = .eok then do
      touch .data 0 512
      touch .data 0 (ccb.minSize 512)
      touch .buffer SIZEOF_CARD_REGISTER (ccb.minSize 512)
      pure .eok
    else pure (if e.send_ext_csd = .etimedout then .etimedout else .eio)
  else if type = SDMMC_REG_TYPE_SCR then
    if e.dtype ≠ DEV_TYPE_SD then pure .enotsup
    else do
      touch .buffer SIZEOF_CARD_REGISTER (ccb.minInt SD_SCR_SIZE)
      pure .eok
  else if type = SDMMC_REG_TYPE_SDS then
    if e.dtype ≠ DEV_TYPE_SD then pure .enotsup
    else do
      touch .data_sds 0 64
      if e.app_read_status = .eok then do
        touch .data_sds 0 (ccb.minSize 64)
        touch .buffer SIZEOF_CARD_REGISTER (ccb.minSize 64)
      pure (if e.app_read_status = .eok then .eok else .eio)
  else pure .einval

/-- `sdmmc_card_register_devctl`. -/
def sdmmc_card_register_devctl (e : Register) (ccb : Ccb) : Touching Region Errno :=
  if e.ready = false then pure .eio
  else do
    touch .buffer 0 4
    if load 4 0 ccb.mem = SDMMC_CR_ACTION_READ then do
      touch .buffer 4 4
      let s ← readRegister e ccb (load 4 4 ccb.mem)
      touch .buffer 4 4
      pure s
    else if load 4 0 ccb.mem = SDMMC_CR_ACTION_WRITE then do
      touch .buffer 4 4
      if load 4 4 ccb.mem = SDMMC_REG_TYPE_EXT_CSD ∧ e.dtype = DEV_TYPE_MMC then do
        touch .buffer 8 4
        if ECSD_REV ≤ load 4 8 ccb.mem then pure .einval
        else do
          touch .buffer SIZEOF_CARD_REGISTER 1
          pure (if e.switch = .eok then .eok else .eio)
      else pure .enotsup
    else pure .enotsup

/-! ### APDUs -/

def ASSD_APDU_STL_SIZE : ℕ := 2
def ASSD_APDU_MIN_DLEN : ℕ := 4
def ASSD_APDU_MAX_DLEN : ℕ := 512

/-- `SDMMC_ASSD_APDU`: `length` and more. -/
def SIZEOF_ASSD_APDU : ℕ := 32

structure Apdu where
  ready : Bool
  state : Errno
  allocated : Bool
  write_sec_cmd : Errno
  wait_card_status : Errno
  wait_scc : Errno
  read_sec_cmd : Errno
  /-- The response of the card. -/
  response : ℕ → UInt8

/-- The end of `sdmmc_assd_apdu_devctl`: the response is copied. -/
def apduResponse (e : Apdu) : Touching Region Errno := do
  touch .buffer 0 4
  touch .data 0 2
  let len := (e.response 0).toNat * 2 ^ 8 + (e.response 1).toNat
  if ASSD_APDU_STL_SIZE < len then do
    let length := min (len - ASSD_APDU_STL_SIZE) ASSD_APDU_MAX_DLEN
    touch .buffer 0 4
    touch .data ASSD_APDU_STL_SIZE length
    touch .buffer SIZEOF_ASSD_APDU length
  pure .eok

/-- `sdmmc_assd_apdu_devctl`. -/
def sdmmc_assd_apdu_devctl (e : Apdu) (ccb : Ccb) : Touching Region Errno := do
  touch .buffer 0 4
  let len := (load 4 0 ccb.mem + ASSD_APDU_STL_SIZE) % 2 ^ 32
  if e.ready = false then pure .eio
  else if e.state ≠ .eok then pure e.state
  else if len + SIZEOF_ASSD_APDU < ccb.cam_devctl_size ∧ len < ASSD_APDU_MAX_DLEN ∧
    ASSD_APDU_MIN_DLEN < len then
    if e.allocated = false then pure .enomem
    else do
      touch .data 0 2
      touch .data ASSD_APDU_STL_SIZE (len - ASSD_APDU_STL_SIZE)
      touch .buffer SIZEOF_ASSD_APDU (len - ASSD_APDU_STL_SIZE)
      touch .data len (ASSD_APDU_MAX_DLEN - len)
      touch .data 0 ASSD_APDU_MAX_DLEN
      if e.write_sec_cmd ≠ .eok then pure e.write_sec_cmd
      else if e.wait_card_status ≠ .eok then pure e.wait_card_status
      else if e.wait_scc ≠ .eok then pure e.wait_scc
      else do
        touch .data 0 ASSD_APDU_MAX_DLEN
        if e.read_sec_cmd ≠ .eok then pure e.read_sec_cmd else apduResponse e
  else pure .einval

/-! ### A request -/

/-- A request, with what the card and the layers below answer. -/
inductive Request where
  | gencmd (ready : Bool) (cmds : ℕ → Command)
  | mancmd (ready : Bool) (cmds : ℕ → Command)
  | rpmb (h : RpmbLayout) (e : Rpmb)
  | card_register (e : Register)
  | assd_apdu (e : Apdu)

/-- What is done for a request, in at most `fuel` rounds of a loop. -/
def Request.run (ccb : Ccb) (fuel : ℕ) : Request → Touching Region (Option Errno)
  | .gencmd ready cmds => sdmmc_gencmd_devctl ready cmds ccb fuel
  | .mancmd ready cmds => sdmmc_mancmd_devctl ready cmds ccb fuel
  | .rpmb h e => do return some (← sdmmc_rpmb_devctl h e ccb)
  | .card_register e => do return some (← sdmmc_card_register_devctl e ccb)
  | .assd_apdu e => do return some (← sdmmc_assd_apdu_devctl e ccb)

/-- The request stays in its buffers, and ends. -/
@[mk_iff] structure Request.Contained (d : Request) (ccb : Ccb) : Prop where
  safe : ∀ fuel, Safe ccb.sizes (d.run ccb fuel)
  ends : ∃ fuel, (d.run ccb fuel).result.isSome = true

/-! ### A command -/

/-- The status of a command. -/
def Command.status (c : Command) (blklen : ℕ) (adtc : Bool) : Errno :=
  if c.started ≠ .eok then c.started
  else if adtc = false then c.sent
  else if blklen ≠ SDIO_DFLT_BLKSZ ∧ c.blklen_set ≠ .eok then c.blklen_set
  else if c.allocated = false then .enomem
  else if blklen ≠ SDIO_DFLT_BLKSZ then c.restored
  else c.sent

/-- The data of a command are moved. -/
structure Command.Moves (c : Command) (blklen : ℕ) (adtc dir_in : Bool) : Prop where
  adtc : adtc = true
  started : c.started = .eok
  blklen_set : blklen = SDIO_DFLT_BLKSZ ∨ c.blklen_set = .eok
  allocated : c.allocated = true
  sent : dir_in = true → c.sent = .eok

variable {ccb : Ccb}

section Command

variable (c : Command) (buf blklen : ℕ) (adtc dir_in : Bool) (mem : ℕ → UInt8)

theorem gen_man_status :
    (sdio_mmc_gen_man c buf blklen adtc dir_in mem).result.1 = c.status blklen adtc := by
  unfold sdio_mmc_gen_man Command.status
  simp only [result_ite, result_bind, result_pure]
  split_ifs <;> rfl

/-- Only the data of a command that reads are written. -/
theorem gen_man_mem {j : ℕ} (hj : j < buf ∨ buf + blklen ≤ j) :
    (sdio_mmc_gen_man c buf blklen adtc dir_in mem).result.2 j = mem j := by
  have hout : ¬ (buf ≤ j ∧ j < buf + blklen) := by omega
  unfold sdio_mmc_gen_man
  simp only [result_ite, result_bind, result_pure]
  split_ifs <;> first | rfl | exact if_neg hout

theorem gen_man_safe : Safe ccb.sizes (sdio_mmc_gen_man c buf blklen adtc dir_in mem) ↔
    (c.Moves blklen adtc dir_in → blklen ≠ 0 → buf + blklen ≤ ccb.cam_devctl_size) := by
  have hmoves : c.Moves blklen adtc dir_in ↔ ¬ c.started ≠ .eok ∧ ¬ adtc = false ∧
      ¬ (blklen ≠ SDIO_DFLT_BLKSZ ∧ c.blklen_set ≠ .eok) ∧ ¬ c.allocated = false ∧
      (dir_in = true → c.sent = .eok) := by
    rw [not_not, Bool.not_eq_false, Bool.not_eq_false, not_and_or, not_not, not_not]
    exact ⟨fun h => ⟨h.started, h.adtc, h.blklen_set, h.allocated, h.sent⟩, fun h =>
      ⟨h.2.1, h.1, h.2.2.1, h.2.2.2.1, h.2.2.2.2⟩⟩
  unfold sdio_mmc_gen_man
  rw [hmoves]
  simp only [safe_ite_iff, safe_bind_iff, safe_touch_iff, safe_pure, and_true, implies_true,
    true_and, Ccb.sizes, and_imp]
  cases dir_in with
  | false => simp only [true_imp_iff, Bool.false_eq_true, false_imp_iff, implies_true, and_true]
  | true => simp only [true_imp_iff, reduceCtorEq, false_imp_iff, true_and, not_false_eq_true]

end Command

/-! ### Chains -/

/-- The places of the requests that a chain reaches, if `next` says where the request after one
is. -/
def linkAt (next : ℕ → ℕ → Option ℕ) : ℕ → Option ℕ
  | 0 => some 0
  | i + 1 => (linkAt next i).bind (next i)

/-- A round that accesses what `fits` says, and goes on to what `next` says: at a place behind which
nothing was written. -/
structure Linked (ccb : Ccb)
    (step : ℕ → ℕ × (ℕ → UInt8) → Touching Region (Errno ⊕ ℕ × (ℕ → UInt8)))
    (next : ℕ → ℕ → Option ℕ) (fits : ℕ → ℕ → Prop) : Prop where
  safe : ∀ i r mem, (∀ j, r ≤ j → mem j = ccb.mem j) → (Safe ccb.sizes (step i (r, mem)) ↔ fits i r)
  next : ∀ i r mem, (∀ j, r ≤ j → mem j = ccb.mem j) →
    (step i (r, mem)).result.getRight?.map Prod.fst = next i r
  kept : ∀ i r mem, (∀ j, r ≤ j → mem j = ccb.mem j) →
    ∀ s, (step i (r, mem)).result.getRight? = some s →
    r < s.1 ∧ ∀ j, s.1 ≤ j → s.2 j = ccb.mem j
  inside : ∀ i r, fits i r → r < ccb.cam_devctl_size

variable {step : ℕ → ℕ × (ℕ → UInt8) → Touching Region (Errno ⊕ ℕ × (ℕ → UInt8))}
    {next : ℕ → ℕ → Option ℕ}
  {fits : ℕ → ℕ → Prop}

/-- The rounds of the loop are the requests of the chain. -/
theorem Linked.stateAt (h : Linked ccb step next fits) (i : ℕ) :
    (stateAt step 0 (0, ccb.mem) i).map Prod.fst = linkAt next i ∧
      ∀ s, stateAt step 0 (0, ccb.mem) i = some s → i ≤ s.1 ∧ ∀ j, s.1 ≤ j → s.2 j = ccb.mem j := by
  induction i with
  | zero => exact ⟨rfl, fun s hs => Option.some.inj hs ▸ ⟨Nat.le_refl 0, fun _ _ => rfl⟩⟩
  | succ i ih =>
      obtain ⟨hlink, hkept⟩ := ih
      rw [Touching.stateAt, linkAt, ← hlink, Nat.zero_add]
      cases hs : Touching.stateAt step 0 (0, ccb.mem) i with
      | none => exact ⟨rfl, fun s hs' => absurd hs' (Option.some_ne_none s).symm⟩
      | some s =>
          obtain ⟨hle, hmem⟩ := hkept s hs
          refine ⟨h.next i s.1 s.2 hmem, fun t ht => ?_⟩
          obtain ⟨hlt, hmem'⟩ := h.kept i s.1 s.2 hmem t ht
          exact ⟨hle.trans_lt hlt, hmem'⟩

/-- **A chain stays in its buffer, and ends, if every request it reaches does.** -/
theorem linked_iff (h : Linked ccb step next fits) :
    ((∀ fuel, Safe ccb.sizes (loop step fuel 0 (0, ccb.mem))) ∧
      ∃ fuel, (loop step fuel 0 (0, ccb.mem)).result.isSome = true) ↔
      ∀ i r, linkAt next i = some r → fits i r := by
  rw [loop_safe_iff, loop_ends_iff]
  constructor
  · rintro ⟨hsafe, -⟩ i r hr
    obtain ⟨hlink, hkept⟩ := h.stateAt i
    rw [hr, Option.map_eq_some_iff] at hlink
    obtain ⟨s, hs, rfl⟩ := hlink
    exact (h.safe i s.1 s.2 (hkept s hs).2).mp (hsafe i s hs)
  · intro hfits
    have hround : ∀ i s, stateAt step 0 (0, ccb.mem) i = some s →
        fits i s.1 ∧ i ≤ s.1 ∧ ∀ j, s.1 ≤ j → s.2 j = ccb.mem j := by
      intro i s hs
      obtain ⟨hlink, hkept⟩ := h.stateAt i
      rw [hs] at hlink
      exact ⟨hfits i s.1 hlink.symm, hkept s hs⟩
    refine ⟨fun i s hs => ?_, ccb.cam_devctl_size, ?_⟩
    · obtain ⟨hfit, -, hmem⟩ := hround i s hs
      exact (h.safe i s.1 s.2 hmem).mpr hfit
    · -- every round is further on, and in the buffer
      rw [Option.eq_none_iff_forall_ne_some]
      intro s hs
      obtain ⟨hfit, hle, -⟩ := hround _ s hs
      exact absurd (h.inside _ _ hfit) (Nat.not_lt.mpr hle)

/-! ### General commands -/

/-- `blklen` and `flags` of the request at a place. -/
def Ccb.genBlklen (ccb : Ccb) (r : ℕ) : ℕ := load 2 (r + 6) ccb.mem
def Ccb.genFlags (ccb : Ccb) (r : ℕ) : ℕ := load 2 (r + 4) ccb.mem

/-- The request behind the one at `r`, if there is one. -/
def genNext (ccb : Ccb) (cmds : ℕ → Command) (i r : ℕ) : Option ℕ :=
  if (cmds i).status (ccb.genBlklen r) true = .eok ∧ (ccb.genFlags r).testBit 15 = true then
    some (r + SIZEOF_GEN_CMD + ccb.genBlklen r)
  else none

/-- The request at `r`, with the data that are moved for it, is in the buffer. -/
structure GenFits (ccb : Ccb) (cmds : ℕ → Command) (i r : ℕ) : Prop where
  header : r + 8 ≤ ccb.cam_devctl_size
  data : (cmds i).Moves (ccb.genBlklen r) true ((ccb.genFlags r).testBit 0) → ccb.genBlklen r ≠ 0 →
    r + SIZEOF_GEN_CMD + ccb.genBlklen r ≤ ccb.cam_devctl_size

/-- What is read where nothing was written. -/
theorem load_kept {w r d : ℕ} {mem mem' : ℕ → UInt8} (h : ∀ j, r ≤ j → mem j = mem' j) :
    load w (r + d) mem = load w (r + d) mem' :=
  load_eq fun j _ => h _ (by omega)

/-- The memory after the command of a request. -/
def genMem (ccb : Ccb) (cmds : ℕ → Command) (i r : ℕ) (mem : ℕ → UInt8) : ℕ → UInt8 :=
  (sdio_mmc_gen_man (cmds i) (r + SIZEOF_GEN_CMD) (ccb.genBlklen r) true
    ((ccb.genFlags r).testBit 0) mem).result.2

theorem gencmdStep_result (cmds : ℕ → Command) (i : ℕ) {r : ℕ} {mem : ℕ → UInt8}
    (hmem : ∀ j, r ≤ j → mem j = ccb.mem j) :
    (gencmdStep cmds i (r, mem)).result.getRight? = (genNext ccb cmds i r).map fun q =>
      (q, genMem ccb cmds i r mem) := by
  have hlen : load 2 (r + 6) mem = ccb.genBlklen r := load_kept hmem
  have hflags : load 2 (r + 4) mem = ccb.genFlags r := load_kept hmem
  -- the header is not written
  have hafter : ∀ d, d + 2 ≤ SIZEOF_GEN_CMD →
      load 2 (r + d) (genMem ccb cmds i r mem) = load 2 (r + d) mem :=
    fun d hd => load_eq fun j hj => gen_man_mem _ _ _ _ _ _ (by omega)
  have hlen' := (hafter 6 (by decide)).trans hlen
  have hflags' := (hafter 4 (by decide)).trans hflags
  unfold genMem at hlen' hflags'
  unfold gencmdStep
  simp only [result_bind, result_ite, result_pure, hlen, hflags, hlen', hflags', gen_man_status,
    genMem, genNext]
  by_cases hst : (cmds i).status (ccb.genBlklen r) true = .eok
  · cases hbit : (ccb.genFlags r).testBit 15 with
    | false => simp [hst]
    | true => simp [hst]
  · simp [hst]

theorem gencmd_linked (cmds : ℕ → Command) :
    Linked ccb (gencmdStep cmds) (genNext ccb cmds) (GenFits ccb cmds) where
  safe i r mem hmem := by
    have hlen : load 2 (r + 6) mem = ccb.genBlklen r := load_kept hmem
    have hflags : load 2 (r + 4) mem = ccb.genFlags r := load_kept hmem
    unfold gencmdStep
    simp only [safe_bind_iff, safe_touch_iff, safe_ite_iff, safe_pure, implies_true, and_true, hlen,
      hflags, gen_man_safe]
    exact ⟨fun h => ⟨h.1 (by decide), h.2⟩, fun h => ⟨fun _ => h.header, h.data⟩⟩
  next i r mem hmem := by
    rw [gencmdStep_result cmds i hmem]
    cases genNext ccb cmds i r <;> rfl
  kept i r mem hmem s hs := by
    rw [gencmdStep_result cmds i hmem, Option.map_eq_some_iff] at hs
    obtain ⟨q, hq, rfl⟩ := hs
    obtain ⟨-, hq⟩ := Option.ite_none_right_eq_some.mp hq
    cases hq
    refine ⟨by rw [SIZEOF_GEN_CMD]; omega, fun j hj => ?_⟩
    exact (gen_man_mem _ _ _ _ _ _ (.inr hj)).trans (hmem j (by dsimp only at hj; omega))
  inside i r h := (Nat.lt_add_of_pos_right (by decide)).trans_le h.header

/-! ### Manufacturer commands -/

def Ccb.manFlags (ccb : Ccb) (r : ℕ) : ℕ := load 4 r ccb.mem
def Ccb.manBlklen (ccb : Ccb) (r : ℕ) : ℕ := load 2 (r + 8) ccb.mem

/-- The opcode of a request is one of the four. -/
def Ccb.ManOp (ccb : Ccb) (r : ℕ) : Prop :=
  ¬ (ccb.manFlags r % 256 < MMC_MAN_CMD1 ∨ MMC_MAN_CMD4 < ccb.manFlags r % 256)

instance (ccb : Ccb) (r : ℕ) : Decidable (ccb.ManOp r) := inferInstanceAs (Decidable (¬ _))

/-- The request behind the one at `r`, if there is one. -/
def manNext (ccb : Ccb) (cmds : ℕ → Command) (i r : ℕ) : Option ℕ :=
  if ccb.ManOp r ∧ (cmds i).status (ccb.manBlklen r) ((ccb.manFlags r).testBit 16) = .eok ∧
      (ccb.manFlags r).testBit 31 = true then
    some (r + SIZEOF_MAN_CMD + ccb.manBlklen r)
  else none

/-- The request at `r`, with the data that are moved for it, is in the buffer: as far as it is
looked at. -/
structure ManFits (ccb : Ccb) (cmds : ℕ → Command) (i r : ℕ) : Prop where
  flags : r + 4 ≤ ccb.cam_devctl_size
  header : ccb.ManOp r → r + 10 ≤ ccb.cam_devctl_size
  data : ccb.ManOp r →
    (cmds i).Moves (ccb.manBlklen r) ((ccb.manFlags r).testBit 16) (!(ccb.manFlags r).testBit 17) →
    ccb.manBlklen r ≠ 0 → r + SIZEOF_MAN_CMD + ccb.manBlklen r ≤ ccb.cam_devctl_size

/-- The memory after the command of a request. -/
def manMem (ccb : Ccb) (cmds : ℕ → Command) (i r : ℕ) (mem : ℕ → UInt8) : ℕ → UInt8 :=
  (sdio_mmc_gen_man (cmds i) (r + SIZEOF_MAN_CMD) (ccb.manBlklen r) ((ccb.manFlags r).testBit 16)
    (!(ccb.manFlags r).testBit 17) mem).result.2

theorem mancmdStep_result (cmds : ℕ → Command) (i : ℕ) {r : ℕ} {mem : ℕ → UInt8}
    (hmem : ∀ j, r ≤ j → mem j = ccb.mem j) :
    (mancmdStep cmds i (r, mem)).result.getRight? = (manNext ccb cmds i r).map fun q =>
      (q, manMem ccb cmds i r mem) := by
  have hlen : load 2 (r + 8) mem = ccb.manBlklen r := load_kept hmem
  have hflags : load 4 r mem = ccb.manFlags r := @load_kept 4 r 0 _ _ hmem
  have hlen' : load 2 (r + 8) (manMem ccb cmds i r mem) = ccb.manBlklen r := by
    rw [← hlen]
    exact load_eq fun j hj => gen_man_mem _ _ _ _ _ _ (by rw [SIZEOF_MAN_CMD]; omega)
  have hflags' : load 4 r (manMem ccb cmds i r mem) = ccb.manFlags r := by
    rw [← hflags]
    exact load_eq fun j hj => gen_man_mem _ _ _ _ _ _ (by rw [SIZEOF_MAN_CMD]; omega)
  unfold manMem at hlen' hflags'
  unfold mancmdStep
  simp only [result_bind, result_ite, result_pure, hlen, hflags, hlen', hflags', gen_man_status,
    manMem, manNext]
  by_cases hop : ccb.ManOp r
  · rw [if_neg hop]
    by_cases hst : (cmds i).status (ccb.manBlklen r) ((ccb.manFlags r).testBit 16) = .eok
    · cases hbit : (ccb.manFlags r).testBit 31 with
      | false => simp [hst]
      | true => simp [hst, hop]
    · simp [hst]
  · rw [if_pos (not_not.mp hop), if_neg fun h => hop h.1]
    rfl

theorem mancmd_linked (cmds : ℕ → Command) :
    Linked ccb (mancmdStep cmds) (manNext ccb cmds) (ManFits ccb cmds) where
  safe i r mem hmem := by
    have hlen : load 2 (r + 8) mem = ccb.manBlklen r := load_kept hmem
    have hflags : load 4 r mem = ccb.manFlags r := @load_kept 4 r 0 _ _ hmem
    unfold mancmdStep
    simp only [safe_bind_iff, safe_touch_iff, safe_ite_iff, safe_pure, implies_true, and_true, hlen,
      hflags, gen_man_safe]
    constructor
    · rintro ⟨hfirst, hrest⟩
      exact ⟨hfirst (by decide), fun hop => ((hrest.2 hop).1 (by decide)), fun hop =>
        (hrest.2 hop).2⟩
    · rintro ⟨hfirst, hheader, hdata⟩
      exact ⟨fun _ => hfirst, trivial, fun hop => ⟨fun _ => hheader hop, hdata hop⟩⟩
  next i r mem hmem := by
    rw [mancmdStep_result cmds i hmem]
    cases manNext ccb cmds i r <;> rfl
  kept i r mem hmem s hs := by
    rw [mancmdStep_result cmds i hmem, Option.map_eq_some_iff] at hs
    obtain ⟨q, hq, rfl⟩ := hs
    obtain ⟨-, hq⟩ := Option.ite_none_right_eq_some.mp hq
    cases hq
    refine ⟨by rw [SIZEOF_MAN_CMD]; omega, fun j hj => ?_⟩
    exact (gen_man_mem _ _ _ _ _ _ (.inr hj)).trans (hmem j (by dsimp only at hj; omega))
  inside i r h := (Nat.lt_add_of_pos_right (by decide)).trans_le h.flags

/-! ### Frames, registers and APDUs -/

theorem sizeOfInt_of_lt {x n : ℕ} (hn : n < 2 ^ 63) (h : ¬ n < sizeOfInt x) :
    x % 2 ^ 32 < 2 ^ 31 ∧ x % 2 ^ 32 ≤ n := by
  unfold sizeOfInt at h
  split at h
  · exact ⟨‹_›, Nat.not_lt.mp h⟩
  · omega

/-- A transfer succeeds. -/
def Frames.Done (f : Frames) : Prop := f.started = .eok ∧ f.sent = .eok

/-- The request is let through to the frames. -/
structure RpmbGranted (h : RpmbLayout) (e : Rpmb) (ccb : Ccb) : Prop where
  info : sdmmc_rpmb_info e ccb
    (h.size + load h.nframes_w h.nframes ccb.mem * RPMB_FRAME_SIZE % 2 ^ 32) = .eok
  writable : load h.flags_w h.flags ccb.mem = h.RPMB_FLG_RL_WRITE →
    e.write_protect = false ∧ load h.nframes_w h.nframes ccb.mem ≤ e.maxio
  ready : e.ready = true
  set_partition : e.set_partition = .eok
  /-- What is to be written was written. -/
  written : load h.flags_w h.flags ccb.mem ≠ h.RPMB_FLG_READ → e.write.Done

/-- The number of frames is in the buffer, and so is one frame even if the number comes to no
bytes. -/
structure RpmbFits (h : RpmbLayout) (e : Rpmb) (ccb : Ccb) : Prop where
  header : h.nframes + h.nframes_w ≤ ccb.cam_devctl_size
  frame : RpmbGranted h e ccb → load h.nframes_w h.nframes ccb.mem * RPMB_FRAME_SIZE % 2 ^ 32 = 0 →
    h.size + 508 ≤ ccb.cam_devctl_size ∧
      (load h.flags_w h.flags ccb.mem ≠ h.RPMB_FLG_READ ∨ e.request.started = .eok →
        h.size + RPMB_FRAME_SIZE ≤ ccb.cam_devctl_size)

theorem rpmb_rw_safe (f : Frames) (pf nf : ℕ) (dir_in : Bool) :
    Safe ccb.sizes (sdio_mmc_rpmb_rw f pf nf dir_in) ↔
    (f.started = .eok → (dir_in = true → f.sent = .eok) → nf * RPMB_FRAME_SIZE % 2 ^ 32 ≠ 0 →
      pf + nf * RPMB_FRAME_SIZE % 2 ^ 32 ≤ ccb.cam_devctl_size) := by
  unfold sdio_mmc_rpmb_rw
  simp only [safe_ite_iff, safe_bind_iff, safe_touch_iff, safe_pure, implies_true, true_and,
    and_true, not_not, Ccb.sizes]
  cases dir_in with
  | false => simp
  | true => simp

theorem rpmb_rw_result (f : Frames) (pf nf : ℕ) (dir_in : Bool) :
    (sdio_mmc_rpmb_rw f pf nf dir_in).result = if f.started ≠ .eok then f.started else f.sent := by
  unfold sdio_mmc_rpmb_rw
  simp only [result_ite, result_bind, result_pure, ite_self]

theorem rpmb_rw_eok (f : Frames) (pf nf : ℕ) (dir_in : Bool) :
    (sdio_mmc_rpmb_rw f pf nf dir_in).result = .eok ↔ f.Done := by
  rw [rpmb_rw_result, Frames.Done]
  split
  case isTrue h => exact ⟨fun hs => absurd hs h, fun hs => absurd hs.1 h⟩
  case isFalse h => exact ⟨fun hs => ⟨not_not.mp h, hs⟩, fun hs => hs.2⟩

theorem rpmbFrames_safe (h : RpmbLayout) (e : Rpmb) (ccb : Ccb) {flags nframes : ℕ}
    (hsize : h.size + nframes * RPMB_FRAME_SIZE % 2 ^ 32 ≤ ccb.cam_devctl_size) :
    Safe ccb.sizes (rpmbFrames h e flags nframes) ↔ ((flags ≠ h.RPMB_FLG_READ → e.write.Done) →
      nframes * RPMB_FRAME_SIZE % 2 ^ 32 = 0 → h.size + 508 ≤ ccb.cam_devctl_size ∧
        (flags ≠ h.RPMB_FLG_READ ∨ e.request.started = .eok →
        h.size + RPMB_FRAME_SIZE ≤ ccb.cam_devctl_size)) := by
  have hframe : nframes * RPMB_FRAME_SIZE % 2 ^ 32 ≠ 0 →
      h.size + RPMB_FRAME_SIZE ≤ ccb.cam_devctl_size := by
    intro hne
    rw [RPMB_FRAME_SIZE] at *
    omega
  have hone : 1 * RPMB_FRAME_SIZE % 2 ^ 32 = RPMB_FRAME_SIZE := by decide
  have hshort : h.size + RPMB_FRAME_SIZE ≤ ccb.cam_devctl_size →
      h.size + 508 ≤ ccb.cam_devctl_size := by
    intro hlong
    exact (Nat.add_le_add_left (by decide) h.size).trans hlong
  have hnever : ∀ p : Prop, false = true → p := fun p hf => absurd hf (by decide)
  unfold rpmbFrames
  by_cases hread : flags = h.RPMB_FLG_READ
  · simp only [hread, ne_eq, not_true_eq_false, if_false, if_true, safe_bind_iff, safe_ite_iff,
      safe_touch_iff, safe_pure,
      rpmb_rw_safe, result_pure, rpmb_rw_eok, not_not, true_and, false_imp_iff, true_imp_iff,
      false_or, hone, Ccb.sizes]
    constructor
    · rintro ⟨hcount, hrequest, -⟩ -
      exact ⟨hcount (by decide), fun hs => hrequest hs (hnever _) (by decide)⟩
    · intro hzero
      -- frames that come to bytes are in the buffer
      by_cases hbytes : nframes * RPMB_FRAME_SIZE % 2 ^ 32 = 0
      · obtain ⟨hcount, hrequest⟩ := hzero hbytes
        exact ⟨fun _ => hcount, fun hs _ _ => hrequest hs, fun _ => trivial, fun _ _ _ _ => hsize⟩
      · exact ⟨fun _ => hshort (hframe hbytes), fun _ _ _ => hframe hbytes, fun _ =>
          trivial, fun _ _ _ _ => hsize⟩
  · simp only [hread, ne_eq, not_false_eq_true, if_true, if_false, safe_bind_iff, safe_ite_iff,
      safe_touch_iff, safe_pure,
      rpmb_rw_safe, rpmb_rw_eok, not_not, true_imp_iff, true_or, hone, Ccb.sizes]
    constructor
    · rintro ⟨-, -, hwritten⟩ hdone -
      exact ⟨hshort ((hwritten hdone).1 (by decide)), (hwritten hdone).1 (by decide)⟩
    · intro hzero
      refine ⟨fun _ _ _ => hsize, fun _ => trivial, fun hdone => ?_⟩
      have hlong : h.size + RPMB_FRAME_SIZE ≤ ccb.cam_devctl_size := by
        by_cases hbytes : nframes * RPMB_FRAME_SIZE % 2 ^ 32 = 0
        · exact (hzero hdone hbytes).2
        · exact hframe hbytes
      exact ⟨fun _ => hlong, fun _ => hlong, fun _ => hshort hlong, fun _ _ _ => hlong, fun _ =>
        trivial, fun _ _ _ _ => hlong⟩

/-- A request that `sdmmc_rpmb_info` lets through has its frames in the buffer. -/
theorem rpmb_info_eok {e : Rpmb} {n nframes : ℕ} (hn : n < RPMB_FRAME_SIZE)
    (h : sdmmc_rpmb_info e ccb (n + nframes * RPMB_FRAME_SIZE % 2 ^ 32) = .eok) :
    n + nframes * RPMB_FRAME_SIZE % 2 ^ 32 ≤ ccb.cam_devctl_size := by
  have hsize : ¬ ccb.cam_devctl_size < sizeOfInt (n + nframes * RPMB_FRAME_SIZE % 2 ^ 32) := by
    intro hlt
    unfold sdmmc_rpmb_info at h
    rw [if_pos hlt] at h
    split_ifs at h
  have hle := (sizeOfInt_of_lt ccb.size_lt hsize).2
  rw [RPMB_FRAME_SIZE] at *
  omega

theorem rpmb_safe (h : RpmbLayout) (e : Rpmb) (ccb : Ccb) :
    Safe ccb.sizes (sdmmc_rpmb_devctl h e ccb) ↔ RpmbFits h e ccb := by
  have hpos : h.nframes_w ≠ 0 := h.nframes_pos.ne'
  have hgranted : RpmbGranted h e ccb ↔
      sdmmc_rpmb_info e ccb
        (h.size + load h.nframes_w h.nframes ccb.mem * RPMB_FRAME_SIZE % 2 ^ 32) = .eok ∧
      ¬ (load h.flags_w h.flags ccb.mem = h.RPMB_FLG_RL_WRITE ∧ e.write_protect = true) ∧
      ¬ (load h.flags_w h.flags ccb.mem = h.RPMB_FLG_RL_WRITE ∧
      e.maxio < load h.nframes_w h.nframes ccb.mem) ∧
      ¬ e.ready = false ∧ ¬ e.set_partition ≠ .eok ∧
      (load h.flags_w h.flags ccb.mem ≠ h.RPMB_FLG_READ → e.write.Done) := by
    simp only [not_and, Bool.not_eq_true, Bool.not_eq_false, not_lt, not_not]
    exact ⟨fun g => ⟨g.info, fun hw => (g.writable hw).1, fun hw =>
      (g.writable hw).2, g.ready, g.set_partition, g.written⟩,
      fun g => ⟨g.1, fun hw => ⟨g.2.1 hw, g.2.2.1 hw⟩, g.2.2.2.1, g.2.2.2.2.1, g.2.2.2.2.2⟩⟩
  unfold sdmmc_rpmb_devctl
  simp only [safe_bind_iff, safe_ite_iff, safe_touch_iff, safe_pure, implies_true, true_and,
    Ccb.sizes, not_not]
  constructor
  · rintro ⟨hheader, hrest⟩
    refine ⟨hheader hpos, fun g hzero => ?_⟩
    obtain ⟨hinfo, hwp, hmax, hready, hpart, hdone⟩ := hgranted.mp g
    have hsafe := (hrest hinfo).2 hwp hmax hready (not_not.mp hpart)
    exact (rpmbFrames_safe h e ccb (rpmb_info_eok h.size_lt hinfo)).mp hsafe hdone hzero
  · rintro ⟨hheader, hframe⟩
    refine ⟨fun _ => hheader, fun hinfo => ⟨fun _ => ?_, fun hwp hmax hready hpart => ?_⟩⟩
    · have hsize := rpmb_info_eok h.size_lt hinfo
      have hflags := h.flags_le
      omega
    · refine (rpmbFrames_safe h e ccb (rpmb_info_eok h.size_lt hinfo)).mpr fun hdone => ?_
      exact hframe (hgranted.mpr ⟨hinfo, hwp, hmax, hready, not_not.mpr hpart, hdone⟩)

/-- What is copied of a register has room behind the fields of the request.  Where lengths are
compared as integers, the one that is left must be none that is taken for a negative one. -/
@[mk_iff] structure RegisterRoom (e : Register) (ccb : Ccb) (type : ℕ) : Prop where
  int : type = SDMMC_REG_TYPE_CID ∨ type = SDMMC_REG_TYPE_CSD ∨ type = SDMMC_REG_TYPE_SCR ∧
    e.dtype = DEV_TYPE_SD →
    SIZEOF_CARD_REGISTER ≤ ccb.cam_devctl_size ∧ (ccb.cam_devctl_size - SIZEOF_CARD_REGISTER) % 2 ^
      32 < 2 ^ 31
  size : type = SDMMC_REG_TYPE_EXT_CSD ∧ e.dtype = DEV_TYPE_MMC ∧ e.send_ext_csd = .eok ∨
      type = SDMMC_REG_TYPE_SDS ∧ e.dtype = DEV_TYPE_SD ∧ e.app_read_status = .eok →
    SIZEOF_CARD_REGISTER ≤ ccb.cam_devctl_size

/-- The fields that are looked at are in the buffer, and what is copied has room behind them. -/
structure RegisterFits (e : Register) (ccb : Ccb) : Prop where
  action : 4 ≤ ccb.cam_devctl_size
  read : load 4 0 ccb.mem = SDMMC_CR_ACTION_READ → 8 ≤ ccb.cam_devctl_size ∧
    RegisterRoom e ccb (load 4 4 ccb.mem)
  write : load 4 0 ccb.mem = SDMMC_CR_ACTION_WRITE → 8 ≤ ccb.cam_devctl_size ∧
    (load 4 4 ccb.mem = SDMMC_REG_TYPE_EXT_CSD ∧ e.dtype = DEV_TYPE_MMC → 12 ≤ ccb.cam_devctl_size ∧
      (load 4 8 ccb.mem < ECSD_REV → SIZEOF_CARD_REGISTER < ccb.cam_devctl_size))

/-- The length that is left of the buffer. -/
theorem Ccb.len_cases (ccb : Ccb) : SIZEOF_CARD_REGISTER ≤ ccb.cam_devctl_size ∧
      ccb.len = ccb.cam_devctl_size - SIZEOF_CARD_REGISTER ∨
    ccb.cam_devctl_size < SIZEOF_CARD_REGISTER ∧ ¬ ccb.len % 2 ^ 32 < 2 ^ 31 := by
  have hlt := ccb.size_lt
  rw [Ccb.len, SIZEOF_CARD_REGISTER]
  omega

theorem minInt_fits (ccb : Ccb) (n : ℕ) :
    (ccb.minInt n ≠ 0 → SIZEOF_CARD_REGISTER + ccb.minInt n ≤ ccb.cam_devctl_size) ↔
      SIZEOF_CARD_REGISTER ≤ ccb.cam_devctl_size ∧
      (ccb.cam_devctl_size - SIZEOF_CARD_REGISTER) % 2 ^ 32 < 2 ^ 31 := by
  have hlt := ccb.size_lt
  by_cases hlen : ccb.len % 2 ^ 32 < 2 ^ 31
  · rcases ccb.len_cases with ⟨hle, heq⟩ | ⟨-, hneg⟩
    · rw [Ccb.minInt, if_pos hlen]
      rw [heq] at hlen ⊢
      omega
    · exact absurd hlen hneg
  · -- a negative length is a very large one
    have hbig : 2 ^ 63 ≤ ccb.minInt n := by
      rw [Ccb.minInt, if_neg hlen, sizeOfInt, if_neg hlen]
      omega
    constructor
    · intro h
      exact absurd (h (by omega)) (by omega)
    · rintro ⟨hle, hpos⟩
      rcases ccb.len_cases with ⟨-, heq⟩ | ⟨hshort, -⟩
      · exact absurd (heq ▸ hpos) hlen
      · exact absurd hle (Nat.not_le.mpr hshort)

theorem minSize_le (ccb : Ccb) (n : ℕ) : ccb.minSize n ≤ n := Nat.min_le_right _ _

theorem minSize_fits (ccb : Ccb) {n : ℕ} (hn : n ≠ 0) (hn' : n ≤ 2 ^ 31) :
    (ccb.minSize n ≠ 0 → SIZEOF_CARD_REGISTER + ccb.minSize n ≤ ccb.cam_devctl_size) ↔
      SIZEOF_CARD_REGISTER ≤ ccb.cam_devctl_size := by
  have hneg : ¬ ccb.len % 2 ^ 32 < 2 ^ 31 → ccb.minSize n = n := by
    intro hlen
    rw [Ccb.minSize, sizeOfInt, if_neg hlen]
    omega
  rcases ccb.len_cases with ⟨hle, heq⟩ | ⟨hshort, hlen⟩
  · refine ⟨fun _ => hle, fun _ _ => ?_⟩
    by_cases hlen : ccb.len % 2 ^ 32 < 2 ^ 31
    · rw [Ccb.minSize, sizeOfInt, if_pos hlen, heq]
      omega
    · rw [hneg hlen]
      rw [heq] at hlen
      omega
  · rw [hneg hlen]
    exact ⟨fun h => (Nat.le_add_right _ _).trans (h hn), fun hle =>
      absurd hle (Nat.not_le.mpr hshort)⟩

theorem readRegister_safe (e : Register) (ccb : Ccb) (type : ℕ) :
    Safe ccb.sizes (readRegister e ccb type) ↔ RegisterRoom e ccb type := by
  have hcid := minInt_fits ccb MMC_CID_SIZE
  have hcsd := minInt_fits ccb MMC_CSD_SIZE
  have hscr := minInt_fits ccb SD_SCR_SIZE
  have hecsd := @minSize_fits ccb 512 (by decide) (by decide)
  have hsds := @minSize_fits ccb 64 (by decide) (by decide)
  rw [registerRoom_iff]
  unfold readRegister
  simp only [safe_bind_iff, safe_ite_iff, safe_touch_iff, safe_pure, Ccb.sizes, hcid, hcsd, hscr,
    hecsd, hsds,
    minSize_le ccb, Nat.zero_add, implies_true, and_true, true_and, le_refl, not_not,
    SDMMC_REG_TYPE_CID,
    SDMMC_REG_TYPE_CSD, SDMMC_REG_TYPE_EXT_CSD, SDMMC_REG_TYPE_SCR, SDMMC_REG_TYPE_SDS]
  generalize (SIZEOF_CARD_REGISTER ≤ ccb.cam_devctl_size) = fits
  generalize ((ccb.cam_devctl_size - SIZEOF_CARD_REGISTER) % 2 ^ 32 < 2 ^ 31) = positive
  rcases type with _ | _ | _ | _ | _ | type <;> simp

theorem card_register_safe (e : Register) (ccb : Ccb) :
    Safe ccb.sizes (sdmmc_card_register_devctl e ccb) ↔ (e.ready = true → RegisterFits e ccb) := by
  unfold sdmmc_card_register_devctl
  simp only [safe_bind_iff, safe_ite_iff, safe_touch_iff, safe_pure, readRegister_safe, Ccb.sizes,
    implies_true, and_true, true_and, Bool.not_eq_false, Nat.zero_add, not_le]
  refine forall_congr' fun _ => ⟨?_, ?_⟩
  · rintro ⟨haction, hread, hwrite⟩
    refine ⟨haction (by decide), fun h => ⟨(hread h).1 (by decide), (hread h).2.1⟩, fun h => ?_⟩
    have hother : ¬ load 4 0 ccb.mem = SDMMC_CR_ACTION_READ := by
      rw [h]
      decide
    obtain ⟨htype, hswitch⟩ := hwrite hother h
    exact ⟨htype (by decide), fun hext =>
      ⟨(hswitch hext).1 (by decide), fun haddr => (hswitch hext).2 haddr (by decide)⟩⟩
  · rintro ⟨haction, hread, hwrite⟩
    refine ⟨fun _ => haction, fun h => ⟨fun _ => (hread h).1, (hread h).2, fun _ => (hread h).1⟩,
      fun _ h => ?_⟩
    obtain ⟨htype, hswitch⟩ := hwrite h
    exact ⟨fun _ => htype, fun hext =>
      ⟨fun _ => (hswitch hext).1, fun haddr _ => (hswitch hext).2 haddr⟩⟩

/-- The length of the response. -/
def Apdu.length (e : Apdu) : ℕ := (e.response 0).toNat * 2 ^ 8 + (e.response 1).toNat

/-- The card is asked, and it answers. -/
structure ApduAnswered (e : Apdu) (ccb : Ccb) : Prop where
  ready : e.ready = true
  state : e.state = .eok
  low : ASSD_APDU_MIN_DLEN < (load 4 0 ccb.mem + ASSD_APDU_STL_SIZE) % 2 ^ 32
  high : (load 4 0 ccb.mem + ASSD_APDU_STL_SIZE) % 2 ^ 32 < ASSD_APDU_MAX_DLEN
  room : (load 4 0 ccb.mem + ASSD_APDU_STL_SIZE) % 2 ^ 32 + SIZEOF_ASSD_APDU < ccb.cam_devctl_size
  allocated : e.allocated = true
  write_sec_cmd : e.write_sec_cmd = .eok
  wait_card_status : e.wait_card_status = .eok
  wait_scc : e.wait_scc = .eok
  read_sec_cmd : e.read_sec_cmd = .eok

/-- The length is in the buffer, and the response has room in both buffers. -/
structure ApduFits (e : Apdu) (ccb : Ccb) : Prop where
  header : 4 ≤ ccb.cam_devctl_size
  response : ApduAnswered e ccb → ASSD_APDU_STL_SIZE < e.length → e.length ≤ ASSD_APDU_MAX_DLEN ∧
    SIZEOF_ASSD_APDU + (e.length - ASSD_APDU_STL_SIZE) ≤ ccb.cam_devctl_size

theorem apduResponse_safe (e : Apdu) (ccb : Ccb) :
    Safe ccb.sizes (apduResponse e) ↔ 4 ≤ ccb.cam_devctl_size ∧
    (ASSD_APDU_STL_SIZE < e.length → e.length ≤ ASSD_APDU_MAX_DLEN ∧
      SIZEOF_ASSD_APDU + (e.length - ASSD_APDU_STL_SIZE) ≤ ccb.cam_devctl_size) := by
  have hlen : (e.response 0).toNat * 2 ^ 8 + (e.response 1).toNat = e.length := rfl
  unfold apduResponse
  simp only [safe_bind_iff, safe_ite_iff, safe_touch_iff, safe_pure, implies_true, and_true,
    Ccb.sizes, hlen, Nat.zero_add]
  generalize e.length = length
  rw [ASSD_APDU_STL_SIZE, ASSD_APDU_MAX_DLEN, SIZEOF_ASSD_APDU]
  constructor
  · rintro ⟨hheader, -, hcopy⟩
    refine ⟨hheader (by decide), fun hlt => ?_⟩
    obtain ⟨-, hdata, hbuf⟩ := hcopy hlt
    have hsmall := hdata (by omega)
    have hroom := hbuf (by omega)
    omega
  · rintro ⟨hheader, hcopy⟩
    refine ⟨fun _ => hheader, fun _ => by decide, fun hlt =>
      ⟨fun _ => hheader, fun _ => ?_, fun _ => ?_⟩⟩
    · have hsmall := (hcopy hlt).1
      omega
    · have hroom := (hcopy hlt).2
      omega

theorem apdu_safe (e : Apdu) (ccb : Ccb) :
    Safe ccb.sizes (sdmmc_assd_apdu_devctl e ccb) ↔ ApduFits e ccb := by
  unfold sdmmc_assd_apdu_devctl
  simp only [safe_bind_iff, safe_ite_iff, safe_touch_iff, safe_pure, implies_true, and_true,
    true_and, Ccb.sizes, apduResponse_safe, Nat.zero_add, not_not, Bool.not_eq_false]
  constructor
  · rintro ⟨hheader, hrest⟩
    refine ⟨hheader (by decide), fun g hlt => ?_⟩
    have hsent := (hrest g.ready g.state ⟨g.room, g.high, g.low⟩ g.allocated).2.2.2.2.2
      g.write_sec_cmd g.wait_card_status g.wait_scc
    exact (hsent.2 g.read_sec_cmd).2 hlt
  · rintro ⟨hheader, hresponse⟩
    refine ⟨fun _ => hheader, fun hready hstate hlen halloc => ?_⟩
    obtain ⟨hroom, hhigh, hlow⟩ := hlen
    have hsend : ∀ {n : ℕ}, n < ASSD_APDU_MAX_DLEN → ASSD_APDU_MIN_DLEN < n →
        ASSD_APDU_STL_SIZE + (n - ASSD_APDU_STL_SIZE) ≤ 512 ∧
        n + (ASSD_APDU_MAX_DLEN - n) ≤ 512 := by
      intro n
      rw [ASSD_APDU_MAX_DLEN, ASSD_APDU_MIN_DLEN, ASSD_APDU_STL_SIZE]
      omega
    refine ⟨fun _ => by decide, fun _ => (hsend hhigh hlow).1, fun _ => ?_, fun _ =>
      (hsend hhigh hlow).2, fun _ => by decide,
      fun hwrite hwait hscc => ⟨fun _ => by decide, fun hread => ⟨hheader, ?_⟩⟩⟩
    · rw [Nat.add_comm]
      exact (Nat.add_le_add_right (Nat.sub_le _ _) _).trans hroom.le
    · exact hresponse ⟨hready, hstate, hlow, hhigh, hroom, halloc, hwrite, hwait, hscc, hread⟩

/-! ### Every request -/

/-- The request is in its buffers, as far as it is looked at. -/
def Request.Fits (ccb : Ccb) : Request → Prop
  | .gencmd ready cmds =>
      ready = true → ∀ i r, linkAt (genNext ccb cmds) i = some r → GenFits ccb cmds i r
  | .mancmd ready cmds =>
      ready = true → ∀ i r, linkAt (manNext ccb cmds) i = some r → ManFits ccb cmds i r
  | .rpmb h e => RpmbFits h e ccb
  | .card_register e => e.ready = true → RegisterFits e ccb
  | .assd_apdu e => ApduFits e ccb

/-- **A request stays in its buffers, and ends, exactly if it fits.** -/
theorem devctl_contained_iff (d : Request) (ccb : Ccb) : d.Contained ccb ↔ d.Fits ccb := by
  -- where there is no loop the number of rounds does not matter
  have honce : ∀ x : Touching Region Errno,
      ((∀ _ : ℕ, Safe ccb.sizes (do return some (← x) : Touching Region (Option Errno))) ∧
        ∃ _ : ℕ, (do return some (← x) : Touching Region (Option Errno)).result.isSome = true) ↔
        Safe ccb.sizes x := by
    intro x
    simp only [safe_bind_iff, safe_pure, and_true, result_bind, result_pure, Option.isSome_some,
      exists_const, forall_const]
  rw [Request.contained_iff]
  cases d with
  | gencmd ready cmds =>
      unfold Request.run Request.Fits sdmmc_gencmd_devctl
      cases ready with
      | false => simp
      | true => simpa using linked_iff (gencmd_linked cmds)
  | mancmd ready cmds =>
      unfold Request.run Request.Fits sdmmc_mancmd_devctl
      cases ready with
      | false => simp
      | true => simpa using linked_iff (mancmd_linked cmds)
  | rpmb h e => exact (honce _).trans (rpmb_safe h e ccb)
  | card_register e => exact (honce _).trans (card_register_safe e ccb)
  | assd_apdu e => exact (honce _).trans (apdu_safe e ccb)

/-- A buffer of 8 bytes: a general command that reads a block of 512 bytes. -/
def shortBuffer : Ccb where
  cam_devctl_size := 8
  size_lt := by decide
  mem j := if j = 4 then 1 else if j = 7 then 2 else 0

/-- A command that succeeds. -/
def succeeds : Command := ⟨.eok, .eok, true, .eok, .eok, fun _ => 0⟩

/-- The block is written behind the buffer. -/
theorem gencmd_outside : ¬ (Request.gencmd true fun _ => succeeds).Contained shortBuffer := by
  intro h
  have hmem : (⟨.buffer, 8, 512⟩ : Touch Region) ∈
      ((Request.gencmd true fun _ => succeeds).run shortBuffer 1).log :=
    .tail _ (.head _)
  exact absurd (h.safe 1 _ hmem (by decide)) (by decide)

end Sdmmc.Devctl
