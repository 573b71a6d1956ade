import RpiBsp.Sdmmc.Command.Definitions

/-!
# Sdmmc — Sdhci — interrupts

The interrupt handler of the SDHCI controller (`hc/sdhci.c`), with the interrupts that `sdhci_cmd`
enables for a command, and the scatter list that data without DMA goes to.  Registers that only the
controller reads are left out.

* `Answered` — what is asked of the handling of one status word.
* `intr_run` — it holds of every word that comes for a command, unless the word ends a transfer
  without DMA and says that a buffer is ready as well.
-/

namespace Sdmmc.Sdhci

/-! ### Definitions -/

def SDHCI_INTR_CC : BitVec 32 := 1 <<< 0
def SDHCI_INTR_TC : BitVec 32 := 1 <<< 1
def SDHCI_INTR_BWR : BitVec 32 := 1 <<< 4
def SDHCI_INTR_BRR : BitVec 32 := 1 <<< 5
def SDHCI_INTR_CINS : BitVec 32 := 1 <<< 6
def SDHCI_INTR_CREM : BitVec 32 := 1 <<< 7
def SDCHI_INTR_RETUNE : BitVec 32 := 1 <<< 12
def SDHCI_INTR_ERRI : BitVec 32 := 1 <<< 15
def SDHCI_INTR_CTO : BitVec 32 := 1 <<< 16
def SDHCI_INTR_CCRC : BitVec 32 := 1 <<< 17
def SDHCI_INTR_CEB : BitVec 32 := 1 <<< 18
def SDHCI_INTR_CIE : BitVec 32 := 1 <<< 19
def SDHCI_INTR_DTO : BitVec 32 := 1 <<< 20
def SDHCI_INTR_DCRC : BitVec 32 := 1 <<< 21
def SDHCI_INTR_DEB : BitVec 32 := 1 <<< 22
def SDHCI_INTR_ACE : BitVec 32 := 1 <<< 24
def SDHCI_INTR_ADMAE : BitVec 32 := 1 <<< 25
def SDHCI_INTR_DFLTS : BitVec 32 :=
  SDHCI_INTR_ADMAE ||| SDHCI_INTR_ACE ||| SDHCI_INTR_CIE ||| SDHCI_INTR_CEB ||| SDHCI_INTR_CCRC |||
    SDHCI_INTR_CTO |||
  SDHCI_INTR_ERRI

def HC_CAP_DMA : BitVec 64 := 1 <<< 2

def SCF_RSP_136 : BitVec 32 := 1 <<< 5
def SCF_DATA_MSK : BitVec 32 := SCF_DIR_IN ||| SCF_DIR_OUT
def SCF_DATA_PHYS : BitVec 32 := 1 <<< 24

def SD_SEND_TUNING_BLOCK : ℕ := 19
def MMC_SEND_TUNING_BLOCK : ℕ := 21

def SDHCI_ADMA2_MAX_XFER : ℕ := 1024 * 60
def ADMA_DESC_MAX : ℕ := 256

/-- Some bit of the mask is set. -/
def Has {n : ℕ} (v mask : BitVec n) : Prop := v &&& mask ≠ 0

instance {n : ℕ} (v mask : BitVec n) : Decidable (Has v mask) := inferInstanceAs (Decidable (_ ≠ _))

/-- `sdio_sge_t`. -/
structure Sge where
  sg_address : ℕ
  sg_count : ℕ

/-- `sdio_cmd_t`, as the controller sees it. -/
structure Request where
  opcode : ℕ
  flags : BitVec 32
  blksz : ℕ
  /-- `sgl` is not `NULL`. -/
  has_sgl : Bool
  /-- What stands at `sgl`, and behind it. -/
  sgl : ℕ → Sge
  sgc : ℕ
  rsp : List (BitVec 32)

/-- `sdio_wspc_t`: `sge` is an index of `sgl`. -/
structure Wspc where
  cmd : Option Request
  sgl : ℕ → Sge
  sge : ℕ
  nsg : ℕ
  sgc : ℕ
  sga : ℕ

/-- `sdio_hc_t`.  The last two fields are not part of the code: the words that were moved without
DMA, as an address and a number, and the calls of `sdio_cmd_cmplt`. -/
structure Slot where
  caps : BitVec 64
  /-- `SF_USE_ADMA`. -/
  use_adma : Bool
  wspc : Wspc
  ie : BitVec 32
  /-- `DEV_FLAG_MEDIA_CHANGE` and `HC_FLAG_TUNE`. -/
  media_change : Bool
  tune : Bool
  moved : List (ℕ × ℕ)
  completed : List (Request × CmdStatus)

/-- What the handler finds: the status word, the response, and how often a buffer is ready in a
row. -/
structure Interrupt where
  is : BitVec 32
  resp : List (BitVec 32) := [0, 0, 0, 0]
  ready : ℕ := 0

/-! ### The scatter list -/

/-- `sdio_sg_start`. -/
def sdio_sg_start (w : Wspc) (cmd : Request) : Errno × Wspc :=
  if cmd.sgc = 0 ∧ cmd.has_sgl = false then (.einval, w)
  else (.eok, { w with
    nsg := cmd.sgc, sgl := cmd.sgl, sge := 0, sgc := (cmd.sgl 0).sg_count, sga :=
      (cmd.sgl 0).sg_address })

/-- `sdio_sg_nxt`: nothing once the list is complete. -/
def sdio_sg_nxt (w : Wspc) (blksz : ℕ) : Option (ℕ × ℕ × Wspc) :=
  if w.nsg = 0 ∧ w.sgc = 0 then none
  else
    let w := if w.sgc = 0 then { w with
        sge := w.sge + 1, nsg := w.nsg - 1, sgc := (w.sgl (w.sge + 1)).sg_count, sga :=
          (w.sgl (w.sge + 1)).sg_address }
      else w
    let len := min w.sgc blksz
    some (w.sga, len, { w with sga := w.sga + len, sgc := w.sgc - len })

/-- A block ends, or the list goes on. -/
theorem sg_nxt_decreases {w w' : Wspc} {blksz addr len : ℕ} (hb : blksz ≠ 0)
    (h : sdio_sg_nxt w blksz = some (addr, len, w')) :
      w'.nsg < w.nsg ∨ w'.nsg = w.nsg ∧ blksz - len < blksz := by
  unfold sdio_sg_nxt at h
  split at h
  · exact absurd h (Option.some_ne_none _).symm
  · rename_i hmore
    simp only [Option.some.injEq, Prod.mk.injEq] at h
    obtain ⟨-, rfl, rfl⟩ := h
    by_cases hsgc : w.sgc = 0
    · rw [if_pos hsgc]
      dsimp only
      omega
    · rw [if_neg hsgc]
      dsimp only
      omega

/-- The inner loop of `sdhci_pio_xfer`. -/
def pioBlock (w : Wspc) (blksz : ℕ) : List (ℕ × ℕ) × Wspc :=
  if _ : blksz = 0 then ([], w)
  else
    match h : sdio_sg_nxt w blksz with
    | none => ([], w)
    | some (addr, len, w') =>
        let r := pioBlock w' (blksz - len)
        ((addr, len / 4) :: r.1, r.2)
termination_by (w.nsg, blksz)
decreasing_by
  rcases sg_nxt_decreases ‹_› h with hlt | ⟨heq, hlt⟩
  · exact Prod.Lex.left _ _ hlt
  · rw [heq]
    exact Prod.Lex.right _ hlt

/-- `sdhci_pio_xfer`, for a buffer that is ready `ready` times. -/
def sdhci_pio_xfer (cmd : Request) : ℕ → Wspc → List (ℕ × ℕ) × Wspc
  | 0, w => ([], w)
  | ready + 1, w =>
      let r := pioBlock w cmd.blksz
      let r' := sdhci_pio_xfer cmd ready r.2
      (r.1 ++ r'.1, r'.2)

/-- What `sdhci_pio_xfer` returns, as a command status: `EOK` and `CS_CMD_INPROG` are the same
number. -/
def EOK_STATUS : CmdStatus := .cmd_inprog

/-! ### A command is issued -/

def Request.Data (cmd : Request) : Prop := Has cmd.flags SCF_DATA_MSK

instance (cmd : Request) : Decidable cmd.Data := inferInstanceAs (Decidable (Has _ _))

/-- The descriptors that `sdhci_adma_setup` needs. -/
def descriptors (cmd : Request) : ℕ :=
  ((List.range cmd.sgc).map fun i =>
    ((cmd.sgl i).sg_count + SDHCI_ADMA2_MAX_XFER - 1) / SDHCI_ADMA2_MAX_XFER).sum

/-- `sdhci_adma_setup` and `sdhci_sdma_setup`: what they return. -/
def dmaSetup (slot : Slot) (cmd : Request) : Errno :=
  if slot.use_adma ∧ ADMA_DESC_MAX < descriptors cmd then .enotsup else .eok

/-- `sdhci_xfer_setup`: the status, the interrupts that are enabled, and the scatter list. -/
def sdhci_xfer_setup (slot : Slot) (cmd : Request) (imask : BitVec 32) : Errno × BitVec 32 × Wspc :=
  let imask := imask ||| SDHCI_INTR_TC ||| SDHCI_INTR_DTO ||| SDHCI_INTR_DCRC ||| SDHCI_INTR_DEB
  let start := sdio_sg_start slot.wspc cmd
  let status := if cmd.sgc ≠ 0 ∧ Has slot.caps HC_CAP_DMA then dmaSetup slot cmd else start.1
  if status ≠ .eok ∨ ¬ Has slot.caps HC_CAP_DMA then
    if Has cmd.flags SCF_DATA_PHYS then (status, imask, start.2)
    else (.eok, imask ||| (if Has cmd.flags SCF_DIR_IN then SDHCI_INTR_BRR else SDHCI_INTR_BWR),
      start.2)
  else (.eok, imask, start.2)

/-- The interrupts that are enabled for every command. -/
def always (slot : Slot) : BitVec 32 :=
  if Has slot.caps HC_CAP_SLOT_TYPE_EMBEDDED then SDHCI_INTR_DFLTS
  else SDHCI_INTR_DFLTS ||| SDHCI_INTR_CINS ||| SDHCI_INTR_CREM

/-- What is set up for the data, or the end of a command without data. -/
def cmdSetup (slot : Slot) (cmd : Request) : Errno × BitVec 32 × Wspc :=
  if cmd.Data then sdhci_xfer_setup slot cmd (always slot)
  else (.eok, always slot ||| SDHCI_INTR_CC, slot.wspc)

/-- `sdhci_cmd`: `idle` says whether the lines are free in time. -/
def sdhci_cmd (idle : Bool) (slot : Slot) (cmd : Request) : Errno × Slot :=
  let setup := cmdSetup slot cmd
  if setup.1 ≠ .eok then (setup.1, { slot with wspc := setup.2.2 })
  else if idle = false then (.etimedout, { slot with wspc := setup.2.2 })
  else (.eok, { slot with wspc := setup.2.2, ie := setup.2.1 })

/-- `sdio_issue_cmd` up to the wait. -/
def issue (idle : Bool) (slot : Slot) (cmd : Request) : Errno × Slot :=
  sdhci_cmd idle { slot with wspc := { slot.wspc with cmd := some cmd } } cmd

/-! ### The handler -/

/-- The errors of a status word, in the order in which they are looked at. -/
def errorTable : List (BitVec 32 × CmdStatus) :=
  [(SDHCI_INTR_DTO, .data_to_err), (SDHCI_INTR_DCRC, .data_crc_err),
    (SDHCI_INTR_DEB, .data_end_err),
    (SDHCI_INTR_CTO, .cmd_to_err), (SDHCI_INTR_CCRC, .cmd_crc_err), (SDHCI_INTR_CEB, .cmd_end_err),
    (SDHCI_INTR_CIE, .cmd_idx_err), (SDHCI_INTR_ADMAE, .data_to_err),
    (SDHCI_INTR_ACE, .data_to_err)]

/-- The last error that is found stands. -/
def lastError (sts : BitVec 32) (table : List (BitVec 32 × CmdStatus)) (cs : CmdStatus) :
    CmdStatus :=
  table.foldl (fun cs row => if Has sts row.1 then row.2 else cs) cs

/-- The status of a word with an error. -/
def errorStatus (sts : BitVec 32) : CmdStatus :=
  let cs := lastError sts errorTable .cmd_inprog
  if cs = .cmd_inprog then .cmd_cmp_err else cs

/-- The 136 bits of a response, without the check sum: each word takes a byte of the one before. -/
def longResponse (resp : List (BitVec 32)) : List (BitVec 32) :=
  let word := fun i => resp.getD i 0
  [(word 3 <<< 8) + (word 2 >>> 24), (word 2 <<< 8) + (word 1 >>> 24),
    (word 1 <<< 8) + (word 0 >>> 24), word 0 <<< 8]

/-- The response of a command that is complete. -/
def ccResponse (cmd : Request) (resp : List (BitVec 32)) : Request :=
  if Has cmd.flags SCF_RSP_136 then { cmd with rsp := longResponse resp }
  else if Has cmd.flags SCF_RSP_PRESENT then { cmd with rsp := cmd.rsp.set 0 (resp.getD 0 0) }
  else cmd

/-- The command while a word without an error is handled. -/
def answerOf (cmd : Request) (sts : BitVec 32) (resp : List (BitVec 32)) : Request :=
  let cmd := if Has sts SDHCI_INTR_CC then ccResponse cmd resp else cmd
  if Has sts SDHCI_INTR_TC then { cmd with rsp := cmd.rsp.set 0 (resp.getD 0 0) } else cmd

def Request.Tuning (cmd : Request) : Prop :=
  cmd.opcode = SD_SEND_TUNING_BLOCK ∨ cmd.opcode = MMC_SEND_TUNING_BLOCK

instance (cmd : Request) : Decidable cmd.Tuning := inferInstanceAs (Decidable (_ ∨ _))

/-- The status of a word without an error. -/
def plainStatus (cmd : Request) (sts : BitVec 32) : CmdStatus :=
  let cs := if Has sts SDHCI_INTR_CC then .cmd_cmp else .cmd_inprog
  let cs := if Has sts SDHCI_INTR_TC then .cmd_cmp else cs
  if Has sts (SDHCI_INTR_BWR ||| SDHCI_INTR_BRR) then (if cmd.Tuning then .cmd_cmp else EOK_STATUS)
  else cs

/-- `sdio_cmd_cmplt`. -/
def sdio_cmd_cmplt (slot : Slot) (cmd : Request) (status : CmdStatus) : Slot :=
  { slot with wspc := { slot.wspc with cmd := none }, completed := slot.completed ++
    [(cmd, status)] }

/-- The end of the handler. -/
def conclude (slot : Slot) (cmd : Request) (sts : BitVec 32) (cs : CmdStatus) : Slot :=
  let cs := if Has sts SDHCI_INTR_CREM then .card_removed else cs
  if cs ≠ .cmd_inprog then sdio_cmd_cmplt slot cmd cs else slot

/-- `sdhci_intr_event`. -/
def sdhci_intr_event (e : Interrupt) (slot : Slot) : Slot :=
  if e.is = 0 then slot
  else
    let sts := e.is &&& (slot.ie ||| SDHCI_INTR_ERRI)
    let slot := { slot with
      media_change := slot.media_change || decide (Has sts (SDHCI_INTR_CINS ||| SDHCI_INTR_CREM))
      tune := slot.tune || decide (Has sts SDCHI_INTR_RETUNE) }
    match slot.wspc.cmd with
    | none => slot
    | some cmd =>
        if Has sts SDHCI_INTR_ERRI then conclude slot cmd sts (errorStatus sts)
        else
          let cs := plainStatus cmd sts
          let cmd := answerOf cmd sts e.resp
          let pio := if Has sts (SDHCI_INTR_BWR ||| SDHCI_INTR_BRR) ∧ ¬ cmd.Tuning
            then sdhci_pio_xfer cmd e.ready slot.wspc else ([], slot.wspc)
          let slot := { slot with
            moved := slot.moved ++ pio.1, wspc := { pio.2 with cmd := some cmd } }
          conclude slot cmd sts cs

/-- The words that come, one after the other. -/
def intrs (events : List Interrupt) (slot : Slot) : Slot :=
  events.foldl (fun slot e => sdhci_intr_event e slot) slot

/-! ### Words and masks -/

/-- Every bit of `m` is enabled. -/
def Enabled (ie m : BitVec 32) : Prop := ie &&& m = m

theorem or_and_self (m b : BitVec 32) : m ||| (b &&& m) = m := by
  ext i hi
  simp only [BitVec.getElem_or, BitVec.getElem_and]
  cases m[i] <;> simp

theorem Enabled.left {a m : BitVec 32} (h : Enabled a m) (b : BitVec 32) : Enabled (a ||| b) m := by
  rw [Enabled, BitVec.and_or_distrib_right, h]
  exact or_and_self m b

theorem Enabled.right (a m : BitVec 32) : Enabled (a ||| m) m := by
  rw [Enabled, BitVec.and_or_distrib_right, BitVec.and_self, BitVec.or_comm]
  exact or_and_self m a

theorem Enabled.has {ie m : BitVec 32} (h : Enabled ie m) (w : BitVec 32) :
    Has (w &&& ie) m ↔ Has w m := by
  rw [Has, Has, BitVec.and_assoc, h]

/-- What the handler looks at, for the bits other than the error. -/
theorem has_status {w ie m : BitVec 32} (hm : SDHCI_INTR_ERRI &&& m = 0) :
    Has (w &&& (ie ||| SDHCI_INTR_ERRI)) m ↔ Has (w &&& ie) m := by
  have hor : (ie ||| SDHCI_INTR_ERRI) &&& m = ie &&& m := by
    rw [BitVec.and_or_distrib_right, hm]
    exact BitVec.or_zero
  rw [Has, Has, BitVec.and_assoc, BitVec.and_assoc, hor]

theorem has_error (w ie : BitVec 32) :
    Has (w &&& (ie ||| SDHCI_INTR_ERRI)) SDHCI_INTR_ERRI ↔ Has w SDHCI_INTR_ERRI :=
  (Enabled.right ie SDHCI_INTR_ERRI).has w

theorem lastError_ne {st : CmdStatus} (sts : BitVec 32) (table : List (BitVec 32 × CmdStatus)) :
    ∀ {cs : CmdStatus}, cs ≠ st → (∀ row ∈ table, row.2 ≠ st) → lastError sts table cs ≠ st := by
  induction table with
  | nil => exact fun hcs _ => hcs
  | cons row table ih =>
      intro cs hcs hrows
      refine ih ?_ fun r hr => hrows r (List.mem_cons_of_mem row hr)
      dsimp only
      split
      · exact hrows row List.mem_cons_self
      · exact hcs

/-- An error is never taken for success. -/
theorem errorStatus_ne_cmp (sts : BitVec 32) : errorStatus sts ≠ .cmd_cmp := by
  unfold errorStatus
  dsimp only
  split
  · decide
  · exact lastError_ne sts errorTable (by decide) (by decide)

/-! ### The command that is outstanding -/

/-- The interrupts that tell the end of a command. -/
def Request.endBit (cmd : Request) : BitVec 32 := if cmd.Data then SDHCI_INTR_TC else SDHCI_INTR_CC

/-- `cmd` is outstanding, or nothing is; its end is enabled. -/
structure Held (cmd : Request) (ie : BitVec 32) (slot : Slot) : Prop where
  mask : slot.ie = ie
  enabled : Enabled ie cmd.endBit
  cmd : ∀ c, slot.wspc.cmd = some c → ∃ rsp, c = { cmd with rsp := rsp }

theorem xfer_setup_enabled (slot : Slot) (cmd : Request) (imask : BitVec 32) :
    Enabled (sdhci_xfer_setup slot cmd imask).2.1 SDHCI_INTR_TC := by
  have hbase : Enabled (imask ||| SDHCI_INTR_TC ||| SDHCI_INTR_DTO ||| SDHCI_INTR_DCRC |||
      SDHCI_INTR_DEB) SDHCI_INTR_TC :=
    (((Enabled.right imask SDHCI_INTR_TC).left _).left _).left _
  unfold sdhci_xfer_setup
  dsimp only
  generalize (if cmd.sgc ≠ 0 ∧ Has slot.caps HC_CAP_DMA then _ else _ : Errno) = status
  split_ifs
  · exact hbase
  · exact hbase.left _
  · exact hbase.left _
  · exact hbase

theorem sg_start_cmd (w : Wspc) (cmd : Request) : (sdio_sg_start w cmd).2.cmd = w.cmd := by
  unfold sdio_sg_start
  split_ifs <;> rfl

theorem xfer_setup_cmd (slot : Slot) (cmd : Request) (imask : BitVec 32) :
    (sdhci_xfer_setup slot cmd imask).2.2.cmd = slot.wspc.cmd := by
  have hstart := sg_start_cmd slot.wspc cmd
  unfold sdhci_xfer_setup
  dsimp only
  split_ifs <;> exact hstart

theorem cmdSetup_enabled (slot : Slot) (cmd : Request) :
    Enabled (cmdSetup slot cmd).2.1 cmd.endBit := by
  rw [cmdSetup, Request.endBit]
  split
  · exact xfer_setup_enabled slot cmd _
  · exact Enabled.right _ _

theorem cmdSetup_cmd (slot : Slot) (cmd : Request) :
    (cmdSetup slot cmd).2.2.cmd = slot.wspc.cmd := by
  rw [cmdSetup]
  split
  · exact xfer_setup_cmd slot cmd _
  · rfl

/-- A command that was issued is outstanding. -/
theorem issue_held {idle : Bool} {slot slot' : Slot} {cmd : Request}
    (h : issue idle slot cmd = (.eok, slot')) :
    Held cmd slot'.ie slot' ∧ slot'.wspc.cmd = some cmd := by
  have hc := cmdSetup_cmd { slot with wspc := { slot.wspc with cmd := some cmd } } cmd
  have hen := cmdSetup_enabled { slot with wspc := { slot.wspc with cmd := some cmd } } cmd
  unfold issue sdhci_cmd at h
  dsimp only at h
  split_ifs at h with hsetup hidle
  · exact absurd (congrArg Prod.fst h) hsetup
  · exact (nomatch h)
  · obtain rfl := (Prod.mk.inj h).2
    exact ⟨⟨rfl, hen, fun c hcmd => ⟨cmd.rsp, (Option.some.inj (hc.symm.trans hcmd)).symm⟩⟩, hc⟩

/-! ### One word -/

theorem answerOf_eq (cmd : Request) (sts : BitVec 32) (resp : List (BitVec 32)) :
    ∃ rsp, answerOf cmd sts resp = { cmd with rsp := rsp } := by
  have hcc : ∃ rsp, (if Has sts SDHCI_INTR_CC then ccResponse cmd resp else cmd) =
      { cmd with rsp := rsp } := by
    unfold ccResponse
    split_ifs
    · exact ⟨_, rfl⟩
    · exact ⟨_, rfl⟩
    · exact ⟨cmd.rsp, rfl⟩
    · exact ⟨cmd.rsp, rfl⟩
  obtain ⟨rsp, hrsp⟩ := hcc
  unfold answerOf
  rw [hrsp]
  dsimp only
  split_ifs
  · exact ⟨_, rfl⟩
  · exact ⟨rsp, rfl⟩

/-- The status a word leads to. -/
def statusOf (cmd : Request) (sts : BitVec 32) : CmdStatus :=
  if Has sts SDHCI_INTR_CREM then .card_removed
  else if Has sts SDHCI_INTR_ERRI then errorStatus sts else plainStatus cmd sts

/-- What the handling of a word does to the command: it is completed, or it is still in progress. -/
structure Handled (cmd : Request) (cs : CmdStatus) (slot slot' : Slot) : Prop where
  ie : slot'.ie = slot.ie
  goes_on : cs = .cmd_inprog → slot'.completed = slot.completed ∧
    ∃ rsp, slot'.wspc.cmd = some { cmd with rsp := rsp }
  ends : cs ≠ .cmd_inprog →
    (∃ rsp, slot'.completed = slot.completed ++ [({ cmd with rsp := rsp }, cs)]) ∧
    slot'.wspc.cmd = none

theorem conclude_handled {slot slot₁ : Slot} {cmd c : Request} {sts : BitVec 32} (cs : CmdStatus)
    (hie : slot₁.ie = slot.ie) (hlog : slot₁.completed = slot.completed)
    (hcmd : slot₁.wspc.cmd = some c)
    (hc : ∃ rsp, c = { cmd with rsp := rsp }) :
    Handled cmd (if Has sts SDHCI_INTR_CREM then .card_removed else cs) slot
      (conclude slot₁ c sts cs) := by
  obtain ⟨rsp, rfl⟩ := hc
  unfold conclude
  generalize (if Has sts SDHCI_INTR_CREM then CmdStatus.card_removed else cs) = cs'
  dsimp only
  by_cases hcs : cs' = .cmd_inprog
  · rw [if_neg (not_not.mpr hcs)]
    exact ⟨hie, fun _ => ⟨hlog, rsp, hcmd⟩, fun hne => absurd hcs hne⟩
  · rw [if_pos hcs]
    refine ⟨hie, fun heq => absurd heq hcs, fun _ => ⟨⟨rsp, ?_⟩, rfl⟩⟩
    rw [← hlog]
    rfl

/-- **The handling of a word** for a command that is outstanding. -/
theorem intr_handled {e : Interrupt} {slot : Slot} {cmd : Request} (hcmd : slot.wspc.cmd = some cmd)
    (hword : e.is ≠ 0) :
    Handled cmd (statusOf cmd (e.is &&& (slot.ie ||| SDHCI_INTR_ERRI))) slot
      (sdhci_intr_event e slot) := by
  unfold sdhci_intr_event
  rw [if_neg hword]
  dsimp only
  rw [hcmd]
  dsimp only
  generalize e.is &&& (slot.ie ||| SDHCI_INTR_ERRI) = sts
  by_cases herr : Has sts SDHCI_INTR_ERRI
  · rw [statusOf, if_pos herr, if_pos herr]
    exact conclude_handled _ rfl rfl hcmd ⟨cmd.rsp, rfl⟩
  · rw [statusOf, if_neg herr, if_neg herr]
    exact conclude_handled _ rfl rfl rfl (answerOf_eq cmd sts e.resp)

/-! ### Every word -/

theorem Held.step {cmd : Request} {ie : BitVec 32} {slot : Slot} (h : Held cmd ie slot)
    (e : Interrupt) :
    Held cmd ie (sdhci_intr_event e slot) := by
  by_cases hword : e.is = 0
  · rw [sdhci_intr_event, if_pos hword]
    exact h
  cases hcmd : slot.wspc.cmd with
  | none =>
      have hsame : (sdhci_intr_event e slot).ie = slot.ie ∧
          (sdhci_intr_event e slot).wspc = slot.wspc := by
        unfold sdhci_intr_event
        rw [if_neg hword]
        dsimp only
        rw [hcmd]
        exact ⟨rfl, rfl⟩
      refine ⟨hsame.1.trans h.mask, h.enabled, fun c hc => ?_⟩
      rw [hsame.2] at hc
      exact h.cmd c hc
  | some c =>
      obtain ⟨rsp, rfl⟩ := h.cmd c hcmd
      have hd := intr_handled hcmd hword
      refine ⟨hd.ie.trans h.mask, h.enabled, fun c hc => ?_⟩
      by_cases hcs : statusOf { cmd with rsp := rsp } (e.is &&& (slot.ie ||| SDHCI_INTR_ERRI)) =
        .cmd_inprog
      · obtain ⟨-, rsp', hrsp'⟩ := hd.goes_on hcs
        exact ⟨rsp', Option.some.inj (hc.symm.trans hrsp')⟩
      · exact absurd (hc.symm.trans (hd.ends hcs).2) (Option.some_ne_none c)

theorem Held.run (events : List Interrupt) :
    ∀ {cmd : Request} {ie : BitVec 32} {slot : Slot}, Held cmd ie slot →
    Held cmd ie (intrs events slot) := by
  induction events with
  | nil => exact fun h => h
  | cons e events ih => exact fun h => ih (h.step e)

/-- The bits that tell an error. -/
def ERROR_BITS : BitVec 32 := 0xffff8000

/-- The controller sets `SDHCI_INTR_ERRI` with every error. -/
def Interrupt.Latched (e : Interrupt) : Prop := Has e.is ERROR_BITS → Has e.is SDHCI_INTR_ERRI

/-- What is asked of the handling of a word: the end of the command completes it, and an error is no
success. -/
structure Answered (cmd : Request) (e : Interrupt) (slot : Slot) : Prop where
  ends : ¬ Has e.is ERROR_BITS → Has e.is cmd.endBit →
    ∃ rsp, (sdhci_intr_event e slot).completed = slot.completed ++
    [({ cmd with rsp := rsp }, if Has (e.is &&& slot.ie) SDHCI_INTR_CREM then .card_removed
      else .cmd_cmp)]
  errors : Has e.is ERROR_BITS → ∀ c st, (sdhci_intr_event e slot).completed = slot.completed ++
    [(c, st)] → st ≠ .cmd_cmp

/-- A word that ends a transfer, with the card still there, and says that a buffer is ready as
well. -/
structure Clash (cmd : Request) (e : Interrupt) (ie : BitVec 32) : Prop where
  plain : ¬ Has e.is ERROR_BITS
  ended : Has e.is cmd.endBit
  ready : Has (e.is &&& ie) (SDHCI_INTR_BWR ||| SDHCI_INTR_BRR)
  present : ¬ Has (e.is &&& ie) SDHCI_INTR_CREM
  moves : ¬ cmd.Tuning

theorem not_erri {w : BitVec 32} (h : ¬ Has w ERROR_BITS) : ¬ Has w SDHCI_INTR_ERRI := by
  intro hbit
  refine h fun hzero => hbit ?_
  rw [show SDHCI_INTR_ERRI = ERROR_BITS &&& SDHCI_INTR_ERRI by decide, ← BitVec.and_assoc, hzero]
  exact BitVec.zero_and

theorem endBit_cases (cmd : Request) : cmd.endBit = SDHCI_INTR_TC ∨ cmd.endBit = SDHCI_INTR_CC := by
  rw [Request.endBit]
  split
  · exact Or.inl rfl
  · exact Or.inr rfl

/-- The end of the command is success, but for the buffer. -/
theorem plainStatus_ended {cmd c : Request} {w ie : BitVec 32} (hen : Enabled ie cmd.endBit)
    (hend : Has w cmd.endBit) :
    plainStatus c (w &&& (ie ||| SDHCI_INTR_ERRI)) =
      if Has (w &&& ie) (SDHCI_INTR_BWR ||| SDHCI_INTR_BRR) ∧ ¬ c.Tuning then .cmd_inprog
        else .cmd_cmp := by
  have hbuf : Has (w &&& (ie ||| SDHCI_INTR_ERRI)) (SDHCI_INTR_BWR ||| SDHCI_INTR_BRR) ↔
      Has (w &&& ie) (SDHCI_INTR_BWR ||| SDHCI_INTR_BRR) := has_status (by decide)
  have hdone : Has (w &&& (ie ||| SDHCI_INTR_ERRI)) SDHCI_INTR_TC ∨
      Has (w &&& (ie ||| SDHCI_INTR_ERRI)) SDHCI_INTR_CC := by
    rcases endBit_cases cmd with hbit | hbit
    · rw [hbit] at hen hend
      exact Or.inl ((has_status (by decide)).mpr ((hen.has w).mpr hend))
    · rw [hbit] at hen hend
      exact Or.inr ((has_status (by decide)).mpr ((hen.has w).mpr hend))
  unfold plainStatus EOK_STATUS
  dsimp only
  simp only [hbuf]
  split_ifs <;> first | rfl | tauto

/-- **Every word that comes for a command is answered, unless it ends a transfer and says that a
buffer is ready.** -/
theorem intr_run {idle : Bool} {slot₀ slot : Slot} {cmd : Request}
    (hissue : issue idle slot₀ cmd = (.eok, slot))
    (before : List Interrupt) {e : Interrupt} (hlatched : e.Latched)
    (hout : (intrs before slot).wspc.cmd ≠ none) :
    Answered cmd e (intrs before slot) ↔ ¬ Clash cmd e slot.ie := by
  have hheld := (issue_held hissue).1.run before
  generalize intrs before slot = now at *
  obtain ⟨c, hc⟩ := Option.ne_none_iff_exists'.mp hout
  obtain ⟨rsp, rfl⟩ := hheld.cmd c hc
  have hmask : now.ie = slot.ie := hheld.mask
  have hrem : Has (e.is &&& (now.ie ||| SDHCI_INTR_ERRI)) SDHCI_INTR_CREM ↔
      Has (e.is &&& slot.ie) SDHCI_INTR_CREM := by
    rw [hmask]
    exact has_status (by decide)
  constructor
  · intro hans hclash
    have hword : e.is ≠ 0 := fun hzero => hclash.ended (by rw [hzero]; exact BitVec.zero_and)
    have hd := intr_handled hc hword
    have hst : statusOf { cmd with rsp := rsp } (e.is &&& (now.ie ||| SDHCI_INTR_ERRI)) =
        .cmd_inprog := by
      rw [statusOf, if_neg (mt hrem.mp hclash.present),
        if_neg (mt (has_error _ _).mp (not_erri hclash.plain)), hmask,
        plainStatus_ended hheld.enabled hclash.ended, if_pos ⟨hclash.ready, hclash.moves⟩]
    obtain ⟨rsp', hlog⟩ := hans.ends hclash.plain hclash.ended
    rw [(hd.goes_on hst).1] at hlog
    exact absurd (congrArg List.length hlog) (by simp)
  · intro hfree
    refine ⟨fun hplain hend => ?_, fun herr c st hlog => ?_⟩
    · have hword : e.is ≠ 0 := fun hzero => hend (by rw [hzero]; exact BitVec.zero_and)
      have hd := intr_handled hc hword
      have hst : statusOf { cmd with rsp := rsp } (e.is &&& (now.ie ||| SDHCI_INTR_ERRI)) =
          if Has (e.is &&& now.ie) SDHCI_INTR_CREM then .card_removed else .cmd_cmp := by
        rw [statusOf, hmask, if_neg (mt (has_error _ _).mp (not_erri hplain)),
          plainStatus_ended hheld.enabled hend]
        rw [hmask] at hrem
        by_cases hcrem : Has (e.is &&& slot.ie) SDHCI_INTR_CREM
        · rw [if_pos (hrem.mpr hcrem), if_pos hcrem]
        · rw [if_neg (mt hrem.mp hcrem), if_neg hcrem, if_neg]
          exact fun hboth => hfree ⟨hplain, hend, hboth.1, hcrem, hboth.2⟩
      rw [hst] at hd
      refine (hd.ends ?_).1
      split <;> decide
    · have herri := hlatched herr
      have hword : e.is ≠ 0 := fun hzero => herri (by rw [hzero]; exact BitVec.zero_and)
      have hd := intr_handled hc hword
      have hne :
          statusOf { cmd with rsp := rsp } (e.is &&& (now.ie ||| SDHCI_INTR_ERRI)) ≠ .cmd_cmp := by
        rw [statusOf, if_pos ((has_error _ _).mpr herri)]
        split
        · decide
        · exact errorStatus_ne_cmp _
      by_cases hcs : statusOf { cmd with rsp := rsp } (e.is &&& (now.ie ||| SDHCI_INTR_ERRI)) =
        .cmd_inprog
      · rw [(hd.goes_on hcs).1] at hlog
        exact absurd (congrArg List.length hlog) (by simp)
      · obtain ⟨rsp', hlog'⟩ := (hd.ends hcs).1
        have heq := List.append_cancel_left (hlog.symm.trans hlog')
        rw [(Prod.mk.inj (List.singleton_inj.mp heq)).2]
        exact hne

/-- A controller without DMA. -/
def plainSlot : Slot where
  caps := 0
  use_adma := false
  wspc := ⟨none, fun _ => ⟨0, 0⟩, 0, 0, 0, 0⟩
  ie := 0
  media_change := false
  tune := false
  moved := []
  completed := []

/-- `MMC_READ_SINGLE_BLOCK`, into one buffer. -/
def readBlock : Request where
  opcode := 17
  flags := SCF_CTYPE_ADTC ||| SCF_DIR_IN ||| SCF_RSP_R1
  blksz := 512
  has_sgl := true
  sgl := fun _ => ⟨0x10000, 512⟩
  sgc := 1
  rsp := [0, 0, 0, 0]

/-- Where the words come one by one, the second one is answered. -/
theorem intr_run_apart :
    Answered readBlock { is := SDHCI_INTR_TC }
      (intrs [{ is := SDHCI_INTR_BRR }] (issue true plainSlot readBlock).2) := by
  have hissue : issue true plainSlot readBlock = (.eok, (issue true plainSlot readBlock).2) := rfl
  refine (intr_run hissue [{ is := SDHCI_INTR_BRR }] (fun h => absurd h (by decide))
    fun h => absurd (congrArg Option.isSome h) (by decide)).mpr fun hclash => ?_
  exact absurd hclash.ready (by decide)

/-- The end of the transfer and the last block come in one word: the command is not completed. -/
theorem end_with_block :
    ¬ Answered readBlock { is := SDHCI_INTR_TC ||| SDHCI_INTR_BRR }
      (issue true plainSlot readBlock).2 := by
  intro h
  obtain ⟨rsp, hlog⟩ := h.ends (by decide) (by decide)
  have hnone : (sdhci_intr_event { is := SDHCI_INTR_TC ||| SDHCI_INTR_BRR }
    (issue true plainSlot readBlock).2).completed = [] := rfl
  rw [hnone] at hlog
  exact absurd (congrArg List.length hlog) (by simp)

end Sdmmc.Sdhci
