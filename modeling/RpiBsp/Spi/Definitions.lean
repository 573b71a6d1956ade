import RpiBsp.Support.Device
import RpiBsp.Support.Memory
import RpiBsp.Support.Word

/-!
# Spi — definitions

The DesignWare SPI master of `hardware/spi/dwc` without DMA: the transfer (`xfer.c`), the FIFOs, the
interrupt handler and the wait for it (`intr.c`).

A transfer has one buffer: its words are written to the FIFO and the words that arrive are stored
over them. The buffer is a sequence of bytes, and `dscale` says how many of them a word has.
`dw_wait` ends with the transfer or when no interrupt comes in time; `rounds` is how many come
before one does not.

`counts` is not part of the code: it notes `tlen` and `rlen` whenever one of them changes.
-/

namespace Spi

open Support

/-- The registers the driver uses. -/
inductive Reg where
  | ctrlr0
  | ctrlr1
  | ssienr
  | ser
  | baudr
  | txftlr
  | rxftlr
  | rxflr
  | sr
  | imr
  | dmacr
  | version
  | dr
deriving DecidableEq, Repr

def DW_SPI_ENABLE : BitVec 32 := 1
def DW_SPI_DISABLE : BitVec 32 := 0

def SPI_MIN_WORD_WIDTH : ℕ := 3
def SPI_MAX_WORD_WIDTH : ℕ := 32
def SPI_FIFO_LEN_DIV : ℕ := 2
def DW_NBIT_ROUNDER : ℕ := 7
def SPI_DFS_DEFAULT : ℕ := 8
def DW_HSSI_102A : BitVec 32 := 0x3130322A

def DW_SPI_CTRLR0_SCPHA : BitVec 32 := 1 <<< 6
def DW_SPI_CTRLR0_SCPOL : BitVec 32 := 1 <<< 7
def DW_PSSI_CTRLR0_SRL : BitVec 32 := 1 <<< 11
def DW_SPI_SSTE : BitVec 32 := 1 <<< 24
def DW_SPI_CTRLR0_IS_MST : BitVec 32 := 1 <<< 31

def DW_SPI_SR_BUSY : BitVec 32 := 0x01
def DW_SPI_SR_TX_ERR : BitVec 32 := 0x20
def DW_SPI_SR_DCOL : BitVec 32 := 0x40

def DW_SPI_INT_MASK : BitVec 32 := 0x1f
def DW_SPI_INT_TXEI : BitVec 32 := 0x01
def DW_SPI_INT_TXOI : BitVec 32 := 0x02
def DW_SPI_INT_RXUI : BitVec 32 := 0x04
def DW_SPI_INT_RXOI : BitVec 32 := 0x08
def DW_SPI_INT_RXFI : BitVec 32 := 0x10

/-- Some bit of the mask is set. -/
def Has (v mask : BitVec 32) : Prop := v &&& mask ≠ 0

instance (v mask : BitVec 32) : Decidable (Has v mask) := inferInstanceAs (Decidable (_ ≠ _))

/-- The fields of `spi_cfg_t`: the width in `mode`, its flags, and the clock rate. -/
structure Cfg where
  nbits : ℕ
  cpol : Bool
  cpha : Bool
  clock_rate : ℕ

/-- `dw_spi_t`. -/
structure DwSpi where
  /-- The bytes at `pbuf`. -/
  pbuf : ℕ → UInt8
  xlen : ℕ
  tlen : ℕ
  rlen : ℕ
  dlen : ℕ
  dscale : ℕ
  cr0 : BitVec 32
  loopback : Bool
  sste : Bool
  input_clk : ℕ
  fifo_len : ℕ
  counts : List (ℕ × ℕ)

/-- What `dw_process_interrupts` returns. -/
inductive Intr where
  | done
  | continue
  | err
deriving DecidableEq, Repr

/-- What `dw_xfer` returns. -/
inductive XferStatus where
  | eok
  | ebusy
  | einval
  | eio
  | etimedout
deriving DecidableEq, Repr

/-- Word `i` of a buffer. -/
def word (dscale : ℕ) (buf : ℕ → UInt8) (i : ℕ) : ℕ := load (2 ^ dscale) (i * 2 ^ dscale) buf

/-- Store word `i` of a buffer. -/
def putWord (dscale : ℕ) (i v : ℕ) (buf : ℕ → UInt8) : ℕ → UInt8 :=
  store (2 ^ dscale) (i * 2 ^ dscale) v buf

section Code

variable {ρ H : Type} (D : Device ρ Reg H)

/-- The driver. -/
abbrev SpiM (ρ H : Type) := Driver ρ DwSpi H

open Driver

/-- `dw_spi_busy`. -/
def dw_spi_busy : SpiM ρ H Bool := do
  let value ← read32 D .sr
  return decide (Has value DW_SPI_SR_BUSY)

/-- `dw_spi_enable`. -/
def dw_spi_enable (enable_value : BitVec 32) : SpiM ρ H PUnit := write32 D .ssienr enable_value

/-- `dw_device_reset`. -/
def dw_device_reset : SpiM ρ H PUnit := do
  dw_spi_enable D DW_SPI_DISABLE
  dw_spi_enable D DW_SPI_ENABLE

/-- `dw_spi_select_slave`. -/
def dw_spi_select_slave (slv : ℕ) : SpiM ρ H PUnit := do
  let busy ← dw_spi_busy D
  doIf (busy = false) (write32 D .ser (1 <<< slv))

/-! ### The FIFOs -/

/-- The loop of `dw_write_fifo`, for the words from `i` on. -/
def writeWords : ℕ → ℕ → SpiM ρ H PUnit
  | 0, _ => return ⟨⟩
  | len + 1, i => do
      let spi ← soft
      write32 D .dr (BitVec.ofNat 32 (word spi.dscale spi.pbuf i))
      writeWords len (i + 1)

/-- `dw_write_fifo`. -/
def dw_write_fifo (len : ℕ) : SpiM ρ H PUnit := do
  let spi ← soft
  doIf (spi.dscale ≤ 2) (writeWords D len spi.tlen)

/-- The loop of `dw_read_fifo`, for the words from `i` on. -/
def readWords : ℕ → ℕ → SpiM ρ H PUnit
  | 0, _ => return ⟨⟩
  | len + 1, i => do
      let v ← read32 D .dr
      update fun spi => { spi with pbuf := putWord spi.dscale i v.toNat spi.pbuf }
      readWords len (i + 1)

/-- `dw_read_fifo`. -/
def dw_read_fifo (len : ℕ) : SpiM ρ H PUnit := do
  let spi ← soft
  doIf (spi.dscale ≤ 2) (readWords D len spi.rlen)

/-- `spi->tlen += len`. -/
def DwSpi.sent (spi : DwSpi) (len : ℕ) : DwSpi :=
  let tlen := addW 32 spi.tlen len
  { spi with tlen := tlen, counts := spi.counts ++ [(tlen, spi.rlen)] }

/-- `spi->rlen += len`. -/
def DwSpi.received (spi : DwSpi) (len : ℕ) : DwSpi :=
  let rlen := addW 32 spi.rlen len
  { spi with rlen := rlen, counts := spi.counts ++ [(spi.tlen, rlen)] }

/-! ### Interrupts -/

/-- Switch the controller and its interrupts off. -/
def shutDown : SpiM ρ H PUnit := do
  dw_spi_enable D DW_SPI_DISABLE
  write32 D .imr 0

/-- The words behind the ones that were read. -/
def refill (len : ℕ) : SpiM ρ H PUnit := do
  let spi ← soft
  doIf (spi.tlen < spi.xlen) (do
    let len := min len (subW 32 spi.xlen spi.tlen)
    dw_write_fifo D len
    update fun spi => spi.sent len)

/-- The thresholds for the last words. -/
def lastWords : SpiM ρ H PUnit := do
  let spi ← soft
  doIf (spi.xlen ≤ spi.tlen) (do
    let im ← read32 D .imr
    write32 D .imr (im &&& ~~~DW_SPI_INT_TXEI &&& ~~~DW_SPI_INT_TXOI)
    let minlen := min (subW 32 spi.xlen spi.rlen) (spi.fifo_len / SPI_FIFO_LEN_DIV)
    write32 D .rxftlr (BitVec.ofNat 32 (subW 32 minlen 1)))

/-- `dw_process_interrupts`. -/
def dw_process_interrupts : SpiM ρ H Intr := do
  let value ← read32 D .sr
  if Has value DW_SPI_SR_TX_ERR then
    shutDown D
    return .err
  else if Has value DW_SPI_SR_DCOL then
    shutDown D
    return .err
  else
    let len ← read32 D .rxflr
    dw_read_fifo D len.toNat
    update fun spi => spi.received len.toNat
    let spi ← soft
    if spi.rlen = spi.xlen then
      shutDown D
      return .done
    else
      refill D len.toNat
      lastWords D
      return .continue

/-- The loop of `dw_wait`: what the last call returned. -/
def calls : ℕ → SpiM ρ H Intr
  | 0 => return .continue
  | rounds + 1 => do
      let status ← dw_process_interrupts D
      if status = .continue then calls rounds else return status

/-- `dw_wait`. -/
def dw_wait (rounds : ℕ) : SpiM ρ H XferStatus := do
  let status ← calls D rounds
  match status with
  | .done => return .eok
  | .continue => return .etimedout
  | .err => return .eio

/-! ### A transfer -/

/-- The bytes of a word, as `dlen` is computed first. -/
def Cfg.bytes (cfg : Cfg) : ℕ := (cfg.nbits + DW_NBIT_ROUNDER) / 8

/-- `dscales`. -/
def dscales : ℕ → ℕ
  | 0 => 0
  | 1 => 0
  | 2 => 1
  | _ => 2

/-- `DW_PSSI_CTRLR0_DFS_CONFIG`. -/
def dfsConfig (dlen : ℕ) : BitVec 32 :=
  if dlen < 2 then BitVec.ofNat 32 (SPI_DFS_DEFAULT * dlen - 1)
  else BitVec.ofNat 32 (SPI_DFS_DEFAULT * dlen - 1) <<< 16

/-- The bits of the mode. -/
def modeBits (cfg : Cfg) (spi : DwSpi) : BitVec 32 :=
  dfsConfig spi.dlen ||| (if cfg.cpol then DW_SPI_CTRLR0_SCPOL else 0) |||
    (if cfg.cpha then DW_SPI_CTRLR0_SCPHA else 0) |||
  (if spi.loopback then DW_PSSI_CTRLR0_SRL else 0) ||| (if spi.sste then DW_SPI_SSTE else 0)

/-- `dw_prepare_for_transfer`: whether it returned `EOK`. -/
def dw_prepare_for_transfer (cfg : Cfg) (tnbytes rnbytes : ℕ) : SpiM ρ H Bool :=
  if cfg.nbits ≤ SPI_MIN_WORD_WIDTH ∨ SPI_MAX_WORD_WIDTH < cfg.nbits then return false
  else do
    dw_spi_enable D DW_SPI_DISABLE
    let nbytes := max tnbytes rnbytes
    update fun spi => { spi with
      dlen := if cfg.bytes = 3 then 4 else cfg.bytes
      dscale := dscales cfg.bytes
      xlen := nbytes / 2 ^ dscales cfg.bytes }
    let spi ← soft
    if spi.xlen = 0 ∨ nbytes ≠ spi.xlen * 2 ^ spi.dscale then return false
    else if cfg.clock_rate = 0 then return false
    else
      update fun spi => { spi with cr0 := modeBits cfg spi }
      let version ← read32 D .version
      update fun spi => { spi with
        cr0 := if DW_HSSI_102A ≤ version then spi.cr0 ||| DW_SPI_CTRLR0_IS_MST else spi.cr0 }
      let spi ← soft
      write32 D .baudr (BitVec.ofNat 32 (spi.input_clk / cfg.clock_rate))
      write32 D .ctrlr0 spi.cr0
      write32 D .ctrlr1 0
      update fun spi => { spi with rlen := 0, tlen := 0, counts := [(0, 0)] }
      return true

/-- `dw_xfer` once the transfer is prepared, up to the wait. -/
def prefill (devno : ℕ) : SpiM ρ H PUnit := do
  write32 D .dmacr 0
  dw_device_reset D
  let spi ← soft
  let len := min spi.xlen (spi.fifo_len / SPI_FIFO_LEN_DIV)
  dw_write_fifo D len
  update fun spi => spi.sent len
  let spi ← soft
  if spi.tlen < spi.xlen then
    write32 D .imr DW_SPI_INT_MASK
    write32 D .rxftlr (BitVec.ofNat 32 (subW 32 len 1))
    write32 D .txftlr (BitVec.ofNat 32 len)
    dw_spi_select_slave D devno
  else
    write32 D .imr (DW_SPI_INT_RXUI ||| DW_SPI_INT_RXOI ||| DW_SPI_INT_RXFI)
    write32 D .rxftlr (BitVec.ofNat 32 (subW 32 len 1))
    dw_spi_select_slave D devno

/-- `dw_xfer` up to the wait: what it returns if it does not come to it. -/
def begin (cfg : Cfg) (devno : ℕ) (buf : ℕ → UInt8) (tnbytes rnbytes : ℕ) :
    SpiM ρ H (Option XferStatus) := do
  let busy ← dw_spi_busy D
  if busy then return some .ebusy
  else
    update fun spi => { spi with pbuf := buf }
    let ok ← dw_prepare_for_transfer D cfg tnbytes rnbytes
    if ok = false then return some .einval
    else
      prefill D devno
      return none

/-- `dw_xfer`. -/
def dw_xfer (rounds : ℕ) (cfg : Cfg) (devno : ℕ) (buf : ℕ → UInt8) (tnbytes rnbytes : ℕ) :
    SpiM ρ H XferStatus := do
  let early ← begin D cfg devno buf tnbytes rnbytes
  match early with
  | some status => return status
  | none =>
      let status ← dw_wait D rounds
      dw_spi_enable D DW_SPI_DISABLE
      return status

end Code

end Spi
