import RpiBsp.Support.Device
import RpiBsp.Support.Word

/-!
# I2c — definitions

The DesignWare I2C master of `hardware/i2c/dwc`: the interrupt handler and the wait for completion
(`wait.c`), activation of the bus and initialisation (`init.c`), the three transfer functions
(`send.c`, `recv.c`, `sendrecv.c`), the slave address and the bus speed.

The driver runs on any `Device` with these registers.  `dwc_i2c_wait_complete` waits in a loop that
ends with the transfer or when no interrupt comes in time; `rounds` is how many come before one does
not. `stop`, `restart` and `active_no_stop` are only ever tested against zero and are Booleans.  The
bits of `i2c_status_t` are named, since `hw/i2c.h` is not part of the source.

`Seen` is what an observer of the registers has seen: the commands, with the target and the mode
they were written under, the words that were read, and how often the controller was reset.
-/

namespace I2c

open Support

/-- The registers the driver uses. -/
inductive Reg where
  | con
  | tar
  | data_cmd
  | ss_scl_hcnt
  | ss_scl_lcnt
  | fs_scl_hcnt
  | fs_scl_lcnt
  | intr_stat
  | intr_mask
  | rx_tl
  | tx_tl
  | clr_intr
  | clr_tx_abrt
  | clr_stop_det
  | enable
  | status
  | rxflr
  | sda_hold
  | tx_abrt_source
  | enable_status
  | comp_param_1
  | comp_version
  | comp_type
  | soft_reset
deriving DecidableEq, Repr

def DW_IC_CON_MASTER : BitVec 32 := 0x01
def DW_IC_CON_SPEED_MASK : BitVec 32 := 0x06
def DW_IC_CON_SPEED_STD : BitVec 32 := 0x02
def DW_IC_CON_SPEED_FAST : BitVec 32 := 0x04
def DW_IC_CON_10BITADDR_MASTER : BitVec 32 := 0x10
def DW_IC_CON_7BITADDR_MASTER : BitVec 32 := 0
def DW_IC_CON_RESTART_EN : BitVec 32 := 0x20
def DW_IC_CON_SLAVE_DISABLE : BitVec 32 := 0x40

def DW_IC_TAR_10BITADDR_MASTER : BitVec 32 := 0x1000

def DW_IC_DATA_CMD_WRITE : BitVec 32 := 0
def DW_IC_DATA_CMD_READ : BitVec 32 := 0x0100
def DW_IC_DATA_CMD_STOP : BitVec 32 := 0x0200
def DW_IC_DATA_CMD_RESTART : BitVec 32 := 0x0400

def DW_IC_INTR_RX_FULL : BitVec 32 := 0x004
def DW_IC_INTR_TX_EMPTY : BitVec 32 := 0x010
def DW_IC_INTR_TX_ABRT : BitVec 32 := 0x040
def DW_IC_INTR_STOP_DET : BitVec 32 := 0x200
def DW_IC_INTR_DEFAULT_MASK : BitVec 32 :=
  DW_IC_INTR_RX_FULL ||| DW_IC_INTR_TX_EMPTY ||| DW_IC_INTR_TX_ABRT ||| DW_IC_INTR_STOP_DET

def DW_IC_COMP_PARAM_1_RX_DEPTH_F : ℕ := 8
def DW_IC_COMP_PARAM_1_TX_DEPTH_F : ℕ := 16

def DW_IC_TX_ABRT_TXDATA_NOACK : BitVec 32 := 0x08
def DW_IC_TX_ABRT_ADDR_NOACK : BitVec 32 := 0x01 ||| 0x02 ||| 0x04
def DW_IC_TX_ARBT_LOST : BitVec 32 := 0x1000

def DW_IC_ENABLE_STATUS_ENABLE_MASK : BitVec 32 := 0x01
def DW_IC_ENABLE_STATUS_ENABLE : BitVec 32 := 0x01
def DW_IC_ENABLE_STATUS_DISABLE : BitVec 32 := 0
def DW_IC_ENABLE_ABORT : BitVec 32 := 0x02

def DW_IC_SOFT_RESET_ASSERTED : BitVec 32 := 0
def DW_IC_SOFT_RESET_NOT_ASSERTED : BitVec 32 := 3

def DW_IC_STATUS_ACTIVITY : BitVec 32 := 0x01
def DW_IC_STATUS_TFNF : BitVec 32 := 0x02
def DW_IC_STATUS_TFE : BitVec 32 := 0x04
def DW_IC_STATUS_RFNE : BitVec 32 := 0x08

def DW_IC_SDA_HOLD_MIN_VERS : BitVec 32 := 0x3131312a
def DW_IC_COMP_TYPE_VALUE : BitVec 32 := 0x44570140
def SDA_HOLD_TIME_VALUE_ns : ℕ := 350

def RESET_RETRY : ℕ := 3
def BUSY_RETRY : ℕ := 3
def DW_I2C_TIMEOUT : ℕ := 20

/-! ### State -/

/-- The bits of an `i2c_status_t`. -/
structure Status where
  done : Bool := false
  error : Bool := false
  addr_nack : Bool := false
  data_nack : Bool := false
  arbl : Bool := false
  busy : Bool := false
  abort : Bool := false
deriving DecidableEq, Repr

def I2C_STATUS_DONE : Status := { done := true }
def I2C_STATUS_ERROR : Status := { error := true }
def I2C_STATUS_BUSY : Status := { busy := true }

/-- `i2c_addrfmt_t`. -/
inductive AddrFmt where
  | bit7
  | bit10
  | other
deriving DecidableEq, Repr

/-- `struct scl_timing_param`. -/
structure SclTiming where
  high : ℕ
  low : ℕ
  fall : ℕ
deriving DecidableEq, Repr

/-- A command, and the target and mode it was written under, if they were set since a reset. -/
structure Sent where
  cmd : BitVec 32
  tar : Option (BitVec 32)
  con : Option (BitVec 32)
deriving DecidableEq, Repr

/-- What was seen of the registers. -/
structure Seen where
  tar : Option (BitVec 32) := none
  con : Option (BitVec 32) := none
  sent : List Sent := []
  got : List (BitVec 32) := []
  resets : ℕ := 0
deriving DecidableEq, Repr

/-- `dwc_dev_t`. -/
structure Dwc where
  slave_addr : BitVec 32
  slave_addr_fmt : AddrFmt
  fast : SclTiming
  std : SclTiming
  clock_khz : ℕ
  scl_freq : ℕ
  sda_hold_time : ℕ
  /-- The bytes at `txbuf`, and how far it was advanced. -/
  txbuf : ℕ → UInt8
  txpos : ℕ
  /-- The bytes that were stored at `rxbuf`. -/
  rxbuf : List UInt8
  xlen : ℕ
  txlen : ℕ
  rxlen : ℕ
  wrlen : ℕ
  rdlen : ℕ
  stop : Bool
  active_no_stop : Bool
  restart : Bool
  active_slave_addr : BitVec 32
  active_slave_addr_fmt : AddrFmt
  master_cfg : BitVec 32
  status : Status
  abort_source : BitVec 32
  fifo_depth : ℕ
  seen : Seen

/-- Some bit of the mask is set. -/
def Has (v mask : BitVec 32) : Prop := v &&& mask ≠ 0

instance (v mask : BitVec 32) : Decidable (Has v mask) := inferInstanceAs (Decidable (_ ≠ _))

def Sent.IsRead (c : Sent) : Prop := Has c.cmd DW_IC_DATA_CMD_READ

instance : DecidablePred Sent.IsRead := fun c => inferInstanceAs (Decidable (Has c.cmd _))

/-- What writing a register shows. -/
def Seen.write (r : Reg) (v : BitVec 32) (w : Seen) : Seen :=
  match r with
  | .con => { w with con := some v }
  | .tar => { w with tar := some v }
  | .data_cmd => { w with sent := w.sent ++ [⟨v, w.tar, w.con⟩] }
  | .soft_reset =>
      if v = DW_IC_SOFT_RESET_ASSERTED then
        { w with tar := none, con := none, resets := w.resets + 1 } else w
  | _ => w

/-- What reading a register shows. -/
def Seen.read (r : Reg) (v : BitVec 32) (w : Seen) : Seen :=
  match r with
  | .data_cmd => { w with got := w.got ++ [v] }
  | _ => w

section Code

variable {ρ H : Type} (D : Device ρ Reg H)

/-- The driver. -/
abbrev I2cM (ρ H : Type) := Driver ρ Dwc H

open Driver

/-! ### Registers -/

/-- `i2c_reg_read32`. -/
def i2c_reg_read32 (r : Reg) : I2cM ρ H (BitVec 32) := do
  let v ← read32 D r
  update fun dev => { dev with seen := dev.seen.read r v }
  return v

/-- `i2c_reg_write32`. -/
def i2c_reg_write32 (r : Reg) (v : BitVec 32) : I2cM ρ H PUnit := do
  write32 D r v
  update fun dev => { dev with seen := dev.seen.write r v }

/-- `xmit_FIFO_is_full`. -/
def xmit_FIFO_is_full : I2cM ρ H Bool := do
  let v ← i2c_reg_read32 D .status
  return decide (v &&& DW_IC_STATUS_TFNF = 0)

/-- The loop of `dwc_i2c_enable`. -/
def enableLoop (enable : BitVec 32) : ℕ → I2cM ρ H Bool
  | 0 => return false
  | timeout + 1 => do
      i2c_reg_write32 D .enable enable
      let v ← i2c_reg_read32 D .enable_status
      if v &&& DW_IC_ENABLE_STATUS_ENABLE_MASK = enable then return true
      else enableLoop enable timeout

/-- `dwc_i2c_enable`: whether it returned 0. -/
def dwc_i2c_enable (enable : BitVec 32) : I2cM ρ H Bool := enableLoop D enable 1001

/-- The loop of `dwc_i2c_wait_bus_not_busy`. -/
def busyLoop : ℕ → I2cM ρ H Bool
  | 0 => do
      let v ← i2c_reg_read32 D .status
      return decide (¬ Has v DW_IC_STATUS_ACTIVITY)
  | timeout + 1 => do
      let v ← i2c_reg_read32 D .status
      if ¬ Has v DW_IC_STATUS_ACTIVITY then return true else busyLoop timeout

/-- `dwc_i2c_wait_bus_not_busy`: whether it returned 0. -/
def dwc_i2c_wait_bus_not_busy : I2cM ρ H Bool := busyLoop D (DW_I2C_TIMEOUT * 10)

/-! ### Initialisation -/

/-- `dwc_i2c_set_bus_speed`: whether it returned 0. -/
def dwc_i2c_set_bus_speed (speed : ℕ) : I2cM ρ H Bool := do
  let dev ← soft
  if speed = dev.scl_freq then return true
  else if speed = 100000 then
    update fun dev => { dev with
      scl_freq := 100000
      master_cfg := dev.master_cfg &&& ~~~DW_IC_CON_SPEED_MASK ||| DW_IC_CON_SPEED_STD }
    return true
  else if speed = 400000 then
    update fun dev => { dev with
      scl_freq := 400000
      master_cfg := dev.master_cfg &&& ~~~DW_IC_CON_SPEED_MASK ||| DW_IC_CON_SPEED_FAST }
    return true
  else return false

/-- `dwc_i2c_set_slave_addr`: whether it returned 0. -/
def dwc_i2c_set_slave_addr (addr : BitVec 32) (fmt : AddrFmt) : I2cM ρ H Bool :=
  match fmt with
  | .bit7 =>
      if 0x7f < addr then return false
      else do
        update fun dev => { dev with
          master_cfg := dev.master_cfg &&& ~~~DW_IC_CON_10BITADDR_MASTER, slave_addr :=
            addr, slave_addr_fmt := fmt }
        return true
  | .bit10 =>
      if 0x3ff < addr then return false
      else do
        update fun dev => { dev with
          master_cfg := dev.master_cfg ||| DW_IC_CON_10BITADDR_MASTER, slave_addr :=
            addr, slave_addr_fmt := fmt }
        return true
  | .other => return false

/-- `i2c_dw_scl_hcnt` with `cond` 0, as it is called. -/
def i2c_dw_scl_hcnt (ic_clk tsymbol tf : ℕ) : ℕ :=
  subW 32 (((ic_clk * (tsymbol + tf)) % 2 ^ 32 + 500000) % 2 ^ 32 / 1000000) 3

/-- `i2c_dw_scl_lcnt`. -/
def i2c_dw_scl_lcnt (ic_clk tlow tf : ℕ) : ℕ :=
  subW 32 (((ic_clk * (tlow + tf)) % 2 ^ 32 + 500000) % 2 ^ 32 / 1000000) 1

/-- `dwc_i2c_get_input_clock`. -/
def dwc_i2c_get_input_clock : ℕ := 200000

/-- `dwc_i2c_set_fifo_threshold`. -/
def dwc_i2c_set_fifo_threshold : I2cM ρ H PUnit := do
  let v ← i2c_reg_read32 D .comp_param_1
  let tx_fifo_depth := (v >>> DW_IC_COMP_PARAM_1_TX_DEPTH_F &&& 0xff).toNat + 1
  let rx_fifo_depth := (v >>> DW_IC_COMP_PARAM_1_RX_DEPTH_F &&& 0xff).toNat + 1
  let fifo_depth := min tx_fifo_depth rx_fifo_depth
  update fun dev => { dev with fifo_depth := fifo_depth }
  i2c_reg_write32 D .tx_tl (BitVec.ofNat 32 (fifo_depth / 2))
  i2c_reg_write32 D .rx_tl (BitVec.ofNat 32 (fifo_depth / 2))

/-- `dwc_i2c_init_registers`. -/
def dwc_i2c_init_registers : I2cM ρ H PUnit := do
  update fun dev => if dev.clock_khz = 0 then { dev with clock_khz := dwc_i2c_get_input_clock }
    else dev
  let dev ← soft
  let fs_lcnt := i2c_dw_scl_lcnt dev.clock_khz dev.fast.low dev.fast.fall
  i2c_reg_write32 D .ss_scl_hcnt
    (BitVec.ofNat 32 (i2c_dw_scl_hcnt dev.clock_khz dev.std.high dev.std.fall))
  i2c_reg_write32 D .ss_scl_lcnt
    (BitVec.ofNat 32 (i2c_dw_scl_lcnt dev.clock_khz dev.std.low dev.std.fall))
  i2c_reg_write32 D .fs_scl_hcnt
    (BitVec.ofNat 32 (i2c_dw_scl_hcnt dev.clock_khz dev.fast.high dev.fast.fall))
  i2c_reg_write32 D .fs_scl_lcnt (BitVec.ofNat 32 fs_lcnt)
  let version ← i2c_reg_read32 D .comp_version
  let sda_hold_time := max dev.sda_hold_time
    (((dev.clock_khz * SDA_HOLD_TIME_VALUE_ns) % 2 ^ 32 + 500000) % 2 ^ 32 / 1000000)
  doIf (DW_IC_SDA_HOLD_MIN_VERS ≤ version ∧ sda_hold_time < fs_lcnt)
    (i2c_reg_write32 D .sda_hold (BitVec.ofNat 32 sda_hold_time))
  dwc_i2c_set_fifo_threshold D
  let _ ← dwc_i2c_set_bus_speed 100000
  let _ ← i2c_reg_read32 D .clr_intr
  i2c_reg_write32 D .intr_mask 0

/-- `dwc_i2c_init` when the registers are mapped: whether it goes on with the component it finds. -/
def dwc_i2c_init : I2cM ρ H Bool := do
  let reg ← i2c_reg_read32 D .comp_type
  if reg ≠ DW_IC_COMP_TYPE_VALUE then return false
  else
    let _ ← dwc_i2c_enable D DW_IC_ENABLE_STATUS_DISABLE
    dwc_i2c_init_registers D
    return true

/-- The loop of `dwc_i2c_reset`. -/
def resetLoop : ℕ → I2cM ρ H PUnit
  | 0 => return ⟨⟩
  | reset_retry + 1 => do
      i2c_reg_write32 D .soft_reset DW_IC_SOFT_RESET_ASSERTED
      i2c_reg_write32 D .soft_reset DW_IC_SOFT_RESET_NOT_ASSERTED
      let ok ← dwc_i2c_enable D DW_IC_ENABLE_STATUS_DISABLE
      if ok then dwc_i2c_init_registers D else resetLoop reset_retry

/-- `dwc_i2c_reset`. -/
def dwc_i2c_reset : I2cM ρ H PUnit := do
  i2c_reg_write32 D .enable (DW_IC_ENABLE_ABORT ||| DW_IC_ENABLE_STATUS_ENABLE)
  update fun dev => { dev with active_no_stop := false, restart := false }
  let _ ← dwc_i2c_enable D DW_IC_ENABLE_STATUS_DISABLE
  resetLoop D RESET_RETRY

/-! ### The interrupt handler -/

/-- What the handler returns. -/
inductive Handled where
  | eok
  | eagain
deriving DecidableEq, Repr

/-- The status for an abort. -/
def abortStatus (abort_source : BitVec 32) : Status :=
  if Has abort_source DW_IC_TX_ARBT_LOST then { done := true, arbl := true }
  else if Has abort_source DW_IC_TX_ABRT_ADDR_NOACK then { done := true, addr_nack := true }
  else if Has abort_source DW_IC_TX_ABRT_TXDATA_NOACK then { done := true, data_nack := true }
  else { done := true, abort := true }

/-- The branch for `DW_IC_INTR_TX_ABRT`. -/
def onAbort : I2cM ρ H PUnit := do
  let abort_source ← i2c_reg_read32 D .tx_abrt_source
  let _ ← i2c_reg_read32 D .clr_tx_abrt
  update fun dev => { dev with abort_source := abort_source, status := abortStatus abort_source }
  i2c_reg_write32 D .intr_mask 0

/-- A byte is taken from the FIFO. -/
def readByte : I2cM ρ H PUnit := do
  let reg ← i2c_reg_read32 D .data_cmd
  update fun dev => { dev with
    rxbuf := dev.rxbuf ++ [UInt8.ofNat (reg &&& 0x00ff).toNat], rdlen := addW 32 dev.rdlen 1 }

/-- The loops that take `numbers` bytes. -/
def readBytes : ℕ → I2cM ρ H PUnit
  | 0 => return ⟨⟩
  | numbers + 1 => do
      readByte D
      readBytes numbers

/-- The bytes that are left in the FIFO when a STOP was seen. -/
def takeRest : I2cM ρ H PUnit := do
  let dev ← soft
  if dev.rdlen < dev.rxlen then
    let numbers ← i2c_reg_read32 D .rxflr
    if addW 32 dev.rdlen numbers.toNat ≠ dev.rxlen then
      update fun dev => { dev with status := I2C_STATUS_ERROR }
    else readBytes D numbers.toNat
  else return ⟨⟩

/-- The branch for `DW_IC_INTR_STOP_DET`. -/
def onStop : I2cM ρ H PUnit := do
  let _ ← i2c_reg_read32 D .clr_stop_det
  takeRest D
  update fun dev => { dev with status := { dev.status with done := true } }
  i2c_reg_write32 D .intr_mask 0

/-- Take bits out of the interrupt mask. -/
def maskOff (bits : BitVec 32) : I2cM ρ H PUnit := do
  let reg ← i2c_reg_read32 D .intr_mask
  i2c_reg_write32 D .intr_mask (reg &&& ~~~bits)

/-- The branch for `DW_IC_INTR_RX_FULL`. -/
def onRxFull : I2cM ρ H PUnit := do
  let dev ← soft
  if dev.rdlen < dev.rxlen then
    let numbers ← i2c_reg_read32 D .rxflr
    if dev.rxlen < addW 32 dev.rdlen numbers.toNat then
      update fun dev => { dev with status := { dev.status with error := true } }
      maskOff D DW_IC_INTR_RX_FULL
      readBytes D (dev.rxlen - dev.rdlen)
    else readBytes D numbers.toNat
  else maskOff D DW_IC_INTR_RX_FULL

/-- The next command. -/
def nextCmd (dev : Dwc) : BitVec 32 :=
  let last := dev.stop ∧ dev.wrlen = dev.xlen - 1
  let reg :=
    if dev.wrlen < dev.txlen then
      if last then BitVec.ofNat 32 (dev.txbuf dev.txpos).toNat ||| DW_IC_DATA_CMD_WRITE |||
        DW_IC_DATA_CMD_STOP
      else BitVec.ofNat 32 (dev.txbuf dev.txpos).toNat ||| DW_IC_DATA_CMD_WRITE
    else if dev.wrlen = dev.txlen ∧ dev.txlen ≠ 0 then
      if last then DW_IC_DATA_CMD_READ ||| DW_IC_DATA_CMD_RESTART ||| DW_IC_DATA_CMD_STOP
      else DW_IC_DATA_CMD_READ ||| DW_IC_DATA_CMD_RESTART
    else if last then DW_IC_DATA_CMD_READ ||| DW_IC_DATA_CMD_STOP
    else DW_IC_DATA_CMD_READ
  if dev.restart ∧ dev.wrlen = 0 then reg ||| DW_IC_DATA_CMD_RESTART else reg

/-- The loop of the branch for `DW_IC_INTR_TX_EMPTY`. -/
def fillLoop : ℕ → I2cM ρ H PUnit
  | 0 => return ⟨⟩
  | i + 1 => do
      let dev ← soft
      if dev.xlen ≤ dev.wrlen then
        if dev.stop ∨ dev.rxlen ≠ 0 then maskOff D DW_IC_INTR_TX_EMPTY
        else
          let v ← i2c_reg_read32 D .status
          doIf (Has v DW_IC_STATUS_TFE) (maskOff D DW_IC_INTR_TX_EMPTY)
      else
        let full ← xmit_FIFO_is_full D
        if full then return ⟨⟩
        else
          i2c_reg_write32 D .data_cmd (nextCmd dev)
          update fun dev => { dev with
            txpos := if dev.wrlen < dev.txlen then dev.txpos + 1 else dev.txpos, wrlen :=
              dev.wrlen + 1 }
          fillLoop i

/-- The loop that empties the FIFO when there is to be no STOP, for as many bytes as are missing. -/
def drainLoop : ℕ → I2cM ρ H PUnit
  | 0 => return ⟨⟩
  | missing + 1 => do
      let v ← i2c_reg_read32 D .status
      if Has v DW_IC_STATUS_RFNE then
        readByte D
        drainLoop missing
      else return ⟨⟩

/-- The end of the handler, for a transfer without STOP. -/
def onNoStop : I2cM ρ H Handled := do
  let dev ← soft
  drainLoop D (dev.rxlen - dev.rdlen)
  let dev ← soft
  if dev.xlen ≤ dev.wrlen ∧ dev.rxlen ≤ dev.rdlen then
    let v ← i2c_reg_read32 D .status
    if Has v DW_IC_STATUS_TFE then
      update fun dev => { dev with status := { dev.status with done := true } }
      i2c_reg_write32 D .intr_mask 0
      return .eok
    else return .eagain
  else return .eagain

/-- The branches for data. -/
def onData (status : BitVec 32) : I2cM ρ H Handled := do
  doIf (Has status DW_IC_INTR_RX_FULL) (onRxFull D)
  doIf (Has status DW_IC_INTR_TX_EMPTY) (do
    let dev ← soft
    fillLoop D dev.fifo_depth)
  let dev ← soft
  if dev.stop then return .eagain else onNoStop D

/-- `dwc_i2c_process_intr`. -/
def dwc_i2c_process_intr : I2cM ρ H Handled := do
  let status ← i2c_reg_read32 D .intr_stat
  if Has status DW_IC_INTR_TX_ABRT then
    onAbort D
    return .eok
  else if Has status DW_IC_INTR_STOP_DET then
    onStop D
    return .eok
  else onData D status

/-- `dwc_i2c_wait_complete`. -/
def dwc_i2c_wait_complete : ℕ → I2cM ρ H Status
  | 0 => do
      let _ ← i2c_reg_read32 D .status
      dwc_i2c_reset D
      return { done := true, error := true }
  | rounds + 1 => do
      let handled ← dwc_i2c_process_intr D
      match handled with
      | .eagain => dwc_i2c_wait_complete rounds
      | .eok =>
          let dev ← soft
          doIf (dev.status.arbl ∨ dev.status.error) (dwc_i2c_reset D)
          i2c_reg_write32 D .intr_mask 0
          let dev ← soft
          return dev.status

/-! ### Transfers -/

/-- The rest of the wait in `dwc_i2c_bus_active` when the bus was busy. -/
def busyRetry : ℕ → I2cM ρ H Bool
  | 0 => do
      dwc_i2c_reset D
      dwc_i2c_wait_bus_not_busy D
  | busy_retry + 1 => do
      let ok ← dwc_i2c_wait_bus_not_busy D
      if ok then return true else busyRetry busy_retry

/-- What `dwc_i2c_bus_active` writes to `DW_IC_TAR`. -/
def targetOf (addr : BitVec 32) (fmt : AddrFmt) : BitVec 32 :=
  if fmt = .bit7 then addr else addr ||| DW_IC_TAR_10BITADDR_MASTER

/-- The rest of `dwc_i2c_bus_active` when the bus is free: whether it returns 0. -/
def activate : I2cM ρ H Bool := do
  let ok ← dwc_i2c_enable D DW_IC_ENABLE_STATUS_DISABLE
  if ¬ ok then
    dwc_i2c_reset D
    return false
  else
    let dev ← soft
    i2c_reg_write32 D .tar (targetOf dev.slave_addr dev.slave_addr_fmt)
    update fun dev => { dev with
      active_slave_addr := dev.slave_addr, active_slave_addr_fmt := dev.slave_addr_fmt }
    i2c_reg_write32 D .con dev.master_cfg
    i2c_reg_write32 D .intr_mask 0
    let ok ← dwc_i2c_enable D DW_IC_ENABLE_STATUS_ENABLE
    if ¬ ok then
      dwc_i2c_reset D
      return false
    else return true

/-- `dwc_i2c_bus_active`: whether it returned 0. -/
def dwc_i2c_bus_active : I2cM ρ H Bool := do
  let dev ← soft
  if dev.active_no_stop then
    if dev.slave_addr ≠ dev.active_slave_addr ∨ dev.slave_addr_fmt ≠ dev.active_slave_addr_fmt then
      dwc_i2c_reset D
      return false
    else
      update fun dev => { dev with restart := true }
      i2c_reg_write32 D .intr_mask 0
      return true
  else
    update fun dev => { dev with restart := false }
    let ok ← dwc_i2c_wait_bus_not_busy D
    let ok ← (if ok then pure true else busyRetry D BUSY_RETRY)
    if ¬ ok then return false else activate D

/-- What the three transfer functions do once the bus is active. -/
def exchange (rounds : ℕ) : I2cM ρ H Status := do
  i2c_reg_write32 D .rx_tl 0
  let _ ← i2c_reg_read32 D .clr_intr
  i2c_reg_write32 D .intr_mask DW_IC_INTR_DEFAULT_MASK
  let ret ← dwc_i2c_wait_complete D rounds
  i2c_reg_write32 D .intr_mask 0
  update fun dev => { dev with active_no_stop := decide (ret = I2C_STATUS_DONE ∧ ¬ dev.stop) }
  let dev ← soft
  doIf dev.stop (do
    let _ ← dwc_i2c_enable D DW_IC_ENABLE_STATUS_DISABLE)
  return ret

/-- What the three transfer functions do once the lengths are set. -/
def transfer (rounds : ℕ) : I2cM ρ H Status := do
  let ok ← dwc_i2c_bus_active D
  if ¬ ok then return I2C_STATUS_BUSY else exchange D rounds

/-- The lengths of a transfer. -/
def Dwc.begin (dev : Dwc) (txlen rxlen : ℕ) (stop : Bool) : Dwc := { dev with
  txlen := txlen, rxlen := rxlen, xlen := addW 32 txlen rxlen, wrlen := 0, rdlen := 0, stop :=
    stop, status := {} }

/-- `dwc_i2c_send`. -/
def dwc_i2c_send (rounds : ℕ) (buf : ℕ → UInt8) (len : ℕ) (stop : Bool) : I2cM ρ H Status :=
  if len = 0 then return I2C_STATUS_DONE
  else do
    update fun dev => { dev.begin len 0 stop with txbuf := buf, txpos := 0 }
    transfer D rounds

/-- `dwc_i2c_recv`. -/
def dwc_i2c_recv (rounds len : ℕ) (stop : Bool) : I2cM ρ H Status :=
  if len = 0 then return I2C_STATUS_DONE
  else do
    update fun dev => { dev.begin 0 len stop with rxbuf := [] }
    transfer D rounds

/-- `dwc_i2c_sendrecv`. -/
def dwc_i2c_sendrecv (rounds : ℕ) (txbuf : ℕ → UInt8) (txlen rxlen : ℕ) (stop : Bool) :
    I2cM ρ H Status :=
  if 2 ^ 32 - 1 - rxlen < txlen then return I2C_STATUS_ERROR
  else do
    update fun dev => { dev.begin txlen rxlen stop with txbuf := txbuf, txpos := 0, rxbuf := [] }
    if txlen + rxlen = 0 then return I2C_STATUS_DONE else transfer D rounds

end Code

end I2c
