import RpiBsp.Support.Device

/-!
# Devc — definitions

The serial driver of `hardware/devc/serpl011` without DMA: `tto` and `ser_stty` (`tto.c`) on one
PL011.  The registers of a UART keep what is written to them, but for `FR`, whose value at each read
comes from outside.

The terminal is what the character library shares with the driver: the library changes all of it
between two calls. `tto_getchar` is the library's, and what it does to the output buffer is a
parameter.
-/

namespace Devc

open Support

/-! ### The UART -/

/-- The registers the driver uses. -/
inductive Reg where
  | dr
  | fr
  | ibrd
  | fbrd
  | lcr_h
  | cr
  | ifls
  | imsc
  | icr
  | dmacr
  | timeout
deriving DecidableEq, Repr

def PL011_FR_BUSY : BitVec 32 := 1 <<< 3
def PL011_FR_TXFF : BitVec 32 := 1 <<< 5

def PL011_LCR_H_BRK : BitVec 32 := 1 <<< 0
def PL011_LCR_H_PEN : BitVec 32 := 1 <<< 1
def PL011_LCR_H_EPS : BitVec 32 := 1 <<< 2
def PL011_LCR_H_STP2 : BitVec 32 := 1 <<< 3
def PL011_LCR_H_FEN : BitVec 32 := 1 <<< 4
def PL011_LCR_H_WLEN5 : BitVec 32 := 0 <<< 5
def PL011_LCR_H_WLEN6 : BitVec 32 := 1 <<< 5
def PL011_LCR_H_WLEN7 : BitVec 32 := 2 <<< 5
def PL011_LCR_H_WLEN8 : BitVec 32 := 3 <<< 5

def PL011_CR_UARTEN : BitVec 32 := 1 <<< 0
def PL011_CR_OVSFACT : BitVec 32 := 1 <<< 3
def PL011_CR_LBE : BitVec 32 := 1 <<< 7
def PL011_CR_TXE : BitVec 32 := 1 <<< 8
def PL011_CR_RXE : BitVec 32 := 1 <<< 9
def PL011_CR_DTR : BitVec 32 := 1 <<< 10
def PL011_CR_RTSEn : BitVec 32 := 1 <<< 14
def PL011_CR_CTSEn : BitVec 32 := 1 <<< 15

def PL011_IMSC_RXIM : BitVec 32 := 1 <<< 4
def PL011_IMSC_TXIM : BitVec 32 := 1 <<< 5
def PL011_IMSC_RTIM : BitVec 32 := 1 <<< 6

/-- Some bit of the mask is set. -/
def Has (v mask : BitVec 32) : Prop := v &&& mask ≠ 0

instance (v mask : BitVec 32) : Decidable (Has v mask) := inferInstanceAs (Decidable (_ ≠ _))

/-- What is in the registers. -/
abbrev Regs := Reg → BitVec 32

/-- The UART, with what `FR` reads. -/
def uart : Device (BitVec 32) Reg Regs where
  read fr r h := (if r = .fr then fr else h r, h)
  write _ r v h := Function.update h r v

/-! ### The terminal -/

/-- `CSIZE`. -/
inductive Csize where
  | cs5
  | cs6
  | cs7
  | cs8
deriving DecidableEq, Repr

/-- The bits of `c_cflag` the driver uses. -/
structure Cflag where
  csize : Csize
  cstopb : Bool
  parenb : Bool
  parodd : Bool
  ihflow : Bool
  ohflow : Bool
deriving DecidableEq, Repr

/-- `TTYBUF`: a ring. -/
structure Ttybuf where
  buff : ℕ → UInt8
  size : ℕ
  tail : ℕ
  cnt : ℕ

/-- The fields of `TTYDEV` the driver uses. -/
structure Tty where
  obuf : Ttybuf
  c_cflag : Cflag
  baud : ℕ
  /-- `OHW_PAGED` or `OSW_PAGED` in `flags`. -/
  paged : Bool
  /-- `OSW_PAGED_OVERRIDE` in `xflags`. -/
  override : Bool

/-- `DEV_PL011`. -/
structure DevPl011 where
  tty : Tty
  fifosize : ℕ
  fifo : ℕ
  clk : ℕ
  div : ℕ
  baud : ℕ
  lcr_h : BitVec 32
  ibrd : ℕ
  fbrd : ℕ
  cr : BitVec 32
  imr : BitVec 32
  loopback : Bool

/-- What `TTO_CTRL` is given: which lines are to change, and to what. -/
structure Serctl where
  brkChg : Bool
  brk : Bool
  dtrChg : Bool
  dtr : Bool
deriving DecidableEq, Repr

/-- What `tto` is called for. -/
inductive Action where
  | stty
  | ctrl (arg1 : Serctl)
  | data
  | event

/-! ### The code -/

/-- The driver. -/
abbrev UartM := Driver (BitVec 32) DevPl011 Regs

open Driver

def read_pl011 (r : Reg) : UartM (BitVec 32) := read32 uart r

def write_pl011 (r : Reg) (v : BitVec 32) : UartM PUnit := write32 uart r v

/-- `reg |= bit` or `reg &= ~bit`. -/
def put (reg bit : BitVec 32) (on : Bool) : BitVec 32 := if on then reg ||| bit else reg &&& ~~~bit

/-- `TTO_CTRL`. -/
def ctrl (arg1 : Serctl) : UartM PUnit := do
  doIf arg1.brkChg (do
    let reg ← read_pl011 .lcr_h
    write_pl011 .lcr_h (put reg PL011_LCR_H_BRK arg1.brk))
  doIf arg1.dtrChg (do
    let reg ← read_pl011 .cr
    write_pl011 .cr (put reg PL011_CR_DTR arg1.dtr))

/-- The loop that fills the FIFO, with `n` characters to go. -/
def transmit (tto_getchar : Ttybuf → UInt8 × Ttybuf) : ℕ → UartM PUnit
  | 0 => do
      let _ ← read_pl011 .fr
  | n + 1 => do
      let fr ← read_pl011 .fr
      let dev ← soft
      if Has fr PL011_FR_TXFF ∨ dev.tty.obuf.cnt = 0 then return ⟨⟩
      else
        let c := tto_getchar dev.tty.obuf
        write_pl011 .dr (BitVec.ofNat 32 c.1.toNat)
        update fun dev => { dev with tty := { dev.tty with obuf := c.2, override := false } }
        if dev.tty.override then return ⟨⟩ else transmit tto_getchar n

/-- Enable the transmit interrupt if there is more to send, and disable it otherwise. -/
def setTxim : UartM PUnit := do
  let dev ← soft
  if 0 < dev.tty.obuf.cnt then
    doIf (¬ Has dev.imr PL011_IMSC_TXIM) (do
      update fun dev => { dev with imr := dev.imr ||| PL011_IMSC_TXIM }
      write_pl011 .imsc (dev.imr ||| PL011_IMSC_TXIM))
  else
    doIf (Has dev.imr PL011_IMSC_TXIM) (do
      update fun dev => { dev with imr := dev.imr &&& ~~~PL011_IMSC_TXIM }
      write_pl011 .imsc (dev.imr &&& ~~~PL011_IMSC_TXIM))

/-- `TTO_DATA` and `TTO_EVENT`. -/
def send (tto_getchar : Ttybuf → UInt8 × Ttybuf) : UartM PUnit := do
  let dev ← soft
  if dev.tty.paged ∧ dev.tty.override = false then return ⟨⟩
  else
    transmit tto_getchar 1024
    setTxim

/-! ### `ser_stty` -/

/-- The bits of a flag that is set. -/
def flag (on : Bool) (bits : BitVec 32) : BitVec 32 := if on then bits else 0

def DevPl011.newCr (dev : DevPl011) : BitVec 32 :=
  PL011_CR_RXE ||| PL011_CR_TXE ||| PL011_CR_UARTEN ||| flag dev.tty.c_cflag.ohflow
    PL011_CR_CTSEn |||
    flag dev.tty.c_cflag.ihflow PL011_CR_RTSEn ||| flag (dev.div = 8) PL011_CR_OVSFACT |||
      flag dev.loopback PL011_CR_LBE

def Csize.bits : Csize → BitVec 32
  | .cs8 => PL011_LCR_H_WLEN8
  | .cs7 => PL011_LCR_H_WLEN7
  | .cs6 => PL011_LCR_H_WLEN6
  | .cs5 => PL011_LCR_H_WLEN5

def DevPl011.newLcrH (dev : DevPl011) : BitVec 32 :=
  PL011_LCR_H_FEN ||| dev.tty.c_cflag.csize.bits ||| flag dev.tty.c_cflag.cstopb
    PL011_LCR_H_STP2 ||| flag dev.tty.c_cflag.parenb PL011_LCR_H_PEN |||
    flag (dev.tty.c_cflag.parenb && !dev.tty.c_cflag.parodd) PL011_LCR_H_EPS

/-- `ibrd` and `fbrd` for the terminal's rate; there are none if the code divides by zero. -/
def DevPl011.divisors (dev : DevPl011) : Option (ℕ × ℕ) :=
  if dev.baud = dev.tty.baud then some (dev.ibrd, dev.fbrd)
  else if dev.div = 0 ∨ dev.tty.baud = 0 then none
  else
    let clock := dev.clk / dev.div
    some (clock / dev.tty.baud,
      (clock % dev.tty.baud * 64 + (dev.tty.baud + 1) % 2 ^ 32 / 2) % 2 ^ 32 / dev.tty.baud)

/-- The wait for the chip, `t` reads from the last. -/
def chipReady : ℕ → UartM PUnit
  | 0 => do
      let _ ← read_pl011 .fr
      let _ ← read_pl011 .fr
  | t + 1 => do
      let fr ← read_pl011 .fr
      if Has fr PL011_FR_BUSY then chipReady t else return ⟨⟩

/-- `ser_stty` from where it stores the new settings. -/
def setRegisters (cr lcr_h : BitVec 32) (ibrd fbrd : ℕ) : UartM PUnit := do
  update fun dev => { dev with
    imr := PL011_IMSC_RXIM ||| PL011_IMSC_RTIM, lcr_h := lcr_h, ibrd := ibrd, fbrd :=
      fbrd, cr := cr }
  let dev ← soft
  doIf (dev.loopback = false) (chipReady 10000000)
  write_pl011 .cr 0
  write_pl011 .dmacr 0
  let reg ← read_pl011 .lcr_h
  write_pl011 .lcr_h (reg &&& ~~~PL011_LCR_H_FEN)
  doIf (dev.fifosize ≠ 0 ∧ dev.fifo ≠ 0) (do
    write_pl011 .ifls (BitVec.ofNat 32 dev.fifo)
    write_pl011 .timeout 0x1ff)
  write_pl011 .icr 0x7FF
  write_pl011 .ibrd (BitVec.ofNat 32 ibrd)
  write_pl011 .fbrd (BitVec.ofNat 32 fbrd)
  write_pl011 .lcr_h lcr_h
  write_pl011 .cr cr
  write_pl011 .imsc dev.imr

/-- `ser_stty`: whether it returns. -/
def ser_stty : UartM Bool := do
  let dev ← soft
  match dev.divisors with
  | none => return false
  | some (ibrd, fbrd) =>
      update fun dev => { dev with baud := dev.tty.baud }
      doIf (¬ (dev.newCr = dev.cr ∧ dev.newLcrH = dev.lcr_h ∧ ibrd = dev.ibrd ∧ fbrd = dev.fbrd))
        (setRegisters dev.newCr dev.newLcrH ibrd fbrd)
      return true

/-- `tto`: whether it returns. -/
def tto (tto_getchar : Ttybuf → UInt8 × Ttybuf) : Action → UartM Bool
  | .stty => ser_stty
  | .ctrl arg1 => do
      ctrl arg1
      return true
  | .data => do
      send tto_getchar
      return true
  | .event => do
      send tto_getchar
      return true

end Devc
