import Mathlib.Tactic.IntervalCases
import RpiBsp.Gpio.Configure

/-!
# Gpio — the registers of gpio-rp1

A pin of the RP1 has its function in a control register of its own, its direction and its output in
two registers that it shares with the other pins of its bank, and its pad in a register of its own
again.  Registers can be written at an address that sets or clears bits only.

* `Part`, `field` — what a pin consists of, and where it is; `field_apart` says that no two parts
share a bit;
* `Pin.set` — what `gpio_set` is for, in terms of one pin;
* `gpio_set_sets` — what it does: this, to its pin, and nothing to any other bit;
* `set_configures` — and so does the program, to each pin of the list.
-/

namespace Gpio.Rp1

open Support

/-! ### The program -/

def gpio_io_bank_offset : List ℕ := [0x00000000, 0x00004000, 0x00008000]
def gpio_sys_rio_bank_offset : List ℕ := [0x00010000, 0x00014000, 0x00018000]
def gpio_pads_bank_offset : List ℕ := [0x00020000, 0x00024000, 0x00028000]
def rp1_bank_base : List ℕ := [0, 28, 34]

def RP1_GPIO_IO_REG_CTRL_OFFSET (offset : ℕ) : ℕ := (offset * 2 + 1) * 4
def RP1_GPIO_PADS_REG_OFFSET (offset : ℕ) : ℕ := 4 + offset * 4
def RP1_GPIO_SYS_RIO_REG_OUT_OFFSET : ℕ := 0x0
def RP1_GPIO_SYS_RIO_REG_OE_OFFSET : ℕ := 0x4
def RP1_GPIO_SYS_RIO_REG_SYNC_IN_OFFSET : ℕ := 0x8
def RP1_SET_OFFSET : ℕ := 0x2000
def RP1_CLR_OFFSET : ℕ := 0x3000

def RP1_PADS_OD_SET : BitVec 32 := 1#32 <<< 7
def RP1_PADS_IE_SET : BitVec 32 := 1#32 <<< 6
def RP1_PADS_PUE_SET : BitVec 32 := 1#32 <<< 3
def RP1_PADS_PDE_SET : BitVec 32 := 1#32 <<< 2

def FUNC_SEL_MASK : BitVec 32 := 0x1f
def FUNC_NULL : ℕ := 0x1f
def RP1_FSEL_SYS_RIO : ℕ := 5

/-- The registers, by their offsets from `gpio_base`. -/
abbrev Regs := ℕ → BitVec 32

def in32 (addr : ℕ) (m : Regs) : BitVec 32 := m addr

/-- A write: to the register, or at `RP1_XOR_OFFSET`, `RP1_SET_OFFSET` or `RP1_CLR_OFFSET` behind
it. -/
def out32 (addr : ℕ) (v : BitVec 32) (m : Regs) : Regs :=
  let reg := addr / 0x4000 * 0x4000 + addr % 0x1000
  Function.update m reg
    (match addr / 0x1000 % 4 with
    | 0 => v
    | 1 => m reg ^^^ v
    | 2 => m reg ||| v
    | _ => m reg &&& ~~~v)

/-- The bank of a pin and its place there; the program exits if there is no such pin. -/
def rp1_gpio_get_bank_offset (gpio : ℕ) : Option (ℕ × ℕ) :=
  if gpio ≥ GPIO_MAX then none
  else
    let bank := if gpio < rp1_bank_base.getD 1 0 then 0 else if gpio < rp1_bank_base.getD 2 0 then
      1 else 2
    some (bank, gpio - rp1_bank_base.getD bank 0)

def set_gpio_dir (gpio dir : ℕ) (m : Regs) : Option Regs :=
  (rp1_gpio_get_bank_offset gpio).map fun (bank, offset) =>
    let oe := gpio_sys_rio_bank_offset.getD bank 0 + RP1_GPIO_SYS_RIO_REG_OE_OFFSET
    if dir = FUNC_IP then out32 (oe + RP1_CLR_OFFSET) (1#32 <<< offset) m
    else if dir = FUNC_OP then out32 (oe + RP1_SET_OFFSET) (1#32 <<< offset) m
    else m

def get_gpio_dir (gpio : ℕ) (m : Regs) : Option ℕ :=
  (rp1_gpio_get_bank_offset gpio).map fun (bank, offset) =>
    let sys_rio_oe_read :=
      in32 (gpio_sys_rio_bank_offset.getD bank 0 + RP1_GPIO_SYS_RIO_REG_OE_OFFSET) m
    if sys_rio_oe_read &&& (1#32 <<< offset) ≠ 0 then FUNC_OP else FUNC_IP

def get_gpio_fsel (gpio : ℕ) (m : Regs) : Option ℕ :=
  (rp1_gpio_get_bank_offset gpio).bind fun (bank, offset) =>
    let io_val := in32 (gpio_io_bank_offset.getD bank 0 + RP1_GPIO_IO_REG_CTRL_OFFSET offset) m &&&
      FUNC_SEL_MASK
    if io_val.toNat = RP1_FSEL_SYS_RIO then get_gpio_dir gpio m else some io_val.toNat

/-- `fsel` of `set_gpio_fsel`. -/
def fselOf (func_sel : ℕ) : ℕ :=
  if func_sel = FUNC_IP ∨ func_sel = FUNC_OP ∨ func_sel = FUNC_GP then RP1_FSEL_SYS_RIO
  else if func_sel = FUNC_NO then FUNC_NULL
  else func_sel

def set_gpio_fsel (gpio func_sel : ℕ) (m : Regs) : Option Regs :=
  (rp1_gpio_get_bank_offset gpio).bind fun (bank, offset) =>
    (if func_sel = FUNC_IP ∨ func_sel = FUNC_OP then set_gpio_dir gpio func_sel m else some m).map
      fun m =>
        let fsel := fselOf func_sel
        let ctrl := gpio_io_bank_offset.getD bank 0 + RP1_GPIO_IO_REG_CTRL_OFFSET offset
        let io_ctrl_val :=
          (in32 ctrl m &&& ~~~FUNC_SEL_MASK) ||| (BitVec.ofNat 32 fsel &&& FUNC_SEL_MASK)
        let m := out32 ctrl io_ctrl_val m
        let pads := gpio_pads_bank_offset.getD bank 0 + RP1_GPIO_PADS_REG_OFFSET offset
        let orig_pad_val := in32 pads m
        let pad_val :=
          if fsel = FUNC_NULL then (orig_pad_val &&& ~~~RP1_PADS_IE_SET) ||| RP1_PADS_OD_SET
          else (orig_pad_val ||| RP1_PADS_IE_SET) &&& ~~~RP1_PADS_OD_SET
        if pad_val ≠ orig_pad_val then out32 pads pad_val m else m

/-- The level of an input, `-1` if the pad has none. -/
def get_gpio_level (gpio : ℕ) (m : Regs) : Option ℤ :=
  (rp1_gpio_get_bank_offset gpio).map fun (bank, offset) =>
    let pad_val := in32 (gpio_pads_bank_offset.getD bank 0 + RP1_GPIO_PADS_REG_OFFSET offset) m
    let sys_rio_sync_val :=
      in32 (gpio_sys_rio_bank_offset.getD bank 0 + RP1_GPIO_SYS_RIO_REG_SYNC_IN_OFFSET) m
    if pad_val &&& RP1_PADS_IE_SET = 0 then -1
    else if sys_rio_sync_val &&& (1#32 <<< offset) ≠ 0 then 1 else 0

def set_gpio_drive (gpio drive : ℕ) (m : Regs) : Option Regs :=
  (rp1_gpio_get_bank_offset gpio).map fun (bank, offset) =>
    let out := gpio_sys_rio_bank_offset.getD bank 0 + RP1_GPIO_SYS_RIO_REG_OUT_OFFSET
    let sys_rio_out_val := in32 out m
    out32 out
      (if drive = DRIVE_HIGH then sys_rio_out_val ||| (1#32 <<< offset)
      else if drive = DRIVE_LOW then sys_rio_out_val &&& ~~~(1#32 <<< offset)
      else sys_rio_out_val) m

def gpio_set_pull (gpio type : ℕ) (m : Regs) : Option Regs :=
  if type ≤ PULL_UP then
    (rp1_gpio_get_bank_offset gpio).map fun (bank, offset) =>
      let pads := gpio_pads_bank_offset.getD bank 0 + RP1_GPIO_PADS_REG_OFFSET offset
      let pad_val := in32 pads m &&& ~~~(RP1_PADS_PDE_SET ||| RP1_PADS_PUE_SET)
      out32 pads
        (if type = PULL_UP then pad_val ||| RP1_PADS_PUE_SET
        else if type = PULL_DOWN then pad_val ||| RP1_PADS_PDE_SET
        else pad_val) m
  else some m

def get_gpio_pull (gpio : ℕ) (m : Regs) : Option ℕ :=
  (rp1_gpio_get_bank_offset gpio).map fun (bank, offset) =>
    let pad_val := in32 (gpio_pads_bank_offset.getD bank 0 + RP1_GPIO_PADS_REG_OFFSET offset) m
    if pad_val &&& RP1_PADS_PUE_SET ≠ 0 then PULL_UP
    else if pad_val &&& RP1_PADS_PDE_SET ≠ 0 then PULL_DOWN
    else PULL_NONE

def gpio_set (pinnum : ℕ) (o : Options) (m : Regs) : Option Regs :=
  (if o.func_sel ≠ FUNC_UNSET then set_gpio_fsel pinnum o.func_sel m else some m).bind fun m =>
    (if o.drive ≠ DRIVE_UNSET then
        (get_gpio_fsel pinnum m).bind fun fsel =>
          if fsel = FUNC_OP then set_gpio_drive pinnum o.drive m else some m
      else some m).bind fun m =>
      if o.pull ≠ PULL_UNSET then gpio_set_pull pinnum o.pull m else some m

/-- What `gpio_get` reads of a pin: its level, its pull and its function. -/
def gpio_get (pinnum : ℕ) (m : Regs) : Option (ℤ × ℕ × ℕ) :=
  (get_gpio_level pinnum m).bind fun level =>
    (get_gpio_pull pinnum m).bind fun pull => (get_gpio_fsel pinnum m).map fun fsel =>
      (level, pull, fsel)

/-! ### Where a pin is -/

/-- What a pin consists of. -/
inductive Part where
  | fsel
  | oe
  | out
  | ie
  | od
  | pue
  | pde
  deriving DecidableEq

def bankOf (pin : Fin GPIO_MAX) : ℕ := if pin.val < 28 then 0 else if pin.val < 34 then 1 else 2

def offsetOf (pin : Fin GPIO_MAX) : ℕ :=
  pin.val - if pin.val < 28 then 0 else if pin.val < 34 then 28 else 34

theorem place_lt (pin : Fin GPIO_MAX) : bankOf pin ≤ 2 ∧ offsetOf pin < 28 := by
  have hlt : pin.val < 54 := pin.isLt
  rw [bankOf, offsetOf]
  split_ifs <;> omega

theorem place_inj {pin pin' : Fin GPIO_MAX} (hbank : bankOf pin = bankOf pin')
    (hoffset : offsetOf pin = offsetOf pin') :
    pin = pin' := by
  apply Fin.ext
  rw [bankOf, bankOf] at hbank
  rw [offsetOf, offsetOf] at hoffset
  split_ifs at hbank hoffset <;> omega

theorem rp1_gpio_get_bank_offset_eq (pin : Fin GPIO_MAX) :
    rp1_gpio_get_bank_offset pin.val = some (bankOf pin, offsetOf pin) := by
  rw [rp1_gpio_get_bank_offset, if_neg (not_le.mpr pin.isLt), bankOf, offsetOf]
  by_cases h28 : pin.val < 28
  · simp [rp1_bank_base, h28]
  · by_cases h34 : pin.val < 34
    · simp [rp1_bank_base, h28, h34]
    · simp [rp1_bank_base, h28, h34]

/-- Where a part of a pin is. -/
def field (pin : Fin GPIO_MAX) : Part → BitField ℕ
  | .fsel => ⟨0x4000 * bankOf pin + 8 * offsetOf pin + 4, 0, 5, by decide⟩
  | .oe => ⟨0x10000 + 0x4000 * bankOf pin + 4, offsetOf pin, 1, by have := place_lt pin; omega⟩
  | .out => ⟨0x10000 + 0x4000 * bankOf pin, offsetOf pin, 1, by have := place_lt pin; omega⟩
  | .ie => ⟨0x20000 + 0x4000 * bankOf pin + 4 * offsetOf pin + 4, 6, 1, by decide⟩
  | .od => ⟨0x20000 + 0x4000 * bankOf pin + 4 * offsetOf pin + 4, 7, 1, by decide⟩
  | .pue => ⟨0x20000 + 0x4000 * bankOf pin + 4 * offsetOf pin + 4, 3, 1, by decide⟩
  | .pde => ⟨0x20000 + 0x4000 * bankOf pin + 4 * offsetOf pin + 4, 2, 1, by decide⟩

/-- **No two parts share a bit**, of one pin or of two. -/
theorem field_apart {pin pin' : Fin GPIO_MAX} {k k' : Part} (h : pin ≠ pin' ∨ k ≠ k') :
    (field pin k).Apart (field pin' k') := by
  have hp := place_lt pin
  have hp' := place_lt pin'
  have hne : bankOf pin ≠ bankOf pin' ∨ offsetOf pin ≠ offsetOf pin' ∨ k ≠ k' := by
    by_contra hall
    push Not at hall
    obtain ⟨hb, ho, hk⟩ := hall
    exact h.elim (fun hpin => hpin (place_inj hb ho)) fun hkk => hkk hk
  unfold BitField.Apart
  cases k <;> cases k' <;> simp only [field, ne_eq, not_true_eq_false, or_false, reduceCtorEq,
    not_false_eq_true] at hne ⊢ <;> omega

/-! ### What a pin is set to -/

/-- What the parts of a pin hold. -/
abbrev Pin := Part → BitVec 32

/-- Every pin has all parts. -/
def fields (pin : Fin GPIO_MAX) (k : Part) : Option (BitField ℕ) := some (field pin k)

theorem fields_distinct : Distinct fields := by
  intro pin pin' k k' f f' hf hf' h
  cases hf
  cases hf'
  exact field_apart h

def pinOf (m : Regs) (pin : Fin GPIO_MAX) : Pin := parts fields m pin

namespace Pin

/-- The function, with an input and an output told apart. -/
def func (p : Pin) : ℕ :=
  if (p .fsel).toNat = RP1_FSEL_SYS_RIO then if p .oe ≠ 0 then FUNC_OP else FUNC_IP
  else (p .fsel).toNat

def pull (p : Pin) : ℕ :=
  if p .pue ≠ 0 then PULL_UP else if p .pde ≠ 0 then PULL_DOWN else PULL_NONE

def setDir (dir : ℕ) (p : Pin) : Pin :=
  if dir = FUNC_IP then Function.update p .oe 0
  else if dir = FUNC_OP then Function.update p .oe 1 else p

/-- A pin without a function has neither input nor output. -/
def setFsel (func_sel : ℕ) (p : Pin) : Pin :=
  let p := Function.update (p.setDir func_sel) .fsel
    (BitVec.ofNat 32 (fselOf func_sel) &&& FUNC_SEL_MASK)
  if fselOf func_sel = FUNC_NULL then Function.update (Function.update p .ie 0) .od 1
  else Function.update (Function.update p .ie 1) .od 0

def setDrive (drive : ℕ) (p : Pin) : Pin :=
  if drive = DRIVE_HIGH then Function.update p .out 1
  else if drive = DRIVE_LOW then Function.update p .out 0
  else p

def setPull (type : ℕ) (p : Pin) : Pin :=
  if type ≤ PULL_UP then
    Function.update (Function.update p .pue (if type = PULL_UP then 1 else 0)) .pde
      (if type = PULL_DOWN then 1 else 0)
  else p

/-- What `gpio_set` is for: the function, the level if the pin is an output then, and the pull. -/
def set (o : Options) (p : Pin) : Pin :=
  let p := if o.func_sel ≠ FUNC_UNSET then p.setFsel o.func_sel else p
  let p := if o.drive ≠ DRIVE_UNSET ∧ p.func = FUNC_OP then p.setDrive o.drive else p
  if o.pull ≠ PULL_UNSET then p.setPull o.pull else p

end Pin

/-! ### Accesses -/

theorem banks {bank : ℕ} (h : bank ≤ 2) : gpio_io_bank_offset.getD bank 0 = 0x4000 * bank ∧
    gpio_sys_rio_bank_offset.getD bank 0 = 0x10000 + 0x4000 * bank ∧
    gpio_pads_bank_offset.getD bank 0 = 0x20000 + 0x4000 * bank := by
  obtain rfl | rfl | rfl : bank = 0 ∨ bank = 1 ∨ bank = 2 := by omega
  all_goals exact ⟨rfl, rfl, rfl⟩

section Access

variable {reg : ℕ} (h : reg % 0x4000 < 0x1000) (v : BitVec 32) (m : Regs)

include h

theorem out32_plain : out32 reg v m = Function.update m reg v := by
  have hreg : reg / 0x4000 * 0x4000 + reg % 0x1000 = reg := by omega
  have halias : reg / 0x1000 % 4 = 0 := by omega
  simp only [out32, hreg, halias]

theorem out32_set : out32 (reg + RP1_SET_OFFSET) v m = Function.update m reg (m reg ||| v) := by
  have hreg : (reg + 0x2000) / 0x4000 * 0x4000 + (reg + 0x2000) % 0x1000 = reg := by omega
  have halias : (reg + 0x2000) / 0x1000 % 4 = 2 := by omega
  simp only [out32, RP1_SET_OFFSET, hreg, halias]

theorem out32_clr : out32 (reg + RP1_CLR_OFFSET) v m = Function.update m reg (m reg &&& ~~~v) := by
  have hreg : (reg + 0x3000) / 0x4000 * 0x4000 + (reg + 0x3000) % 0x1000 = reg := by omega
  have halias : (reg + 0x3000) / 0x1000 % 4 = 3 := by omega
  simp only [out32, RP1_CLR_OFFSET, hreg, halias]

end Access

theorem set_gpio_dir_sets (pin : Fin GPIO_MAX) (dir : ℕ) (m : Regs) :
    ∃ m', set_gpio_dir pin.val dir m = some m' ∧ Sets fields pin (Pin.setDir dir) m m' := by
  have hp := place_lt pin
  obtain ⟨-, hrio, -⟩ := banks hp.1
  have hreg : (0x10000 + 0x4000 * bankOf pin + 4) % 0x4000 < 0x1000 := by omega
  refine ⟨_, by rw [set_gpio_dir, rp1_gpio_get_bank_offset_eq, Option.map_some], ?_⟩
  simp only [hrio, RP1_GPIO_SYS_RIO_REG_OE_OFFSET]
  by_cases hip : dir = FUNC_IP
  · rw [if_pos hip, out32_clr hreg, and_not_eq_putBits (by omega)]
    exact (sets_zero fields_distinct (k := .oe) rfl m).congr (by rw [Pin.setDir, if_pos hip])
  · by_cases hop : dir = FUNC_OP
    · rw [if_neg hip, if_pos hop, out32_set hreg, or_eq_putBits (by omega)]
      exact (sets_one fields_distinct (k := .oe) rfl rfl m).congr
        (by rw [Pin.setDir, if_neg hip, if_pos hop])
    · rw [if_neg hip, if_neg hop]
      exact (Sets.same pin m).congr (by rw [Pin.setDir, if_neg hip, if_neg hop]; rfl)

/-- No part is at an address that sets or clears. -/
theorem out32_field (pin : Fin GPIO_MAX) (k : Part) (v : BitVec 32) (m : Regs) :
    out32 (field pin k).reg v m = Function.update m (field pin k).reg v := by
  have hp := place_lt pin
  have hreg : (field pin k).reg % 0x4000 < 0x1000 := by
    cases k <;> simp only [field] <;> omega
  exact out32_plain hreg v m

/-- The function is written into its register. -/
theorem out32_ctrl (pin : Fin GPIO_MAX) (v : BitVec 32) (m : Regs) :
    out32 (field pin .fsel).reg
        ((in32 (field pin .fsel).reg m &&& ~~~FUNC_SEL_MASK) ||| (v &&& FUNC_SEL_MASK)) m =
      (field pin .fsel).write v m := by
  have hmask : lowMask 5 = FUNC_SEL_MASK := by decide
  rw [out32_field, BitField.write]
  simp only [field, putBits, BitVec.shiftLeft_zero, hmask, in32]

/-- A register that is written only if its value changes. -/
theorem update_changed (reg : ℕ) (v : BitVec 32) (m : Regs) :
    (if v ≠ m reg then Function.update m reg v else m) = Function.update m reg v := by
  by_cases h : v = m reg
  · rw [if_neg (not_not.mpr h), h, Function.update_eq_self]
  · rw [if_pos h]

theorem set_gpio_fsel_sets (pin : Fin GPIO_MAX) (func_sel : ℕ) (m : Regs) :
    ∃ m', set_gpio_fsel pin.val func_sel m = some m' ∧
    Sets fields pin (Pin.setFsel func_sel) m m' := by
  have hp := place_lt pin
  obtain ⟨hio, -, hpads⟩ := banks hp.1
  -- the direction
  obtain ⟨m₁, hm₁, hdir⟩ : ∃ m₁,
      (if func_sel = FUNC_IP ∨ func_sel = FUNC_OP then set_gpio_dir pin.val func_sel m
      else some m) = some m₁ ∧ Sets fields pin (Pin.setDir func_sel) m m₁ := by
    split_ifs with h
    · exact set_gpio_dir_sets pin func_sel m
    · refine ⟨m, rfl, (Sets.same pin m).congr ?_⟩
      rw [Pin.setDir, if_neg (fun hip => h (.inl hip)), if_neg (fun hop => h (.inr hop))]
      rfl
  have hctrl : 0x4000 * bankOf pin + RP1_GPIO_IO_REG_CTRL_OFFSET (offsetOf pin) =
      (field pin .fsel).reg := by
    simp only [RP1_GPIO_IO_REG_CTRL_OFFSET, field]
    omega
  have hpad : 0x20000 + 0x4000 * bankOf pin + RP1_GPIO_PADS_REG_OFFSET (offsetOf pin) =
      (field pin .ie).reg := by
    simp only [RP1_GPIO_PADS_REG_OFFSET, field]
    omega
  refine ⟨_, by
    rw [set_gpio_fsel, rp1_gpio_get_bank_offset_eq, Option.bind_some]
    simp only [hm₁, Option.map_some]
    rfl, ?_⟩
  simp only [hio, hpads, hctrl, hpad, out32_ctrl]
  have hfsel := hdir.trans
    (sets_write fields_distinct (k := .fsel) rfl (BitVec.ofNat 32 (fselOf func_sel)) m₁)
  generalize (field pin .fsel).write (BitVec.ofNat 32 (fselOf func_sel)) m₁ = m₂ at hfsel ⊢
  simp only [out32_field, in32]
  rw [update_changed]
  by_cases hnull : fselOf func_sel = FUNC_NULL
  · rw [if_pos hnull, RP1_PADS_IE_SET, RP1_PADS_OD_SET, and_not_eq_putBits (by decide),
      or_eq_putBits (by decide)]
    have h := (hfsel.trans (sets_zero fields_distinct (k := .ie) rfl m₂)).trans
      (sets_one fields_distinct (k := .od) rfl rfl _)
    simp only [BitField.write, field, Function.update_self, Function.update_idem] at h
    refine h.congr ?_
    simp only [Function.comp_apply, Pin.setFsel, if_pos hnull]
    rfl
  · rw [if_neg hnull, RP1_PADS_IE_SET, RP1_PADS_OD_SET, or_eq_putBits (by decide),
      and_not_eq_putBits (by decide)]
    have h := (hfsel.trans (sets_one fields_distinct (k := .ie) rfl rfl m₂)).trans
      (sets_zero fields_distinct (k := .od) rfl _)
    simp only [BitField.write, field, Function.update_self, Function.update_idem] at h
    refine h.congr ?_
    simp only [Function.comp_apply, Pin.setFsel, if_neg hnull]
    rfl

theorem set_gpio_drive_sets (pin : Fin GPIO_MAX) (drive : ℕ) (m : Regs) :
    ∃ m', set_gpio_drive pin.val drive m = some m' ∧ Sets fields pin (Pin.setDrive drive) m m' := by
  have hp := place_lt pin
  obtain ⟨-, hrio, -⟩ := banks hp.1
  have hreg : (0x10000 + 0x4000 * bankOf pin) % 0x4000 < 0x1000 := by omega
  refine ⟨_, by rw [set_gpio_drive, rp1_gpio_get_bank_offset_eq, Option.map_some], ?_⟩
  simp only [hrio, RP1_GPIO_SYS_RIO_REG_OUT_OFFSET, Nat.add_zero, in32]
  rw [out32_plain hreg]
  by_cases hhigh : drive = DRIVE_HIGH
  · rw [if_pos hhigh, or_eq_putBits (by omega)]
    exact (sets_one fields_distinct (k := .out) rfl rfl m).congr
      (by rw [Pin.setDrive, if_pos hhigh])
  · by_cases hlow : drive = DRIVE_LOW
    · rw [if_neg hhigh, if_pos hlow, and_not_eq_putBits (by omega)]
      exact (sets_zero fields_distinct (k := .out) rfl m).congr
        (by rw [Pin.setDrive, if_neg hhigh, if_pos hlow])
    · rw [if_neg hhigh, if_neg hlow, Function.update_eq_self]
      exact (Sets.same pin m).congr (by rw [Pin.setDrive, if_neg hhigh, if_neg hlow]; rfl)

theorem gpio_set_pull_sets (pin : Fin GPIO_MAX) (type : ℕ) (m : Regs) :
    ∃ m', gpio_set_pull pin.val type m = some m' ∧ Sets fields pin (Pin.setPull type) m m' := by
  have hp := place_lt pin
  obtain ⟨-, -, hpads⟩ := banks hp.1
  have hpad : 0x20000 + 0x4000 * bankOf pin + RP1_GPIO_PADS_REG_OFFSET (offsetOf pin) =
      (field pin .pue).reg := by
    simp only [RP1_GPIO_PADS_REG_OFFSET, field]
    omega
  rw [gpio_set_pull]
  by_cases htype : type ≤ PULL_UP
  · refine ⟨_, by rw [if_pos htype, rp1_gpio_get_bank_offset_eq, Option.map_some], ?_⟩
    simp only [hpads, hpad, in32]
    have hclear : m (field pin .pue).reg &&& ~~~(RP1_PADS_PDE_SET ||| RP1_PADS_PUE_SET) =
        putBits 3 1 0 (putBits 2 1 0 (m (field pin .pue).reg)) := by
      rw [BitVec.not_or, ← BitVec.and_assoc, RP1_PADS_PDE_SET, RP1_PADS_PUE_SET,
        and_not_eq_putBits (by decide), and_not_eq_putBits (by decide)]
    have h := (sets_zero fields_distinct (show fields pin .pde = some (field pin .pde) from rfl)
      m).trans (sets_zero fields_distinct (show fields pin .pue = some (field pin .pue) from rfl) _)
    rw [hclear, out32_field]
    by_cases hup : type = PULL_UP
    · have h := h.trans (sets_one fields_distinct (k := .pue) rfl rfl _)
      rw [if_pos hup, RP1_PADS_PUE_SET, or_eq_putBits (by decide)]
      simp only [BitField.write, field, Function.update_self, Function.update_idem] at h
      refine h.congr (funext fun k => ?_)
      subst hup
      cases k <;> rfl
    · by_cases hdown : type = PULL_DOWN
      · have h := h.trans (sets_one fields_distinct (k := .pde) rfl rfl _)
        rw [if_neg hup, if_pos hdown, RP1_PADS_PDE_SET, or_eq_putBits (by decide)]
        simp only [BitField.write, field, Function.update_self, Function.update_idem] at h
        refine h.congr (funext fun k => ?_)
        subst hdown
        cases k <;> rfl
      · rw [if_neg hup, if_neg hdown]
        simp only [BitField.write, field, Function.update_self, Function.update_idem] at h
        refine h.congr (funext fun k => ?_)
        simp only [Function.comp_apply, Pin.setPull, if_pos htype, if_neg hup, if_neg hdown]
        cases k <;> rfl
  · rw [if_neg htype]
    exact ⟨m, rfl, (Sets.same pin m).congr (by rw [Pin.setPull, if_neg htype]; rfl)⟩

/-! ### Reading a pin -/

theorem get_gpio_fsel_eq (pin : Fin GPIO_MAX) (m : Regs) :
    get_gpio_fsel pin.val m = some (pinOf m pin).func := by
  have hp := place_lt pin
  obtain ⟨hio, hrio, -⟩ := banks hp.1
  have hctrl : 0x4000 * bankOf pin + RP1_GPIO_IO_REG_CTRL_OFFSET (offsetOf pin) =
      (field pin .fsel).reg := by
    simp only [RP1_GPIO_IO_REG_CTRL_OFFSET, field]
    omega
  have hoe : 0x10000 + 0x4000 * bankOf pin + RP1_GPIO_SYS_RIO_REG_OE_OFFSET = (field pin .oe).reg :=
    rfl
  have hmask : lowMask 5 = FUNC_SEL_MASK := by decide
  have hread : m (field pin .fsel).reg &&& FUNC_SEL_MASK = pinOf m pin .fsel := by
    simp only [pinOf, parts, fields, Option.elim_some, BitField.read, field,
      BitVec.ushiftRight_zero, hmask]
  have hbit : m (field pin .oe).reg &&& (1#32 <<< offsetOf pin) = 0 ↔ pinOf m pin .oe = 0 :=
    BitField.and_bit_eq_zero_iff (f := field pin .oe) rfl m
  rw [get_gpio_fsel, rp1_gpio_get_bank_offset_eq, Option.bind_some]
  simp only [hio, hctrl, in32, hread, get_gpio_dir, rp1_gpio_get_bank_offset_eq, Option.map_some,
    hrio, hoe, ne_eq, hbit, Pin.func]
  by_cases hsel : (pinOf m pin .fsel).toNat = RP1_FSEL_SYS_RIO
  · rw [if_pos hsel, if_pos hsel]
  · rw [if_neg hsel, if_neg hsel]

theorem get_gpio_pull_eq (pin : Fin GPIO_MAX) (m : Regs) :
    get_gpio_pull pin.val m = some (pinOf m pin).pull := by
  have hp := place_lt pin
  obtain ⟨-, -, hpads⟩ := banks hp.1
  have hpad : 0x20000 + 0x4000 * bankOf pin + RP1_GPIO_PADS_REG_OFFSET (offsetOf pin) =
      (field pin .pue).reg := by
    simp only [RP1_GPIO_PADS_REG_OFFSET, field]
    omega
  have hpue : m (field pin .pue).reg &&& RP1_PADS_PUE_SET = 0 ↔ pinOf m pin .pue = 0 :=
    BitField.and_bit_eq_zero_iff (f := field pin .pue) rfl m
  have hpde : m (field pin .pue).reg &&& RP1_PADS_PDE_SET = 0 ↔ pinOf m pin .pde = 0 :=
    BitField.and_bit_eq_zero_iff (f := field pin .pde) rfl m
  rw [get_gpio_pull, rp1_gpio_get_bank_offset_eq, Option.map_some]
  simp only [hpads, hpad, in32, ne_eq, hpue, hpde, Pin.pull]

/-- **What `gpio_set` does**: what it is for, to its pin, and nothing to any other bit of a
register. -/
theorem gpio_set_sets (pin : Fin GPIO_MAX) (o : Options) (m : Regs) :
    ∃ m', gpio_set pin.val o m = some m' ∧ Sets fields pin (Pin.set o) m m' := by
  obtain ⟨m₁, hm₁, h₁⟩ : ∃ m₁, (if o.func_sel ≠ FUNC_UNSET then set_gpio_fsel pin.val o.func_sel m
      else some m) = some m₁ ∧
      Sets fields pin (fun p : Pin => if o.func_sel ≠ FUNC_UNSET then p.setFsel o.func_sel else p) m
        m₁ := by
    by_cases hf : o.func_sel ≠ FUNC_UNSET
    · simp only [if_pos hf]
      exact set_gpio_fsel_sets pin o.func_sel m
    · simp only [if_neg hf]
      exact ⟨m, rfl, .same pin m⟩
  obtain ⟨m₂, hm₂, h₂⟩ : ∃ m₂, (if o.drive ≠ DRIVE_UNSET then
        (get_gpio_fsel pin.val m₁).bind fun fsel =>
          if fsel = FUNC_OP then set_gpio_drive pin.val o.drive m₁ else some m₁
      else some m₁) = some m₂ ∧
      Sets fields pin (fun p : Pin => if o.drive ≠ DRIVE_UNSET ∧ p.func = FUNC_OP then
        p.setDrive o.drive else p) m₁ m₂ := by
    rw [get_gpio_fsel_eq, Option.bind_some]
    by_cases hd : o.drive ≠ DRIVE_UNSET
    · by_cases hop : (pinOf m₁ pin).func = FUNC_OP
      · obtain ⟨m₂, hm₂, h₂⟩ := set_gpio_drive_sets pin o.drive m₁
        refine ⟨m₂, by rw [if_pos hd, if_pos hop, hm₂], h₂.congr ?_⟩
        rw [if_pos ⟨hd, hop⟩]
      · refine ⟨m₁, by rw [if_pos hd, if_neg hop], (Sets.same pin m₁).congr ?_⟩
        rw [if_neg fun h => hop h.2]
        rfl
    · refine ⟨m₁, by rw [if_neg hd], (Sets.same pin m₁).congr ?_⟩
      rw [if_neg fun h => hd h.1]
      rfl
  obtain ⟨m₃, hm₃, h₃⟩ : ∃ m₃,
      (if o.pull ≠ PULL_UNSET then gpio_set_pull pin.val o.pull m₂ else some m₂) = some m₃ ∧
      Sets fields pin (fun p : Pin => if o.pull ≠ PULL_UNSET then p.setPull o.pull else p) m₂
        m₃ := by
    by_cases hp : o.pull ≠ PULL_UNSET
    · simp only [if_pos hp]
      exact gpio_set_pull_sets pin o.pull m₂
    · simp only [if_neg hp]
      exact ⟨m₂, rfl, .same pin m₂⟩
  refine ⟨m₃, ?_, (h₁.trans h₂).trans h₃⟩
  rw [gpio_set, hm₁, Option.bind_some, hm₂, Option.bind_some, hm₃]

/-! ### The program on its registers -/

theorem gpio_set_acts (pin : Fin GPIO_MAX) (o : Options) (m : Regs) :
    ∃ m', gpio_set pin.val o m = some m' ∧ Acts (PartOf fields) pinOf pin (Pin.set o) m m' := by
  obtain ⟨m', hm', h⟩ := gpio_set_sets pin o m
  exact ⟨m', hm', h.here, fun _ hne => h.other fields_distinct hne, h.spares⟩

theorem number_lt {stored : Bool → ℕ → ℕ} {s : Text} {pin : ℕ} {rest : Text}
    (h : number stored s = .ok (pin, rest)) :
    pin < GPIO_MAX := by
  rw [number] at h
  cases hs : sscanf stored s with
  | none =>
      rw [hs] at h
      cases h
  | some r =>
      rw [hs] at h
      dsimp only at h
      split_ifs at h with hmax
      cases h
      exact not_le.mp hmax

/-- **What `gpio-rp1 set` comes to**: each pin that the list names has the function and the pull of
the options, and their level if it is then an output, as `Pin.set` says; no other bit of a register
is changed. -/
theorem set_configures {stored : Bool → ℕ → ℕ} {argv : List Text} {calls : List Call}
    (hargv : argv[1]? = some "set".toList) (h : main stored true argv = (.EXIT_SUCCESS, calls))
    (m : Regs) :
    ∃ pin_opt items o m', argv[2]? = some pin_opt ∧ Ranges (Takes (number stored)) pin_opt items ∧
      setOptions (argv.drop 3) {} = some o ∧ exec gpio_get gpio_set calls m = some m' ∧
      (∀ pin : Fin GPIO_MAX, (∃ item ∈ items, Spans item pin) →
      pinOf m' pin = (pinOf m pin).set o) ∧
      (∀ pin : Fin GPIO_MAX, (¬ ∃ item ∈ items, Spans item pin) → pinOf m' pin = pinOf m pin) ∧
      Spares (fun f => ∃ pin : Fin GPIO_MAX, (∃ item ∈ items, Spans item pin) ∧ PartOf fields pin f)
        m m' := by
  have hacts : ∀ (pin : Fin GPIO_MAX) (o : Options) (m : Regs), o.Known →
      ∃ m', gpio_set pin.val o m = some m' ∧
      Acts (PartOf fields) pinOf pin
        ((fun _ => Pin.set : Fin GPIO_MAX → Options → Pin → Pin) pin o) m m' :=
    fun pin o m _ => gpio_set_acts pin o m
  exact configures (fun _ => rfl) (fun _ _ _ hs => (number_lt hs).trans (by decide)) hacts hargv h m

/-- Pin 17 becomes an output that is high. -/
theorem set_configures_output :
    ∃ m', exec gpio_get gpio_set [.gpio_set 17 ⟨FUNC_OP, DRIVE_HIGH, PULL_UNSET⟩] (fun _ => 0) =
        some m' ∧
      pinOf m' ⟨17, by decide⟩ .oe = 1 ∧ pinOf m' ⟨17, by decide⟩ .out = 1 := by
  have hrun : main (fun _ n => n) true
      ["gpio-rp1".toList, "set".toList, "17".toList, "op".toList, "dh".toList] =
      (.EXIT_SUCCESS, [.gpio_set 17 ⟨FUNC_OP, DRIVE_HIGH, PULL_UNSET⟩]) := by decide
  obtain ⟨pin_opt, items, o, m', hopt, hitems, ho, hm', hnamed, -, -⟩ :=
    set_configures rfl hrun fun _ => 0
  cases hopt
  cases ho
  have hdefinite : Definite (Takes (number fun _ n => n)) := by
    intro s pin pin' rest rest' h h'
    cases h.symm.trans h'
    exact ⟨rfl, rfl⟩
  have hlist : Ranges (Takes (number fun _ n => n)) "17".toList [(17, 17)] :=
    .last (.one (show number _ _ = .ok (17, []) by decide))
  have hpin := hnamed ⟨17, by decide⟩
    ⟨(17, 17), by rw [hitems.unique hdefinite hlist]; exact List.mem_cons_self,
    ⟨by decide, by decide⟩⟩
  refine ⟨m', hm', ?_, ?_⟩
  · rw [hpin]
    decide
  · rw [hpin]
    decide

/-! ### What is read afterwards -/

/-- The function of a pin that is set to `func_sel`. -/
def Pin.wanted (func_sel : ℕ) (p : Pin) : ℕ :=
  if func_sel = FUNC_UNSET then p.func
  else if func_sel = FUNC_GP ∨ func_sel = RP1_FSEL_SYS_RIO then if p .oe ≠ 0 then FUNC_OP
  else FUNC_IP
  else if func_sel = FUNC_NO then FUNC_NULL
  else func_sel

theorem setDrive_func (drive : ℕ) (p : Pin) : (p.setDrive drive).func = p.func := by
  unfold Pin.setDrive
  split_ifs <;> rfl

theorem setPull_func (type : ℕ) (p : Pin) : (p.setPull type).func = p.func := by
  unfold Pin.setPull
  split_ifs <;> rfl

theorem setDrive_pull (drive : ℕ) (p : Pin) : (p.setDrive drive).pull = p.pull := by
  unfold Pin.setDrive
  split_ifs <;> rfl

theorem setFsel_pull (func_sel : ℕ) (p : Pin) : (p.setFsel func_sel).pull = p.pull := by
  unfold Pin.setFsel Pin.setDir
  dsimp only
  split_ifs <;> rfl

theorem setPull_pull {type : ℕ} (h : type ≤ PULL_UP) (p : Pin) : (p.setPull type).pull = type := by
  rw [Pin.setPull, if_pos h]
  have htype : type = 0 ∨ type = 1 ∨ type = 2 := by
    have : type ≤ 2 := h
    omega
  rcases htype with rfl | rfl | rfl <;> rfl

theorem setFsel_func {o : Options} (ho : o.Known) (hset : o.func_sel ≠ FUNC_UNSET) (p : Pin) :
    (p.setFsel o.func_sel).func = p.wanted o.func_sel := by
  obtain h | h | h | h | h | h := ho.func_sel
  · exact absurd h hset
  · generalize o.func_sel = n at h
    interval_cases n <;> rfl
  all_goals
    rw [h]
    rfl

/-- **What `get` says after `set`**: the pull of the options, and their function, where an input and
an output are told apart by the direction that the pin has. -/
theorem gpio_get_of_set (pin : Fin GPIO_MAX) {o : Options} (ho : o.Known) (m : Regs) :
    ∃ m' level, gpio_set pin.val o m = some m' ∧
      gpio_get pin.val m' = some (level, if o.pull = PULL_UNSET then (pinOf m pin).pull else o.pull,
        (pinOf m pin).wanted o.func_sel) := by
  obtain ⟨m', hm', h⟩ := gpio_set_sets pin o m
  obtain ⟨level, hlevel⟩ : ∃ level, get_gpio_level pin.val m' = some level := by
    rw [get_gpio_level, rp1_gpio_get_bank_offset_eq]
    exact ⟨_, rfl⟩
  refine ⟨m', level, hm', ?_⟩
  rw [gpio_get, hlevel, get_gpio_pull_eq, get_gpio_fsel_eq,
    show pinOf m' pin = (pinOf m pin).set o from h.here]
  simp only [Option.bind_some, Option.map_some, Option.some.injEq, Prod.mk.injEq, true_and]
  generalize pinOf m pin = p
  -- the function is not changed after it was set, nor the pull before
  have hfunc : ∀ p : Pin, (if o.drive ≠ DRIVE_UNSET ∧ p.func = FUNC_OP then p.setDrive o.drive
      else p).func = p.func := by
    intro p
    split_ifs
    · exact setDrive_func _ _
    · rfl
  have hpull : ∀ p : Pin, (if o.drive ≠ DRIVE_UNSET ∧ p.func = FUNC_OP then p.setDrive o.drive
      else p).pull = p.pull := by
    intro p
    split_ifs
    · exact setDrive_pull _ _
    · rfl
  constructor
  · rw [Pin.set]
    by_cases hp : o.pull = PULL_UNSET
    · rw [if_neg (not_not.mpr hp), hpull, if_pos hp]
      split_ifs
      · exact setFsel_pull _ _
      · rfl
    · rw [if_pos hp, if_neg hp]
      exact setPull_pull (ho.pull.resolve_left hp) _
  · rw [Pin.set]
    have hrest : ∀ p : Pin, (if o.pull ≠ PULL_UNSET then p.setPull o.pull else p).func =
        p.func := by
      intro p
      split_ifs
      · exact setPull_func _ _
      · rfl
    rw [hrest, hfunc]
    by_cases hf : o.func_sel = FUNC_UNSET
    · rw [if_neg (not_not.mpr hf), Pin.wanted, if_pos hf]
    · rw [if_pos hf]
      exact setFsel_func ho hf p

/-- Pin 4 is made an input with a pull-up, and read. -/
theorem gpio_get_of_set_input :
    ∃ m' level, gpio_set 4 ⟨FUNC_IP, DRIVE_UNSET, PULL_UP⟩ (fun _ => 0) = some m' ∧
    gpio_get 4 m' = some (level, PULL_UP, FUNC_IP) :=
  gpio_get_of_set ⟨4, by decide⟩ ⟨by decide, by decide, by decide⟩ fun _ => 0

end Gpio.Rp1
