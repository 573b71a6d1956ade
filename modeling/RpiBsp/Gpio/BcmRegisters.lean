import Mathlib.Tactic.IntervalCases
import RpiBsp.Gpio.Configure

/-!
# Gpio — the registers of gpio-bcm

A pin of the BCM2712 has its function and its pull in the pinmux registers, and its direction and
its level in two registers that it shares with the other pins of its bank.  Where the pinmux has a
pin depends on the stepping of the chip: D0 has fewer pins, in other places, and some pins of C1 not
at all.

* `Part`, `fields` — what a pin consists of, and where it is; `fields_distinct` says that no two
  parts share a bit, of either stepping;
* `Pin.set` — what `gpio_set` is for, in terms of one pin: a level that is refused leaves the pull,
too;
* `setAt` — and in terms of a pin that the chip may lack;
* `gpio_set_does` — what it does: this, to its pin, and nothing to any other bit;
* `pins_configured` — and so does the program, to each pin of the list.
-/

namespace Gpio.Bcm

open Support

/-! ### The program -/

inductive Stepping where
  | BCM2712_STEPPING_C1
  | BCM2712_STEPPING_D0
  deriving DecidableEq, Repr

/-- Which of the two mappings: `gpio_base_g` or `pinmux_base_g`. -/
inductive Block where
  | gpio
  | pinmux
  deriving DecidableEq, Repr

/-- The registers, by block and offset. -/
abbrev Regs := Block × ℕ → BitVec 32

def GPIO_BANK_NUM : ℕ := 2
def gpio_bank_widths : List ℕ := [32, 4]

def BCM2712_GIO_DATA : ℕ := 0x04
def BCM2712_GIO_IODIR : ℕ := 0x08

def BCM2712_PAD_PULL_OFF : ℕ := 0
def BCM2712_PAD_PULL_DOWN : ℕ := 1
def BCM2712_PAD_PULL_UP : ℕ := 2

def DIR_UNSET : ℕ := 0xFFFFFFFF
def DIR_INPUT : ℕ := 0
def DIR_OUTPUT : ℕ := 1

def NUM_ALT_FUNCS : ℕ := 8
def FUNC_NULL : ℕ := 0x1f

def GPIO_UNKNOWN : ℕ := 0xFFFFFFFF

def gpio_bcm_d0_to_c0 : List ℕ :=
  [GPIO_UNKNOWN, 0, 1, 2, 3, GPIO_UNKNOWN, GPIO_UNKNOWN, GPIO_UNKNOWN, GPIO_UNKNOWN, GPIO_UNKNOWN,
    4, 5, 6, 7, 8, 9,
    GPIO_UNKNOWN, GPIO_UNKNOWN, 10, 11, 12, 13, 14, 15, 16, 17, 18, 19, 20, 21, 22, 23, 24,
    25, 26, 27]

/-- `gpio_new`: the place of a pin on the chip at hand. -/
def gpioNew (stepping : Stepping) (gpio : ℕ) : ℕ :=
  if stepping = .BCM2712_STEPPING_D0 then gpio_bcm_d0_to_c0.getD gpio GPIO_UNKNOWN else gpio

/-- There is no such pin. -/
def Invalid (gpio : ℕ) : Prop :=
  gpio / 32 ≥ GPIO_BANK_NUM ∨ gpio % 32 ≥ gpio_bank_widths.getD (gpio / 32) 0

instance (gpio : ℕ) : Decidable (Invalid gpio) := inferInstanceAs (Decidable (_ ∨ _))

def get_gpio_base (gpio : ℕ) : Option ((Block × ℕ) × ℕ) :=
  if Invalid gpio then none else some ((.gpio, gpio / 32 * 0x20), gpio % 32)

def get_pinmux_base (stepping : Stepping) (gpio : ℕ) : Option ((Block × ℕ) × ℕ) :=
  let gpio_new := gpioNew stepping gpio
  if gpio_new = GPIO_UNKNOWN ∨ Invalid gpio_new then none
  else some ((.pinmux, gpio_new / 32 * 4 * 4 + gpio_new % 32 / 8 * 4), gpio_new % 32 % 8 * 4)

def get_pad_base (stepping : Stepping) (gpio : ℕ) : Option ((Block × ℕ) × ℕ) :=
  let gpio_new := gpioNew stepping gpio
  if gpio_new = GPIO_UNKNOWN ∨ Invalid gpio_new then none
  else
    let gpio_offset := if stepping = .BCM2712_STEPPING_D0 then gpio_new + 65 else gpio_new + 112
    some ((.pinmux, gpio_offset / 15 * 4), gpio_offset % 15 * 2)

/-- The register so many bytes on. -/
def reg (base : Block × ℕ) (offset : ℕ) : Block × ℕ := (base.1, base.2 + offset)

def set_dir (gpio dir : ℕ) (m : Regs) : Regs :=
  match get_gpio_base gpio with
  | none => m
  | some (gpio_base, offset) =>
    let gpio_val_new := m (reg gpio_base BCM2712_GIO_IODIR) &&& ~~~(1#32 <<< offset)
    Function.update m (reg gpio_base BCM2712_GIO_IODIR)
      (if dir = DIR_INPUT then gpio_val_new ||| (1#32 <<< offset) else gpio_val_new)

def get_dir (gpio : ℕ) (m : Regs) : ℕ :=
  match get_gpio_base gpio with
  | none => DIR_UNSET
  | some (gpio_base, offset) =>
    if m (reg gpio_base BCM2712_GIO_IODIR) &&& (1#32 <<< offset) ≠ 0 then DIR_INPUT else DIR_OUTPUT

def get_fsel (stepping : Stepping) (gpio : ℕ) (m : Regs) : ℕ :=
  match get_pinmux_base stepping gpio with
  | none => FUNC_NULL
  | some (pinmux_base, offset) =>
    let fsel_val := ((m pinmux_base >>> offset) &&& 0xf#32).toNat
    if fsel_val = 0 then if get_dir gpio m = DIR_OUTPUT then FUNC_OP else FUNC_IP
    else if fsel_val ≤ NUM_ALT_FUNCS then FUNC_A0 + fsel_val
    else FUNC_NULL

def set_fsel (stepping : Stepping) (gpio func_type : ℕ) (m : Regs) : Regs :=
  match get_pinmux_base stepping gpio with
  | none => m
  | some (pinmux_base, offset) =>
    let write (fsel : ℕ) (m : Regs) : Regs :=
      Function.update m pinmux_base
        ((m pinmux_base &&& ~~~(0xf#32 <<< offset)) ||| (BitVec.ofNat 32 fsel <<< offset))
    if func_type = FUNC_IP ∨ func_type = FUNC_OP ∨ func_type = FUNC_GP then
      let m := if func_type = FUNC_IP then set_dir gpio DIR_INPUT m else m
      let m := if func_type = FUNC_OP then set_dir gpio DIR_OUTPUT m else m
      write 0 m
    else if func_type ≤ NUM_ALT_FUNCS then write (func_type - FUNC_A0) m
    else m

def get_level (gpio : ℕ) (m : Regs) : ℕ :=
  match get_gpio_base gpio with
  | none => 0
  | some (gpio_base, offset) =>
      if m (reg gpio_base BCM2712_GIO_DATA) &&& (1#32 <<< offset) ≠ 0 then 1 else 0

def set_drive (gpio drive : ℕ) (m : Regs) : Regs :=
  match get_gpio_base gpio with
  | none => m
  | some (gpio_base, offset) =>
    let data := reg gpio_base BCM2712_GIO_DATA
    Function.update m data
      ((m data &&& ~~~(1#32 <<< offset)) ||| (BitVec.ofNat 32 drive <<< offset))

/-- The value for a pull, if there is such a pull. -/
def padPull (pull_type : ℕ) : Option ℕ :=
  if pull_type = PULL_NONE then some BCM2712_PAD_PULL_OFF
  else if pull_type = PULL_DOWN then some BCM2712_PAD_PULL_DOWN
  else if pull_type = PULL_UP then some BCM2712_PAD_PULL_UP
  else none

def set_pull (stepping : Stepping) (gpio pull_type : ℕ) (m : Regs) : Regs :=
  match get_pad_base stepping gpio with
  | none => m
  | some (pad_base, offset) =>
    (padPull pull_type).elim m fun val =>
      Function.update m pad_base
        ((m pad_base &&& ~~~(3#32 <<< offset)) ||| (BitVec.ofNat 32 val <<< offset))

def get_pull (stepping : Stepping) (gpio : ℕ) (m : Regs) : ℕ :=
  match get_pad_base stepping gpio with
  | none => PULL_UNSET
  | some (pad_base, offset) =>
    let val := ((m pad_base >>> offset) &&& 0x3#32).toNat
    if val = BCM2712_PAD_PULL_OFF then PULL_NONE
    else if val = BCM2712_PAD_PULL_DOWN then PULL_DOWN
    else if val = BCM2712_PAD_PULL_UP then PULL_UP
    else PULL_UNSET

/-- What `gpio_get` reads of a pin: its level, its pull and its function, or that it has none of
them. -/
inductive Printed where
  | nothing
  | none
  | pin (level pull fsel : ℕ)
  deriving DecidableEq, Repr

def gpio_get (stepping : Stepping) (pinnum : ℕ) (m : Regs) : Printed :=
  if pinnum < GPIO_MAX ∧ ¬ Invalid pinnum then
    let d0_gpio := if stepping = .BCM2712_STEPPING_D0 then gpio_bcm_d0_to_c0.getD pinnum 0 else 0
    if d0_gpio = GPIO_UNKNOWN then .none
    else .pin (get_level pinnum m) (get_pull stepping pinnum m) (get_fsel stepping pinnum m)
  else .nothing

def gpio_set (stepping : Stepping) (pinnum : ℕ) (o : Options) (m : Regs) : Regs :=
  if Invalid pinnum then m
  else
    let m := if o.func_sel ≠ FUNC_UNSET then set_fsel stepping pinnum o.func_sel m else m
    let pulls (m : Regs) : Regs :=
      if o.pull ≠ PULL_UNSET then set_pull stepping pinnum o.pull m else m
    if o.drive ≠ DRIVE_UNSET then
      if get_fsel stepping pinnum m = FUNC_OP then pulls (set_drive pinnum o.drive m) else m
    else pulls m

/-! ### Where a pin is -/

/-- What a pin consists of. -/
inductive Part where
  | fsel
  | pull
  | dir
  | data
  deriving DecidableEq

/-- How many pins of the pinmux there are. -/
def placesOf : Stepping → ℕ
  | .BCM2712_STEPPING_C1 => 36
  | .BCM2712_STEPPING_D0 => 28

/-- Where the pads begin. -/
def padsOf : Stepping → ℕ
  | .BCM2712_STEPPING_C1 => 112
  | .BCM2712_STEPPING_D0 => 65

/-- The pinmux has the pin. -/
def Muxed (stepping : Stepping) (pin : Fin GPIO_MAX) : Prop := gpioNew stepping pin ≠ GPIO_UNKNOWN

instance (stepping : Stepping) (pin : Fin GPIO_MAX) : Decidable (Muxed stepping pin) :=
  inferInstanceAs (Decidable (¬ _))

theorem gpioNew_lt {stepping : Stepping} {pin : Fin GPIO_MAX} (h : Muxed stepping pin) :
    gpioNew stepping pin < placesOf stepping := by
  revert stepping pin
  intro stepping
  cases stepping <;> decide

theorem gpioNew_inj {stepping : Stepping} {pin pin' : Fin GPIO_MAX} (h : Muxed stepping pin)
    (heq : gpioNew stepping pin = gpioNew stepping pin') : pin = pin' := by
  cases stepping with
  | BCM2712_STEPPING_C1 => exact Fin.ext heq
  | BCM2712_STEPPING_D0 =>
      have hall : ∀ pin pin' : Fin GPIO_MAX, gpio_bcm_d0_to_c0.getD pin GPIO_UNKNOWN ≠
          GPIO_UNKNOWN →
          gpio_bcm_d0_to_c0.getD pin GPIO_UNKNOWN = gpio_bcm_d0_to_c0.getD pin' GPIO_UNKNOWN →
          pin = pin' := by
        decide +kernel
      exact hall pin pin' h heq

theorem placesOf_le (stepping : Stepping) : placesOf stepping ≤ 36 := by
  cases stepping <;> decide

/-- The four bits for the function of the `new`th pin. -/
def muxField (new : ℕ) : BitField (Block × ℕ) :=
  ⟨(.pinmux, new / 32 * 4 * 4 + new % 32 / 8 * 4), new % 32 % 8 * 4, 4, by omega⟩

/-- The two bits for the pull of pad `pad`. -/
def padField (pad : ℕ) : BitField (Block × ℕ) :=
  ⟨(.pinmux, pad / 15 * 4), pad % 15 * 2, 2, by omega⟩

/-- The bit of a pin in the registers of its bank. -/
def bankField (offset pin : ℕ) : BitField (Block × ℕ) :=
  ⟨(.gpio, pin / 32 * 0x20 + offset), pin % 32, 1, by omega⟩

/-- Where a part of a pin is, if there is one. -/
def fields (stepping : Stepping) (pin : Fin GPIO_MAX) : Part → Option (BitField (Block × ℕ))
  | .fsel => if Muxed stepping pin then some (muxField (gpioNew stepping pin)) else none
  | .pull =>
      if Muxed stepping pin then some (padField (gpioNew stepping pin + padsOf stepping)) else none
  | .dir => some (bankField BCM2712_GIO_IODIR pin)
  | .data => some (bankField BCM2712_GIO_DATA pin)

theorem muxField_apart {new new' : ℕ} (h : new ≠ new') : (muxField new).Apart (muxField new') := by
  simp only [BitField.Apart, muxField, ne_eq, Prod.mk.injEq, true_and]
  omega

theorem padField_apart {pad pad' : ℕ} (h : pad ≠ pad') : (padField pad).Apart (padField pad') := by
  simp only [BitField.Apart, padField, ne_eq, Prod.mk.injEq, true_and]
  omega

/-- The pads are behind the functions. -/
theorem muxField_padField {stepping : Stepping} {new : ℕ} (h : new < placesOf stepping) (new' : ℕ) :
    (muxField new).Apart (padField (new' + padsOf stepping)) := by
  left
  simp only [muxField, padField, ne_eq, Prod.mk.injEq, true_and]
  cases stepping <;> simp only [placesOf, padsOf] at h ⊢ <;> omega

theorem bankField_apart {offset offset' pin pin' : ℕ} (hoffset : offset < 0x20)
    (hoffset' : offset' < 0x20)
    (h : pin ≠ pin' ∨ offset ≠ offset') :
      (bankField offset pin).Apart (bankField offset' pin') := by
  simp only [BitField.Apart, bankField, ne_eq, Prod.mk.injEq, true_and]
  omega

theorem block_apart {f f' : BitField (Block × ℕ)} (h : f.reg.1 ≠ f'.reg.1) : f.Apart f' :=
  .inl fun heq => h (congrArg Prod.fst heq)

/-- **No two parts share a bit**, of one pin or of two, whichever the stepping. -/
theorem fields_distinct (stepping : Stepping) : Distinct (fields stepping) := by
  intro pin pin' k k' f f' hf hf' h
  have hpins : pin ≠ pin' → pin.val ≠ pin'.val := fun hne heq => hne (Fin.ext heq)
  have hmux : ∀ {g f : BitField (Block × ℕ)} {pin : Fin GPIO_MAX},
      (if Muxed stepping pin then some g else none) = some f → Muxed stepping pin ∧ g = f := by
    intro g f pin hg
    split_ifs at hg with hmuxed
    exact ⟨hmuxed, Option.some.inj hg⟩
  have hnew : Muxed stepping pin → pin ≠ pin' → gpioNew stepping pin ≠ gpioNew stepping pin' :=
    fun hmuxed hne heq => hne (gpioNew_inj hmuxed heq)
  cases k <;> cases k'
  case fsel.fsel =>
    obtain ⟨hm, rfl⟩ := hmux hf
    obtain ⟨-, rfl⟩ := hmux hf'
    exact muxField_apart (hnew hm (h.resolve_right (not_not.mpr rfl)))
  case pull.pull =>
    obtain ⟨hm, rfl⟩ := hmux hf
    obtain ⟨-, rfl⟩ := hmux hf'
    exact padField_apart fun heq =>
      hnew hm (h.resolve_right (not_not.mpr rfl)) (Nat.add_right_cancel heq)
  case fsel.pull =>
    obtain ⟨hm, rfl⟩ := hmux hf
    obtain ⟨-, rfl⟩ := hmux hf'
    exact muxField_padField (gpioNew_lt hm) _
  case pull.fsel =>
    obtain ⟨-, rfl⟩ := hmux hf
    obtain ⟨hm, rfl⟩ := hmux hf'
    exact (muxField_padField (gpioNew_lt hm) _).symm
  case dir.dir | dir.data | data.dir | data.data =>
    cases hf
    cases hf'
    refine bankField_apart (by decide) (by decide) ?_
    first | exact .inl (hpins (h.resolve_right (not_not.mpr rfl))) | exact .inr (by decide)
  case fsel.dir | fsel.data =>
    obtain ⟨-, rfl⟩ := hmux hf
    cases hf'
    exact block_apart Block.noConfusion
  case pull.dir | pull.data =>
    obtain ⟨-, rfl⟩ := hmux hf
    cases hf'
    exact block_apart Block.noConfusion
  case dir.fsel | data.fsel =>
    obtain ⟨-, rfl⟩ := hmux hf'
    cases hf
    exact block_apart Block.noConfusion
  case dir.pull | data.pull =>
    obtain ⟨-, rfl⟩ := hmux hf'
    cases hf
    exact block_apart Block.noConfusion

/-! ### What a pin is set to -/

/-- What the parts of a pin hold. -/
abbrev Pin := Part → BitVec 32

def pinOf (stepping : Stepping) (m : Regs) (pin : Fin GPIO_MAX) : Pin :=
  parts (fields stepping) m pin

namespace Pin

/-- The function, with an input and an output told apart. -/
def func (p : Pin) : ℕ :=
  if (p .fsel).toNat = 0 then if p .dir = 0 then FUNC_OP else FUNC_IP
  else if (p .fsel).toNat ≤ NUM_ALT_FUNCS then (p .fsel).toNat
  else FUNC_NULL

/-- `no` is not a function here, and is passed by. -/
def setFsel (func_type : ℕ) (p : Pin) : Pin :=
  if func_type = FUNC_IP then Function.update (Function.update p .dir 1) .fsel 0
  else if func_type = FUNC_OP then Function.update (Function.update p .dir 0) .fsel 0
  else if func_type = FUNC_GP then Function.update p .fsel 0
  else if func_type ≤ NUM_ALT_FUNCS then Function.update p .fsel (BitVec.ofNat 32 func_type)
  else p

def setPull (pull_type : ℕ) (p : Pin) : Pin :=
  if pull_type ≤ PULL_UP then Function.update p .pull (BitVec.ofNat 32 pull_type) else p

/-- What `gpio_set` is for: the function; the level, for an output; and the pull, if a level was not
refused. -/
def set (o : Options) (p : Pin) : Pin :=
  let p := if o.func_sel ≠ FUNC_UNSET then p.setFsel o.func_sel else p
  let pulls (p : Pin) : Pin := if o.pull ≠ PULL_UNSET then p.setPull o.pull else p
  if o.drive ≠ DRIVE_UNSET then
    if p.func = FUNC_OP then pulls (Function.update p .data (BitVec.ofNat 32 o.drive)) else p
  else pulls p

end Pin

/-- A pin that the pinmux does not have is left alone. -/
def setAt (stepping : Stepping) (pin : Fin GPIO_MAX) (o : Options) (p : Pin) : Pin :=
  if Muxed stepping pin then p.set o else p

/-! ### Where the program looks -/

theorem not_invalid {gpio : ℕ} (h : gpio < 36) : ¬ Invalid gpio := by
  rintro (hbank | hwidth)
  · rw [GPIO_BANK_NUM] at hbank
    omega
  · by_cases hlow : gpio < 32
    · rw [Nat.div_eq_of_lt hlow] at hwidth
      have : gpio % 32 ≥ 32 := hwidth
      omega
    · rw [show gpio / 32 = 1 by omega] at hwidth
      have : gpio % 32 ≥ 4 := hwidth
      omega

section Bases

variable {stepping : Stepping} {pin : Fin GPIO_MAX}

theorem get_gpio_base_eq :
    get_gpio_base pin.val = some ((.gpio, pin.val / 32 * 0x20), pin.val % 32) := by
  rw [get_gpio_base, if_neg (not_invalid pin.isLt)]

theorem get_pinmux_base_eq (h : Muxed stepping pin) : get_pinmux_base stepping pin.val =
    some ((muxField (gpioNew stepping pin)).reg, (muxField (gpioNew stepping pin)).lo) := by
  have hlt := (gpioNew_lt h).trans_le (placesOf_le stepping)
  rw [get_pinmux_base, if_neg fun hor => hor.elim h (not_invalid hlt)]
  rfl

theorem get_pad_base_eq (h : Muxed stepping pin) : get_pad_base stepping pin.val =
    some ((padField (gpioNew stepping pin + padsOf stepping)).reg,
      (padField (gpioNew stepping pin + padsOf stepping)).lo) := by
  have hlt := (gpioNew_lt h).trans_le (placesOf_le stepping)
  rw [get_pad_base, if_neg fun hor => hor.elim h (not_invalid hlt)]
  cases stepping <;> rfl

theorem get_pinmux_base_none (h : ¬ Muxed stepping pin) :
    get_pinmux_base stepping pin.val = none := by
  rw [get_pinmux_base, if_pos (.inl (not_not.mp h))]

theorem get_pad_base_none (h : ¬ Muxed stepping pin) : get_pad_base stepping pin.val = none := by
  rw [get_pad_base, if_pos (.inl (not_not.mp h))]

theorem fields_fsel (h : Muxed stepping pin) :
    fields stepping pin .fsel = some (muxField (gpioNew stepping pin)) :=
  if_pos h

theorem fields_pull (h : Muxed stepping pin) :
    fields stepping pin .pull = some (padField (gpioNew stepping pin + padsOf stepping)) := if_pos h

variable (stepping pin) in
theorem fields_dir : fields stepping pin .dir = some (bankField BCM2712_GIO_IODIR pin) := rfl

variable (stepping pin) in
theorem fields_data : fields stepping pin .data = some (bankField BCM2712_GIO_DATA pin) := rfl

end Bases

/-! ### What the functions do -/

section Functions

variable (stepping : Stepping) (pin : Fin GPIO_MAX) (m : Regs)

theorem set_dir_eq (dir : ℕ) :
    set_dir pin.val dir m = (bankField BCM2712_GIO_IODIR pin).write (if dir = DIR_INPUT then 1
      else 0) m := by
  have hreg : reg (.gpio, pin.val / 32 * 0x20) BCM2712_GIO_IODIR =
    (bankField BCM2712_GIO_IODIR pin).reg := rfl
  have hfits := (bankField BCM2712_GIO_IODIR pin).fits
  simp only [set_dir, get_gpio_base_eq, hreg, BitField.write]
  rw [and_not_eq_putBits (by omega)]
  by_cases hdir : dir = DIR_INPUT
  · rw [if_pos hdir, if_pos hdir, or_eq_putBits (by omega)]
    exact congrArg _ (putBits_putBits hfits 1 0 _)
  · rw [if_neg hdir, if_neg hdir]
    rfl

theorem set_dir_sets (dir : ℕ) :
    Sets (fields stepping) pin (fun p => Function.update p .dir (if dir = DIR_INPUT then 1 else 0))
        m
      (set_dir pin.val dir m) := by
  rw [set_dir_eq]
  split_ifs
  · exact sets_one (fields_distinct stepping) (fields_dir stepping pin) rfl m
  · exact sets_zero (fields_distinct stepping) (fields_dir stepping pin) m

theorem set_drive_sets {drive : ℕ} (h : drive < 2) :
    Sets (fields stepping) pin (fun p => Function.update p .data (BitVec.ofNat 32 drive)) m
      (set_drive pin.val drive m) := by
  have hfits : BitVec.ofNat 32 drive &&& lowMask 1 = BitVec.ofNat 32 drive := by
    interval_cases drive <;> rfl
  have heq : set_drive pin.val drive m = (bankField BCM2712_GIO_DATA pin).write
      (BitVec.ofNat 32 drive) m := by
    have hput := or_shift_eq_putBits hfits (pin.val % 32) (m (bankField BCM2712_GIO_DATA pin).reg)
    have hreg : reg (.gpio, pin.val / 32 * 0x20) BCM2712_GIO_DATA =
      (bankField BCM2712_GIO_DATA pin).reg := rfl
    have hbit : 1#32 = lowMask 1 := rfl
    simp only [set_drive, get_gpio_base_eq, hreg, hbit, hput]
    rfl
  have h := sets_write (fields_distinct stepping) (fields_data stepping pin)
    (BitVec.ofNat 32 drive) m
  rw [heq]
  exact h.congr (congrArg _ hfits)

/-- The function is written. -/
theorem fsel_sets (hmux : Muxed stepping pin) {fsel : ℕ} (h : fsel ≤ NUM_ALT_FUNCS) :
    Sets (fields stepping) pin (fun p => Function.update p .fsel (BitVec.ofNat 32 fsel)) m
      (Function.update m (muxField (gpioNew stepping pin)).reg
        ((m (muxField (gpioNew stepping pin)).reg &&&
            ~~~(0xf#32 <<< (muxField (gpioNew stepping pin)).lo)) |||
          (BitVec.ofNat 32 fsel <<< (muxField (gpioNew stepping pin)).lo))) := by
  have hfits : BitVec.ofNat 32 fsel &&& lowMask 4 = BitVec.ofNat 32 fsel := by
    rw [NUM_ALT_FUNCS] at h
    interval_cases fsel <;> rfl
  rw [show (0xf#32 : BitVec 32) = lowMask 4 from rfl, or_shift_eq_putBits hfits]
  exact (sets_write (fields_distinct stepping) (fields_fsel hmux) (BitVec.ofNat 32 fsel) m).congr
    (by rw [show (muxField (gpioNew stepping pin.val)).width = 4 from rfl, hfits])

theorem set_fsel_sets (hmux : Muxed stepping pin) (func_type : ℕ) :
    Sets (fields stepping) pin (Pin.setFsel func_type) m
      (set_fsel stepping pin.val func_type m) := by
  rw [set_fsel, get_pinmux_base_eq hmux]
  dsimp only
  by_cases hip : func_type = FUNC_IP
  · subst hip
    exact ((set_dir_sets stepping pin m DIR_INPUT).trans
      (fsel_sets stepping pin _ hmux (Nat.zero_le _))).congr rfl
  by_cases hop : func_type = FUNC_OP
  · subst hop
    exact ((set_dir_sets stepping pin m DIR_OUTPUT).trans
      (fsel_sets stepping pin _ hmux (Nat.zero_le _))).congr rfl
  by_cases hgp : func_type = FUNC_GP
  · subst hgp
    exact (fsel_sets stepping pin m hmux (Nat.zero_le _)).congr rfl
  rw [if_neg (by simp only [hip, hop, hgp, or_self, not_false_eq_true])]
  by_cases halt : func_type ≤ NUM_ALT_FUNCS
  · rw [if_pos halt]
    exact (fsel_sets stepping pin m hmux halt).congr (by
      rw [Pin.setFsel, if_neg hip, if_neg hop, if_neg hgp, if_pos halt])
  · rw [if_neg halt]
    exact (Sets.same pin m).congr
      (by rw [Pin.setFsel, if_neg hip, if_neg hop, if_neg hgp, if_neg halt]; rfl)

theorem set_pull_sets (hmux : Muxed stepping pin) (pull_type : ℕ) :
    Sets (fields stepping) pin (Pin.setPull pull_type) m
      (set_pull stepping pin.val pull_type m) := by
  rw [set_pull, get_pad_base_eq hmux]
  dsimp only
  by_cases hpull : pull_type ≤ PULL_UP
  · have hval : padPull pull_type = some pull_type := by
      rw [PULL_UP] at hpull
      interval_cases pull_type <;> rfl
    have hfits : BitVec.ofNat 32 pull_type &&& lowMask 2 = BitVec.ofNat 32 pull_type := by
      rw [PULL_UP] at hpull
      interval_cases pull_type <;> rfl
    rw [hval, Option.elim_some, show (3#32 : BitVec 32) = lowMask 2 from rfl,
      or_shift_eq_putBits hfits]
    exact (sets_write (fields_distinct stepping) (fields_pull hmux) (BitVec.ofNat 32 pull_type)
      m).congr
      (by
        rw [Pin.setPull, if_pos hpull,
          show (padField (gpioNew stepping pin.val + padsOf stepping)).width = 2 from rfl, hfits])
  · have hval : padPull pull_type = none := by
      rw [PULL_UP] at hpull
      rw [padPull, PULL_NONE, PULL_DOWN, PULL_UP, if_neg (by omega), if_neg (by omega),
        if_neg (by omega)]
    rw [hval]
    exact (Sets.same pin m).congr (by rw [Pin.setPull, if_neg hpull]; rfl)

theorem get_fsel_eq (hmux : Muxed stepping pin) :
    get_fsel stepping pin.val m = (pinOf stepping m pin).func := by
  have hfsel : (m (muxField (gpioNew stepping pin)).reg >>>
      (muxField (gpioNew stepping pin)).lo) &&& 0xf#32 = pinOf stepping m pin .fsel := by
    rw [pinOf, parts, fields_fsel hmux]
    rfl
  have hdir : get_dir pin.val m = DIR_OUTPUT ↔ pinOf stepping m pin .dir = 0 := by
    have hbit : m (bankField BCM2712_GIO_IODIR pin).reg &&& (1#32 <<< (pin.val % 32)) = 0 ↔
        pinOf stepping m pin .dir = 0 :=
      BitField.and_bit_eq_zero_iff (f := bankField BCM2712_GIO_IODIR pin) rfl m
    rw [get_dir, get_gpio_base_eq, ← hbit]
    change (if m (bankField BCM2712_GIO_IODIR pin).reg &&& (1#32 <<< (pin.val % 32)) ≠ 0 then
      DIR_INPUT else DIR_OUTPUT) = DIR_OUTPUT ↔ _
    split_ifs with h
    · exact ⟨fun heq => absurd heq (by decide), fun heq => absurd heq h⟩
    · exact ⟨fun _ => not_not.mp h, fun _ => rfl⟩
  rw [get_fsel, get_pinmux_base_eq hmux]
  simp only [hfsel, hdir, Pin.func, FUNC_A0, Nat.zero_add]

end Functions

/-- A pin that the pinmux does not have is left alone. -/
theorem gpio_set_unmuxed {stepping : Stepping} {pin : Fin GPIO_MAX} (h : ¬ Muxed stepping pin)
    (o : Options) (m : Regs) :
    gpio_set stepping pin.val o m = m := by
  have hfsel : set_fsel stepping pin.val o.func_sel m = m := by
    rw [set_fsel, get_pinmux_base_none h]
  have hpull : set_pull stepping pin.val o.pull m = m := by
    rw [set_pull, get_pad_base_none h]
  have hget : get_fsel stepping pin.val m = FUNC_NULL := by
    rw [get_fsel, get_pinmux_base_none h]
  have hne : FUNC_NULL ≠ FUNC_OP := by decide
  rw [gpio_set, if_neg (not_invalid pin.isLt)]
  simp only [hfsel, hpull, hget, if_neg hne, ite_self]

/-- **What `gpio_set` does**: what it is for, to a pin that the pinmux has, and nothing to any other
bit of a register. -/
theorem gpio_set_does (stepping : Stepping) (pin : Fin GPIO_MAX) {o : Options} (ho : o.Known)
    (m : Regs) :
    Sets (fields stepping) pin (setAt stepping pin o) m (gpio_set stepping pin.val o m) := by
  by_cases hmux : Muxed stepping pin
  swap
  · rw [gpio_set_unmuxed hmux]
    exact (Sets.same pin m).congr (by rw [setAt, if_neg hmux]; rfl)
  rw [gpio_set, if_neg (not_invalid pin.isLt)]
  have h₁ : Sets (fields stepping) pin
      (fun p : Pin => if o.func_sel ≠ FUNC_UNSET then p.setFsel o.func_sel else p) m
      (if o.func_sel ≠ FUNC_UNSET then set_fsel stepping pin.val o.func_sel m else m) := by
    split_ifs
    · exact set_fsel_sets stepping pin m hmux o.func_sel
    · exact .same pin m
  generalize (if o.func_sel ≠ FUNC_UNSET then set_fsel stepping pin.val o.func_sel m else m) =
    m₁ at h₁ ⊢
  have hpulls (m : Regs) :
      Sets (fields stepping) pin (fun p : Pin => if o.pull ≠ PULL_UNSET then p.setPull o.pull
          else p) m
        (if o.pull ≠ PULL_UNSET then set_pull stepping pin.val o.pull m else m) := by
    split_ifs
    · exact set_pull_sets stepping pin m hmux o.pull
    · exact .same pin m
  have hhere := h₁.here
  by_cases hd : o.drive ≠ DRIVE_UNSET
  · rw [if_pos hd, get_fsel_eq stepping pin m₁ hmux]
    by_cases hop : (pinOf stepping m₁ pin).func = FUNC_OP
    · have hdrive : o.drive < 2 := by
        obtain h | h | h := ho.drive
        · exact absurd h hd
        · rw [h]
          decide
        · rw [h]
          decide
      rw [if_pos hop]
      refine ((h₁.trans (set_drive_sets stepping pin m₁ hdrive)).trans (hpulls _)).congr ?_
      rw [pinOf, hhere] at hop
      simp only [Function.comp_apply, setAt, if_pos hmux, Pin.set, if_pos hd, if_pos hop]
    · rw [if_neg hop]
      refine h₁.congr ?_
      rw [pinOf, hhere] at hop
      simp only [setAt, if_pos hmux, Pin.set, if_pos hd, if_neg hop]
  · rw [if_neg hd]
    refine (h₁.trans (hpulls _)).congr ?_
    simp only [Function.comp_apply, setAt, if_pos hmux, Pin.set, if_neg hd]

/-! ### The program on its registers -/

theorem number_lt {s : Text} {pin : ℕ} {rest : Text} (h : number s = .ok (pin, rest)) :
    pin < GPIO_MAX := by
  rw [number] at h
  split_ifs at h with hbad
  cases h
  exact not_le.mp fun hmax => hbad (.inr (.inr hmax))

/-- **What `gpio-bcm set` comes to**, on either stepping: each pin that the list names is set as
`setAt` says, and no other bit of a register is changed. -/
theorem pins_configured (stepping : Stepping) {argv : List Text} {calls : List Call}
    (hargv : argv[1]? = some "set".toList) (h : main true argv = (.EXIT_SUCCESS, calls))
    (m : Regs) :
    ∃ pin_opt items o m', argv[2]? = some pin_opt ∧ Ranges (Takes number) pin_opt items ∧
      setOptions (argv.drop 3) {} = some o ∧
      exec (fun pin m => some (gpio_get stepping pin m))
          (fun pin o m => some (gpio_set stepping pin o m)) calls m =
        some m' ∧
      (∀ pin : Fin GPIO_MAX, (∃ item ∈ items, Spans item pin) →
        pinOf stepping m' pin = setAt stepping pin o (pinOf stepping m pin)) ∧
      (∀ pin : Fin GPIO_MAX, (¬ ∃ item ∈ items, Spans item pin) →
      pinOf stepping m' pin = pinOf stepping m pin) ∧
      Spares (fun f => ∃ pin : Fin GPIO_MAX, (∃ item ∈ items, Spans item pin) ∧
      PartOf (fields stepping) pin f) m m' := by
  have hacts : ∀ (pin : Fin GPIO_MAX) (o : Options) (m : Regs), o.Known →
      ∃ m', (fun pin o m => some (gpio_set stepping pin o m)) pin.val o m = some m' ∧
        Acts (PartOf (fields stepping)) (pinOf stepping) pin
          (setAt stepping pin o) m m' := by
    intro pin o m ho
    have hsets := gpio_set_does stepping pin ho m
    exact ⟨_, rfl, hsets.here, fun _ hne => hsets.other (fields_distinct stepping) hne,
      hsets.spares⟩
  refine configures (fun s => ?_) (fun _ _ _ hs => (number_lt hs).trans (by decide)) hacts hargv h m
  rw [pins, number2_eq]

/-- On D0, pins 4 and 5 are made outputs: the one is, and the other is not there. -/
theorem pins_configured_output :
    ∃ m', exec (fun pin m => some (gpio_get .BCM2712_STEPPING_D0 pin m))
        (fun pin o m => some (gpio_set .BCM2712_STEPPING_D0 pin o m))
        [.gpio_set 4 ⟨FUNC_OP, DRIVE_HIGH, PULL_UNSET⟩,
          .gpio_set 5 ⟨FUNC_OP, DRIVE_HIGH, PULL_UNSET⟩] (fun _ => 0) =
          some m' ∧
      pinOf .BCM2712_STEPPING_D0 m' ⟨4, by decide⟩ .data = 1 ∧
      pinOf .BCM2712_STEPPING_D0 m' ⟨5, by decide⟩ .data = 0 := by
  have hrun : main true ["gpio-bcm".toList, "set".toList, "4-5".toList, "op".toList, "dh".toList] =
      (.EXIT_SUCCESS, [.gpio_set 4 ⟨FUNC_OP, DRIVE_HIGH, PULL_UNSET⟩,
      .gpio_set 5 ⟨FUNC_OP, DRIVE_HIGH, PULL_UNSET⟩]) := by
    decide
  obtain ⟨pin_opt, items, o, m', hopt, hitems, ho, hm', hnamed, -, -⟩ :=
    pins_configured .BCM2712_STEPPING_D0 rfl hrun fun _ => 0
  cases hopt
  cases ho
  have hdefinite : Definite (Takes number) := by
    intro s pin pin' rest rest' h h'
    cases h.symm.trans h'
    exact ⟨rfl, rfl⟩
  have hlist : Ranges (Takes number) "4-5".toList [(4, 5)] :=
    .last (.range (show number _ = .ok (4, "-5".toList) by decide)
      (show number _ = .ok (5, []) by decide))
  rw [hitems.unique hdefinite hlist] at hnamed
  refine ⟨m', hm', ?_, ?_⟩
  · rw [hnamed ⟨4, by decide⟩ ⟨(4, 5), List.mem_cons_self, by decide, by decide⟩]
    decide
  · rw [hnamed ⟨5, by decide⟩ ⟨(4, 5), List.mem_cons_self, by decide, by decide⟩]
    decide

end Gpio.Bcm
