import RpiBsp.Support.Strto

/-!
# Gpio — the programs

`gpio-rp1` and `gpio-bcm`: the pins that a command line names, and what is done with them.  Both
take a list of numbers and of ranges apart in the same way; the one reads a number with `sscanf`,
the other with `strtoul`.

A pin is read or written by `gpio_get` and `gpio_set`, whose registers are left out, and with them
the stepping of the chip.  Of what is printed only the reason why a list is refused is kept.
-/

namespace Gpio

open Support

/-! ### The list of pins -/

/-- `errno`, as far as it is looked at. -/
inductive Errno where
  | eok
  | einval
  | erange
deriving DecidableEq, Repr

/-- Why a list is refused: `Error: expects gpio between 0 ~ %u`, or `Error: Unknown GPIO "%s"` with
what is left. -/
inductive Failure where
  | range
  | unknown (pin_opt : Text)
deriving DecidableEq, Repr

/-- The loop from `pin` to `pin2`, of so many rounds. -/
def markPins : ℕ → ℕ → BitVec 64 → BitVec 64
  | 0, _, pin_mask => pin_mask
  | rounds + 1, pin, pin_mask => markPins rounds (pin + 1) (pin_mask ||| (1#64 <<< pin))

/-- The pins from the first to the second. -/
def mark (pin_mask : BitVec 64) (range : ℕ × ℕ) : BitVec 64 :=
  markPins (range.2 + 1 - range.1) range.1 pin_mask

/-- One round of the loop up to the look at what follows: a number, or two numbers with `-` between
them. -/
def pinItem (number number2 : Text → Except Failure (ℕ × Text)) (pin_opt : Text)
    (pin_mask : BitVec 64) :
    Except Failure (Text × BitVec 64) := do
  let (pin, pin_opt) ← number pin_opt
  match pin_opt with
  | '-' :: pin_opt => do
      let (pin2, pin_opt) ← number2 pin_opt
      return (pin_opt, mark pin_mask (if pin2 < pin then (pin2, pin) else (pin, pin2)))
  | _ => return (pin_opt, mark pin_mask (pin, pin))

/-- The loop; every round takes a comma at least, so that the length of the text bounds the
rounds. -/
def pinLoop (number number2 : Text → Except Failure (ℕ × Text)) :
    ℕ → Text → BitVec 64 → Except Failure (BitVec 64)
  | 0, pin_opt, _ => .error (.unknown pin_opt)
  | rounds + 1, pin_opt, pin_mask => do
      let (pin_opt, pin_mask) ← pinItem number number2 pin_opt pin_mask
      match pin_opt with
      | [] => return pin_mask
      | ',' :: pin_opt => pinLoop number number2 rounds pin_opt pin_mask
      | _ => .error (.unknown pin_opt)

/-! ### The command line -/

def DRIVE_UNSET : ℕ := 0xFFFFFFFF
def DRIVE_LOW : ℕ := 0
def DRIVE_HIGH : ℕ := 1

def PULL_UNSET : ℕ := 0xFFFFFFFF
def PULL_NONE : ℕ := 0
def PULL_DOWN : ℕ := 1
def PULL_UP : ℕ := 2

def FUNC_UNSET : ℕ := 0xFFFFFFFF
def FUNC_A0 : ℕ := 0
def FUNC_IP : ℕ := 20
def FUNC_OP : ℕ := 21
def FUNC_GP : ℕ := 22
def FUNC_NO : ℕ := 23

/-- What a pin is set to. -/
structure Options where
  func_sel : ℕ := FUNC_UNSET
  drive : ℕ := DRIVE_UNSET
  pull : ℕ := PULL_UNSET
deriving DecidableEq, Repr

/-- The options of `set`. -/
def optionTable : List (String × (Options → Options)) :=
  [("dh", fun o => { o with drive := DRIVE_HIGH }), ("dl", fun o => { o with drive := DRIVE_LOW }),
    ("gp", fun o => { o with func_sel := FUNC_GP }),
    ("ip", fun o => { o with func_sel := FUNC_IP }),
    ("op", fun o => { o with func_sel := FUNC_OP }),
    ("no", fun o => { o with func_sel := FUNC_NO }),
    ("a0", fun o => { o with func_sel := FUNC_A0 }),
    ("a1", fun o => { o with func_sel := FUNC_A0 + 1 }),
    ("a2", fun o => { o with func_sel := FUNC_A0 + 2 }),
    ("a3", fun o => { o with func_sel := FUNC_A0 + 3 }),
    ("a4", fun o => { o with func_sel := FUNC_A0 + 4 }),
    ("a5", fun o => { o with func_sel := FUNC_A0 + 5 }),
    ("a6", fun o => { o with func_sel := FUNC_A0 + 6 }),
    ("a7", fun o => { o with func_sel := FUNC_A0 + 7 }),
    ("a8", fun o => { o with func_sel := FUNC_A0 + 8 }),
    ("pu", fun o => { o with pull := PULL_UP }),
    ("pd", fun o => { o with pull := PULL_DOWN }), ("pn", fun o => { o with pull := PULL_NONE })]

/-- The options, one after the other; nothing if one of them is unknown. -/
def setOptions : List Text → Options → Option Options
  | [], o => some o
  | arg :: args, o =>
      match optionTable.find? fun row => row.1.toList = arg with
      | some row => setOptions args (row.2 o)
      | none => none

inductive Exit where
  | EXIT_SUCCESS
  | EXIT_FAILURE
deriving DecidableEq, Repr

/-- A pin is read or written. -/
inductive Call where
  | gpio_get (pinnum : ℕ)
  | gpio_set (pinnum : ℕ) (o : Options)
deriving DecidableEq, Repr

def Call.pinnum : Call → ℕ
  | gpio_get pinnum => pinnum
  | gpio_set pinnum _ => pinnum

/-- `main`, by how a list of pins is read, from which pin on they are looked at, and whether the
registers are mapped. -/
def run (pins : Text → Except Failure (BitVec 64)) (first max : ℕ) (mapped : Bool)
    (argv : List Text) : Exit × List Call :=
  let argc := argv.length
  let get := argv[1]? = some "get".toList
  let set := argv[1]? = some "set".toList
  let funcs := argv[1]? = some "funcs".toList
  if argc < 2 then (.EXIT_FAILURE, [])
  else if ¬ set ∧ ¬ get ∧ ¬ funcs then (.EXIT_FAILURE, [])
  else if (get ∨ funcs) ∧ argc > 3 then (.EXIT_FAILURE, [])
  else if set ∧ argc < 4 then (.EXIT_FAILURE, [])
  else
    match argv[2]?.elim (.ok 0) pins with
    | .error _ => (.EXIT_FAILURE, [])
    | .ok pin_mask =>
      match if set then setOptions (argv.drop 3) {} else some {} with
      | none => (.EXIT_FAILURE, [])
      | some o =>
        if funcs then (.EXIT_SUCCESS, [])
        else if mapped = false then (.EXIT_FAILURE, [])
        else
          let touched := (List.range' first (max - first)).filter fun pin =>
            pin_mask = 0 ∨ pin_mask.getLsbD pin
          (.EXIT_SUCCESS, touched.map fun pin => if get then .gpio_get pin else .gpio_set pin o)

/-! ### `gpio-rp1` -/

namespace Rp1

def GPIO_MIN : ℕ := 0
def GPIO_MAX : ℕ := 54

/-- `sscanf(pin_opt, "%u%n", &pin, &len)`, if it stores a number: the number, and the text from
`len` on.  What is stored for a minus, or for digits that an `unsigned` has no room for, is up to
`stored`. -/
def sscanf (stored : Bool → ℕ → ℕ) (pin_opt : Text) : Option (ℕ × Text) :=
  (scan 10 pin_opt).map fun r => (stored r.1 r.2.1, r.2.2)

def number (stored : Bool → ℕ → ℕ) (pin_opt : Text) : Except Failure (ℕ × Text) :=
  match sscanf stored pin_opt with
  | none => .error (.unknown pin_opt)
  | some (pin, rest) => if pin ≥ GPIO_MAX then .error (.unknown pin_opt) else .ok (pin, rest)

/-- The list of pins. -/
def pins (stored : Bool → ℕ → ℕ) (pin_opt : Text) : Except Failure (BitVec 64) :=
  pinLoop (number stored) (number stored) (pin_opt.length + 1) pin_opt 0

def main (stored : Bool → ℕ → ℕ) : Bool → List Text → Exit × List Call :=
  run (pins stored) GPIO_MIN GPIO_MAX

end Rp1

/-! ### `gpio-bcm` -/

namespace Bcm

def GPIO_MAX : ℕ := 36

def ULONG_MAX : ℕ := 2 ^ 64 - 1

/-- `errno` after `strtoul`: a text without digits leaves it alone. -/
def errno (p : Parsed) : Errno := if p.erange then .erange else .eok

/-- The first number of an item. -/
def number (pin_opt : Text) : Except Failure (ℕ × Text) :=
  let p := strtoul 10 pin_opt
  if p.val = 0 ∧ errno p = .einval ∨ p.val = ULONG_MAX ∧ errno p = .erange ∨ p.val ≥ GPIO_MAX then
    .error .range
  else .ok (p.val, p.rest)

/-- The second one. -/
def number2 (pin_opt : Text) : Except Failure (ℕ × Text) :=
  let p := strtoul 10 pin_opt
  if p.val = 0 ∧ errno p = .einval ∨ p.val ≠ 0 ∧ errno p = .erange ∨ p.val ≥ GPIO_MAX then
    .error .range
  else .ok (p.val, p.rest)

/-- The list of pins. -/
def pins (pin_opt : Text) : Except Failure (BitVec 64) :=
  pinLoop number number2 (pin_opt.length + 1) pin_opt 0

def main : Bool → List Text → Exit × List Call := run pins 0 GPIO_MAX

end Bcm

end Gpio
