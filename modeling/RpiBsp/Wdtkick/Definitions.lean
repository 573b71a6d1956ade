import RpiBsp.Support.Strto

/-!
# Wdtkick — the program

`wdtkick` keeps the watchdog from resetting the board.  Which registers it writes, and how many
bytes it maps for them, comes from the hwinfo section of the system page and then from the command
line.  A `uint32_t` is a number below `2 ^ 32`.
-/

namespace Wdtkick

open Support

/-! ### Numbers -/

/-- `(uint32_t)`. -/
def u32 (n : ℕ) : ℕ := n % 2 ^ 32

/-- A value as an `int`. -/
def toInt (n : ℕ) : ℤ := if n % 2 ^ 32 < 2 ^ 31 then n % 2 ^ 32 else (n % 2 ^ 32 : ℕ) - 2 ^ 32

/-- A value as a `long`. -/
def toLong (n : ℕ) : ℤ := if n < 2 ^ 63 then n else n - 2 ^ 64

/-! ### The state -/

def MAX_NUM_REG : ℕ := 5
def DEFAULT_REG_LEN : ℕ := 0x1000

inductive Operation where
  | BITSWAP
  | WRITE
deriving DecidableEq, Repr

/-- `wdt_init_t`, with `errno`. -/
structure Wdt where
  physbase : ℕ
  kick_time : ℤ
  len : ℕ
  priority : ℤ
  operation : Option Operation
  verbose : ℕ
  write_width : ℕ
  enable_width : ℕ
  enable_mask : ℕ
  enable_condition : ℕ
  enable_reg_offset : ℕ
  /-- `[REG_OFFSET]` and `[REG_VAL]`. -/
  write_reg : ℕ → ℕ × ℕ
  bitswap_value : ℕ
  num_writes : ℕ
  increment_index : Bool
  /-- `errno == ERANGE`. -/
  erange : Bool

namespace Wdt

/-- The length is raised to what an offset needs to be in it. -/
def reach (w : Wdt) (n : ℕ) : Wdt := { w with len := if n > w.len then n else w.len }

def setOffset (w : Wdt) (n : ℕ) : Wdt :=
  { w with write_reg := fun i => if i = w.num_writes then (n, (w.write_reg i).2)
    else w.write_reg i }

def setVal (w : Wdt) (n : ℕ) : Wdt :=
  { w with write_reg := fun i => if i = w.num_writes then ((w.write_reg i).1, n)
    else w.write_reg i }

/-- A call that sets `errno` if it is out of range. -/
def seen (w : Wdt) (p : Parsed) : Wdt := { w with erange := p.erange || w.erange }

end Wdt

/-! ### Hwinfo -/

structure Tag where
  regname : Text
  offset : ℕ
deriving DecidableEq, Repr

/-- The location and the clock of the device `wdog`. -/
structure Timer where
  len : ℕ
  base : ℕ
  clkfreq : ℤ
deriving DecidableEq, Repr

/-- The devices that are looked up, with their register tags. -/
structure Hwinfo where
  wdog : Option Timer
  options : Option (List Tag)
  bitswap : Option (List Tag)
  regwrite : Option (List Tag)
deriving DecidableEq, Repr

def parse_hwinfo_init (h : Hwinfo) (w : Wdt) : Wdt :=
  match h.wdog with
  | none => w
  | some t =>
      { w.reach t.len with
        physbase := if t.base > 0 then t.base else w.physbase, kick_time := t.clkfreq }

def parse_hwinfo_opt (w : Wdt) : List Tag → Wdt
  | [] => w
  | t :: tags =>
    if t.regname = "write_width".toList then
      parse_hwinfo_opt { w with write_width := u32 t.offset } tags
    else if t.regname = "enable_width".toList then
      parse_hwinfo_opt { w with enable_width := u32 t.offset } tags
    else if t.regname = "enable_mask".toList then
      parse_hwinfo_opt { w with enable_mask := u32 t.offset } tags
    else if t.regname = "enable_condition".toList then
      parse_hwinfo_opt { w with enable_condition := u32 t.offset } tags
    else if t.regname = "enable_offset".toList then
      parse_hwinfo_opt ({ w with enable_reg_offset := u32 t.offset }.reach (u32 t.offset)) tags
    -- a name that is not known ends the loop
    else w

def parse_hwinfo_bitswap (h : Hwinfo) (w : Wdt) : Wdt × List Tag :=
  match h.bitswap with
  | some tags => ({ w with operation := some .BITSWAP }, tags)
  | none =>
    match h.regwrite with
    | some tags => ({ w with operation := some .WRITE }, tags)
    | none => (w, [])

/-- Where `wd_parse_hwinfo` looks for the next tag: at the head of its loop, after an offset, or, in
`parse_hwinfo_value`, after a value. -/
inductive Place where
  | head
  | afterOffset
  | afterValue
deriving DecidableEq, Repr

/-- The end of the loop's body. -/
def bump (w : Wdt) : Wdt :=
  if w.increment_index then { w with num_writes := w.num_writes + 1 }
  else { w with increment_index := true }

def isValue (name : Text) : Prop :=
  name = "value".toList ∨ name = "value32_lo".toList ∨ name = "value32_hi".toList

instance (name : Text) : Decidable (isValue name) := inferInstanceAs (Decidable (_ ∨ _))

/-- What a value tag stores after an offset. -/
def storeValue (t : Tag) (w : Wdt) : Wdt :=
  if t.regname = "value".toList then w.setVal (u32 t.offset)
  else if t.regname = "value32_lo".toList then
    { w.setVal (u32 t.offset) with increment_index := false }
  else w.setVal ((w.write_reg w.num_writes).2 ||| u32 (u32 t.offset * 2 ^ 16))

/-- An offset is stored, and the length raised. -/
def storeOffset (t : Tag) (w : Wdt) : Wdt := (w.setOffset (u32 t.offset)).reach (u32 t.offset)

/-- One tag of `wd_parse_hwinfo`; `none` is `EXIT_FAILURE`. -/
def tagStep : Place × Wdt → Tag → Option (Place × Wdt)
  | (.head, w), t =>
    if w.num_writes ≥ MAX_NUM_REG then none
    else if t.regname = "offset".toList then some (.afterOffset, storeOffset t w)
    -- whatever the value was made of, the tag's number is stored once more
    else if isValue t.regname then some (.afterValue, (storeValue t w).setVal (u32 t.offset))
    else none
  | (.afterOffset, w), t =>
    if isValue t.regname then some (.head, bump (storeValue t w))
    else if t.regname = "offset".toList then
      if w.operation = some .BITSWAP then
        let w := { w.setVal 0xFFFFFFFF with num_writes := w.num_writes + 1 }
        if w.num_writes ≥ MAX_NUM_REG then none else some (.afterOffset, storeOffset t w)
      else none
    else none
  | (.afterValue, w), t =>
    if t.regname = "offset".toList then some (.head, bump (storeOffset t w)) else none

/-- No more tags. -/
def tagsEnd : Place × Wdt → Option Wdt
  | (.head, w) => some w
  | (.afterOffset, w) =>
    if w.operation = some .BITSWAP then
      some { w.setVal 0xFFFFFFFF with num_writes := w.num_writes + 1 } else none
  | (.afterValue, _) => none

def wd_parse_hwinfo (h : Hwinfo) (w : Wdt) : Option Wdt :=
  let w := parse_hwinfo_init h w
  let w := parse_hwinfo_opt w (h.options.getD [])
  let (w, tags) := parse_hwinfo_bitswap h w
  (tags.foldlM tagStep (Place.head, w)).bind tagsEnd

/-! ### Options -/

/-- What `getopt` returns; `other` are the letters that do nothing. -/
inductive Letter where
  | a
  | l
  | p
  | t
  | w
  | r
  | E
  | B
  | W
  | v
  | other
deriving DecidableEq, Repr

/-- An option: its letter, its argument, and what is in memory behind the end of that. -/
structure Opt where
  opt : Letter
  optarg : Text
  beyond : Text
deriving DecidableEq, Repr

def is_valid_range (val : ℕ) (erange : Bool) : Bool := !(val ≠ 0 && erange)

/-- `is_valid_separator(optarg[0])`. -/
def separated (s : Text) : Bool := s.head? = some ':'

def wd_parse_options_enable_offset (o : Opt) (w : Wdt) : Option Wdt :=
  let p := strtol64 16 o.optarg
  let w := ({ w with enable_reg_offset := u32 p.val }.reach (u32 p.val)).seen p
  if !is_valid_range w.enable_reg_offset w.erange then none
  else if !separated p.rest then none
  else if p.rest.tail = [] then none
  else
    let q := strtoul 16 p.rest.tail
    let w := { w with enable_mask := u32 q.val, erange := q.erange }
    if !is_valid_range w.enable_mask w.erange then none
    else if q.rest = [] then some { w with enable_condition := w.enable_mask }
    else if !separated q.rest then none
    else
      let r := strtoul 16 q.rest.tail
      let w := { w with enable_condition := u32 r.val, erange := r.erange }
      if w.enable_condition ≠ 0 then
        if !is_valid_range w.enable_condition w.erange then none else some w
      else some { w with enable_condition := w.enable_mask }

def wd_parse_options_bitswap (o : Opt) (w : Wdt) : Option Wdt :=
  if w.num_writes ≥ MAX_NUM_REG then none
  else
    let p := strtol64 16 o.optarg
    let w := (w.setOffset (u32 p.val)).seen p
    if !is_valid_range (u32 p.val) w.erange then none
    else
      let w := w.reach (u32 p.val)
      if p.rest ≠ [] && !separated p.rest then none
      else
        -- without a separator this starts behind the end of the argument
        let q := strtoul 16 (if p.rest = [] then o.beyond else p.rest.tail)
        let w := { w with bitswap_value := u32 q.val, erange := q.erange }
        if w.bitswap_value ≠ 0 && !is_valid_range w.bitswap_value w.erange then none
        else
          let w := w.setVal (if w.bitswap_value ≠ 0 then w.bitswap_value else 0xFFFFFFFF)
          some { w with num_writes := w.num_writes + 1, operation := some .BITSWAP }

def wd_parse_options_write (o : Opt) (w : Wdt) : Option Wdt :=
  if w.num_writes ≥ MAX_NUM_REG then none
  else
    let p := strtoul 16 o.optarg
    let w := { w.setOffset (u32 p.val) with erange := p.erange }
    if !is_valid_range (u32 p.val) w.erange then none
    else
      let w := w.reach (u32 p.val)
      if !separated p.rest then none
      else
        let q := strtoul 16 p.rest.tail
        let w := { w.setVal (u32 q.val) with erange := q.erange }
        if !is_valid_range (u32 q.val) w.erange then none
        else some { w with num_writes := w.num_writes + 1, operation := some .WRITE }

/-- One round of `wd_parse_options`. -/
def optStep (w : Wdt) (o : Opt) : Option Wdt :=
  match o.opt with
  | .a =>
    let p := strtoul 0 o.optarg
    some { w with physbase := if p.erange then w.physbase else p.val, erange := p.erange }
  | .l =>
    let p := strtoul 0 o.optarg
    some { w with len := if p.erange then w.len else p.val, erange := p.erange }
  | .p =>
    let p := strtol64 0 o.optarg
    some { w with priority := if p.erange then w.priority else toInt p.val, erange := p.erange }
  | .t =>
    let p := strtoul 0 o.optarg
    some { w with kick_time := if p.erange then w.kick_time else toLong p.val, erange := p.erange }
  | .w =>
    let p := strtoul 0 o.optarg
    some { w with write_width := if p.erange then w.write_width else u32 p.val, erange := p.erange }
  | .r =>
    let p := strtoul 0 o.optarg
    some { w with enable_width := if p.erange then
      w.enable_width else u32 p.val, erange := p.erange }
  | .E => wd_parse_options_enable_offset o w
  | .B => wd_parse_options_bitswap o w
  | .W => wd_parse_options_write o w
  | .v => some { w with verbose := w.verbose + 1 }
  | .other => some w

def wd_parse_options (opts : List Opt) (w : Wdt) : Option Wdt := opts.foldlM optStep w

/-! ### The program -/

def wd_evaluate_params (w : Wdt) : Bool :=
  w.physbase ≠ 0 && w.kick_time ≠ -1 && w.operation ≠ none && w.num_writes ≠ 0

/-- `wd_setup_write_width`, `wd_setup_enable_width`: the widths there are. -/
def isWidth (n : ℕ) : Bool := n = 32 || n = 16 || n = 8

/-- What the program is started with: the hwinfo section, the options, what was in memory where it
keeps its state, and whether the system lets it run as it wants and map its registers. -/
structure Input where
  hwinfo : Hwinfo
  opts : List Opt
  enable_condition : ℕ
  write_reg : ℕ → ℕ × ℕ
  bitswap_value : ℕ
  erange : Bool
  configured : Bool
  mapped : Bool

def initial (i : Input) : Wdt where
  physbase := 0
  kick_time := -1
  len := DEFAULT_REG_LEN
  priority := 10
  operation := none
  verbose := 0
  write_width := 32
  enable_width := 32
  enable_mask := 0
  enable_condition := i.enable_condition
  enable_reg_offset := 0
  write_reg := i.write_reg
  bitswap_value := i.bitswap_value
  num_writes := 0
  increment_index := true
  erange := i.erange

/-- `main` up to its loop, with `len` bytes mapped; `none` if it ends before. -/
def main (i : Input) : Option Wdt := do
  let w ← wd_parse_hwinfo i.hwinfo (initial i)
  let w ← wd_parse_options i.opts w
  if wd_evaluate_params w && isWidth w.write_width && isWidth w.enable_width && i.configured &&
    i.mapped then some w
  else none

/-- An access of so many bytes. -/
structure Access where
  offset : ℕ
  bytes : ℕ
deriving DecidableEq, Repr

/-- The accesses to the enable register, where `value` is read the first time. -/
def enabling (w : Wdt) (value : ℕ) : List Access :=
  if w.enable_mask ≠ 0 then
    ⟨w.enable_reg_offset, w.enable_width / 8⟩ ::
      if value &&& w.enable_mask ≠ w.enable_mask then
        [⟨w.enable_reg_offset, w.enable_width / 8⟩, ⟨w.enable_reg_offset, w.write_width / 8⟩]
      else []
  else []

/-- One kick of one register. -/
def kick (w : Wdt) (offset : ℕ) : List Access :=
  match w.operation with
  | some .BITSWAP => [⟨offset, w.enable_width / 8⟩, ⟨offset, w.write_width / 8⟩]
  | some .WRITE => [⟨offset, w.write_width / 8⟩]
  | none => []

/-- One pass of the loop. -/
def pass (w : Wdt) : List Access :=
  (List.range w.num_writes).flatMap fun idx => kick w (w.write_reg idx).1

/-- Everything up to the end of the `n`-th pass. -/
def trace (w : Wdt) (value n : ℕ) : List Access :=
  enabling w value ++ (List.replicate n (pass w)).flatten

end Wdtkick
