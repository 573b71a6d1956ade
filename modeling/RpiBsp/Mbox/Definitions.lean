import RpiBsp.Support.Access
import RpiBsp.Support.Fields
import RpiBsp.Support.Strto

/-!
# Mbox — the program

`mbox` sends requests of its command line to the firmware, through a page that both of them see, and
prints what the firmware answers (`mbox.c`).  The program is modelled with the places that it
accesses in `opt_arg` and in the page; the registers and the firmware are given.  The page and the
registers are mapped.
-/

namespace Mbox

open Support Touching

/-- `(uint32_t)`. -/
def u32 (n : ℕ) : ℕ := n % 2 ^ 32

/-! ### Tags -/

def MBOX_TAG_GET_FIRMWAREREV : ℕ := 0x00000001
def MBOX_TAG_GET_FIRMWAREVAR : ℕ := 0x00000002
def MBOX_TAG_GET_FIRMWAREHASH : ℕ := 0x00000003
def MBOX_TAG_GET_BOARDMODEL : ℕ := 0x00010001
def MBOX_TAG_GET_BOARDREVISION : ℕ := 0x00010002
def MBOX_TAG_GET_MACADDRESS : ℕ := 0x00010003
def MBOX_TAG_GET_BOARDSERIAL : ℕ := 0x00010004
def MBOX_TAG_GET_ARMMEMORY : ℕ := 0x00010005
def MBOX_TAG_GET_VCMEMORY : ℕ := 0x00010006
def MBOX_TAG_GET_CLOCKS : ℕ := 0x00010007
def MBOX_TAG_GET_POWERSTATE : ℕ := 0x00020001
def MBOX_TAG_GET_POWERTIMING : ℕ := 0x00020002
def MBOX_TAG_GET_CLOCKSTATE : ℕ := 0x00030001
def MBOX_TAG_GET_CLOCKRATE : ℕ := 0x00030002
def MBOX_TAG_GET_VOLTAGE : ℕ := 0x00030003
def MBOX_TAG_GET_MAX_CLOCKRATE : ℕ := 0x00030004
def MBOX_TAG_GET_MAX_VOLTAGE : ℕ := 0x00030005
def MBOX_TAG_GET_TEMPERATURE : ℕ := 0x00030006
def MBOX_TAG_GET_MIN_CLOCKRATE : ℕ := 0x00030007
def MBOX_TAG_GET_MIN_VOLTAGE : ℕ := 0x00030008
def MBOX_TAG_GET_TURBO : ℕ := 0x00030009
def MBOX_TAG_GET_MAX_TEMPERATURE : ℕ := 0x0003000a
def MBOX_TAG_GET_GPIO_STATE : ℕ := 0x00030041
def MBOX_TAG_GET_GPIO_CONFIG : ℕ := 0x00030043
def MBOX_TAG_GET_THROTTLED : ℕ := 0x00030046
def MBOX_TAG_GET_CLOCK_MEASURED : ℕ := 0x00030047
def MBOX_TAG_NOTIFY_XHCI_RESET : ℕ := 0x00030058
def MBOX_TAG_GET_CMDLINE : ℕ := 0x00050001
def MBOX_TAG_GET_DMACHAN : ℕ := 0x00060001

/-! ### The state -/

/-- Where the accesses go: the argument words, and the page. -/
inductive Region where
  | opt_arg
  | out
deriving DecidableEq

def sizes : Region → ℕ
  | .opt_arg => 4 * (256 + 1)
  | .out => 0x1000

/-- What the program runs against. -/
structure Firmware where
  /-- What the `n`-th read of a register gives. -/
  regs : ℕ → ℕ
  /-- What the firmware makes of the page, by the `n`-th read. -/
  answer : ℕ → (ℕ → UInt8) → ℕ → UInt8

structure State where
  opt_arg : ℕ → UInt8
  out : ℕ → UInt8
  /-- The register reads so far. -/
  reads : ℕ
  /-- The messages that were sent. -/
  sent : List (List UInt8)
  stdout : Text

abbrev Run := StateT State (Touching Region)

def access (region : Region) (off len : ℕ) : Run Unit := StateT.lift (touch region off len)

def printf (text : Text) : Run Unit := modify fun s => { s with stdout := s.stdout ++ text }

/-! ### `mbox_msg` -/

def MBOX_PROCESS_REQUEST : ℕ := 0
def MBOX_TAG_REQUEST : ℕ := 0
def MBOX_TAG_NULL : ℕ := 0

/-- The bits of the status registers. -/
def FULL_BIT : ℕ := 31
def EMPTY_BIT : ℕ := 30

def MBOX_SEND_CHANNEL : ℕ := 8

variable (fw : Firmware)

/-- A register is read. -/
def readReg : Run ℕ := do
  let s ← get
  modify fun s => { s with reads := s.reads + 1 }
  return fw.regs s.reads

/-- A loop that waits until a bit of a status register is clear: how many more rounds there could
be, or `none` when there are no more. -/
def waitClear (bit : ℕ) : ℕ → Run (Option ℕ)
  | 0 => do if (← readReg fw).testBit bit = false then return some 0 else return none
  | left + 1 => do
      if (← readReg fw).testBit bit = false then return some (left + 1) else waitClear bit left

/-- The loop that waits for an answer on the channel, as long as there are `fuel` messages at most:
whether there was one, or a timeout. -/
def receive : ℕ → Run (Option Bool)
  | 0 => return none
  | fuel + 1 => do
    match ← waitClear fw EMPTY_BIT 5000 with
    | none => return some false
    | some _ =>
      let rd ← readReg fw
      if rd % 16 = MBOX_SEND_CHANNEL then
        modify fun s => { s with out := fw.answer s.reads s.out }
        return some true
      else receive fuel

/-- `memcpy(buf, msg->buf, len)`. -/
def copyBack (len : ℕ) : Run Unit := do
  access .out 20 len
  access .opt_arg 0 len
  modify fun s => { s with opt_arg := write 0 (bytes s.out 20 len) s.opt_arg }

/-- What is copied back, and how many bytes that are. -/
def reply (tag bufsize : ℕ) : Run ℤ := do
  access .out 16 4
  let len := load 4 16 (← get).out % 2 ^ 31
  if tag ≠ MBOX_TAG_GET_FIRMWAREHASH then
    if len > 0 then
      let len := if len > bufsize then bufsize else len
      copyBack len
      return len
    else return len
  else
    -- the answer is longer than it says
    copyBack bufsize
    return bufsize

/-- The message is put into the page. -/
def compose (tag bufsize : ℕ) : Run Unit := do
  access .out 0 20
  modify fun s =>
    { s with out := write 0 (fields 4
      [u32 (24 + bufsize), MBOX_PROCESS_REQUEST, tag, bufsize, MBOX_TAG_REQUEST]) s.out }
  access .opt_arg 0 bufsize
  access .out 20 bufsize
  modify fun s => { s with out := write 20 (bytes s.opt_arg 0 bufsize) s.out }
  access .out (20 + bufsize) 4
  modify fun s => { s with out := store 4 (20 + bufsize) MBOX_TAG_NULL s.out }

/-- `mbox_msg`, for the buffer `opt_arg`; `none` while it waits.  The first two loops count their
rounds together. -/
def mbox_msg (fuel tag bufsize : ℕ) : Run (Option ℤ) := do
  compose tag bufsize
  match ← waitClear fw FULL_BIT 5000 with
  | none =>
    printf "Check for tovc channel full timeout\n".toList
    return some (-1)
  | some left =>
    modify fun s => { s with sent := s.sent ++ [bytes s.out 0 (load 4 0 s.out)] }
    match ← waitClear fw FULL_BIT left with
    | none =>
      printf "Wait for tx done timeout\n".toList
      return some (-1)
    | some _ =>
      match ← receive fw fuel with
      | none => return none
      | some false =>
        printf "Wait for response timeout\n".toList
        return some (-2)
      | some true =>
        return some (← reply tag bufsize)

/-! ### Formats -/

/-- A word of `opt_arg`. -/
def word (i : ℕ) : Run ℕ := do
  access .opt_arg (4 * i) 4
  return load 4 (4 * i) (← get).opt_arg

/-- The words up to `n`, each of them printed. -/
def fmt_words (print : ℕ → Text) (n : ℕ) : ℕ → Run Unit
  | 0 => printf ['\n']
  | k + 1 => do
    printf (print (← word (n - (k + 1))))
    fmt_words print n k

def toInt (n : ℕ) : ℤ := if n < 2 ^ 31 then n else n - 2 ^ 32

/-- `%08x`. -/
def hex8 (n : ℕ) : Text :=
  List.replicate (8 - (Nat.toDigits 16 n).length) '0' ++ Nat.toDigits 16 n

def fmt_d (len : ℕ) : Run Unit :=
  fmt_words (fun v => decimal (toInt v) ++ [' ']) (len / 4) (len / 4)

def fmt_u (len : ℕ) : Run Unit := fmt_words (fun v => decimal v ++ [' ']) (len / 4) (len / 4)

/-- The words are rounded up, for an address of six bytes. -/
def fmt_x (len : ℕ) : Run Unit :=
  let length := u32 (len + 3)
  fmt_words (fun v => hex8 v ++ [' ']) (length / 4) (length / 4)

def fmt_x_str (len : ℕ) : Run Unit := fmt_words hex8 (len / 4) (len / 4)

/-- `%.*s`: up to a zero, and not more than `len` characters. -/
def fmt_s (len : ℕ) : Run Unit := do
  let text := (bytes (← get).opt_arg 0 len).takeWhile (· ≠ 0)
  access .opt_arg 0 (min len (text.length + 1))
  printf (text.map fun b => Char.ofNat b.toNat)
  printf ['\n']

/-! ### `main` -/

structure CmdOption where
  str : Text
  fmt : ℕ → Run Unit
  tag : ℕ
  len : ℕ

def cmd_options : List CmdOption := [
  ⟨"clockrate".toList, fmt_u, MBOX_TAG_GET_CLOCKRATE, 2⟩,
  ⟨"clockratemeasured".toList, fmt_u, MBOX_TAG_GET_CLOCK_MEASURED, 2⟩,
  ⟨"clocks".toList, fmt_d, MBOX_TAG_GET_CLOCKS, 80⟩,
  ⟨"clockstate".toList, fmt_d, MBOX_TAG_GET_CLOCKSTATE, 2⟩,
  ⟨"cmdline".toList, fmt_s, MBOX_TAG_GET_CMDLINE, 256⟩,
  ⟨"dmachan".toList, fmt_x, MBOX_TAG_GET_DMACHAN, 2⟩,
  ⟨"firmwarerev".toList, fmt_x, MBOX_TAG_GET_FIRMWAREREV, 2⟩,
  ⟨"firmwarevar".toList, fmt_x, MBOX_TAG_GET_FIRMWAREVAR, 1⟩,
  ⟨"firmwarehash".toList, fmt_x_str, MBOX_TAG_GET_FIRMWAREHASH, 5⟩,
  ⟨"gpioconfig".toList, fmt_x, MBOX_TAG_GET_GPIO_CONFIG, 2⟩,
  ⟨"gpiostate".toList, fmt_d, MBOX_TAG_GET_GPIO_STATE, 2⟩,
  ⟨"macaddress".toList, fmt_x, MBOX_TAG_GET_MACADDRESS, 2⟩,
  ⟨"maxclockrate".toList, fmt_u, MBOX_TAG_GET_MAX_CLOCKRATE, 2⟩,
  ⟨"maxtemperature".toList, fmt_d, MBOX_TAG_GET_MAX_TEMPERATURE, 2⟩,
  ⟨"maxvoltage".toList, fmt_d, MBOX_TAG_GET_MAX_VOLTAGE, 2⟩,
  ⟨"memory".toList, fmt_x, MBOX_TAG_GET_ARMMEMORY, 2⟩,
  ⟨"minclockrate".toList, fmt_u, MBOX_TAG_GET_MIN_CLOCKRATE, 2⟩,
  ⟨"minvoltage".toList, fmt_d, MBOX_TAG_GET_MIN_VOLTAGE, 2⟩,
  ⟨"model".toList, fmt_d, MBOX_TAG_GET_BOARDMODEL, 2⟩,
  ⟨"notifyxhcireset".toList, fmt_x, MBOX_TAG_NOTIFY_XHCI_RESET, 2⟩,
  ⟨"powerstate".toList, fmt_d, MBOX_TAG_GET_POWERSTATE, 2⟩,
  ⟨"powertiming".toList, fmt_d, MBOX_TAG_GET_POWERTIMING, 2⟩,
  ⟨"revision".toList, fmt_x, MBOX_TAG_GET_BOARDREVISION, 2⟩,
  ⟨"serial".toList, fmt_x, MBOX_TAG_GET_BOARDSERIAL, 2⟩,
  ⟨"temperature".toList, fmt_d, MBOX_TAG_GET_TEMPERATURE, 2⟩,
  ⟨"throttled".toList, fmt_x, MBOX_TAG_GET_THROTTLED, 1⟩,
  ⟨"turbo".toList, fmt_x, MBOX_TAG_GET_TURBO, 2⟩,
  ⟨"vcmemory".toList, fmt_x, MBOX_TAG_GET_VCMEMORY, 2⟩,
  ⟨"voltage".toList, fmt_d, MBOX_TAG_GET_VOLTAGE, 2⟩]

/-- `opt_arg[i] = v`. -/
def putArg (i v : ℕ) : Run Unit := do
  access .opt_arg (4 * i) 4
  modify fun s => { s with opt_arg := store 4 (4 * i) v s.opt_arg }

/-- The loop over the arguments of an option, for `left` more of them.  What `strtoul` is given is
the name. -/
def parseArgs (str : Text) (num_arg : ℕ) : ℕ → Run ℕ
  | 0 => return num_arg
  | left + 1 => do
    let p := strtoul 0 str
    putArg num_arg (if p.erange then 0 else u32 p.val)
    if p.rest.head? ≠ some ':' then return num_arg + 1 else parseArgs str (num_arg + 1) left

/-- What is printed for the answer. -/
def printReply (fmt : ℕ → Run Unit) (complaint : Text) (ret : ℤ) : Run Unit :=
  if ret > 0 then fmt ret.toNat else printf complaint

/-- A request, and the answer printed with `fmt`; `none` while it waits. -/
def request (fuel : ℕ) (fmt : ℕ → Run Unit) (tag len : ℕ) (complaint : Text) :
    Run (Option Unit) := do
  match ← mbox_msg fw fuel tag (u32 (4 * len)) with
  | none => return none
  | some ret =>
    printReply fmt complaint ret
    return some ()

/-- The loop over the table: whether there was a request; `none` while it waits. -/
def findOption (fuel : ℕ) (str : Text) (isSet : Bool) (num_arg : ℕ) :
    List CmdOption → Run (Option Bool)
  | [] => return some false
  | c :: cs => do
    if str = c.str then
      let tag := if isSet ∧ c.tag ≠ MBOX_TAG_NOTIFY_XHCI_RESET then c.tag ||| 0x8000 else c.tag
      let r ← request fw fuel c.fmt tag (max num_arg c.len)
        "Mbox does not return valid length\n".toList
      return r.map fun _ => true
    else
      let p := strtoul 0 str
      if p.erange = false ∧ u32 p.val ≠ 0 then
        let tag := if isSet then u32 p.val ||| 0x8000 else u32 p.val
        let r ← request fw fuel fmt_x tag (max num_arg 2)
          "Mailbox does not return valid length\n".toList
        return r.map fun _ => true
      else findOption fuel str isSet num_arg cs

def isSep (c : Char) : Bool := c = ':' || c = '='

/-- The `switch` of `main`: how many arguments there are behind the separator. -/
def numArgs (str : Text) (sep : Option Char) : Run ℕ :=
  if sep.isSome then parseArgs str 0 257 else return 0

/-- One round of the loop of `main`: whether it goes on; `none` while it waits. -/
def argument (fuel : ℕ) (arg : Text) : Run (Option Bool) := do
  modify fun s => { s with opt_arg := fun _ => 0 }
  let str := arg.takeWhile fun c => !isSep c
  let sep := (arg.dropWhile fun c => !isSep c).head?
  let num_arg ← numArgs str sep
  let found ← findOption fw fuel str (sep = some '=') num_arg cmd_options
  match found with
  | some false =>
    printf (str ++ " not found?\n".toList)
    return found
  | _ => return found

/-- `main`, for the arguments behind the name of the program; `none` while it waits. -/
def main (fuel : ℕ) : List Text → Run (Option ℕ)
  | [] => return some 0
  | arg :: argv => do
    match ← argument fw fuel arg with
    | none => return none
    | some false => return some 1
    | some true => main fuel argv

end Mbox
