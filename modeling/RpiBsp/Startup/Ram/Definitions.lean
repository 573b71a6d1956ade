import RpiBsp.Startup.Asinfo.Definitions
import RpiBsp.Support.Memory
import Mathlib.Logic.Function.Basic

/-!
# Startup — RAM — definitions

`ram.c`: the table of free RAM `ram_list`, the table of ranges to keep away from `avoid_list`, and
the two allocators over them.

Addresses and sizes are 64-bit words (`paddr_t` and `PADDR_T` on this target), and arithmetic that
the C code does in them wraps.  A table is its memory, a function from slots to entries, with the
size in bytes that the code keeps beside it; the end of `ram_list` is an entry of size 0, the end
of `avoid_list` an entry with `end == 0`.  A cursor that steps back before it steps on (`--r` in a
loop that does `r++`) stays where it is.

No startup in this repository calls `watch_add_ram`, so the watchers of `add_ram` and `add_sysram`
are left out.  Of the memory that `alloc_ram` and `calloc_ram` clear only the place is here: on a
secure system `alloc_ram` cuts the address to 32 bits, and clears something else than what it gives
out if that is RAM above 4 GiB, be it a table of its own.  Then the model stops.
-/

namespace Startup

open Support

/-! ### The tables -/

/-- `struct ram_entry`. -/
structure RamEntry where
  addr : ℕ
  size : ℕ
deriving DecidableEq, Repr

/-- `struct avoid_entry`. -/
structure AvoidEntry where
  start : ℕ
  end_ : ℕ
deriving DecidableEq, Repr

/-- `sizeof(struct ram_entry)` and `sizeof(struct avoid_entry)`. -/
def ENTRY_SIZE : ℕ := 16

def MAX_RAM_LIST_SIZE : ℕ := 3 * 1024
def MAX_AVOID_LIST_SIZE : ℕ := 1024
def TEMP_SYSPAGE_SIZE : ℕ := 48 * 1024
def PAGESIZE : ℕ := 4096

/-- `NULL_PADDR` and `NULL_PADDR_STARTUP`. -/
def NULL_PADDR : ℕ := 2 ^ 64 - 1

/-- `ram_list` with `ram_list_size`. -/
structure RamList where
  slots : ℕ → RamEntry
  ram_list_size : ℕ

/-- `avoid_list` with `avoid_list_size`. -/
structure AvoidList where
  slots : ℕ → AvoidEntry
  avoid_list_size : ℕ

/-- What the startup header and the CPU tell `ram.c`. -/
structure BootInfo where
  full_ram_paddr : ℕ
  ram_size : ℕ
  startup_size : ℕ
  /-- The last physical address the CPU decodes, as `as_default` reads it. -/
  memory_end : ℕ

/-- The static data of `ram.c`, and the section it keeps in step.  Before `ws_init` the two tables
are null pointers. -/
structure RamState where
  inited : Bool
  ram : RamList
  avoid : AvoidList
  ws_early_next : ℕ
  temp_syspage : ℕ
  sysram_added : Bool
  asinfo : Asinfo
  secure_system : Bool := false

/-- The number of entries a full `ram_list` holds, its end included. -/
def RAM_SLOTS : ℕ := MAX_RAM_LIST_SIZE / ENTRY_SIZE

def AVOID_SLOTS : ℕ := MAX_AVOID_LIST_SIZE / ENTRY_SIZE

/-! ### `add_mem` -/

/-- The first loop of `add_mem`: the first entry that starts after `start`, or the end. -/
def insertAt (t : RamList) (start : ℕ) : ℕ → ℕ → Except Crash ℕ
  | 0, _ => .error .outside
  | fuel + 1, r =>
      if (t.slots r).size = 0 then .ok r
      else if start < (t.slots r).addr then .ok r
      else insertAt t start fuel (r + 1)

/-- The second loop of `add_mem`: join entry `r` to the one before it when they meet or touch. -/
def mergeFrom : ℕ → RamList → ℕ → Except Crash RamList
  | 0, _, _ => .error .outside
  | fuel + 1, t, r =>
      if (t.slots r).size = 0 then .ok t
      else
        let e := addW 64 (t.slots (r - 1)).addr (t.slots (r - 1)).size
        let s := (t.slots r).addr
        if s ≤ e then
          let e := if e < addW 64 s (t.slots r).size then addW 64 s (t.slots r).size else e
          let slots := memmove r (r + 1) ((t.ram_list_size - (r + 1) * ENTRY_SIZE) / ENTRY_SIZE)
            t.slots
          let prev := slots (r - 1)
          mergeFrom fuel
            ⟨Function.update slots (r - 1) { prev with size := subW 64 e prev.addr },
              t.ram_list_size - ENTRY_SIZE⟩ r
        else mergeFrom fuel t (r + 1)

/-- `add_mem`. -/
def add_mem (start size : ℕ) (t : RamList) : Except Crash RamList :=
  if 0 < size then do
    let r ← insertAt t start RAM_SLOTS 0
    if t.ram_list_size > MAX_RAM_LIST_SIZE - ENTRY_SIZE then
      throw .ram_overflow
    let slots := memmove (r + 1) r ((t.ram_list_size - r * ENTRY_SIZE) / ENTRY_SIZE) t.slots
    mergeFrom RAM_SLOTS
      ⟨Function.update slots r ⟨start, size⟩, t.ram_list_size + ENTRY_SIZE⟩ 1
  else .ok t

/-! ### Searching -/

/-- `fix_size`: the candidate `[s, e)` kept away from `[as, ae)`, or `none` for the return value
0. -/
def fix_size (s e as ae : ℕ) : Option (ℕ × ℕ) :=
  if ae ≤ s ∨ e ≤ as then some (s, e)
  else if as ≤ s then
    if e ≤ ae then none else some (ae, e)
  else if e < ae then some (s, as)
  else if subW 64 e ae < subW 64 as s then some (s, as)
  else some (ae, e)

/-- The loop over `avoid_list` in `find_ram_in_range` and `find_top_ram_aligned_limit`. -/
def avoidFrom (t : AvoidList) : ℕ → ℕ → ℕ × ℕ → Except Crash (Option (ℕ × ℕ))
  | 0, _, _ => .error .outside
  | fuel + 1, a, (s, e) =>
      if (t.slots a).end_ = 0 then .ok (some (s, e))
      else match fix_size s e (t.slots a).start (t.slots a).end_ with
        | none => .ok none
        | some c => avoidFrom t fuel (a + 1) c

/-- What `find_ram_in_range` does with a candidate that the avoid list left: the address it would
return, or `none` to go on. -/
def fitRange (range_start range_end size align colour mask s e : ℕ) : Option ℕ :=
  let addr := round 64 s align
  let addr :=
    if addr &&& mask ≠ colour then
      let incr := addW 32 (subW 32 mask 1 ||| mask) 1
      (addW 64 addr incr &&& notW 32 mask) ||| colour
    else addr
  let addr := if range_start ≠ 0 ∧ addr < range_start then range_start else addr
  let e := if range_end ≠ 0 ∧ range_end < e then range_end else e
  if e ≤ addr then none
  else if size ≤ e - addr then some addr
  else none

/-- The loop of `find_ram_in_range`. -/
def findFrom (ram : RamList) (avoid : AvoidList)
    (range_start range_end size align colour mask : ℕ) : ℕ → ℕ → Except Crash ℕ
  | 0, _ => .error .outside
  | fuel + 1, r =>
      if (ram.slots r).size = 0 then .ok NULL_PADDR
      else do
        let s := (ram.slots r).addr
        let e := addW 64 s (ram.slots r).size
        match ← avoidFrom avoid AVOID_SLOTS 0 (s, e) with
        | none => findFrom ram avoid range_start range_end size align colour mask fuel (r + 1)
        | some (s, e) =>
            match fitRange range_start range_end size align colour mask s e with
            | some addr => return addr
            | none => findFrom ram avoid range_start range_end size align colour mask fuel (r + 1)

def find_ram_in_range (s : RamState) (range_start range_end size align colour mask : ℕ) :
    Except Crash ℕ :=
  findFrom s.ram s.avoid range_start range_end size align colour mask RAM_SLOTS 0

/-- `find_ram`.  On this target `PADDR_T` is `paddr_t`, so both null addresses are one. -/
def find_ram (s : RamState) (size align colour mask : ℕ) : Except Crash ℕ :=
  find_ram_in_range s 0 (2 ^ 64 - 1) size align colour mask

/-! ### `alloc_ram` -/

/-- The loop of `alloc_ram` over `ram_list`.  It edits the table it walks, and splitting an entry
re-enters `add_mem`.  Only one entry can be split, so twice the slots bound the iterations. -/
def allocFrom (addr end_ : ℕ) : ℕ → RamList → ℕ → Except Crash RamList
  | 0, _, _ => .error .outside
  | fuel + 1, t, r =>
      if (t.slots r).size = 0 then .ok t
      else
        let s := (t.slots r).addr
        let e := addW 64 s (t.slots r).size
        if (addr ≤ s ∧ s < end_) ∨ (s ≤ addr ∧ addr < e) ∨ (s ≤ end_ ∧ end_ < e) then
          let e := if e < end_ then end_ else e
          let s := if addr < s then addr else s
          if addr = s ∧ end_ = e then
            allocFrom addr end_ fuel
              ⟨memmove r (r + 1) ((t.ram_list_size - (r + 1) * ENTRY_SIZE) / ENTRY_SIZE) t.slots,
                t.ram_list_size - ENTRY_SIZE⟩ r
          else if addr = s then
            allocFrom addr end_ fuel
              { t with slots := Function.update t.slots r ⟨end_, subW 64 e end_⟩ } (r + 1)
          else
            let t : RamList :=
              ⟨Function.update t.slots r ⟨(t.slots r).addr, subW 64 addr s⟩, t.ram_list_size⟩
            if e ≠ end_ then do
              let t ← add_mem end_ (subW 64 e end_) t
              allocFrom addr end_ fuel t (r + 1)
            else allocFrom addr end_ fuel t (r + 1)
        else allocFrom addr end_ fuel t (r + 1)

/-- The loop of `alloc_ram` over the `"sysram"` entries, with `end_` included in the range.  An
entry is cut at most once and leaves at most one new one. -/
def allocSysram (addr end_ : ℕ) : ℕ → Option ℕ → Asinfo → Except Crash Asinfo
  | 0, _, _ => .error .outside
  | fuel + 1, off, t =>
      match as_find_containing t.entries off addr end_ "sysram" with
      | none => .ok t
      | some o =>
          match t.entries[o]? with
          | none => .error .outside
          | some as =>
              let s := as.start
              let e := as.end_
              let e := if e < end_ then end_ else e
              let s := if addr < s then addr else s
              if addr = s ∧ end_ = e then .error .whole_sysram
              else if addr = s then
                allocSysram addr end_ fuel (some o)
                  { t with entries := t.entries.modify o fun as =>
                    { as with start := addW 64 end_ 1 } }
              else
                let t := { t with entries := t.entries.modify o fun as =>
                  { as with end_ := subW 64 addr 1 } }
                if e ≠ end_ then do
                  let (_, t) ← as_add (addW 64 end_ 1) e AS_ATTR_RAM "sysram" as.owner t
                  allocSysram addr end_ fuel (some o) t
                else allocSysram addr end_ fuel (some o) t

/-- `alloc_ram` from the point where the address is known. -/
def allocAt (addr size : ℕ) (s : RamState) : Except Crash RamState := do
  let end_ := addW 64 addr size
  let ram ← allocFrom addr end_ (2 * RAM_SLOTS) s.ram 0
  let s := { s with ram := ram }
  if s.sysram_added then
    let asinfo ← allocSysram addr (subW 64 end_ 1) (2 * s.asinfo.entries.length + 1) none s.asinfo
    return { s with asinfo := asinfo }
  return s

/-- `alloc_ram`: the address it returns and the state after it. -/
def alloc_ram (addr size align : ℕ) (s : RamState) : Except Crash (ℕ × RamState) :=
  if ¬ s.inited then .error .outside
  else if addr = NULL_PADDR then do
    let addr ← find_ram s size align 0 0
    if addr = NULL_PADDR then return (NULL_PADDR, s)
    -- `memset(MAKE_1TO1_PTR((paddr32_t)addr), 0, size)`
    else if s.secure_system ∧ addr % 2 ^ 32 ≠ addr then .error .cleared_elsewhere
    else do
      let s ← allocAt addr size s
      return (addr, s)
  else do
    let s ← allocAt addr size s
    return (addr, s)

/-- `calloc_ram`.  Clearing the memory leaves the tables as they are. -/
def calloc_ram (size align : ℕ) (s : RamState) : Except Crash (ℕ × RamState) :=
  alloc_ram NULL_PADDR size align s

/-! ### `avoid_ram` and `ws_alloc` -/

/-- `avoid_ram` once the tables are there. -/
def avoidAdd (start size : ℕ) (t : AvoidList) : Except Crash AvoidList :=
  let avoid := t.avoid_list_size / ENTRY_SIZE
  let t :=
    if ENTRY_SIZE ≤ t.avoid_list_size ∧ (t.slots (avoid - 2)).end_ = start then
      let last := t.slots (avoid - 2)
      ⟨Function.update t.slots (avoid - 2) ⟨last.start, addW 64 last.end_ size⟩,
        t.avoid_list_size⟩
    else
      let slots := Function.update t.slots (avoid - 1) ⟨start, addW 64 start size⟩
      ⟨Function.update slots avoid { slots avoid with end_ := 0 }, t.avoid_list_size + ENTRY_SIZE⟩
  if MAX_AVOID_LIST_SIZE < t.avoid_list_size then .error .avoid_overflow else .ok t

/-- `ws_alloc` once the tables are there: the address, or `none` for a null pointer. -/
def wsTake (size : ℕ) (s : RamState) : Except Crash (Option ℕ × RamState) := do
  let size := round 64 size 8
  if s.ram.ram_list_size ≤ ENTRY_SIZE then
    let avoid ← avoidAdd s.ws_early_next size s.avoid
    return (some s.ws_early_next,
      { s with ws_early_next := addW 64 s.ws_early_next size, avoid := avoid })
  else
    let paddr ← find_ram s size 8 0 0
    if paddr = NULL_PADDR then return (none, s)
    let avoid ← avoidAdd paddr size s.avoid
    return (some paddr, { s with avoid := avoid })

/-- `ws_init`, with `slots` what the memory after the image holds. -/
def ws_init (b : BootInfo) (s : RamState) : Except Crash RamState := do
  let base := round 64 (addW 64 b.full_ram_paddr b.ram_size) 8
  let next := addW 64 base (round 64 MAX_AVOID_LIST_SIZE 8)
  let slots := Function.update s.avoid.slots 0 ⟨base, next⟩
  let slots := Function.update slots 1 { slots 1 with end_ := 0 }
  let s := { s with inited := true, ws_early_next := next, avoid := ⟨slots, 2 * ENTRY_SIZE⟩ }
  let (_, s) ← wsTake MAX_RAM_LIST_SIZE s
  let s := { s with ram := ⟨Function.update s.ram.slots 0 { s.ram.slots 0 with size := 0 },
    ENTRY_SIZE⟩ }
  let avoid ← avoidAdd b.full_ram_paddr b.startup_size s.avoid
  return { s with avoid := avoid }

def ensureInit (b : BootInfo) (s : RamState) : Except Crash RamState :=
  if s.inited then .ok s else ws_init b s

def avoid_ram (b : BootInfo) (start size : ℕ) (s : RamState) : Except Crash RamState := do
  let s ← ensureInit b s
  let avoid ← avoidAdd start size s.avoid
  return { s with avoid := avoid }

def ws_alloc (b : BootInfo) (size : ℕ) (s : RamState) : Except Crash (Option ℕ × RamState) := do
  let s ← ensureInit b s
  wsTake size s

/-! ### `add_ram` and `add_sysram` -/

/-- `as_default` and the entries `add_ram` makes first.  This board's `init_asinfo` adds none. -/
def initAsinfo (b : BootInfo) (t : Asinfo) : Except Crash Asinfo :=
  if t.entries = [] then do
    let (mem, t) ← as_add 0 b.memory_end AS_ATTR_NONE "memory" none t
    let (_, t) ← as_add 0 (4 * 1024 ^ 3 - 1) AS_ATTR_NONE "below4G" (some mem) t
    return t
  else .ok t

def add_ram (b : BootInfo) (start size : ℕ) (s : RamState) : Except Crash RamState := do
  let asinfo ← initAsinfo b s.asinfo
  let (_, asinfo) ← as_add_containing start (subW 64 (addW 64 start size) 1) AS_ATTR_RAM
    "ram" "memory" asinfo
  if ¬ s.inited then throw .outside
  let ram ← add_mem start size s.ram
  let s := { s with asinfo := asinfo, ram := ram }
  let (_, s) ← alloc_ram (addW 64 b.full_ram_paddr b.startup_size)
    (subW 32 b.ram_size b.startup_size) 1 s
  if s.temp_syspage = NULL_PADDR then
    let temp_syspage ← find_ram s TEMP_SYSPAGE_SIZE PAGESIZE 0 0
    let s := { s with temp_syspage := temp_syspage }
    if temp_syspage ≠ NULL_PADDR then
      avoid_ram b temp_syspage TEMP_SYSPAGE_SIZE s
    else return s
  else return s

/-- The loop of `add_sysram`. -/
def addSysramFrom (ram : RamList) : ℕ → ℕ → Asinfo → Except Crash Asinfo
  | 0, _, _ => .error .outside
  | fuel + 1, r, t =>
      if (ram.slots r).size = 0 then .ok t
      else do
        let addr := (ram.slots r).addr
        let (_, t) ← as_add_containing addr (subW 64 (addW 64 addr (ram.slots r).size) 1)
          AS_ATTR_RAM "sysram" "ram" t
        addSysramFrom ram fuel (r + 1) t

def add_sysram (s : RamState) : Except Crash RamState := do
  let asinfo ← addSysramFrom s.ram RAM_SLOTS 0 s.asinfo
  return { s with asinfo := asinfo, sysram_added := true }

end Startup
