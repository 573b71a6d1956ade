import RpiBsp.Startup.Ram.Definitions
import RpiBsp.Support.Outcome

/-!
# Startup — UEFI — definitions

`init_raminfo_uefi.c`: the memory map of the firmware becomes `ram_list` and `avoid_list`.

The map is read where the firmware left it, in memory: the loop over its descriptors threads the
list of those that cannot be used yet through their `VirtualStart` fields, and the system page that
`add_ram` moves into free RAM is written to the same memory.  What the page holds is a parameter,
`page`.  The tables, and the page before it moves, are in the memory of the startup program.

The firmware is the list of its answers, one for each pass of the loop that fetches the map.
-/

namespace Startup.Uefi

open Support

inductive EFI_MEMORY_TYPE where
  | EfiReservedMemoryType
  | EfiLoaderCode
  | EfiLoaderData
  | EfiBootServicesCode
  | EfiBootServicesData
  | EfiRuntimeServicesCode
  | EfiRuntimeServicesData
  | EfiConventionalMemory
  | EfiUnusableMemory
  | EfiACPIReclaimMemory
  | EfiACPIMemoryNVS
  | EfiMemoryMappedIO
  | EfiMemoryMappedIOPortSpace
  | EfiPalCode
deriving DecidableEq, Repr

open EFI_MEMORY_TYPE

/-- The values of the enumeration, in its order. -/
def memoryTypes : List EFI_MEMORY_TYPE :=
  [EfiReservedMemoryType, EfiLoaderCode, EfiLoaderData, EfiBootServicesCode, EfiBootServicesData,
    EfiRuntimeServicesCode, EfiRuntimeServicesData, EfiConventionalMemory, EfiUnusableMemory,
    EfiACPIReclaimMemory,
    EfiACPIMemoryNVS, EfiMemoryMappedIO, EfiMemoryMappedIOPortSpace, EfiPalCode]

/-- The types whose memory is no RAM to startup. -/
def EFI_MEMORY_TYPE.ignored : EFI_MEMORY_TYPE → Bool
  | EfiReservedMemoryType | EfiUnusableMemory | EfiMemoryMappedIO | EfiMemoryMappedIOPortSpace =>
      true
  | _ => false

/-- The types that stay with the firmware. -/
def EFI_MEMORY_TYPE.unusable : EFI_MEMORY_TYPE → Bool
  | EfiACPIReclaimMemory | EfiACPIMemoryNVS | EfiPalCode | EfiRuntimeServicesCode |
      EfiRuntimeServicesData => true
  | _ => false

/-- The types that are free once startup is done. -/
def EFI_MEMORY_TYPE.later : EFI_MEMORY_TYPE → Bool
  | EfiLoaderCode | EfiLoaderData | EfiBootServicesCode | EfiBootServicesData => true
  | _ => false

/-- The types whose descriptors are put into the list. -/
def EFI_MEMORY_TYPE.listed (t : EFI_MEMORY_TYPE) : Bool := t.unusable || t.later

/-- What the code reads of `EFI_MEMORY_DESCRIPTOR`, less the link in `VirtualStart`. -/
structure EFI_MEMORY_DESCRIPTOR where
  Type_ : ℕ
  PhysicalStart : ℕ
  NumberOfPages : ℕ
deriving DecidableEq, Repr

/-- The size of the structure; the firmware's descriptors can be larger. -/
def DESCRIPTOR_SIZE : ℕ := 40

def VirtualStart (desc : ℕ) : ℕ := desc + 16

def descriptor (desc : ℕ) (mem : ℕ → UInt8) : EFI_MEMORY_DESCRIPTOR where
  Type_ := load 4 desc mem
  PhysicalStart := load 8 (desc + 8) mem
  NumberOfPages := load 8 (desc + 24) mem

/-- `NumberOfPages * 0x1000u`. -/
def EFI_MEMORY_DESCRIPTOR.nbytes (d : EFI_MEMORY_DESCRIPTOR) : ℕ :=
  d.NumberOfPages * 0x1000 % 2 ^ 64

/-- How `do_raminfo` ends early. -/
inductive Failure where
  | query
  | buffer
  | map (status : ℕ)
  | memory_type (type : ℕ)
  | ram (c : Crash)
deriving DecidableEq, Repr

/-- The tables, and the memory that the map is in. -/
structure State where
  tables : RamState
  mem : ℕ → UInt8

/-- A call of `ram.c`. -/
def call {α : Type} (x : Except Crash α) : Except Failure α := x.mapError .ram

/-- `add_ram`: the system page, once it has moved, is written where it is. -/
def addRam (b : BootInfo) (page : RamState → List UInt8) (start size : ℕ) (st : State) :
    Except Failure State := do
  let s ← call (add_ram b start size st.tables)
  return ⟨s, if s.temp_syspage = NULL_PADDR then st.mem else write s.temp_syspage (page s) st.mem⟩

/-! ### The first loop -/

/-- The local variables.  `owner` is the address of a field, or `none` for that of `avoid_list`
itself. -/
structure Walk where
  starting_paddr : ℕ
  ending_paddr : ℕ
  avoid_list : ℕ
  owner : Option ℕ
deriving DecidableEq, Repr

/-- `*owner = desc; owner = (void *)&desc->VirtualStart; *owner = NULL;` -/
def link (desc : ℕ) (x : Walk × State) : Walk × State :=
  let w := match x.1.owner with
    | none => { x.1 with avoid_list := desc }
    | some _ => x.1
  let mem := match x.1.owner with
    | none => x.2.mem
    | some field => store 8 field desc x.2.mem
  ({ w with owner := some (VirtualStart desc) },
    { x.2 with mem := store 8 (VirtualStart desc) 0 mem })

/-- The RAM between the two addresses, if there is any. -/
def flush (b : BootInfo) (page : RamState → List UInt8) (pending : Bool) (w : Walk) (st : State) :
    Except Failure State :=
  if pending then addRam b page w.starting_paddr (subW 64 w.ending_paddr w.starting_paddr) st
  else .ok st

/-- The descriptor's RAM, behind the last one's or as a new start. -/
def extend (b : BootInfo) (page : RamState → List UInt8) (desc nbytes : ℕ) (x : Walk × State) :
    Except Failure (Walk × State) :=
  if load 8 (desc + 8) x.2.mem = x.1.ending_paddr then
    .ok ({ x.1 with ending_paddr := addW 64 x.1.ending_paddr nbytes }, x.2)
  else do
    let st ← flush b page (x.1.starting_paddr ≠ NULL_PADDR) x.1 x.2
    let start := load 8 (desc + 8) st.mem
    return ({ x.1 with starting_paddr := start, ending_paddr := addW 64 start nbytes }, st)

/-- The body of the first loop.  On this target every address fits in a `paddr_t`. -/
def visit (b : BootInfo) (page : RamState → List UInt8) (desc : ℕ) (x : Walk × State) :
    Except Failure (Walk × State) :=
  let d := descriptor desc x.2.mem
  match memoryTypes[d.Type_]? with
  | none => .error (.memory_type d.Type_)
  | some type =>
    if type.ignored then .ok x
    else extend b page desc d.nbytes (if type.listed then link desc x else x)

/-- The first loop, with the number of descriptors that are left. -/
def tell (b : BootInfo) (page : RamState → List UInt8) (desc_size : ℕ) :
    ℕ → ℕ → Walk × State → Except Failure (Walk × State)
  | 0, _, x => .ok x
  | n + 1, desc, x => do
      let x ← visit b page desc x
      tell b page desc_size n (desc + desc_size) x

/-- The first loop and the RAM that is left after it. -/
def tellAll (b : BootInfo) (page : RamState → List UInt8) (desc_size n desc : ℕ) (st : State) :
    Except Failure (ℕ × State) := do
  let x ← tell b page desc_size n desc (⟨NULL_PADDR, NULL_PADDR, 0, none⟩, st)
  let st ← flush b page (x.1.starting_paddr ≠ x.1.ending_paddr) x.1 x.2
  return (x.1.avoid_list, st)

/-! ### The second loop -/

/-- The body of the second loop. -/
def mark (b : BootInfo) (d : EFI_MEMORY_DESCRIPTOR) (st : State) : Except Failure State :=
  match memoryTypes[d.Type_]? with
  | none => .ok st
  | some type =>
    if type.unusable then do
      let r ← call (alloc_ram d.PhysicalStart d.nbytes 0 st.tables)
      return { st with tables := r.2 }
    else if type.later then do
      let s ← call (avoid_ram b d.PhysicalStart d.nbytes st.tables)
      return { st with tables := s }
    else .ok st

/-- The second loop, which follows the links as it finds them. -/
def markAll (b : BootInfo) : ℕ → ℕ → State → Except Failure State
  | 0, _, _ => .error (.ram .outside)
  | fuel + 1, avoid_list, st =>
      if avoid_list = 0 then .ok st
      else do
        let st ← mark b (descriptor avoid_list st.mem) st
        markAll b fuel (load 8 (VirtualStart avoid_list) st.mem) st

/-! ### `do_raminfo` -/

def EFI_SUCCESS : ℕ := 0
def EFI_BUFFER_TOO_SMALL : ℕ := 2 ^ 63 + 5

/-- What the firmware answers to one `AllocatePool` and the `GetMemoryMap` after it: `count`
descriptors from `desc` on. -/
structure Answer where
  pool_status : ℕ
  map_status : ℕ
  desc : ℕ
  desc_size : ℕ
  count : ℕ
  map_key : ℕ
  mem : ℕ → UInt8

/-- The loop that fetches the map. -/
def fetch : List Answer → Except Failure Answer
  | [] => .error (.ram .outside)
  | a :: answers =>
      if a.desc = 0 ∨ a.pool_status ≠ EFI_SUCCESS then .error .buffer
      else if a.map_status = EFI_BUFFER_TOO_SMALL then fetch answers
      else if a.map_status = EFI_SUCCESS then .ok a
      else .error (.map a.map_status)

/-- `do_raminfo`: the key of the map, and the state after it. -/
def do_raminfo (b : BootInfo) (page : RamState → List UInt8) (fuel query : ℕ)
    (answers : List Answer) (s : RamState) : Except Failure (ℕ × State) :=
  if query ≠ EFI_BUFFER_TOO_SMALL then .error .query
  else do
    let a ← fetch answers
    let x ← tellAll b page a.desc_size a.count a.desc ⟨s, a.mem⟩
    let st ← markAll b fuel x.1 x.2
    return (a.map_key, st)

end Startup.Uefi
