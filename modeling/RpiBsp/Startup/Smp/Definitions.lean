import Mathlib.Logic.Function.Basic
import RpiBsp.Support.Runs
import RpiBsp.Support.Word

/-!
# Startup — Smp — Definitions

The boot core starts the other cores one after the other (`start_aps` of `init_smp.c`,
`smp_start.S`), and at the end sends them one after the other into the spin loop of the system page
(`transfer_aps`, `callout_smp_spin.S`), where the kernel fetches them.  The cores share four
variables and one stack.

An action is one access to a shared variable by one core, with what the core does on its own up to
the next; the accesses of all cores are in one order.  What `stlxr` needs from the exclusive
monitors is a flag for each core, which a write to the address clears, and which can be lost at any
time.  `wfe` can wake up at any time.  The kernel is not part of the repository: it may store
anything at `start_addr`, whenever it likes.
-/

namespace Startup.Smp

open Support

/-- Where the boot core is; the number is the `i` of the loop. -/
inductive Boot where
  | start_aps (i : ℕ)
  | board_smp_start (i : ℕ)
  | poll (i count : ℕ)
  | ap_fail (i : ℕ)
  /-- `start_aps` is through, and `transfer_aps` is the next `smp_hook_rtn`. -/
  | hooked
  | transfer_aps (i : ℕ)
  | available (i : ℕ)
  | pending (i : ℕ)
  | startnext
  deriving DecidableEq

/-- Where one of the other cores is; `w19` is its number, `x4` what it read from `start_addr`. -/
inductive Ap where
  | off
  /-- Up to the flush of the caches. -/
  | smp_start
  /-- On the stack, in front of `ldr w0, [cpu_starting]`. -/
  | adjust_num
  | init_one_cpuinfo (w19 : ℕ)
  /-- In front of `str wzr, [cpu_starting]`. -/
  | started (w19 : ℕ)
  /-- Waits for `syspage_available`. -/
  | syspage (w19 : ℕ)
  | cpu_startnext (w19 : ℕ)
  /-- In `smp_spin`, in front of `str wzr, [pending]`. -/
  | smp_spin
  | ldaxr
  | cbnz (x4 : BitVec 64)
  | wfe
  | stlxr (x4 : BitVec 64)
  | cmn (x4 : BitVec 64)
  | putBack (x4 : BitVec 64)
  | wfi
  /-- `br x4`. -/
  | br (x4 : BitVec 64)
  deriving DecidableEq

/-- The shared variables, where each core is, and what went on: which core set up which entry of
`cpuinfo`, what the kernel stored at `start_addr`, and which core took what from there. -/
structure State where
  cpu_starting : ℕ
  syspage_available : ℕ
  pending : ℕ
  start_addr : BitVec 64
  boot : Boot
  ap : ℕ → Ap
  monitor : ℕ → Bool
  inits : List (ℕ × ℕ)
  stored : List (BitVec 64)
  took : List (ℕ × BitVec 64)

/-- How many cores are started, and by what the firmware knows each of them. -/
structure Cores where
  num_cpu : ℕ
  psci_cpu_id : ℕ → ℕ
  one_le : 1 ≤ num_cpu
  lt : num_cpu < 2 ^ 16
  inj : ∀ i j, i < num_cpu → j < num_cpu → psci_cpu_id i = psci_cpu_id j → i = j

/-- `num_cpu` of the system page after `init_smp`. -/
def init_smp (board_smp_num_cpu max_cpus : ℕ) : ℕ :=
  if max_cpus > 1 then if board_smp_num_cpu > max_cpus then max_cpus else board_smp_num_cpu else 1

/-- `pi5_cpu_ids`. -/
def pi5_cpu_ids : List ℕ := [0x0, 0x100, 0x200, 0x300]

theorem pi5_cpu_ids_inj :
    ∀ i < 4, ∀ j < 4, pi5_cpu_ids.getD i 0 = pi5_cpu_ids.getD j 0 → i = j := by
  decide

theorem init_smp_le {board max_cpus : ℕ} (h : 1 ≤ board) :
    1 ≤ init_smp board max_cpus ∧ init_smp board max_cpus ≤ board := by
  unfold init_smp
  split_ifs <;> omega

/-- The cores of the Raspberry Pi 5. -/
def bcm2712 (max_cpus : ℕ) : Cores where
  num_cpu := init_smp 4 max_cpus
  psci_cpu_id i := pi5_cpu_ids.getD i 0
  one_le := (init_smp_le (by decide)).1
  lt := (init_smp_le (by decide)).2.trans_lt (by decide)
  inj i j hi hj := pi5_cpu_ids_inj i (hi.trans_le (init_smp_le (by decide)).2) j
    (hj.trans_le (init_smp_le (by decide)).2)

/-- Before `start_aps`. -/
def initial : State where
  cpu_starting := 0
  syspage_available := 0
  pending := 0
  start_addr := 0
  boot := .start_aps 1
  ap _ := .off
  monitor _ := false
  inits := []
  stored := []
  took := []

namespace State

/-- A core goes on. -/
def goto (s : State) (c : ℕ) (a : Ap) : State := { s with ap := Function.update s.ap c a }

@[simp] theorem goto_self (s : State) (c : ℕ) (a : Ap) : (s.goto c a).ap c = a :=
  Function.update_self ..

theorem goto_of_ne {s : State} {c c' : ℕ} {a : Ap} (h : c' ≠ c) : (s.goto c a).ap c' = s.ap c' :=
  Function.update_of_ne h ..

/-- A write to `start_addr`. -/
def putAddr (s : State) (v : BitVec 64) : State :=
  { s with start_addr := v, monitor := fun _ => false }

/-- A core's monitor. -/
def watch (s : State) (c : ℕ) (b : Bool) : State :=
  { s with monitor := Function.update s.monitor c b }

end State

/-- An access of the boot core: `start_aps`, `transfer_aps`. -/
def bootStep (C : Cores) (s : State) : Option State :=
  match s.boot with
  | .start_aps i =>
      if i < C.num_cpu then some { s with cpu_starting := i + 1, boot := .board_smp_start i }
      else some { s with boot := .hooked }
  | .board_smp_start i =>
      -- `PSCI_CPU_ON` of a core that is on is refused
      if s.ap (C.psci_cpu_id i) = .off then
        some { s.goto (C.psci_cpu_id i) .smp_start with boot := .poll i 0 } else none
  | .poll i count =>
      if addW 32 count 1 = 0 then some { s with boot := .ap_fail i }
      else if s.cpu_starting ≠ 0 then some { s with boot := .poll i (addW 32 count 1) }
      else some { s with boot := .start_aps (i + 1) }
  | .hooked => some { s with boot := .transfer_aps 1 }
  | .transfer_aps i =>
      if i < C.num_cpu then some { s with pending := 1, boot := .available i }
      else some { s with boot := .startnext }
  | .available i => some { s with syspage_available := i, boot := .pending i }
  | .pending i => if s.pending ≠ 0 then some s else some { s with boot := .transfer_aps (i + 1) }
  | .ap_fail _ => none
  | .startnext => none

/-- `board_smp_start` comes back with 0. -/
def refuseStep (s : State) : Option State :=
  match s.boot with
  | .board_smp_start i => some { s with boot := .ap_fail i }
  | _ => none

/-- An access of another core: `smp_start`, `smp_spin`. -/
def apStep (c : ℕ) (s : State) : Option State :=
  match s.ap c with
  | .off => none
  | .smp_start => some (s.goto c .adjust_num)
  | .adjust_num => some (s.goto c (.init_one_cpuinfo (subW 32 s.cpu_starting 1)))
  | .init_one_cpuinfo w19 => some { s.goto c (.started w19) with inits := s.inits ++ [(c, w19)] }
  | .started w19 => some { s.goto c (.syspage w19) with cpu_starting := 0 }
  | .syspage w19 =>
      if s.syspage_available = w19 then some (s.goto c (.cpu_startnext w19)) else some s
  | .cpu_startnext _ => some (s.goto c .smp_spin)
  | .smp_spin => some { s.goto c .ldaxr with pending := 0 }
  | .ldaxr => some ((s.goto c (.cbnz s.start_addr)).watch c true)
  | .cbnz x4 => some (s.goto c (if x4 ≠ 0 then .stlxr x4 else .wfe))
  | .wfe => some (s.goto c .ldaxr)
  | .stlxr x4 =>
      if s.monitor c then some { (s.goto c (.cmn x4)).putAddr 0 with took := s.took ++ [(c, x4)] }
      else some (s.goto c .ldaxr)
  | .cmn x4 => some (s.goto c (if x4 + 1 = 0 then .putBack x4 else .br x4))
  | .putBack x4 => some ((s.goto c .wfi).putAddr x4)
  | .wfi => none
  | .br _ => none

/-- The kernel stores at `start_addr`. -/
def kernelStep (v : BitVec 64) (s : State) : Option State :=
  match s.boot with
  | .startnext => some { s.putAddr v with stored := s.stored ++ [v] }
  | _ => none

inductive Action where
  | boot
  | refuse
  | ap (c : ℕ)
  | lose (c : ℕ)
  | kernel (v : BitVec 64)

/-- What an action does. -/
def step (C : Cores) (s : State) : Action → Option State
  | .boot => bootStep C s
  | .refuse => refuseStep s
  | .ap c => apStep c s
  | .lose c => some (s.watch c false)
  | .kernel v => kernelStep v s

end Startup.Smp
