import RpiBsp.Ota.Pending
import RpiBsp.Ota.Settings

/-!
# OTA — The client

`ota_client.cpp` from `system_rebooted_since` to `main`, and its runs.  The client is started, reads
its settings, settles what an earlier process left, and then makes one pass of its loop after the
other.  Between any two operations on a file it can be killed, or the power can go.

The files are part of a `World`, which also says what the client cannot know: which boot this is, in
which one `kernel=` was changed, what was written to an image.  The files are those at the paths of
the settings in use, no two of them one file, and the log is none of them.  When the settings move a
path, what is there is not known.

* `Reach` — the states of a run, with those in the middle of a call;
* `Reach.rule` — what every event keeps holds in all of them.
-/

namespace Ota

open Support

variable [Volume]

/-! ### The world -/

/-- What an image is: as it was when `kernel=` last named it, written since, or a download that
passed both checks. -/
inductive Image where
  | kept
  | loading
  | verified (version : Text)
deriving DecidableEq, Repr

/-- The calls that the client is judged by. -/
inductive Call where
  | write_version (version : Text)
  | request_reboot
deriving DecidableEq, Repr

structure World where
  disk : Disk
  /-- The settings that the client runs with, or ran with last. -/
  g_config : OTAConfig
  boot : ℕ
  /-- The boot in which `kernel=` last changed. -/
  switched : ℕ
  /-- What the file of an image is. -/
  image : Text → Image
  /-- The clocks in the markers that were written in this boot without a witness. -/
  clocks : List (ℤ × ℤ)
  /-- The last version that was committed. -/
  committed : Option Text
  /-- Whether another version is just being written in its place. -/
  writing : Bool
  /-- The call that is being made. -/
  call : Option Call

/-- The name that `kernel=` has. -/
def active (d : Disk) : Option Text := (d .config).bind activeName

/-- The world with other files. -/
def World.see (w : World) (d : Disk) : World :=
  { w with disk := d, switched := if active d = active w.disk then w.switched
    else w.boot, call := none }

def onDisk {α : Type} (x : Steps Disk α) : Steps World α := Steps.within World.disk World.see x

/-- `/tmp` is empty again, both clocks start anew, and the settings are those of the image that was
booted. -/
def World.reboot (settings : Text → Option Text) (w : World) : World :=
  { w with
    disk := fun
      | .witness => none
      | .settings path => settings path
      | p => w.disk p
    boot := w.boot + 1
    clocks := []
    call := none }

/-- Settings take effect.  If they move a path, the files are others: `found`, and images that
nothing is known of. -/
def World.configure (found : Disk) (g : OTAConfig) (w : World) : World :=
  if g.paths = w.g_config.paths then { w with g_config := g, call := none }
  else { w.see found with g_config := g, image := fun _ => .loading }

/-! ### Versions -/

def get_version (opens : Bool) : Steps Disk Text := do
  match ← ifstream opens .version with
  | none => return ['1']
  | some text =>
    let version := trim ((lines text)[0]?.getD [])
    return if version = [] then ['1'] else version

def write_version (o : Create) (version : Text) : Steps Disk Bool := do
  if ← ofstream o.opens .version then
    put o.stored .version (version ++ ['\n'])
    -- a failed fsync is only logged
    return true
  else return false

/-! ### The marker -/

structure Clearing where
  pending : Bool
  witness : Bool
deriving DecidableEq, Repr

def clear_pending (o : Clearing) : Steps Disk Unit := do
  remove_file o.pending .pending
  remove_file o.witness .witness

/-- What `system_rebooted_since` sees. -/
structure Evidence where
  witness : Bool
  uptime : Seconds
  wall : Seconds

def system_rebooted_since (o : Evidence) (p : PendingInfo) : Steps Disk Bool := do
  if p.witness_ok then
    let there ← file_exists o.witness .witness
    return !there
  -- a marker without clocks is an old one
  else if p.switch_uptime_sec < 0 ∨ p.switch_wall_sec ≤ 0 then return true
  else if o.uptime.1 < p.switch_uptime_sec then return true
  else return decide (o.wall.1 - o.uptime.1 > p.switch_wall_sec - p.switch_uptime_sec + 5)

/-- What comes of the calls that undo a switch. -/
structure Dropping where
  seen : Bool
  remove : Bool
  clear : Clearing
deriving DecidableEq, Repr

/-- `kernel=` has another name than the marker. -/
def drop_pending (o : Dropping) (expected_ifs : Text) : Steps World Unit := do
  if ← onDisk (file_exists o.seen (.image (file expected_ifs))) then
    onDisk (remove_file o.remove (.image (file expected_ifs)))
  onDisk (clear_pending o.clear)

/-- What comes of the calls of `settle_pending_on_boot`. -/
structure Settling where
  pending : Bool
  config : Bool
  evidence : Evidence
  version : Create
  clear : Clearing
  drop : Dropping

/-- The version of a marker, if it has one, is written. -/
def commit (o : Settling) (version : Text) : Steps World Bool := do
  if version = [] then return true
  else
    Steps.step fun w => { w with writing := true, call := some (.write_version version) }
    let written ← onDisk (write_version o.version version)
    Steps.step fun w =>
      { w with committed := if written then some version else w.committed, writing := false }
    return written

def settle_pending_on_boot (o : Settling) : Steps World Bool := do
  let p ← onDisk (read_pending o.pending)
  if p.valid then
    match ← onDisk (get_active_ifs o.config) with
    | none => return false
    | some active =>
      if active = p.expected_ifs then
        if ← onDisk (system_rebooted_since o.evidence p) then
          if ← commit o p.version then
            onDisk (clear_pending o.clear)
            return true
          else return false
        else return false
      else
        drop_pending o.drop p.expected_ifs
        return true
  else return true

/-- What comes of the calls of `pending_blocks_update`. -/
structure Blocking where
  pending : Bool
  config : Bool
  drop : Dropping
deriving DecidableEq, Repr

/-- Whether an update is blocked, and whether a reboot is needed. -/
def pending_blocks_update (o : Blocking) : Steps World (Bool × Bool) := do
  let p ← onDisk (read_pending o.pending)
  if p.valid then
    match ← onDisk (get_active_ifs o.config) with
    | none => return (true, false)
    | some active =>
      if active = p.expected_ifs then return (true, true)
      else
        drop_pending o.drop p.expected_ifs
        return (false, true)
  else return (false, true)

/-! ### An update -/

/-- An image is written. -/
def World.load (n : Text) (text : Text) (w : World) : World :=
  { w with
    disk := Function.update w.disk (.image (file n)) (some text)
    image := Function.update w.image (file n) .loading
    call := none }

/-- What comes of a download: the file is opened or not, these parts of the body are stored, and
then the transfer has succeeded or not. -/
structure Fetch where
  opens : Bool
  chunks : List Text
  succeeds : Bool
  remove : Bool
deriving DecidableEq, Repr

/-- The body, as `curl` writes it. -/
def receive (n : Text) : List Text → Steps World Unit
  | [] => pure ()
  | c :: cs => do
    Steps.step fun w => w.load n ((w.disk (.image (file n))).getD [] ++ c)
    receive n cs

def download_file (o : Fetch) (n : Text) : Steps World Bool := do
  if o.opens then
    Steps.step (World.load n [])
    receive n o.chunks
    if o.succeeds then return true
    else
      onDisk (remove_file o.remove (.image (file n)))
      return false
  else return false

def MIN_IFS_SIZE : ℕ := 10485760

/-- `sized` is whether the file can be opened to read its size. -/
def verify_ifs (seen sized : Bool) (n : Text) : Steps Disk Bool := do
  if ← file_exists seen (.image (file n)) then
    let text ← ifstream sized (.image (file n))
    return decide (MIN_IFS_SIZE ≤ (text.getD []).length)
  else return false

/-- What comes of the calls of `try_apply_update`; `sha256` is the answer of `verify_sha256`. -/
structure Attempt where
  space : Bool
  config : Bool
  fetch : Fetch
  sha256 : Bool
  seen : Bool
  sized : Bool
  marking : Marking
  switch : Switch
  remove : Bool
  clear : Clearing

/-- The image is removed, and the marker: before the switch, and also after one that failed. -/
def abort_before_switch (o : Attempt) (target : Text) : Steps World Bool := do
  onDisk (remove_file o.remove (.image (file target)))
  onDisk (clear_pending o.clear)
  return false

def request_reboot : Steps World Unit := Steps.step fun w => { w with call := some .request_reboot }

/-- From the marker on. -/
def switch_to (o : Attempt) (target server_version : Text) : Steps World Bool := do
  Steps.step fun w =>
    { w with clocks := (if o.marking.witness.opens then []
      else [(o.marking.uptime.1, o.marking.wall.1)]) ++ w.clocks }
  if ← onDisk (write_pending o.marking target server_version) then
    if ← onDisk (set_active_ifs o.switch target) then
      request_reboot
      return true
    else abort_before_switch o target
  else abort_before_switch o target

/-- The slot that is not running. -/
def other (active : Text) : Text := if active = IFS_A then IFS_B else IFS_A

def try_apply_update (o : Attempt) (server_version : Text) : Steps World Bool := do
  if o.space then
    match ← onDisk (get_active_ifs o.config) with
    | none => return false
    | some active =>
      let target := other active
      if ← download_file o.fetch target then
        if o.sha256 then
          if ← onDisk (verify_ifs o.seen o.sized target) then
            Steps.step fun w =>
              { w with image := Function.update w.image (file target) (.verified server_version) }
            switch_to o target server_version
          else abort_before_switch o target
        else abort_before_switch o target
      else return false
  else return false

/-! ### The loop -/

/-- What comes of a pass of the loop; `reply` is the answer to the request for the version, and
`found` what is at other paths. -/
structure Pass where
  block : Blocking
  reload : Reload
  found : Disk
  version : Bool
  reply : Option Text
  attempt : Attempt

/-- One pass of `ota_loop`. -/
def pass (o : Pass) : Steps World Unit := do
  let blocked ← pending_blocks_update o.block
  if blocked.1 then
    if blocked.2 then request_reboot else return ()
  else
    let w ← Steps.look
    let g ← onDisk (check_and_update_config o.reload w.g_config)
    Steps.step (World.configure o.found g)
    let installed ← onDisk (get_version o.version)
    let server := get_server_version o.reply
    if server ≠ [] ∧ is_newer_version server installed then
      let _ ← try_apply_update o.attempt server
    return ()

/-- What comes of the calls of `main`, once the boot partition is mounted: `config_file` is the file
of `-c`, or `/etc/ota_config`. -/
structure Main where
  config_file : Text
  read : Bool
  found : Disk
  settle : Settling

/-- The settings that `main` comes to. -/
def Main.settings (o : Main) (d : Disk) : OTAConfig :=
  match if o.read then d (.settings o.config_file) else none with
  | none => defaults o.config_file
  | some text => (lines text).foldl readLine (defaults o.config_file)

/-- `main` up to the loop: whether the client comes to it. -/
def main (o : Main) : Steps World Bool := do
  let g ← onDisk (read_config o.read o.config_file (defaults o.config_file))
  Steps.step (World.configure o.found g)
  if g.enabled then
    let _ ← settle_pending_on_boot o.settle
    return true
  else return false

/-! ### Runs -/

structure System where
  world : World
  /-- The client is in its loop. -/
  running : Bool

inductive Event where
  | start (o : Main)
  | pass (o : Pass)
  | kill
  | reboot (settings : Text → Option Text)

namespace Event

/-- Whether the client is in its loop then. -/
def body : Event → Steps World Bool
  | start o => main o
  | pass o => do
    Ota.pass o
    return true
  | kill => return false
  | reboot settings => do
    Steps.step (World.reboot settings)
    return false

/-- When it can be. -/
def Can (running : Bool) : Event → Prop
  | start _ => running = false
  | pass _ => running = true
  | kill => True
  | reboot _ => True

end Event

/-- The states of the runs whose events meet `C`.  A call that is cut off leaves one of the states
on its way, one that meets `D`. -/
inductive Reach (C : System → Event → Prop) (D : World → Prop) (s₀ : System) : System → Prop where
  | init : Reach C D s₀ s₀
  | done {s : System} {e : Event} (before : Reach C D s₀ s) (can : e.Can s.running)
      (meets : C s e) :
      Reach C D s₀ ⟨(e.body.result s.world).2, (e.body.result s.world).1⟩
  | cut {s : System} {e : Event} {t : World} (before : Reach C D s₀ s) (can : e.Can s.running)
      (meets : C s e) (way : t ∈ (e.body s.world).2.2) (there : D t) : Reach C D s₀ ⟨t, false⟩

/-- The runs in which a call can be cut off anywhere. -/
abbrev Run (C : System → Event → Prop) : System → System → Prop := Reach C fun _ => True

namespace Reach

variable {C : System → Event → Prop} {D : World → Prop} {s₀ s : System} {t : World}

theorem start {o : Main} (before : Reach C D s₀ s) (stopped : s.running = false)
    (meets : C s (.start o))
    (h : (main o).result s.world = (true, t)) : Reach C D s₀ ⟨t, true⟩ := by
  have hdone := before.done (e := .start o) stopped meets
  rwa [show Event.body (.start o) = main o from rfl, h] at hdone

theorem pass {o : Pass} (before : Reach C D s₀ s) (running : s.running = true)
    (meets : C s (.pass o)) (h : ((Ota.pass o).result s.world).2 = t) : Reach C D s₀ ⟨t, true⟩ := by
  rw [← h]
  exact before.done (e := .pass o) running meets

theorem kill (before : Reach C D s₀ s) (meets : C s .kill) : Reach C D s₀ ⟨s.world, false⟩ :=
  before.done (e := .kill) trivial meets

theorem reboot (before : Reach C D s₀ s) (settings : Text → Option Text)
    (meets : C s (.reboot settings)) :
    Reach C D s₀ ⟨s.world.reboot settings, false⟩ :=
  before.done (e := .reboot settings) trivial meets

end Reach

/-- **What every event keeps** holds in every state of a run. -/
theorem Reach.rule {C : System → Event → Prop} {D : World → Prop} {Inv : System → Prop}
    {s₀ s : System} (hinit : Inv s₀) (hevent : ∀ s e, Inv s → e.Can s.running → C s e →
      e.body.Holds (fun t => D t → Inv ⟨t, false⟩) (fun running t => Inv ⟨t, running⟩) s.world)
    (h : Reach C D s₀ s) : Inv s := by
  induction h with
  | init => exact hinit
  | done _ can meets ih => exact (hevent _ _ ih can meets).final
  | cut _ can meets way there ih => exact (hevent _ _ ih can meets).along _ way there

end Ota
