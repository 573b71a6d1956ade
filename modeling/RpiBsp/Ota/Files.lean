import Mathlib.Logic.Function.Basic
import RpiBsp.Support.Steps
import RpiBsp.Support.Text

/-!
# OTA — Files

The files of the update client and what it does with them.  Every operation takes what comes of it
as an argument: whether the file could be opened, how many bytes were stored, whether the call
succeeded.  A file that is not there cannot be opened for reading.
-/

namespace Ota

open Support

/-- The files, by what they are for. -/
inductive Path where
  | config
  | config_bak
  | config_tmp
  | version
  | pending
  /-- `kRebootWitnessPath`, in a file system that a reboot empties. -/
  | witness
  /-- An image, by the file it is, not by its name. -/
  | image (file : Text)
  /-- A file with settings of the client, or a copy of one. -/
  | settings (path : Text)
deriving DecidableEq, Repr

abbrev Disk := Path → Option Text

def IFS_A : Text := "ifs-rpi5.bin".toList
def IFS_B : Text := "ifs-rpi5_B.bin".toList

/-- The file system under `boot_path`: which file a name is of.  Two spellings can be of one file,
but the two slots are two files. -/
class Volume where
  file : Text → Text
  slots_apart : file IFS_A ≠ file IFS_B

export Volume (file)

/-- How writing a file goes: it is opened, and cut to nothing, or not, and then so many bytes are
stored. -/
structure Create where
  opens : Bool
  stored : ℕ
deriving DecidableEq, Repr

/-- `std::ifstream`, with what it will give. -/
def ifstream (opens : Bool) (p : Path) : Steps Disk (Option Text) := do
  let d ← Steps.look
  return if opens then d p else none

/-- `std::ofstream`. -/
def ofstream (opens : Bool) (p : Path) : Steps Disk Bool := do
  if opens then
    Steps.step fun d => Function.update d p (some [])
    return true
  else return false

/-- What was written to an open stream, when it is closed. -/
def put (stored : ℕ) (p : Path) (text : Text) : Steps Disk Unit :=
  Steps.step fun d => Function.update d p (some (text.take stored))

def file_exists (opens : Bool) (p : Path) : Steps Disk Bool := do
  let d ← Steps.look
  return opens && (d p).isSome

def fsync_path (succeeds : Bool) (p : Path) : Steps Disk Bool := do
  let d ← Steps.look
  return succeeds && (d p).isSome

def remove_file (succeeds : Bool) (p : Path) : Steps Disk Unit :=
  if succeeds then Steps.step fun d => Function.update d p none else pure ()

/-- `rename`, which replaces what was there. -/
def rename (succeeds : Bool) (p q : Path) : Steps Disk Bool := do
  if succeeds then
    Steps.step fun d => Function.update (Function.update d q (d p)) p none
    return true
  else return false

/-! ### What they give -/

section

variable (d : Disk) (p q : Path)

@[simp] theorem result_ifstream (opens : Bool) :
    (ifstream opens p).result d = (if opens then d p else none, d) := rfl

@[simp] theorem result_ofstream (opens : Bool) :
    (ofstream opens p).result d = (opens, if opens then Function.update d p (some []) else d) := by
  cases opens <;> rfl

@[simp] theorem result_put (stored : ℕ) (text : Text) :
    (put stored p text).result d = ((), Function.update d p (some (text.take stored))) := rfl

@[simp] theorem result_file_exists (opens : Bool) :
    (file_exists opens p).result d = (opens && (d p).isSome, d) := rfl

@[simp] theorem result_fsync_path (succeeds : Bool) :
    (fsync_path succeeds p).result d = (succeeds && (d p).isSome, d) := rfl

@[simp] theorem result_remove_file (succeeds : Bool) :
    (remove_file succeeds p).result d = ((), if succeeds then Function.update d p none else d) := by
  cases succeeds <;> rfl

@[simp] theorem result_rename (succeeds : Bool) :
    (rename succeeds p q).result d =
      (succeeds, if succeeds then Function.update (Function.update d q (d p)) p none else d) := by
  cases succeeds <;> rfl

end

/-! ### What the files are on the way -/

section

variable {d : Disk} {p q : Path} {P : Disk → Prop}

theorem holds_ifstream {opens : Bool} {Q : Option Text → Disk → Prop}
    (h : Q (if opens then d p else none) d) :
    (ifstream opens p).Holds P Q d := ⟨fun _ ht => absurd ht List.not_mem_nil, h⟩

theorem holds_file_exists {opens : Bool} {Q : Bool → Disk → Prop}
    (h : Q (opens && (d p).isSome) d) :
    (file_exists opens p).Holds P Q d := ⟨fun _ ht => absurd ht List.not_mem_nil, h⟩

theorem holds_fsync_path {succeeds : Bool} {Q : Bool → Disk → Prop}
    (h : Q (succeeds && (d p).isSome) d) :
    (fsync_path succeeds p).Holds P Q d := ⟨fun _ ht => absurd ht List.not_mem_nil, h⟩

theorem holds_put {stored : ℕ} {text : Text} {Q : Unit → Disk → Prop}
    (hP : P (Function.update d p (some (text.take stored))))
    (hQ : Q () (Function.update d p (some (text.take stored)))) :
    (put stored p text).Holds P Q d := .step hP hQ

theorem holds_ofstream {opens : Bool} {Q : Bool → Disk → Prop}
    (hopens : opens = true → P (Function.update d p (some [])) ∧
    Q true (Function.update d p (some [])))
    (hnot : opens = false → Q false d) : (ofstream opens p).Holds P Q d := by
  cases opens with
  | false => exact .pure (hnot rfl)
  | true => exact ⟨fun _ ht => List.mem_singleton.mp ht ▸ (hopens rfl).1, (hopens rfl).2⟩

theorem holds_remove_file {succeeds : Bool} {Q : Unit → Disk → Prop}
    (hgone : succeeds = true → P (Function.update d p none) ∧ Q () (Function.update d p none))
    (hnot : succeeds = false → Q () d) : (remove_file succeeds p).Holds P Q d := by
  cases succeeds with
  | false => exact .pure (hnot rfl)
  | true => exact .step (hgone rfl).1 (hgone rfl).2

theorem holds_rename {succeeds : Bool} {Q : Bool → Disk → Prop}
    (hmoved : succeeds = true → P (Function.update (Function.update d q (d p)) p none) ∧
      Q true (Function.update (Function.update d q (d p)) p none))
    (hnot : succeeds = false → Q false d) : (rename succeeds p q).Holds P Q d := by
  cases succeeds with
  | false => exact .pure (hnot rfl)
  | true => exact ⟨fun _ ht => List.mem_singleton.mp ht ▸ (hmoved rfl).1, (hmoved rfl).2⟩

end

end Ota
