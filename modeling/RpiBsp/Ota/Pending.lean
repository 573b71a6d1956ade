import RpiBsp.Ota.Files
import RpiBsp.Ota.Version

/-!
# OTA — The pending marker

Before the client switches to a new image it writes a marker with the slot, the version, two clocks
and whether the reboot witness was created, one per line.

* `read_pending_eq` — what is read from a marker of five lines;
* `marker_iff` — **main**: the marker comes back as it was written just when the version is one
line.
-/

namespace Ota

open Support

structure PendingInfo where
  expected_ifs : Text
  version : Text
  switch_uptime_sec : ℤ
  switch_wall_sec : ℤ
  witness_ok : Bool
  valid : Bool
deriving DecidableEq, Repr

/-- A clock's seconds, an `int64_t`. -/
def Seconds : Type := { z : ℤ // Fits 64 z }

/-- What comes of the calls of `write_pending`. -/
structure Marking where
  witness : Create
  pending : Create
  uptime : Seconds
  wall : Seconds

def marker (target_ifs version : Text) (uptime wall : ℤ) (witness_ok : Bool) : Text :=
  render [target_ifs, version, decimal uptime, decimal wall, if witness_ok then ['1'] else ['0']]

def write_pending (o : Marking) (target_ifs version : Text) : Steps Disk Bool := do
  -- the witness first: as long as it is there, the system was not rebooted
  let witness_ok ← ofstream o.witness.opens .witness
  if witness_ok then
    put o.witness.stored .witness (target_ifs ++ ' ' :: (version ++ ['\n']))
  if ← ofstream o.pending.opens .pending then
    put o.pending.stored .pending (marker target_ifs version o.uptime.1 o.wall.1 witness_ok)
    -- a failed fsync is only logged
    return true
  else return false

/-- The text of a marker read back, line by line. -/
def parse_pending (text : Text) : PendingInfo :=
  let line (i : ℕ) : Text := trim ((lines text)[i]?.getD [])
  { expected_ifs := line 0
    version := line 1
    -- an empty line and an exception both leave the default
    switch_uptime_sec := (sto 64 (line 2)).getD (-1)
    switch_wall_sec := (sto 64 (line 3)).getD 0
    witness_ok := line 4 = ['1']
    valid := line 0 ≠ [] }

def read_pending (opens : Bool) : Steps Disk PendingInfo := do
  match ← ifstream opens .pending with
  | none => return ⟨[], [], -1, 0, false, false⟩
  | some text => return parse_pending text

/-! ### Markers -/

/-- **A marker of five lines** is read line by line. -/
theorem parse_pending_marker {target version : Text} {uptime wall : ℤ} {witness : Bool}
    (htarget : Trimmed target)
    (hversion : Trimmed version) (hne : target ≠ []) (ht : '\n' ∉ target) (hv : '\n' ∉ version)
    (hu : Fits 64 uptime) (hw : Fits 64 wall) :
    parse_pending (marker target version uptime wall witness) =
      ⟨target, version, uptime, wall, witness, true⟩ := by
  have hbit : '\n' ∉ (if witness then ['1'] else ['0'] : Text) := by cases witness <;> decide
  have hlines : lines (marker target version uptime wall witness) =
      [target, version, decimal uptime, decimal wall, if witness then ['1'] else ['0']] := by
    refine lines_render ?_
    simp only [List.mem_cons, List.not_mem_nil, or_false, forall_eq_or_imp, forall_eq]
    exact ⟨ht, hv, newline_notMem_decimal _, newline_notMem_decimal _, hbit⟩
  have hwitness : decide (trim (if witness then ['1'] else ['0']) = ['1']) = witness := by
    cases witness <;> decide
  unfold parse_pending
  rw [hlines]
  simp [trim_of_trimmed htarget, trim_of_trimmed hversion, trim_decimal, sto_decimal hu,
    sto_decimal hw, hwitness, hne]

/-- What stands in the second line of a marker has no line end. -/
theorem newline_notMem_version (text : Text) : '\n' ∉ (parse_pending text).version := by
  intro h
  have hmem : '\n' ∈ (lines text)[1]?.getD [] := mem_of_mem_trim h
  cases hl : (lines text)[1]? with
  | none =>
      rw [hl] at hmem
      exact absurd hmem List.not_mem_nil
  | some l =>
      rw [hl] at hmem
      exact newline_notMem_of_mem_lines (List.mem_of_getElem? hl) hmem

theorem result_write_pending_fst (o : Marking) (target version : Text) (d : Disk) :
    ((write_pending o target version).result d).1 = o.pending.opens := by
  unfold write_pending
  cases o.pending.opens <;> cases o.witness.opens <;> simp

/-- What `write_pending` leaves if it can write all of the marker. -/
theorem result_write_pending {o : Marking} {target version : Text} (hopens : o.pending.opens = true)
    (hstored : (marker target version o.uptime.1 o.wall.1 o.witness.opens).length ≤
      o.pending.stored) (d : Disk) :
    ((write_pending o target version).result d).2 .pending =
      some (marker target version o.uptime.1 o.wall.1 o.witness.opens) := by
  unfold write_pending
  rw [← List.take_of_length_le hstored]
  cases o.witness.opens <;> simp [hopens]

/-- The reply to a request for the version, `none` if the request failed, as the client takes it. -/
def get_server_version (reply : Option Text) : Text :=
  match reply with
  | none => []
  | some response => trim response

/-- The version of the server has no blanks at its ends. -/
theorem trimmed_get_server_version (reply : Option Text) : Trimmed (get_server_version reply) := by
  cases reply with
  | none => exact trimmed_of_forall fun _ h => absurd h List.not_mem_nil
  | some response => exact trimmed_trim response

/-- The two slots. -/
def slots : List Text := [IFS_A, IFS_B]

theorem slot_cases {slot : Text} (h : slot ∈ slots) : slot = IFS_A ∨ slot = IFS_B := by
  simpa [slots] using h

/-- A slot's name is one line without blanks. -/
theorem isBlank_of_mem_slot {slot : Text} (h : slot ∈ slots) {c : Char} (hc : c ∈ slot) :
    isBlank c = false := by
  rcases slot_cases h with rfl | rfl
  · exact isBlank_eq_false_of_all (by decide) c hc
  · exact isBlank_eq_false_of_all (by decide) c hc

theorem slot_ne_nil {slot : Text} (h : slot ∈ slots) : slot ≠ [] := by
  rcases slot_cases h with rfl | rfl <;> decide

/-- **The marker comes back**: what is read from a marker that was stored whole is the slot, the
version, the two clocks and the witness bit that were written, if and only if the version the server
gave is one line. -/
theorem marker_iff {slot : Text} (hslot : slot ∈ slots) (reply : Option Text) {o : Marking}
    {d : Disk} (hreturns : ((write_pending o slot (get_server_version reply)).result d).1 = true)
    (hstored : (marker slot (get_server_version reply) o.uptime.1 o.wall.1 o.witness.opens).length ≤
      o.pending.stored) :
    ((read_pending true).result ((write_pending o slot (get_server_version reply)).result d).2).1 =
        ⟨slot, get_server_version reply, o.uptime.1, o.wall.1, o.witness.opens, true⟩ ↔
      '\n' ∉ get_server_version reply := by
  rw [result_write_pending_fst] at hreturns
  have hpending := result_write_pending hreturns hstored d
  have hread : ((read_pending true).result
      ((write_pending o slot (get_server_version reply)).result d).2).1 =
      parse_pending (marker slot (get_server_version reply) o.uptime.1 o.wall.1
        o.witness.opens) := by
    unfold read_pending
    rw [Steps.result_bind, result_ifstream]
    dsimp only
    rw [if_pos rfl, hpending]
    rfl
  rw [hread]
  constructor
  · intro h
    have hversion := newline_notMem_version
      (marker slot (get_server_version reply) o.uptime.1 o.wall.1 o.witness.opens)
    rwa [h] at hversion
  · intro h
    exact parse_pending_marker (trimmed_of_forall fun c hc => isBlank_of_mem_slot hslot hc)
      (trimmed_get_server_version reply) (slot_ne_nil hslot)
      (fun hn => absurd (isBlank_of_mem_slot hslot hn) (by decide)) h o.uptime.2 o.wall.2

/-- A switch at 100 s of uptime, with room for everything. -/
def marking : Marking := ⟨⟨true, 1000⟩, ⟨true, 1000⟩, ⟨100, by decide⟩, ⟨1700000000, by decide⟩⟩

theorem marker_iff_week :
    ((read_pending true).result ((write_pending marking IFS_B "2026.18.1".toList).result fun _ =>
        none).2).1 =
      ⟨IFS_B, "2026.18.1".toList, 100, 1700000000, true, true⟩ :=
  (@marker_iff IFS_B (by decide) (some "2026.18.1\r\n".toList) marking (fun _ => none)
    (by decide +kernel) (by decide +kernel)).mpr (by decide +kernel)

/-- A reply of two lines that counts as newer: the marker comes back with another version, without
clocks and without the witness bit. -/
theorem two_lines_shift_marker :
    is_newer_version (get_server_version (some "2\n3".toList)) "1".toList = true ∧
      ((write_pending marking IFS_B (get_server_version (some "2\n3".toList))).result fun _ =>
        none).1 = true ∧
      (marker IFS_B (get_server_version (some "2\n3".toList)) 100 1700000000 true).length ≤
        marking.pending.stored ∧
      ((read_pending true).result
        ((write_pending marking IFS_B (get_server_version (some "2\n3".toList))).result fun _ =>
          none).2).1 =
        ⟨IFS_B, "2".toList, 3, 100, false, true⟩ := by
  decide +kernel

end Ota
