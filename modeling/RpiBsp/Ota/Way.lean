import RpiBsp.Ota.Client

/-!
# OTA — The files on the way

What the files can be while a call is made, for each of the calls that write them.

* `holds_clear_pending` — the marker is removed before the witness;
* `holds_write_version` — only the version file changes;
* `holds_write_pending` — the witness, then an empty marker, then the marker;
* `holds_set_active_ifs` — `config.txt` is the old text until the new one takes its place, unless it
is opened again;
* `holds_settle_rule`, `holds_pass_rule`, `holds_try_apply_update_rule` — what every operation
  keeps, a start, a pass and an update attempt keep;
* `result_offered` — an update whose image passes the checks, on a card with one slot.
-/

namespace Ota

open Support

/-! ### The files on the way -/

/-- The files while a marker is removed: the marker goes before the witness. -/
structure Cleared (o : Clearing) (d d' : Disk) : Prop where
  frame : ∀ p, p ≠ .pending → p ≠ .witness → d' p = d p
  pending : d' .pending = none ∨ d' .pending = d .pending
  witness : d' .witness = none ∨ d' .witness = d .witness
  order : d' .pending = none ∨ d' .witness = d .witness ∨ o.pending = false ∧ o.witness = true

theorem holds_clear_pending (o : Clearing) (d : Disk) :
    (clear_pending o).Holds (Cleared o d)
      (fun _ d' => Cleared o d d' ∧ (o.pending = true → d' .pending = none)) d := by
  have hpending : Cleared o d (Function.update d .pending none) :=
    ⟨fun p hp _ => by simp [hp], .inl (by simp), .inr (by simp), .inl (by simp)⟩
  have hboth : Cleared o d (Function.update (Function.update d .pending none) .witness none) :=
    ⟨fun p hp hw => by simp [hp, hw], .inl (by simp), .inl (by simp), .inl (by simp)⟩
  refine Steps.Holds.bind
    (R := fun _ d' => d' = if o.pending then Function.update d .pending none else d)
    (holds_remove_file (fun h => ⟨hpending, by simp [h]⟩) (fun h => by simp [h])) ?_
  rintro _ _ rfl
  refine holds_remove_file (fun hw => ?_) (fun _ => ?_)
  · cases hp : o.pending with
    | false =>
        have : Cleared o d (Function.update d .witness none) :=
          ⟨fun p _ hw => by simp [hw], .inr (by simp), .inl (by simp), .inr (.inr ⟨hp, hw⟩)⟩
        exact ⟨this, this, nofun⟩
    | true => exact ⟨hboth, hboth, fun _ => by simp⟩
  · cases hp : o.pending with
    | false => exact ⟨⟨fun _ _ _ => rfl, .inr rfl, .inr rfl, .inr (.inl rfl)⟩, nofun⟩
    | true => exact ⟨hpending, fun _ => by simp⟩

/-- The files while a version is written. -/
theorem holds_write_version (o : Create) (version : Text) (d : Disk) :
    (write_version o version).Holds (fun d' => o.opens = true ∧ ∀ p, p ≠ .version → d' p = d p)
      (fun written d' => (∀ p, p ≠ .version → d' p = d p) ∧ written = o.opens ∧
        (o.opens = true → d' .version = some ((version ++ ['\n']).take o.stored)) ∧
        (o.opens = false → d' = d)) d := by
  refine Steps.Holds.bind (R := fun b d' => b = o.opens ∧ (b = false → d' = d) ∧ ∀ p, p ≠ .version →
    d' p = d p)
    (holds_ofstream (fun h =>
        ⟨⟨h, fun p hp => by simp [hp]⟩, h.symm, nofun, fun p hp => by simp [hp]⟩)
      (fun h => ⟨h.symm, fun _ => rfl, fun _ _ => rfl⟩)) ?_
  rintro opens t ⟨rfl, hsame, hframe⟩
  refine Steps.Holds.ite (fun h => ?_) (fun h => ?_)
  · have hput : ∀ p, p ≠ .version →
        Function.update t .version (some ((version ++ ['\n']).take o.stored)) p = d p :=
      fun p hp => by rw [Function.update_of_ne hp, hframe p hp]
    refine Steps.Holds.bind
      (R := fun _ d' => d' = Function.update t .version (some ((version ++ ['\n']).take o.stored)))
      (holds_put ⟨h, hput⟩ rfl) ?_
    rintro _ _ rfl
    exact .pure ⟨hput, h.symm, fun _ => by simp, fun hnot => absurd h (by simp [hnot])⟩
  · have h := Bool.eq_false_iff.mpr h
    exact .pure ⟨hframe, h.symm, fun hopens => absurd (h.symm.trans hopens) Bool.false_ne_true,
      fun _ => hsame h⟩

/-- The files while a marker is written: first the witness, then the marker is empty, then it is
there. -/
structure Marked (o : Marking) (target version : Text) (d d' : Disk) : Prop where
  frame : ∀ p, p ≠ .pending → p ≠ .witness → d' p = d p
  witness : d' .witness = d .witness ∨ (d' .witness).isSome = true
  pending : d' .pending = d .pending ∨ d' .pending = some [] ∨
    d' .pending = some ((marker target version o.uptime.1 o.wall.1 o.witness.opens).take
      o.pending.stored)

/-- The marker itself, after the witness. -/
theorem holds_mark {o : Marking} {target version : Text} {d t : Disk}
    (hframe : ∀ p, p ≠ .witness → t p = d p)
    (hwitness : t .witness = d .witness ∨ (t .witness).isSome = true)
    (hsome : o.witness.opens = true → (t .witness).isSome = true) :
    (do if ← ofstream o.pending.opens .pending then
          put o.pending.stored .pending (marker target version o.uptime.1 o.wall.1 o.witness.opens)
          return true
        else return false).Holds (Marked o target version d)
      (fun written d' => Marked o target version d d' ∧ (written = true →
        d' .pending = some ((marker target version o.uptime.1 o.wall.1 o.witness.opens).take
            o.pending.stored) ∧
          (o.witness.opens = true → (d' .witness).isSome = true))) t := by
  have hput : ∀ text, (text = [] ∨
      text = (marker target version o.uptime.1 o.wall.1 o.witness.opens).take o.pending.stored) →
      Marked o target version d (Function.update t .pending (some text)) := fun text htext =>
    ⟨fun p hp hpw => by rw [Function.update_of_ne hp, hframe p hpw],
      by simpa using hwitness, .inr (by simpa using htext)⟩
  refine Steps.Holds.bind (R := fun b d' => (b = true → d' = Function.update t .pending (some [])) ∧
    (b = false → d' = t))
    (holds_ofstream (fun _ => ⟨hput [] (.inl rfl), fun _ => rfl, nofun⟩)
      (fun _ => ⟨nofun, fun _ => rfl⟩)) ?_
  rintro b t' ⟨hopen, hclosed⟩
  refine Steps.Holds.ite (fun h => ?_) (fun h => ?_)
  · obtain rfl := hopen h
    refine Steps.Holds.bind (R := fun _ d' => d' = Function.update t .pending
      (some ((marker target version o.uptime.1 o.wall.1 o.witness.opens).take o.pending.stored)))
        (holds_put ?_ ?_) ?_
    · rw [Function.update_idem]
      exact hput _ (.inr rfl)
    · rw [Function.update_idem]
    · rintro _ _ rfl
      exact .pure ⟨hput _ (.inr rfl), fun _ => ⟨by simp, fun ho => by simpa using hsome ho⟩⟩
  · obtain rfl := hclosed (Bool.eq_false_iff.mpr h)
    exact .pure ⟨⟨fun p _ hp => hframe p hp, hwitness, .inl (hframe _ (by simp))⟩, nofun⟩

theorem holds_write_pending (o : Marking) (target version : Text) (d : Disk) :
    (write_pending o target version).Holds (Marked o target version d)
      (fun written d' => Marked o target version d d' ∧ (written = true →
        d' .pending = some ((marker target version o.uptime.1 o.wall.1 o.witness.opens).take
            o.pending.stored) ∧
          (o.witness.opens = true → (d' .witness).isSome = true))) d := by
  have hwitness : ∀ text, Marked o target version d (Function.update d .witness (some text)) :=
    fun text => ⟨fun p _ hw => by simp [hw], .inr (by simp), .inl (by simp)⟩
  refine Steps.Holds.bind (R := fun b d' => b = o.witness.opens ∧
      (b = true → d' = Function.update d .witness (some [])) ∧
      (b = false → d' = d))
    (holds_ofstream (fun h => ⟨hwitness [], h.symm, fun _ => rfl, nofun⟩)
      (fun h => ⟨h.symm, nofun, fun _ => rfl⟩)) ?_
  rintro witness_ok t ⟨rfl, hopened, hnot⟩
  refine Steps.Holds.ite (fun h => ?_) (fun h => ?_)
  · obtain rfl := hopened h
    refine Steps.Holds.bind (R := fun _ d' => d' = Function.update d .witness
      (some ((target ++ ' ' :: (version ++ ['\n'])).take o.witness.stored))) (holds_put ?_ ?_) ?_
    · rw [Function.update_idem]
      exact hwitness _
    · rw [Function.update_idem]
    · rintro _ _ rfl
      exact holds_mark (fun p hp => by simp [hp]) (.inr (by simp)) (fun _ => by simp)
  · obtain rfl := hnot (Bool.eq_false_iff.mpr h)
    exact holds_mark (fun _ _ => rfl) (.inl rfl) (fun h' => absurd h' h)

/-- The temporary file takes the place of `config.txt`. -/
structure Renames (o : Switch) : Prop where
  opens : o.tmp.opens = true
  fsync : o.fsync = true
  rename : o.rename = true

/-- `restore_config_bak` opens `config.txt` to write it: the switch failed after the temporary file
was opened, and there is a copy. -/
structure Reopens (o : Switch) (d : Disk) : Prop where
  opens : o.tmp.opens = true
  failed : ¬ (o.fsync = true ∧ o.rename = true)
  copy : o.bak.opens = true ∨ (d .config_bak).isSome = true
  seen : o.restore.seen = true
  dst : o.restore.dst.opens = true

/-- The files while `kernel=` is changed. -/
structure Switched (o : Switch) (n text : Text) (d d' : Disk) : Prop where
  frame : ∀ p, p ≠ .config → p ≠ .config_bak → p ≠ .config_tmp → d' p = d p
  config : d' .config = some text ∨ Renames o ∧ d' .config = some (newText o n text) ∨ Reopens o d

/-- The files with a copy that may be new, before anything else changes. -/
structure Copied (o : Switch) (d d' : Disk) : Prop where
  frame : ∀ p, p ≠ .config_bak → p ≠ .config_tmp → d' p = d p
  copy : (d' .config_bak).isSome = true → o.bak.opens = true ∨ (d .config_bak).isSome = true

theorem Copied.switched {o : Switch} {n text : Text} {d d' : Disk} (h : Copied o d d')
    (hd : d .config = some text) :
    Switched o n text d d' :=
  ⟨fun p _ hbak htmp => h.frame p hbak htmp, .inl (by rw [h.frame _ (by simp) (by simp), hd])⟩

theorem Copied.update {o : Switch} {d d' : Disk} (h : Copied o d d') (text : Option Text) :
    Copied o d (Function.update d' .config_tmp text) :=
  ⟨fun p hbak htmp => by
    rw [Function.update_of_ne htmp, h.frame p hbak htmp], by simpa using h.copy⟩

theorem holds_backup (o : Switch) (d : Disk) :
    (backup o).Holds (Copied o d) (fun _ => Copied o d) d := by
  have hcopy : ∀ text, o.bak.opens = true → Copied o d (Function.update d .config_bak text) :=
    fun text h => ⟨fun p hp _ => by simp [hp], fun _ => .inl h⟩
  have hsame : Copied o d d := ⟨fun _ _ _ => rfl, fun h => .inr h⟩
  refine Steps.Holds.bind (R := fun _ d' => d = d') (holds_ifstream rfl) ?_
  rintro src _ rfl
  refine Steps.Holds.bind (R := fun b d' => b = o.bak.opens ∧
      (b = true → d' = Function.update d .config_bak (some [])) ∧
      (b = false → d' = d))
    (holds_ofstream (fun h => ⟨hcopy _ h, h.symm, fun _ => rfl, nofun⟩)
      (fun h => ⟨h.symm, nofun, fun _ => rfl⟩)) ?_
  rintro dst t ⟨rfl, hopens, hnot⟩
  cases hdst : o.bak.opens with
  | false =>
      obtain rfl := hnot hdst
      cases src <;> exact .pure hsame
  | true =>
      obtain rfl := hopens hdst
      cases src with
      | none => exact .pure (hcopy _ hdst)
      | some text =>
          refine holds_put ?_ ?_ <;> · rw [Function.update_idem]; exact hcopy _ hdst

/-- Giving up: `config.txt` changes only if it is opened to be written back. -/
theorem holds_giveUp {o : Switch} {n text : Text} {d t : Disk} (hd : d .config = some text)
    (ht : Copied o d t)
    (hopens : o.tmp.opens = true) (hfailed : ¬ (o.fsync = true ∧ o.rename = true)) :
    (giveUp o).Holds (Switched o n text d)
      (fun done d' => Switched o n text d d' ∧ done = false) t := by
  refine Steps.Holds.bind (R := fun _ => Copied o d)
    (holds_remove_file (fun _ => ⟨(ht.update none).switched hd, ht.update none⟩) (fun _ => ht)) ?_
  intro _ t ht
  refine Steps.Holds.bind (R := fun _ => Switched o n text d) ?_ (fun _ t ht => .pure ⟨ht, rfl⟩)
  refine Steps.Holds.bind (R := fun b d' => b = (o.restore.seen && (t .config_bak).isSome) ∧ t = d')
    (holds_file_exists ⟨rfl, rfl⟩) ?_
  rintro seen _ ⟨rfl, rfl⟩
  refine Steps.Holds.ite (fun hseen => ?_) (fun _ => .pure (ht.switched hd))
  obtain ⟨hseen, hcopy⟩ := Bool.and_eq_true_iff.mp hseen
  -- once it is opened, whatever is in it
  have hopened : ∀ text', o.restore.dst.opens = true →
      Switched o n text d (Function.update t .config text') :=
    fun text' hdst => ⟨fun p hp hbak htmp => by rw [Function.update_of_ne hp, ht.frame p hbak htmp],
      .inr (.inr ⟨hopens, hfailed, ht.copy hcopy, hseen, hdst⟩)⟩
  refine Steps.Holds.bind (R := fun _ d' => t = d') (holds_ifstream rfl) ?_
  rintro src _ rfl
  refine Steps.Holds.bind (R := fun b d' => b = o.restore.dst.opens ∧
      (b = true → d' = Function.update t .config (some [])) ∧
      (b = false → d' = t))
    (holds_ofstream (fun h => ⟨hopened _ h, h.symm, fun _ => rfl, nofun⟩)
      (fun h => ⟨h.symm, nofun, fun _ => rfl⟩)) ?_
  rintro dst t' ⟨rfl, hopen, hnot⟩
  cases hdst : o.restore.dst.opens with
  | false =>
      obtain rfl := hnot hdst
      cases src <;> exact .pure (ht.switched hd)
  | true =>
      obtain rfl := hopen hdst
      cases src with
      | none => exact .pure (hopened _ hdst)
      | some text' =>
          refine Steps.Holds.bind (R := fun _ => Switched o n text d) (holds_put ?_ ?_)
            (fun _ _ h => .pure h) <;>
            · rw [Function.update_idem]; exact hopened _ hdst

/-- **The files while `kernel=` is changed**, and then. -/
theorem holds_set_active_ifs (o : Switch) (n : Text) {text : Text} {d : Disk}
    (hd : d .config = some text) :
    (set_active_ifs o n).Holds (Switched o n text d)
      (fun done d' => Switched o n text d d' ∧
        (done = true → Renames o ∧ d' .config = some (newText o n text)) ∧
        (done = false → ¬ Renames o)) d := by
  refine Steps.Holds.bind (R := fun _ => Copied o d)
    ((holds_backup o d).mono (fun _ h => h.switched hd) fun _ _ h => h) ?_
  intro _ t ht
  have hconfig : t .config = some text := by rw [ht.frame _ (by simp) (by simp), hd]
  refine Steps.Holds.bind (R := fun old t' => old = (if o.src then some text else none) ∧ t = t')
    (holds_ifstream ⟨by rw [hconfig], rfl⟩) ?_
  rintro old _ ⟨rfl, rfl⟩
  have hnew : (render (rewrite n (((if o.src then some text else none).map lines).getD []))).take
      o.tmp.stored = newText o n text := by
    rw [newText]
    cases o.src <;> rfl
  refine Steps.Holds.bind (R := fun b d' => b = o.tmp.opens ∧ Copied o d d')
    (holds_ofstream (fun h => ⟨(ht.update _).switched hd, h.symm, ht.update _⟩)
      (fun h => ⟨h.symm, ht⟩)) ?_
  rintro opens t ⟨rfl, ht⟩
  refine Steps.Holds.ite (fun hopens => ?_)
    (fun hopens => .pure ⟨ht.switched hd, (by rintro ⟨⟩), fun _ h => hopens h.opens⟩)
  refine Steps.Holds.bind
    (R := fun _ d' => Copied o d d' ∧ d' .config_tmp = some (newText o n text))
    (holds_put ((ht.update _).switched hd) ⟨ht.update _, by rw [Function.update_self, hnew]⟩) ?_
  rintro _ t ⟨ht, htmp⟩
  refine Steps.Holds.bind (R := fun b d' => b = o.fsync ∧ t = d')
    (holds_fsync_path ⟨by simp [htmp], rfl⟩) ?_
  rintro fsync _ ⟨rfl, rfl⟩
  refine Steps.Holds.ite (fun hfsync => ?_) (fun hfsync => ?_)
  · -- the new text under the name of the old one
    have hmoved : Renames o → Switched o n text d
        (Function.update (Function.update t .config (t .config_tmp)) .config_tmp none) ∧
          Function.update (Function.update t .config (t .config_tmp)) .config_tmp none .config =
            some (newText o n text) :=
      fun hr => by
        have hnow : Function.update (Function.update t .config (t .config_tmp)) .config_tmp none
            .config = some (newText o n text) := by simpa using htmp
        exact ⟨⟨fun p hp hbak htmp => by simp [hp, htmp, ht.frame p hbak htmp],
          .inr (.inl ⟨hr, hnow⟩)⟩, hnow⟩
    refine Steps.Holds.bind (R := fun b d' => b = o.rename ∧ (b = true → Switched o n text d d' ∧
        d' .config = some (newText o n text)) ∧ (b = false → d' = t))
      (holds_rename (fun hr =>
          ⟨(hmoved ⟨hopens, hfsync, hr⟩).1, hr.symm, fun _ =>
            hmoved ⟨hopens, hfsync, hr⟩, by rintro ⟨⟩⟩)
        (fun hr => ⟨hr.symm, (by rintro ⟨⟩), fun _ => rfl⟩)) ?_
    rintro b t' ⟨rfl, hdone, hnot⟩
    refine Steps.Holds.ite (fun hr =>
      .pure ⟨(hdone hr).1, fun _ => ⟨⟨hopens, hfsync, hr⟩, (hdone hr).2⟩, by rintro ⟨⟩⟩)
        (fun hr => ?_)
    obtain rfl := hnot (Bool.eq_false_iff.mpr hr)
    exact (holds_giveUp hd ht hopens fun h => hr h.2).mono (fun _ h => h)
      fun b _ h => ⟨h.1, fun hb => absurd (h.2.symm.trans hb) Bool.false_ne_true, fun _ h =>
        hr h.rename⟩
  · exact (holds_giveUp hd ht hopens fun h => hfsync h.1).mono (fun _ h => h)
      fun b _ h => ⟨h.1, fun hb => absurd (h.2.symm.trans hb) Bool.false_ne_true, fun _ h =>
        hfsync h.fsync⟩

/-! ### What is read -/

/-- A marker file as it is read. -/
def pendingOf : Option Text → PendingInfo
  | none => ⟨[], [], -1, 0, false, false⟩
  | some text => parse_pending text

def versionOf : Option Text → Text
  | none => ['1']
  | some text =>
      if trim ((lines text)[0]?.getD []) = [] then ['1'] else trim ((lines text)[0]?.getD [])

/-- The answer of `system_rebooted_since`. -/
def rebooted (o : Evidence) (p : PendingInfo) (witness : Option Text) : Bool :=
  if p.witness_ok then !(o.witness && witness.isSome)
  else if p.switch_uptime_sec < 0 ∨ p.switch_wall_sec ≤ 0 then true
  else if o.uptime.1 < p.switch_uptime_sec then true
  else decide (o.wall.1 - o.uptime.1 > p.switch_wall_sec - p.switch_uptime_sec + 5)

/-! ### When an event does something -/

/-- The marker, if it is read, keeps a pass from trying an update. -/
def Blocks (o : Blocking) (d : Disk) : Prop :=
  o.pending = true ∧ (pendingOf (d .pending)).valid = true ∧
    ∀ a, (if o.config then active d else none) = some a → a = (pendingOf (d .pending)).expected_ifs

/-- A pass comes to try an update. -/
structure Attempts (o : Pass) (w : World) : Prop where
  free : ¬ Blocks o.block w.disk
  offered : get_server_version o.reply ≠ []
  newer : is_newer_version (get_server_version o.reply)
    (versionOf (if o.version then w.disk .version else none)) = true

/-- The settings that an event reads leave the paths as they are. -/
def Stays (s : System) : Event → Prop
  | .start o => (o.settings s.world.disk).paths = s.world.g_config.paths
  | .pass o => ¬ Blocks o.block s.world.disk → KeepsPaths o.reload s.world.g_config s.world.disk
  | _ => True

section

variable {w : World} {P : World → Prop}

theorem holds_onDisk {α : Type} {x : Steps Disk α} {Q : α → World → Prop}
    (h : x.Holds (fun d => P (w.see d)) (fun a d => Q a (w.see d)) w.disk) :
      (onDisk x).Holds P Q w :=
  .within h

/-- The marker is removed. -/
theorem holds_onDisk_clear {o : Clearing} {Q : World → Prop}
    (h : ∀ d, Cleared o w.disk d →
      P (w.see d) ∧ ((o.pending = true → d .pending = none) → Q (w.see d))) :
    (onDisk (clear_pending o)).Holds P (fun _ => Q) w :=
  holds_onDisk ((holds_clear_pending o w.disk).mono (fun d hd => (h d hd).1)
    fun _ d hd => (h d hd.1).2 hd.2)

/-- The image is removed, and then the marker: `R` is what holds in between. -/
theorem holds_abort_rule [Volume] {R : World → Prop} {o : Attempt} {n : Text}
    (hremove : (onDisk (remove_file o.remove (.image (file n)))).Holds P (fun _ => R) w)
    (hclear : ∀ t d, R t → Cleared o.clear t.disk d → P (t.see d)) :
    (abort_before_switch o n).Holds P (fun _ => P) w :=
  Steps.Holds.bind hremove fun _ t h =>
    Steps.Holds.bind (holds_onDisk_clear fun d hd => ⟨hclear t d h hd, fun _ => hclear t d h hd⟩)
      fun _ _ h => .pure h

/-- A marker of another slot is dropped, its image with it: `R` is what holds until it is. -/
theorem holds_drop_rule [Volume] {R Q : World → Prop} {o : Dropping} {e : Text}
    (hseen : R (w.see w.disk))
    (hremove : ∀ t, R t → (onDisk (remove_file o.remove (.image (file e)))).Holds P (fun _ => R) t)
    (hclear : ∀ t, R t → (onDisk (clear_pending o.clear)).Holds P (fun _ => Q) t) :
    (drop_pending o e).Holds P (fun _ => Q) w := by
  refine Steps.Holds.bind (R := fun _ => R) (holds_onDisk (holds_file_exists hseen)) ?_
  intro seen t h
  refine Steps.Holds.ite (fun _ => ?_) (fun _ => hclear t h)
  exact Steps.Holds.bind (hremove t h) fun _ t h => hclear t h

theorem holds_read_pending {opens : Bool} {Q : PendingInfo → World → Prop}
    (h : Q (pendingOf (if opens then w.disk .pending else none)) (w.see w.disk)) :
    (onDisk (read_pending opens)).Holds P Q w := by
  refine holds_onDisk
    (Steps.Holds.bind (R := fun f d => f = (if opens then w.disk .pending else none) ∧ w.disk = d)
    (holds_ifstream ⟨rfl, rfl⟩) ?_)
  rintro f d ⟨rfl, rfl⟩
  cases hf : (if opens then w.disk .pending else none) with
  | none => exact .pure (by rwa [hf] at h)
  | some text => exact .pure (by rwa [hf] at h)

theorem holds_get_active_ifs {opens : Bool} {Q : Option Text → World → Prop}
    (h : Q (if opens then active w.disk else none) (w.see w.disk)) :
      (onDisk (get_active_ifs opens)).Holds P Q w := by
  refine holds_onDisk
    (Steps.Holds.bind (R := fun f d => f = (if opens then w.disk .config else none) ∧ w.disk = d)
    (holds_ifstream ⟨rfl, rfl⟩) ?_)
  rintro f d ⟨rfl, rfl⟩
  have hbind : (if opens then active w.disk else none) =
      (if opens then w.disk .config else none).bind activeName := by
    cases opens <;> rfl
  rw [hbind] at h
  cases hf : (if opens then w.disk .config else none) with
  | none => exact .pure (by rwa [hf] at h)
  | some text => exact .pure (by rwa [hf] at h)

theorem holds_get_version {opens : Bool} {Q : Text → World → Prop}
    (h : Q (versionOf (if opens then w.disk .version else none)) (w.see w.disk)) :
    (onDisk (get_version opens)).Holds P Q w := by
  refine holds_onDisk
    (Steps.Holds.bind (R := fun f d => f = (if opens then w.disk .version else none) ∧ w.disk = d)
    (holds_ifstream ⟨rfl, rfl⟩) ?_)
  rintro f d ⟨rfl, rfl⟩
  cases hf : (if opens then w.disk .version else none) with
  | none => exact .pure (by rwa [hf] at h)
  | some text => exact .pure (by rwa [hf] at h)

theorem holds_system_rebooted_since {o : Evidence} {p : PendingInfo} {Q : Bool → World → Prop}
    (h : Q (rebooted o p (w.disk .witness)) (w.see w.disk)) :
      (onDisk (system_rebooted_since o p)).Holds P Q w := by
  refine holds_onDisk ?_
  unfold system_rebooted_since
  unfold rebooted at h
  split
  case isTrue hok =>
      rw [if_pos hok] at h
      refine Steps.Holds.bind (R := fun b d => b = (o.witness && (w.disk .witness).isSome) ∧
        w.disk = d) (holds_file_exists ⟨rfl, rfl⟩) ?_
      rintro b d ⟨rfl, rfl⟩
      exact .pure h
  case isFalse hok =>
      rw [if_neg hok] at h
      split
      case isTrue hold => exact .pure (by rwa [if_pos hold] at h)
      case isFalse hold =>
          rw [if_neg hold] at h
          split
          case isTrue hback => exact .pure (by rwa [if_pos hback] at h)
          case isFalse hback => exact .pure (by rwa [if_neg hback] at h)

/-- An image that passes the check is there. -/
theorem holds_verify_ifs [Volume] {seen sized : Bool} {n : Text} {Q : Bool → World → Prop}
    (h : ∀ b, (b = true → (w.disk (.image (file n))).isSome = true) → Q b (w.see w.disk)) :
    (onDisk (verify_ifs seen sized n)).Holds P Q w := by
  refine holds_onDisk
    (Steps.Holds.bind (R := fun b d => b = (seen && (w.disk (.image (file n))).isSome) ∧ w.disk = d)
    (holds_file_exists ⟨rfl, rfl⟩) ?_)
  rintro b d ⟨rfl, rfl⟩
  refine Steps.Holds.ite (fun hb => ?_) (fun _ => .pure (h _ nofun))
  refine Steps.Holds.bind (R := fun _ d => w.disk = d) (holds_ifstream rfl) ?_
  rintro f d rfl
  exact .pure (h _ fun _ => (Bool.and_eq_true_iff.mp hb).2)

end

/-! ### A rule for the start -/

/-- A world in which only the version file and images may be others, and what was committed. -/
structure Still (w t : World) : Prop where
  boot : t.boot = w.boot
  switched : t.switched = w.switched
  image : t.image = w.image
  clocks : t.clocks = w.clocks
  call : t.call = none
  pending : t.disk .pending = w.disk .pending
  witness : t.disk .witness = w.disk .witness
  config : t.disk .config = w.disk .config

theorem see_switched {w : World} {d : Disk} (h : d .config = w.disk .config) :
    (w.see d).switched = w.switched :=
  if_pos (by rw [active, active, h])

theorem Still.first (w : World) : Still w (w.see w.disk) :=
  ⟨rfl, see_switched rfl, rfl, rfl, rfl, rfl, rfl, rfl⟩

theorem Still.see {w t : World} (h : Still w t) {d : Disk} (hpending : d .pending = t.disk .pending)
    (hwitness : d .witness = t.disk .witness) (hconfig : d .config = t.disk .config) :
      Still w (t.see d) :=
  ⟨h.boot, (see_switched hconfig).trans h.switched, h.image, h.clocks, rfl,
    hpending.trans h.pending, hwitness.trans h.witness, hconfig.trans h.config⟩

theorem Still.same {w t : World} (h : Still w t) : Still w (t.see t.disk) := h.see rfl rfl rfl

/-- Only the version file is written. -/
theorem Still.wrote {w t : World} (h : Still w t) {call : Option Call} {d : Disk}
    (hd : ∀ p, p ≠ .version → d p = t.disk p) :
    Still w (World.see { t with writing := true, call := call } d) :=
  ⟨h.boot, (see_switched (hd .config (by simp))).trans h.switched, h.image, h.clocks, rfl,
    (hd _ (by simp)).trans h.pending, (hd _ (by simp)).trans h.witness,
    (hd _ (by simp)).trans h.config⟩

/-- **Committing**: only the version file changes, and it fails only if that cannot be opened. -/
theorem holds_commit_still {P : World → Prop} {o : Settling} {version : Text} {w t : World}
    (hstill : ∀ t, Still w t → P t) (ht : Still w t)
    (hcall : version ≠ [] → P { t with writing := true, call := some (.write_version version) }) :
    (commit o version).Holds P (fun done t => Still w t ∧
      (done = false → version ≠ [] ∧ o.version.opens = false)) t := by
  refine Steps.Holds.ite (fun _ => .pure ⟨ht, nofun⟩) (fun hne => ?_)
  refine Steps.Holds.bind (R := fun _ t' =>
      t' = { t with writing := true, call := some (.write_version version) })
    (.step (hcall hne) rfl) ?_
  rintro _ _ rfl
  refine Steps.Holds.bind (R := fun written t => Still w t ∧ written = o.version.opens)
    (holds_onDisk ((holds_write_version o.version _ t.disk).mono
      (fun d hd => hstill _ (ht.wrote hd.2)) fun _ d hd => ⟨ht.wrote hd.1, hd.2.1⟩)) ?_
  rintro _ t ⟨ht, rfl⟩
  have hset : ∀ c, Still w { t with committed := c, writing := false } := fun _ =>
    ⟨ht.boot, ht.switched, ht.image, ht.clocks, ht.call, ht.pending, ht.witness, ht.config⟩
  exact Steps.Holds.bind (R := fun _ t => Still w t) (.step (hstill _ (hset _)) (hset _))
    fun _ t ht => .pure ⟨ht, fun hnot => ⟨hne, hnot⟩⟩

/-- What a start finds: a marker that can be read, of the slot that `kernel=` names. -/
structure Found (o : Settling) (w : World) : Prop where
  pending : o.pending = true
  config : o.config = true
  valid : (pendingOf (w.disk .pending)).valid = true
  named : active w.disk = some (pendingOf (w.disk .pending)).expected_ifs

/-- **A marker is settled**: nothing is done, or it waits for the reboot, or the version is
committed and the marker removed, or the marker is of another slot and is dropped. -/
theorem holds_settle_rule [Volume] {P Q : World → Prop} {o : Settling} {w : World}
    (hstill : ∀ t, Still w t → P t) (hskip : ∀ t, Still w t → ¬ Found o w → Q t)
    (hwait : ∀ t, Still w t → Found o w →
    rebooted o.evidence (pendingOf (w.disk .pending)) (w.disk .witness) = false → Q t)
    (hcall : ∀ t, Still w t → Found o w →
      rebooted o.evidence (pendingOf (w.disk .pending)) (w.disk .witness) = true →
      (pendingOf (w.disk .pending)).version ≠ [] →
      P { t with writing := true, call := some (.write_version
        (pendingOf (w.disk .pending)).version) })
    (hfail : ∀ t, Still w t → Found o w → (pendingOf (w.disk .pending)).version ≠ [] →
    o.version.opens = false → Q t)
    (hdone : ∀ t d, Still w t → Found o w →
      rebooted o.evidence (pendingOf (w.disk .pending)) (w.disk .witness) = true →
        Cleared o.clear t.disk d → P (t.see d) ∧
        ((o.clear.pending = true → d .pending = none) → Q (t.see d)))
    (hdrop : ∀ t d, Still w t → active w.disk ≠ some (pendingOf (w.disk .pending)).expected_ifs →
      Cleared o.drop.clear t.disk d → P (t.see d) ∧ Q (t.see d)) :
    (settle_pending_on_boot o).Holds P (fun _ => Q) w := by
  refine Steps.Holds.bind (R := fun p t => Still w t ∧
    (p.valid = true → o.pending = true ∧ p = pendingOf (w.disk .pending)) ∧
    (p.valid = false → ¬ Found o w))
    (holds_read_pending ⟨.first w, fun hvalid => ?_, fun hinvalid hfound => ?_⟩) ?_
  · cases hopens : o.pending with
    | false =>
        rw [hopens] at hvalid
        exact absurd hvalid nofun
    | true => exact ⟨rfl, rfl⟩
  · rw [hfound.pending, if_pos rfl] at hinvalid
    exact absurd (hinvalid.symm.trans hfound.valid) Bool.false_ne_true
  rintro p t ⟨ht, hvalid, hinvalid⟩
  refine Steps.Holds.ite (fun hp => ?_)
    (fun hp => .pure (hskip t ht (hinvalid (Bool.eq_false_iff.mpr hp))))
  obtain ⟨hopens, rfl⟩ := hvalid hp
  have hactive : active t.disk = active w.disk := by rw [active, active, ht.config]
  refine Steps.Holds.bind
    (R := fun n t => Still w t ∧ (∀ a, n = some a → o.config = true ∧ active w.disk = some a) ∧
    (n = none → ¬ Found o w))
      (holds_get_active_ifs ⟨ht.same, fun a ha => ?_, fun hnone hfound => ?_⟩) ?_
  · cases hconfig : o.config with
    | false =>
        rw [hconfig] at ha
        exact absurd ha nofun
    | true =>
        rw [hconfig, if_pos rfl, hactive] at ha
        exact ⟨rfl, ha⟩
  · rw [hfound.config, if_pos rfl, hactive] at hnone
    exact absurd (hnone.symm.trans hfound.named) nofun
  rintro n t ⟨ht, hsome, hnone⟩
  cases n with
  | none => exact .pure (hskip t ht (hnone rfl))
  | some a =>
      obtain ⟨hconfig, ha⟩ := hsome a rfl
      refine Steps.Holds.ite (fun heq => ?_) (fun hne => ?_)
      · have hfound : Found o w := ⟨hopens, hconfig, hp, heq ▸ ha⟩
        refine Steps.Holds.bind (R := fun b t => Still w t ∧
            b = rebooted o.evidence (pendingOf (w.disk .pending)) (w.disk .witness))
          (holds_system_rebooted_since ⟨ht.same, by rw [ht.witness]⟩) ?_
        rintro b t ⟨ht, rfl⟩
        refine Steps.Holds.ite (fun hb => ?_)
          (fun hb => .pure (hwait t ht hfound (Bool.eq_false_iff.mpr hb)))
        refine Steps.Holds.bind (holds_commit_still hstill ht (hcall t ht hfound hb)) ?_
        rintro done t ⟨ht, hnot⟩
        refine Steps.Holds.ite (fun _ => ?_) (fun hdone => ?_)
        · exact Steps.Holds.bind (R := fun _ => Q)
            (holds_onDisk_clear fun d hd => hdone t d ht hfound hb hd) fun _ t h => .pure h
        · obtain ⟨hne, hclosed⟩ := hnot (Bool.eq_false_iff.mpr hdone)
          exact .pure (hfail t ht hfound hne hclosed)
      · have hother : active w.disk ≠ some (pendingOf (w.disk .pending)).expected_ifs := fun h =>
          hne (Option.some.inj (ha.symm.trans h))
        refine Steps.Holds.bind (R := fun _ => Q) (holds_drop_rule (R := Still w) ht.same
          (fun t ht => ?_) fun t ht => holds_onDisk_clear fun d hd => ?_) fun _ t h => .pure h
        · have hgone : Still w (t.see (Function.update t.disk
              (.image (file (pendingOf (w.disk .pending)).expected_ifs)) none)) :=
            ht.see (by simp) (by simp) (by simp)
          exact holds_onDisk (holds_remove_file (fun _ => ⟨hstill _ hgone, hgone⟩) fun _ => ht.same)
        · exact ⟨(hdrop t d ht hother hd).1, fun _ => (hdrop t d ht hother hd).2⟩

/-- The settings of a start are read: no file changes. -/
theorem holds_main_rule [Volume] {P : World → Prop} {Q : Bool → World → Prop} {o : Main} {w : World}
    (hstays : (o.settings w.disk).paths = w.g_config.paths)
    (hread : P { w with g_config := o.settings w.disk, call := none })
    (hdisabled : (o.settings w.disk).enabled = false →
    Q false { w with g_config := o.settings w.disk, call := none })
    (hsettle : (o.settings w.disk).enabled = true →
      (settle_pending_on_boot o.settle).Holds P (fun _ => Q true)
      { w with g_config := o.settings w.disk, call := none }) :
    (main o).Holds P Q w := by
  refine Steps.Holds.bind (R := fun g t => g = o.settings w.disk ∧ t = w.see w.disk)
    (holds_onDisk ?_) ?_
  · refine Steps.Holds.bind
      (R := fun f d => f = (if o.read then w.disk (.settings o.config_file) else none) ∧ w.disk = d)
      (holds_ifstream ⟨rfl, rfl⟩) ?_
    rintro f d ⟨rfl, rfl⟩
    cases hf : (if o.read then w.disk (.settings o.config_file) else none) with
    | none => exact .pure ⟨by rw [Main.settings, hf], rfl⟩
    | some text => exact .pure ⟨by rw [Main.settings, hf], rfl⟩
  rintro _ _ ⟨rfl, rfl⟩
  have hconfigure : World.configure o.found (o.settings w.disk) (w.see w.disk) =
      { w with g_config := o.settings w.disk, call := none } := by
    rw [World.configure, if_pos (show _ = (w.see w.disk).g_config.paths from hstays), World.see,
      if_pos rfl]
  refine Steps.Holds.bind
    (R := fun _ t => t = { w with g_config := o.settings w.disk, call := none })
    (.step (by rwa [hconfigure]) hconfigure) ?_
  rintro _ _ rfl
  refine Steps.Holds.ite (fun henabled => ?_) fun hnot =>
    .pure (hdisabled (Bool.eq_false_iff.mpr hnot))
  exact Steps.Holds.bind (hsettle henabled) fun _ _ h => .pure h

/-! ### Rules for a pass -/

theorem active_see_load [Volume] (w : World) (n text : Text) :
    active (w.load n text).disk = active w.disk := by
  simp [active, World.load]

section

variable {I P : World → Prop}

/-- The loop that stores the body. -/
theorem holds_receive_rule [Volume] {n : Text} {w : World} (hw : I w) (hP : ∀ w, I w → P w)
    (hload : ∀ w text, I w → I (w.load n text)) (chunks : List Text) :
      (receive n chunks).Holds P (fun _ => I) w := by
  induction chunks generalizing w with
  | nil => exact .pure hw
  | cons c cs ih =>
      exact Steps.Holds.bind (R := fun _ => I) (.step (hP _ (hload _ _ hw)) (hload _ _ hw))
        fun _ w h => ih h

/-- **An update attempt**: what its operations keep up to the switch. -/
theorem holds_try_apply_update_rule [Volume] {o : Attempt} {version : Text} {w : World} (hw : I w)
    (hP : ∀ w, I w → P w) (hread : ∀ w, I w → I (w.see w.disk))
    (hload : ∀ a w text, active w.disk = some a → I w → I (w.load (other a) text))
    (hremove : ∀ a w, active w.disk = some a → I w →
    I (w.see (Function.update w.disk (.image (file (other a))) none)))
    (hclear : ∀ a w d, active w.disk = some a → I w → Cleared o.clear w.disk d → I (w.see d))
    (hswitch : ∀ a w, active w.disk = some a → (w.disk (.image (file (other a)))).isSome = true →
      I w → (switch_to o (other a) version).Holds P (fun _ => P)
      { w with image := Function.update w.image (file (other a)) (.verified version) })
    (hverified : ∀ a w, active w.disk = some a → I w →
      P { w with image := Function.update w.image (file (other a)) (.verified version) }) :
    (try_apply_update o version).Holds P (fun _ => P) w := by
  -- the name in `config.txt` stays until the switch
  have hgone : ∀ a w succeeds, active w.disk = some a ∧ I w →
      (onDisk (remove_file succeeds (.image (file (other a))))).Holds P
        (fun _ w => active w.disk = some a ∧ I w) w := by
    rintro a w succeeds ⟨ha, h⟩
    have hupdate : active (Function.update w.disk (.image (file (other a))) none) = some a := by
      simpa [active] using ha
    exact holds_onDisk
      (holds_remove_file (fun _ => ⟨hP _ (hremove a w ha h), hupdate, hremove a w ha h⟩)
      fun _ => ⟨ha, hread w h⟩)
  have habort : ∀ a w, active w.disk = some a ∧ I w →
      (abort_before_switch o (other a)).Holds P (fun _ => P) w := fun a w h =>
    holds_abort_rule (hgone a w o.remove h) fun t d h hd => hP _ (hclear a t d h.1 h.2 hd)
  refine Steps.Holds.ite (fun _ => ?_) (fun _ => .pure (hP w hw))
  refine Steps.Holds.bind (R := fun n w => (∀ a, n = some a → active w.disk = some a) ∧ I w)
    (holds_get_active_ifs ⟨fun a ha => ?_, hread w hw⟩) ?_
  · cases hopens : o.config with
    | false => simp [hopens] at ha
    | true =>
        rw [hopens, if_pos rfl] at ha
        exact ha
  rintro n w ⟨hn, h⟩
  cases n with
  | none => exact .pure (hP w h)
  | some a =>
      have hstep : ∀ w text, active w.disk = some a ∧ I w →
          active (w.load (other a) text).disk = some a ∧
          I (w.load (other a) text) :=
        fun w text h => ⟨(active_see_load w _ text).trans h.1, hload a w text h.1 h.2⟩
      refine Steps.Holds.bind (R := fun _ w => active w.disk = some a ∧ I w) ?_ ?_
      · refine Steps.Holds.ite (fun _ => ?_) (fun _ => .pure ⟨hn a rfl, h⟩)
        refine Steps.Holds.bind (R := fun _ w => active w.disk = some a ∧ I w)
          (.step (hP _ (hstep w _ ⟨hn a rfl, h⟩).2) (hstep w _ ⟨hn a rfl, h⟩)) ?_
        intro _ w h
        refine Steps.Holds.bind (holds_receive_rule h (fun w h => hP w h.2) hstep o.fetch.chunks) ?_
        intro _ w h
        refine Steps.Holds.ite (fun _ => .pure h) (fun _ => ?_)
        exact Steps.Holds.bind (hgone a w o.fetch.remove h) fun _ w h => .pure h
      · intro loaded w h
        refine Steps.Holds.ite (fun _ => ?_) (fun _ => .pure (hP w h.2))
        refine Steps.Holds.ite (fun _ => ?_) (fun _ => habort a w h)
        refine Steps.Holds.bind (R := fun verified w => (active w.disk = some a ∧ I w) ∧
            (verified = true → (w.disk (.image (file (other a)))).isSome = true))
          (holds_verify_ifs fun _ hthere => ⟨⟨h.1, hread w h.2⟩, hthere⟩) ?_
        rintro verified w ⟨h, hthere⟩
        refine Steps.Holds.ite (fun hverify => ?_) (fun _ => habort a w h)
        refine Steps.Holds.bind (R := fun _ t =>
          t = { w with image := Function.update w.image (file (other a)) (.verified version) })
          (.step (hverified a w h.1 h.2) rfl) ?_
        rintro _ _ rfl
        exact hswitch a w h.1 (hthere hverify) h.2

/-- What a pass reads is as it was at its start. -/
structure SameReads (w t : World) : Prop where
  version : t.disk .version = w.disk .version
  settings : ∀ path, t.disk (.settings path) = w.disk (.settings path)
  g_config : t.g_config = w.g_config

theorem SameReads.see {w t : World} (h : SameReads w t) {d : Disk}
    (hversion : d .version = t.disk .version)
    (hsettings : ∀ path, d (.settings path) = t.disk (.settings path)) : SameReads w (t.see d) :=
  ⟨hversion.trans h.version, fun path => (hsettings path).trans (h.settings path), h.g_config⟩

/-- A marker is dropped: `kernel=` stays, and what the pass reads. -/
theorem holds_drop_reads [Volume] {o : Dropping} {a e : Text} {w t : World}
    (hP : ∀ w, I w → P w) (hread : ∀ w, I w → I (w.see w.disk))
    (hremove : ∀ t, active t.disk = some a → I t →
      I (t.see (Function.update t.disk (.image (file e)) none)))
    (hclear : ∀ t d, I t → active t.disk = some a → t.disk .pending = w.disk .pending →
      Cleared o.clear t.disk d → I (t.see d))
    (ht : I t ∧ SameReads w t) (ha : active t.disk = some a)
    (hpending : t.disk .pending = w.disk .pending) :
    (drop_pending o e).Holds P (fun _ t => I t ∧ SameReads w t) t := by
  refine holds_drop_rule (R := fun t => (I t ∧ SameReads w t) ∧ active t.disk = some a ∧
      t.disk .pending = w.disk .pending)
    ⟨⟨hread t ht.1, ht.2.see rfl fun _ => rfl⟩, ha, hpending⟩ ?_ ?_
  · rintro t ⟨⟨ht, hkept⟩, hta, htp⟩
    have hgone := hremove t hta ht
    refine holds_onDisk (holds_remove_file
      (fun _ => ⟨hP _ hgone, ⟨hgone, hkept.see (by simp) (by simp)⟩, ?_, ?_⟩)
      fun _ => ⟨⟨hread t ht, hkept.see rfl fun _ => rfl⟩, hta, htp⟩)
    · simpa [active, World.see] using hta
    · simpa [World.see] using htp
  · rintro t ⟨⟨ht, hkept⟩, hta, htp⟩
    refine holds_onDisk_clear fun d hd => ?_
    have hcleared := hclear t d ht hta htp hd
    exact ⟨hP _ hcleared, fun _ => ⟨hcleared, hkept.see (hd.frame _ (by simp) (by simp))
      fun path => hd.frame _ (by simp) (by simp)⟩⟩

/-- **Whether the marker blocks** is decided on the files as they are. -/
theorem holds_pending_blocks_rule [Volume] {o : Blocking} {w : World} (hw : I w)
    (hP : ∀ w, I w → P w) (hread : ∀ w, I w → I (w.see w.disk))
    (hremove : ∀ a t, (pendingOf (w.disk .pending)).valid = true → active t.disk = some a →
      (pendingOf (w.disk .pending)).expected_ifs ≠ a → I t →
      I (t.see (Function.update t.disk
        (.image (file (pendingOf (w.disk .pending)).expected_ifs)) none)))
    (hclear : ∀ t d, I t →
      (∀ a, active t.disk = some a → a ≠ (pendingOf (t.disk .pending)).expected_ifs) →
      Cleared o.drop.clear t.disk d → I (t.see d)) :
    (pending_blocks_update o).Holds P (fun blocked t => (I t ∧ SameReads w t) ∧
      (blocked = (true, true) →
      (pendingOf (t.disk .pending)).valid = true ∧
      active t.disk = some (pendingOf (t.disk .pending)).expected_ifs) ∧
      (blocked.1 = false → ¬ Blocks o w.disk)) w := by
  have hfirst : SameReads w w := ⟨rfl, fun _ => rfl, rfl⟩
  refine Steps.Holds.bind
    (R := fun p t => (p.valid = true → o.pending = true ∧ p = pendingOf (w.disk .pending)) ∧
    (p.valid = false → ¬ Blocks o w.disk) ∧ t = w.see w.disk)
    (holds_read_pending ⟨fun hvalid => ?_, fun hinvalid hblocks => ?_, rfl⟩) ?_
  · cases hopens : o.pending with
    | false =>
        rw [hopens] at hvalid
        exact absurd hvalid nofun
    | true => exact ⟨rfl, rfl⟩
  · rw [hblocks.1, if_pos rfl] at hinvalid
    exact absurd (hinvalid.symm.trans hblocks.2.1) Bool.false_ne_true
  rintro p _ ⟨hvalid, hinvalid, rfl⟩
  have hsame : I (w.see w.disk) ∧ SameReads w (w.see w.disk) :=
    ⟨hread w hw, hfirst.see rfl fun _ => rfl⟩
  refine Steps.Holds.ite (fun hp => ?_)
    fun hp => .pure ⟨hsame, nofun, fun _ => hinvalid (Bool.eq_false_iff.mpr hp)⟩
  obtain ⟨hopens, rfl⟩ := hvalid hp
  refine Steps.Holds.bind (R := fun n t => n = (if o.config then active w.disk else none) ∧
    t = (w.see w.disk).see (w.see w.disk).disk) (holds_get_active_ifs ⟨rfl, rfl⟩) ?_
  rintro n _ ⟨hn, rfl⟩
  have hread₂ : I ((w.see w.disk).see (w.see w.disk).disk) ∧
      SameReads w ((w.see w.disk).see (w.see w.disk).disk) :=
    ⟨hread _ hsame.1, hsame.2.see rfl fun _ => rfl⟩
  cases n with
  | none => exact .pure ⟨hread₂, nofun, nofun⟩
  | some a =>
      have ha : active w.disk = some a := by
        cases hconfig : o.config with
        | false =>
            rw [hconfig] at hn
            exact absurd hn nofun
        | true =>
            rw [hconfig, if_pos rfl] at hn
            exact hn.symm
      refine Steps.Holds.ite (fun heq => .pure ⟨hread₂, fun _ => ⟨hp, heq ▸ ha⟩, nofun⟩)
        fun hne => ?_
      have hfree : ¬ Blocks o w.disk := fun h => hne (h.2.2 a hn.symm)
      refine Steps.Holds.bind (holds_drop_reads hP hread
        (fun t hta ht => hremove a t hp hta (Ne.symm hne) ht)
        (fun t d ht hta htp hd => hclear t d ht (fun b hb => ?_) hd) hread₂ ha rfl)
        fun _ t ht => .pure ⟨ht, nofun, fun _ => hfree⟩
      rw [htp, ← Option.some.inj (hta.symm.trans hb)]
      exact hne

/-- **The server is asked for settings**: only files with settings change, and the settings. -/
theorem holds_settings_rule {o : Reload} {found : Disk} {w : World} (hw : I w) (hP : ∀ w, I w → P w)
    (hkeeps : KeepsPaths o w.g_config w.disk)
    (hsettings : ∀ t d g, I t → SettingsOnly t.disk d → I { t.see d with g_config := g })
    {Q : Unit → World → Prop}
    {rest : Steps World Unit}
    (hrest : ∀ t, I t → t.disk .version = w.disk .version → rest.Holds P Q t) :
    (do let v ← Steps.look
        let g ← onDisk (check_and_update_config o v.g_config)
        Steps.step (World.configure found g)
        rest).Holds P Q w := by
  refine Steps.Holds.bind (R := fun v t => v = w ∧ t = w)
    ⟨fun _ ht => absurd ht List.not_mem_nil, rfl, rfl⟩ ?_
  rintro _ _ ⟨rfl, rfl⟩
  rename_i w
  refine Steps.Holds.bind (R := fun g t => ∃ d, t = w.see d ∧ SettingsOnly w.disk d ∧
    g.paths = w.g_config.paths)
    (holds_onDisk ((holds_check_and_update_config hkeeps).mono
        (fun d hd => hP _ (hsettings w d w.g_config hw hd))
      fun g d hd => ⟨d, rfl, hd⟩)) ?_
  rintro g _ ⟨d, rfl, hd, hpaths⟩
  have hconfigure : World.configure found g (w.see d) = { w.see d with g_config := g } := by
    exact if_pos hpaths
  have hdone := hsettings w d g hw hd
  refine Steps.Holds.bind (R := fun _ t => t = { w.see d with g_config := g })
    (.step ?_ hconfigure) ?_
  · rw [hconfigure]
    exact hP _ hdone
  rintro _ _ rfl
  exact hrest _ hdone (hd .version (by simp))

/-- **A pass of the loop**: what its operations keep up to the attempt. -/
theorem holds_pass_rule [Volume] {o : Pass} {w : World} (hw : I w) (hP : ∀ w, I w → P w)
    (hstays : ¬ Blocks o.block w.disk → KeepsPaths o.reload w.g_config w.disk)
    (hread : ∀ w, I w → I (w.see w.disk))
    (hsettings : ∀ t d g, I t → SettingsOnly t.disk d → I { t.see d with g_config := g })
    (hremove : ∀ a t, (pendingOf (w.disk .pending)).valid = true → active t.disk = some a →
      (pendingOf (w.disk .pending)).expected_ifs ≠ a → I t →
      I (t.see (Function.update t.disk
        (.image (file (pendingOf (w.disk .pending)).expected_ifs)) none)))
    (hclear : ∀ w d, I w →
      (∀ a, active w.disk = some a → a ≠ (pendingOf (w.disk .pending)).expected_ifs) →
      Cleared o.block.drop.clear w.disk d → I (w.see d))
    (hrequest : ∀ w, I w → (pendingOf (w.disk .pending)).valid = true →
      active w.disk = some (pendingOf (w.disk .pending)).expected_ifs →
      P { w with call := some .request_reboot })
    (hupdate : ∀ t, I t → Attempts o w →
    (try_apply_update o.attempt (get_server_version o.reply)).Holds P (fun _ => P) t) :
    (pass o).Holds P (fun _ => P) w := by
  refine Steps.Holds.bind (holds_pending_blocks_rule hw hP hread hremove hclear) ?_
  rintro ⟨blocks, need⟩ t ⟨⟨h, hkept⟩, hpending, hfree⟩
  refine Steps.Holds.ite (fun hb => ?_) (fun hb => ?_)
  · refine Steps.Holds.ite (fun hneed => ?_) (fun _ => .pure (hP t h))
    obtain ⟨hvalid, hnamed⟩ := hpending (Prod.ext hb hneed)
    exact .step (hrequest t h hvalid hnamed) (hrequest t h hvalid hnamed)
  · have hfree := hfree (Bool.eq_false_iff.mpr hb)
    have hkeeps : KeepsPaths o.reload t.g_config t.disk := by
      rw [hkept.g_config]
      intro remote ⟨hreply, hne, hlooks, hdiffers, hopens, hread⟩
      rw [hkept.settings] at hdiffers
      exact hstays hfree remote ⟨hreply, hne, hlooks, hdiffers, hopens, hread⟩
    refine holds_settings_rule h hP hkeeps hsettings fun t h hversion => ?_
    refine Steps.Holds.bind
      (R := fun v t => v = versionOf (if o.version then w.disk .version else none) ∧ I t)
      (holds_get_version ⟨by rw [hversion, hkept.version], hread t h⟩) ?_
    rintro installed t ⟨rfl, h⟩
    refine Steps.Holds.ite (fun hnew => ?_) (fun _ => .pure (hP t h))
    exact Steps.Holds.bind (hupdate t h ⟨hfree, hnew.1, hnew.2⟩) fun _ t h => .pure h

end

/-! ### An update that succeeds -/

theorem World.see_self {w : World} (h : w.call = none) : w.see w.disk = w := by
  unfold World.see
  rw [if_pos rfl, ← h]

/-- A pass without a marker and without new settings that finds a newer version tries to install
it. -/
theorem result_pass_newer [Volume] {o : Pass} {w : World} (hcall : w.call = none)
    (hpending : w.disk .pending = none) (hreply : o.reload.reply = none)
    (hne : get_server_version o.reply ≠ [])
    (hnewer : is_newer_version (get_server_version o.reply)
      (versionOf (if o.version then w.disk .version else none)) = true) :
    ((pass o).result w).2 =
      ((try_apply_update o.attempt (get_server_version o.reply)).result w).2 := by
  have hsee := World.see_self hcall
  have hread := (@holds_read_pending w (fun _ => True) o.block.pending
    (fun p t => p = pendingOf none ∧ t = w) ⟨by rw [hpending, ite_self], hsee⟩).final
  have hversion := (@holds_get_version w (fun _ => True) o.version
    (fun v t => v = versionOf (if o.version then w.disk .version else none) ∧ t = w)
      ⟨rfl, hsee⟩).final
  have hblock : (pending_blocks_update o.block).result w = ((false, true), w) := by
    unfold pending_blocks_update
    rw [Steps.result_bind, hread.1, hread.2]
    rfl
  have hsettings : (onDisk (check_and_update_config o.reload w.g_config)).result w =
      (w.g_config, w) := by
    unfold check_and_update_config
    rw [hreply]
    exact Prod.ext rfl hsee
  have hconfigure : World.configure o.found w.g_config w = w := by
    rw [World.configure, if_pos rfl, ← hcall]
  unfold pass
  rw [Steps.result_bind, hblock]
  dsimp only
  rw [if_neg Bool.false_ne_true, Steps.result_bind, Steps.result_look, Steps.result_bind, hsettings,
    Steps.result_bind,
    Steps.result_step, hconfigure, Steps.result_bind, hversion.1, hversion.2, if_pos ⟨hne, hnewer⟩]
  rfl

/-- An update whose image is downloaded in one piece and passes the checks comes to the switch. -/
theorem result_update_verified [Volume] {o : Attempt} {w : World} {a version text : Text}
    {remove : Bool} (hcall : w.call = none)
    (hspace : o.space = true) (hconfig : o.config = true) (hactive : active w.disk = some a)
    (hfetch : o.fetch = ⟨true, [text], true, remove⟩) (hsha : o.sha256 = true)
    (hseen : o.seen = true)
    (hsized : o.sized = true) (hsize : MIN_IFS_SIZE ≤ text.length) :
    (try_apply_update o version).result w = (switch_to o (other a) version).result
      { w with
        disk := Function.update w.disk (.image (file (other a))) (some text)
        image := Function.update w.image (file (other a)) (.verified version) } := by
  have hread := (@holds_get_active_ifs w (fun _ => True) true (fun n t => n = some a ∧ t = w)
    ⟨hactive, World.see_self hcall⟩).final
  have hloaded : (download_file ⟨true, [text], true, remove⟩ (other a)).result w =
      (true, w.load (other a) text) := by
    unfold download_file
    simp [receive, World.load]
  have hverify : (onDisk (verify_ifs true true (other a))).result (w.load (other a) text) =
      (true, w.load (other a) text) := by
    have hdisk : (verify_ifs true true (other a)).result (w.load (other a) text).disk =
        (true, (w.load (other a) text).disk) := by
      unfold verify_ifs
      simp [World.load, hsize]
    rw [onDisk, Steps.result_within, hdisk, World.see_self rfl]
  unfold try_apply_update
  rw [hspace, hconfig, if_pos rfl, Steps.result_bind, hread.1, hread.2]
  dsimp only
  rw [Steps.result_bind, hfetch, hloaded]
  dsimp only
  rw [if_pos rfl, hsha, if_pos rfl, Steps.result_bind, hseen, hsized, hverify]
  dsimp only
  rw [if_pos rfl, Steps.result_bind, Steps.result_step, World.load, hcall]
  dsimp only
  rw [Function.update_idem]

/-- A file system that takes no note of the case of letters. -/
instance fat : Volume where
  file n := n.map Char.toLower
  slots_apart := by decide

/-- A card with the first slot. -/
def board : World where
  disk := fun p =>
    if p = .config then some "kernel=ifs-rpi5.bin\n".toList
    else if p = .image (file IFS_A) then some [] else none
  g_config := defaults "/etc/ota_config".toList
  boot := 1
  switched := 0
  image := fun n => if n = file IFS_A then .kept else .loading
  clocks := []
  committed := none
  writing := false
  call := none

/-- An image of the least size that is accepted.  It is too long to be unfolded. -/
@[irreducible] def imageText : Text := List.replicate MIN_IFS_SIZE 'x'

/-- A pass in which a version is offered, and its image is downloaded and checked. -/
def offered (reply : Text) (marking : Marking) (switch : Switch) : Pass where
  block := ⟨true, true, ⟨true, true, ⟨true, true⟩⟩⟩
  reload := ⟨none, true, ⟨true, 1000⟩, true, ⟨true, 1000⟩, ⟨true, 1000⟩, ⟨true, 1000⟩, true⟩
  found := board.disk
  version := true
  reply := some reply
  attempt := ⟨true, true, ⟨true, [imageText], true, true⟩, true, true, true, marking, switch, true,
    ⟨true, true⟩⟩

/-- An offer leaves the settings alone. -/
theorem stays_offered (reply : Text) (marking : Marking) (switch : Switch) (s : System) :
    Stays s (.pass (offered reply marking switch)) := fun _ _ htakes => absurd htakes.reply nofun

/-- The card with the new image. -/
def downloaded (version : Text) : World :=
  { board with
    disk := Function.update board.disk (.image (file IFS_B)) (some imageText)
    image := Function.update board.image (file IFS_B) (.verified version) }

theorem active_board : active board.disk = some IFS_A := by decide +kernel

/-- The card after the offer was taken. -/
def updated (reply : Text) (marking : Marking) (switch : Switch) : World :=
  ((switch_to (offered reply marking switch).attempt IFS_B (get_server_version (some reply))).result
    (downloaded (get_server_version (some reply)))).2

theorem result_offered {reply : Text} (marking : Marking) (switch : Switch)
    (hne : get_server_version (some reply) ≠ [])
    (hnewer : is_newer_version (get_server_version (some reply)) ['1'] = true) :
    ((pass (offered reply marking switch)).result board).2 = updated reply marking switch := by
  have hpass := @result_pass_newer _ (offered reply marking switch) board rfl rfl rfl hne hnewer
  have hupdate := @result_update_verified _ (offered reply marking switch).attempt board IFS_A
    (get_server_version (some reply)) imageText true rfl rfl rfl active_board rfl rfl rfl rfl
    (by rw [imageText, List.length_replicate])
  rw [hpass]
  exact congrArg Prod.snd hupdate

end Ota
