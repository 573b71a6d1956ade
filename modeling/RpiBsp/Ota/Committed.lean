import RpiBsp.Ota.Way

/-!
# OTA — The committed version

After a cold start the client writes the version of the marker to a file, and from then on compares
what the server offers with it.  If all of the version was stored, that is what `get_version` gives
until the next version is committed, and the server can offer it again without any effect.  While
the next one is written the file has neither.

* `versionOf_written` — what is read from a version file that was stored up to the end of the
version;
* `holds_settle_committed`, `holds_pass_committed` — no other operation changes what is read;
* `committed_run` — **main**: the version that is read in every state of a run.
-/

namespace Ota

open Support

/-! ### What is read -/

/-- A version as a marker has one: one line without blanks at its ends. -/
structure Line (v : Text) : Prop where
  trimmed : Trimmed v
  newline : '\n' ∉ v

theorem line_pending (f : Option Text) : Line (pendingOf f).version := by
  cases f with
  | none => exact ⟨trimmed_of_forall fun _ h => absurd h List.not_mem_nil, List.not_mem_nil⟩
  | some text => exact ⟨trimmed_trim _, newline_notMem_version text⟩

/-- The version is stored whole, or is the one that an empty file stands for. -/
def Stored (v : Text) (stored : ℕ) : Prop := v.length ≤ stored ∨ v = ['1']

instance (v : Text) (stored : ℕ) : Decidable (Stored v stored) :=
  inferInstanceAs (Decidable (_ ∨ _))

/-- **The version that was written is read.** -/
theorem versionOf_written {v : Text} (hne : v ≠ []) (hline : Line v) {stored : ℕ}
    (h : Stored v stored) :
    versionOf (some ((v ++ ['\n']).take stored)) = v := by
  have hread : ∀ text, (lines text)[0]? = some v → versionOf (some text) = v := by
    intro text htext
    rw [versionOf, htext, Option.getD_some, trim_of_trimmed hline.trimmed, if_neg hne]
  by_cases hlen : v.length ≤ stored
  · obtain ⟨k, rfl⟩ := Nat.exists_eq_add_of_le hlen
    refine hread _ ?_
    rw [List.take_length_add_append]
    cases k with
    | zero =>
        rw [List.take_zero, List.append_nil, lines_single hne hline.newline]
        rfl
    | succ k =>
        rw [List.take_succ_cons, lines_line hline.newline]
        rfl
  · -- nothing was stored of `1`, and nothing is read as `1`
    obtain rfl := h.resolve_left hlen
    obtain rfl : stored = 0 := by simpa using hlen
    rfl

/-! ### What the client keeps -/

/-- What was committed is what is read. -/
def Keeps (w : World) : Prop := ∀ v, w.committed = some v → versionOf (w.disk .version) = v

/-- No version is being written in the place of another. -/
def Unbroken (w : World) : Prop := w.writing = true → w.committed = none

section

variable {w : World}

theorem Keeps.see (h : Keeps w) {d : Disk} (hd : d .version = w.disk .version) :
    Keeps (w.see d) := by
  intro v hv
  rw [← h v hv]
  exact congrArg versionOf hd

theorem Keeps.same (h : Keeps w) : Keeps (w.see w.disk) := h.see rfl

theorem Keeps.congr (h : Keeps w) {t : World} (hdisk : t.disk .version = w.disk .version)
    (hcommitted : t.committed = w.committed) : Keeps t := by
  intro v hv
  rw [hdisk]
  exact h v (hcommitted ▸ hv)

/-- An operation on another file. -/
theorem holds_other {α : Type} {x : Steps Disk α} (h : Keeps w)
    (hx : x.Holds (fun d => d .version = w.disk .version) (fun _ d => d .version = w.disk .version)
      w.disk) :
    (onDisk x).Holds Keeps (fun _ => Keeps) w :=
  holds_onDisk (hx.mono (fun _ hd => h.see hd) fun _ _ hd => h.see hd)

theorem holds_remove_committed (succeeds : Bool) (n : Text) (h : Keeps w) :
    (onDisk (remove_file succeeds (.image n))).Holds Keeps (fun _ => Keeps) w :=
  holds_other h (holds_remove_file (fun _ => ⟨by simp, by simp⟩) fun _ => rfl)

theorem holds_clear_committed (o : Clearing) (h : Keeps w) :
    (onDisk (clear_pending o)).Holds Keeps (fun _ => Keeps) w :=
  holds_other h ((holds_clear_pending o w.disk).mono (fun _ hd => hd.frame _ (by simp) (by simp))
    fun _ _ hd => hd.1.frame _ (by simp) (by simp))

theorem holds_drop_committed [Volume] (o : Dropping) (e : Text) (h : Keeps w) :
    (drop_pending o e).Holds Keeps (fun _ => Keeps) w :=
  holds_drop_rule h.same (fun _ h => holds_remove_committed o.remove _ h)
    fun _ h => holds_clear_committed o.clear h

/-- Committing: while the file is open, what is read is of no version. -/
theorem holds_commit_committed {o : Settling} {v : Text} (hline : Line v)
    (hstored : o.version.opens = true → Stored v o.version.stored) (h : Keeps w) :
    (commit o v).Holds (fun w => Unbroken w → Keeps w) (fun _ => Keeps) w := by
  refine Steps.Holds.ite (fun _ => .pure h) (fun hne => ?_)
  have hcall : Keeps { w with writing := true, call := some (.write_version v) } := h.congr rfl rfl
  refine Steps.Holds.bind (R := fun _ t => Keeps t ∧ t.writing = true)
    (.step (fun _ => hcall) ⟨hcall, rfl⟩) ?_
  rintro _ w ⟨h, hwriting⟩
  have hopen : ∀ d : Disk, Unbroken (w.see d) → Keeps (w.see d) := fun d hunbroken v hv =>
    absurd ((hunbroken hwriting).symm.trans hv) nofun
  refine Steps.Holds.bind
      (R := fun written w => (written = true → versionOf (w.disk .version) = v) ∧
      (written = false → Keeps w))
    (holds_onDisk ((holds_write_version o.version v w.disk).mono (fun d _ => hopen d)
      fun written d hd => ?_)) ?_
  · obtain ⟨-, rfl, htext, hnot⟩ := hd
    refine ⟨fun hopens => ?_, fun hopens => h.see (by rw [hnot hopens])⟩
    exact (congrArg versionOf (htext hopens)).trans (versionOf_written hne hline (hstored hopens))
  rintro written w ⟨hread, hsame⟩
  have hdone : Keeps
      { w with committed := if written then some v else w.committed, writing := false } := by
    cases written with
    | true => exact fun u hu => Option.some.inj hu ▸ hread rfl
    | false => exact (hsame rfl).congr rfl rfl
  exact Steps.Holds.bind (R := fun _ => Keeps) (.step (fun _ => hdone) hdone) fun _ w h => .pure h

/-- A start that writes the version of its marker. -/
structure Commits (o : Settling) (w : World) : Prop where
  found : Found o w
  rebooted : rebooted o.evidence (pendingOf (w.disk .pending)) (w.disk .witness) = true
  opens : o.version.opens = true

/-- **Settling** keeps the version, or commits the one of the marker. -/
theorem holds_settle_committed [Volume] {o : Settling}
    (hstored : Commits o w → Stored (pendingOf (w.disk .pending)).version o.version.stored)
    (h : Keeps w) :
    (settle_pending_on_boot o).Holds (fun w => Unbroken w → Keeps w) (fun _ => Keeps) w := by
  refine Steps.Holds.bind
    (R := fun p t => (p.valid = true → o.pending = true ∧ p = pendingOf (w.disk .pending)) ∧
    Keeps t ∧ t.disk = w.disk) (holds_read_pending ⟨fun hvalid => ?_, h.same, rfl⟩) ?_
  · cases hopens : o.pending with
    | false =>
        rw [hopens] at hvalid
        exact absurd hvalid nofun
    | true => exact ⟨rfl, rfl⟩
  rintro p t ⟨hp, h, hdisk⟩
  refine Steps.Holds.ite (fun hvalid => ?_) (fun _ => .pure h)
  obtain ⟨hpending, rfl⟩ := hp hvalid
  refine Steps.Holds.bind (R := fun n t => n = (if o.config then active w.disk else none) ∧
    Keeps t ∧ t.disk = w.disk) (holds_get_active_ifs ⟨by rw [hdisk], h.same, hdisk⟩) ?_
  rintro n t ⟨hn, h, hdisk⟩
  cases n with
  | none => exact .pure h
  | some n =>
      refine Steps.Holds.ite (fun heq => ?_) (fun _ => ?_)
      · refine Steps.Holds.bind
          (R := fun b t => b = rebooted o.evidence (pendingOf (w.disk .pending)) (w.disk .witness) ∧
          Keeps t) (holds_system_rebooted_since ⟨by rw [hdisk], h.same⟩) ?_
        rintro _ t ⟨rfl, h⟩
        refine Steps.Holds.ite (fun hyes => ?_) (fun _ => .pure h)
        have hfound : Found o w := by
          cases hconfig : o.config with
          | false =>
              rw [hconfig] at hn
              exact absurd hn nofun
          | true =>
              rw [hconfig, if_pos rfl] at hn
              exact ⟨hpending, hconfig, hvalid, heq ▸ hn.symm⟩
        refine Steps.Holds.bind
          (holds_commit_committed (line_pending _) (fun hopens => hstored ⟨hfound, hyes, hopens⟩) h)
            ?_
        intro committed w h
        refine Steps.Holds.ite (fun _ => ?_) (fun _ => .pure h)
        exact Steps.Holds.bind
          ((holds_clear_committed o.clear h).mono (fun _ h _ => h) fun _ _ h => h)
          fun _ w h => .pure h
      · exact Steps.Holds.bind
          ((holds_drop_committed o.drop _ h).mono (fun _ h _ => h) fun _ _ h => h)
          fun _ w h => .pure h

/-- From the marker on: other files. -/
theorem holds_switch_to_committed [Volume] {o : Attempt} {a n version : Text}
    (ha : active w.disk = some a) (h : Keeps w) :
    (switch_to o n version).Holds Keeps (fun _ => Keeps) w := by
  have habort : ∀ w, Keeps w → (abort_before_switch o n).Holds Keeps (fun _ => Keeps) w :=
    fun w h => holds_abort_rule (holds_remove_committed o.remove _ h)
      fun _ _ h hd => h.see (hd.frame _ (by simp) (by simp))
  refine Steps.Holds.bind (R := fun _ w => Keeps w ∧ active w.disk = some a)
    (.step (h.congr rfl rfl) ⟨h.congr rfl rfl, ha⟩) ?_
  rintro _ w ⟨h, ha⟩
  have hmark : ∀ d, Marked o.marking n version w.disk d → Keeps (w.see d) ∧
      active (w.see d).disk = some a :=
    fun d hd => ⟨h.see (hd.frame _ (by simp) (by simp)),
      by
        rw [← ha]
        exact congrArg (Option.bind · activeName) (hd.frame .config (by simp) (by simp))⟩
  refine Steps.Holds.bind (R := fun _ w => Keeps w ∧ active w.disk = some a)
    (holds_onDisk ((holds_write_pending o.marking n version w.disk).mono
        (fun d hd => (hmark d hd).1)
      fun _ d hd => hmark d hd.1)) ?_
  rintro marked w ⟨h, ha⟩
  refine Steps.Holds.ite (fun _ => ?_) (fun _ => habort w h)
  obtain ⟨text, htext, -⟩ := Option.bind_eq_some_iff.mp ha
  refine Steps.Holds.bind (holds_other h ((holds_set_active_ifs o.switch n htext).mono
    (fun d hd => hd.frame _ (by simp) (by simp) (by simp)) fun _ d hd =>
      hd.1.frame _ (by simp) (by simp) (by simp))) ?_
  intro done w h
  refine Steps.Holds.ite (fun _ => ?_) (fun _ => habort w h)
  exact Steps.Holds.bind (R := fun _ => Keeps) (.step (h.congr rfl rfl) (h.congr rfl rfl))
    fun _ w h => .pure h

/-- **A pass** keeps the version. -/
theorem holds_pass_committed [Volume] {o : Pass}
    (hstays : ¬ Blocks o.block w.disk → KeepsPaths o.reload w.g_config w.disk) (h : Keeps w) :
    (pass o).Holds Keeps (fun _ => Keeps) w := by
  have hclear : ∀ (c : Clearing) w d, Keeps w → Cleared c w.disk d → Keeps (w.see d) :=
    fun c w d h hd => h.see (hd.frame _ (by simp) (by simp))
  have hremove : ∀ n w, Keeps w → Keeps (w.see (Function.update w.disk (.image n) none)) :=
    fun n w h => h.see (by simp)
  have hsettings : ∀ w d g, Keeps w → SettingsOnly w.disk d →
    Keeps { w.see d with g_config := g } := fun w d g h hd =>
    h.congr (hd .version (by simp)) rfl
  refine holds_pass_rule h (fun _ h => h) hstays (fun _ h => h.same) hsettings
    (fun _ w _ _ _ h => hremove _ w h)
    (fun w d h _ hd => hclear _ w d h hd) (fun w h _ _ => h.congr rfl rfl) ?_
  intro w h _
  exact holds_try_apply_update_rule h (fun _ h => h) (fun _ h => h.same)
    (fun _ w _ _ h => h.congr (by simp [World.load]) rfl) (fun a w _ h => hremove _ w h)
      (fun _ w d _ h hd => hclear _ w d h hd)
    (fun a w ha _ h => holds_switch_to_committed ha (h.congr rfl rfl))
      (fun _ w _ h => h.congr rfl rfl)

end

/-! ### The same version again -/

/-- Nothing was downloaded and nothing switched: `config.txt` is the same, and an image is the same
or removed. -/
structure Idle (w t : World) : Prop where
  config : t.disk .config = w.disk .config
  image : ∀ n, t.disk (.image n) = w.disk (.image n) ∨ t.disk (.image n) = none

theorem is_newer_version_self (v : Text) : is_newer_version v v = false := by
  unfold is_newer_version
  simp

/-- **An offer of the version that is read** changes nothing. -/
theorem holds_pass_idle [Volume] {o : Pass} {w : World}
    (hstays : ¬ Blocks o.block w.disk → KeepsPaths o.reload w.g_config w.disk)
    (hopens : o.version = true)
    (hsame : get_server_version o.reply = versionOf (w.disk .version)) :
      (pass o).Holds (Idle w) (fun _ => Idle w) w := by
  refine holds_pass_rule (I := Idle w) ⟨rfl, fun _ => .inl rfl⟩ (fun _ h => h) hstays
    (fun _ h => ⟨h.config, h.image⟩) ?_ ?_ ?_ (fun t h _ _ => ⟨h.config, h.image⟩) ?_
  · rintro t d g h hd
    exact ⟨(hd .config (by simp)).trans h.config, fun n => by
      have himage : d (.image n) = t.disk (.image n) := hd _ (by simp)
      exact (h.image n).imp himage.trans himage.trans⟩
  · rintro _ t _ _ _ h
    refine ⟨h.config, fun m => ?_⟩
    by_cases hm : m = file (pendingOf (w.disk .pending)).expected_ifs
    · exact .inr (by simp [World.see, hm])
    · simpa [World.see, hm] using h.image m
  · rintro t d h _ hd
    refine ⟨(hd.frame _ (by simp) (by simp)).trans h.config, fun n => ?_⟩
    have himage : d (.image n) = t.disk (.image n) := hd.frame _ (by simp) (by simp)
    exact (h.image n).imp himage.trans himage.trans
  · rintro t - hattempts
    have hnewer := hattempts.newer
    rw [hopens, if_pos rfl, hsame, is_newer_version_self] at hnewer
    exact absurd hnewer (by rintro ⟨⟩)

/-! ### Runs -/

/-- **When the version is kept.**  The settings leave the paths as they are, and a start that
commits the version of its marker stores all of it, or it is `1`. -/
def VersionStored (s : System) : Event → Prop
  | .start o =>
      Stays s (.start o) ∧ ((o.settings s.world.disk).enabled = true → Commits o.settle s.world →
      Stored (pendingOf (s.world.disk .pending)).version o.settle.version.stored)
  | .pass o => Stays s (.pass o)
  | _ => True

theorem result_get_version (d : Disk) :
    ((get_version true).result d).1 = versionOf (d .version) := by
  unfold get_version
  rw [Steps.result_bind, result_ifstream]
  cases d .version with
  | none => rfl
  | some text => rfl

/-- **The committed version.**  In every state of a run whose starts store the version they commit,
and are not cut off while they write it in the place of another, `get_version` gives the version
that was committed last; and as long as the server offers that version, a pass downloads nothing and
switches nothing. -/
theorem committed_run [Volume] {s₀ s : System} (hinit : s₀.world.committed = none)
    (h : Reach VersionStored Unbroken s₀ s) {v : Text} (hv : s.world.committed = some v) :
    ((get_version true).result s.world.disk).1 = v ∧ ∀ o :
        Pass, Stays s (.pass o) → o.version = true →
      get_server_version o.reply = v →
      (pass o).Holds (Idle s.world) (fun _ => Idle s.world) s.world := by
  have hkeeps : Keeps s.world := by
    refine @Reach.rule _ VersionStored Unbroken (fun s => Keeps s.world) s₀ s
      (fun v hv => absurd (hinit.symm.trans hv) nofun) ?_ h
    intro s e hs _ hmeets
    cases e with
    | start o =>
        obtain ⟨hstays, hstored⟩ := hmeets
        have hfirst : Keeps { s.world with g_config := o.settings s.world.disk, call := none } :=
          hs.congr rfl rfl
        refine holds_main_rule hstays (fun _ => hfirst) (fun _ => hfirst) fun henabled => ?_
        exact holds_settle_committed
          (fun hcommits => hstored henabled ⟨⟨hcommits.found.pending, hcommits.found.config,
          hcommits.found.valid, hcommits.found.named⟩, hcommits.rebooted, hcommits.opens⟩) hfirst
    | pass o =>
        exact Steps.Holds.bind
          ((holds_pass_committed hmeets hs).mono (fun _ h _ => h) fun _ _ h => h)
          fun _ _ h => .pure h
    | kill => exact .pure hs
    | reboot settings =>
        have hreboot : Keeps (s.world.reboot settings) := hs.congr rfl rfl
        exact Steps.Holds.bind (.step (fun _ => hreboot) hreboot) fun _ _ h => .pure h
  have hread := hkeeps v hv
  rw [result_get_version]
  exact ⟨hread, fun o hstays hopens hreply =>
    holds_pass_idle hstays hopens (hreply.trans hread.symm)⟩

/-- What a start at 10 s of uptime sees, with room for so many bytes in the version file. -/
def settling (opens : Bool) (stored : ℕ) : Settling where
  pending := true
  config := true
  evidence := ⟨true, ⟨10, by decide⟩, ⟨1700000100, by decide⟩⟩
  version := ⟨opens, stored⟩
  clear := ⟨true, true⟩
  drop := ⟨true, true, ⟨true, true⟩⟩

/-- Such a start, without a file of settings. -/
def started (opens : Bool) (stored : ℕ) : Main :=
  ⟨"/etc/ota_config".toList, true, board.disk, settling opens stored⟩

/-- The card after an update and a reboot. -/
def rebootedCard (version : Text) : World :=
  (updated version marking (switchTo 1000)).reboot fun _ => none

/-- And after a start. -/
def restarted (opens : Bool) (stored : ℕ) : World :=
  ((main (started opens stored)).result (rebootedCard ['2'])).2

theorem reach_restarted {C : System → Event → Prop} {D : World → Prop} {opens : Bool} {stored : ℕ}
    (hupdate : C ⟨board, true⟩ (.pass (offered ['2'] marking (switchTo 1000))))
    (hreboot : C ⟨updated ['2'] marking (switchTo 1000), true⟩ (.reboot fun _ => none))
    (hstart : C ⟨rebootedCard ['2'], false⟩ (.start (started opens stored))) :
    Reach C D ⟨board, true⟩ ⟨restarted opens stored, true⟩ :=
  ((Reach.init.pass rfl hupdate
    (result_offered marking _ (by decide +kernel) (by decide +kernel))).reboot _ hreboot).start
    (o := started opens stored) rfl hstart (Prod.ext rfl rfl)

theorem committed_run_two :
    (restarted true 1000).committed = some ['2'] ∧
      ((get_version true).result (restarted true 1000).disk).1 = ['2'] ∧
      (pass (offered ['2'] marking (switchTo 1000))).Holds (Idle (restarted true 1000))
        (fun _ => Idle (restarted true 1000)) (restarted true 1000) := by
  have hcommitted : (restarted true 1000).committed = some ['2'] := by decide +kernel
  have hstart : VersionStored ⟨rebootedCard ['2'], false⟩ (.start (started true 1000)) :=
    ⟨rfl, fun _ _ => by decide +kernel⟩
  have hrun := @reach_restarted VersionStored Unbroken true 1000 (stays_offered _ _ _ _)
    trivial hstart
  obtain ⟨hread, hidle⟩ := committed_run rfl hrun hcommitted
  exact ⟨hcommitted, hread, hidle _ (stays_offered _ _ _ _) rfl rfl⟩

/-- A volume that is full: the version is committed and its marker removed, but the file is empty,
which reads as `1`, and the same offer counts as new again. -/
theorem committed_version_lost :
    Run (fun _ _ => True) ⟨board, true⟩ ⟨restarted true 0, true⟩ ∧
      (restarted true 0).committed = some ['2'] ∧
      (restarted true 0).disk .pending = none ∧
      ((get_version true).result (restarted true 0).disk).1 = ['1'] ∧
      is_newer_version ['2'] ['1'] = true :=
  ⟨reach_restarted trivial trivial
    trivial, by decide +kernel, by decide +kernel, by decide +kernel, by decide +kernel⟩

end Ota
