import RpiBsp.Ota.Way

/-!
# OTA — The image that boots

The image that `kernel=` names has to be there, and it has to be one that was running or that was
checked.  `Safe` says so of a state; the client keeps it as long as `config.txt` is never written
short and never opened again.

* `activeName_newText` — the new name is read from a text that was stored up to it;
* `holds_settle`, `holds_pass` — starting the client and a pass of its loop, operation by operation;
* `safe_run` — **main**: the image of every state of a run.
-/

namespace Ota

open Support

/-! ### A text that was cut -/

/-- How much of the rewritten lines is needed to read the new name. -/
def kernelEnd (n : Text) (ls : List Text) : ℕ :=
  (render (ls.takeWhile (kernel_ifs_from_line · = []))).length + (kernelKey ++ n).length

/-- What is stored under the temporary name reaches past the new name. -/
def NameStored (o : Switch) (n text : Text) : Prop :=
  kernelEnd n (if o.src then lines text else []) ≤ o.tmp.stored

instance (o : Switch) (n text : Text) : Decidable (NameStored o n text) :=
  inferInstanceAs (Decidable (_ ≤ _))

/-- The lines before the first name stay, then comes the new one. -/
theorem rewrite_eq (n : Text) (ls : List Text) :
    ∃ after, rewrite n ls =
      ls.takeWhile (kernel_ifs_from_line · = []) ++ (kernelKey ++ n) :: after := by
  induction ls with
  | nil => exact ⟨[], rfl⟩
  | cons l ls ih =>
      obtain ⟨after, ih⟩ := ih
      by_cases hl : kernel_ifs_from_line l = []
      · refine ⟨after, ?_⟩
        have hcons : rewrite n (l :: ls) = l :: rewrite n ls := by simp [rewrite, hl]
        rw [hcons, ih, List.takeWhile_cons_of_pos (by simpa using hl), List.cons_append]
      · refine ⟨ls.map (fun l => if kernel_ifs_from_line l ≠ [] then kernelKey ++ n else l), ?_⟩
        rw [List.takeWhile_cons_of_neg (by simpa using hl)]
        simp [rewrite, hl]

/-- **The new name is read** from a text that was stored up to it. -/
theorem activeName_newText {o : Switch} {n text : Text} (hn : Name n) (h : NameStored o n text) :
    activeName (newText o n text) = some n := by
  generalize hls : (if o.src then lines text else []) = ls at *
  have hnewline : ∀ l ∈ ls, '\n' ∉ l := by
    intro l hl
    rw [← hls] at hl
    split at hl
    case isTrue => exact newline_notMem_of_mem_lines hl
    case isFalse => exact absurd hl List.not_mem_nil
  obtain ⟨after, hrewrite⟩ := rewrite_eq n ls
  have hkey : kernelKey ++ n ≠ [] := by rw [kernelKey_eq]; exact List.cons_ne_nil _ _
  obtain ⟨more, hlines⟩ :=
    @lines_take _ _ (fun m hm => hnewline m ((List.takeWhile_prefix _).subset hm)) hkey
    (newline_notMem_key hn) after o.tmp.stored (by rw [NameStored, hls] at h; exact h)
  have hbefore : ∀ m ∈ (ls.takeWhile (kernel_ifs_from_line · = [])).map kernel_ifs_from_line,
      ¬ (decide (m ≠ []) = true) := by
    intro m hm
    obtain ⟨l, hl, rfl⟩ := List.mem_map.mp hm
    simpa using List.mem_takeWhile_imp hl
  rw [activeName, newText, hls, hrewrite, hlines, List.map_append, List.map_cons, List.find?_append,
    List.find?_eq_none.mpr hbefore, kernel_ifs_key hn,
    List.find?_cons_of_pos (by simpa using hn.ne_nil)]
  rfl

theorem name_slot {slot : Text} (h : slot ∈ slots) : Name slot :=
  ⟨slot_ne_nil h, trimmed_of_forall fun _ hc => isBlank_of_mem_slot h hc,
    by rcases slot_cases h with rfl | rfl <;> decide,
    fun hc => absurd (isBlank_of_mem_slot h hc) (by decide)⟩

theorem other_mem (a : Text) : other a ∈ slots := by
  unfold other
  split <;> simp [slots]

/-- The update goes into another slot than the one that is running. -/
theorem other_ne (a : Text) : other a ≠ a := by
  unfold other
  split
  case isTrue h =>
      rw [h]
      decide
  case isFalse h => exact fun h' => h h'.symm

/-! ### The image that `kernel=` names -/

/-- The image that `kernel=` names is there, and was not written since it was last named, or else it
was checked. -/
structure Boots [Volume] (n : Text) (w : World) : Prop where
  named : active w.disk = some n
  there : (w.disk (.image (file n))).isSome = true
  sound : w.image (file n) ≠ .loading

def Safe [Volume] (w : World) : Prop := ∃ n, Boots n w

/-- `config.txt` and its copy are those of `d₀`, and the image `a` can be started. -/
structure Rests [Volume] (d₀ : Disk) (a : Text) (w : World) : Prop where
  config : w.disk .config = d₀ .config
  copy : w.disk .config_bak = d₀ .config_bak
  there : (w.disk (.image (file a))).isSome = true
  sound : w.image (file a) ≠ .loading

theorem active_of {d : Disk} {text n : Text} (h : d .config = some text)
    (hn : activeName text = some n) :
    active d = some n := by
  rw [active, h]
  exact hn

section

variable [Volume] {d₀ : Disk} {a : Text} {w : World}

theorem Boots.rests (h : Boots a w) : Rests w.disk a w := ⟨rfl, rfl, h.there, h.sound⟩

theorem Rests.boots (h : Rests d₀ a w) (ha : active d₀ = some a) : Boots a w :=
  ⟨by rw [active, h.config]; exact ha, h.there, h.sound⟩

/-- What is read from `config.txt` is `a`, if anything is. -/
theorem Rests.read (h : Rests d₀ a w) (ha : active d₀ = some a) {opens : Bool} {m : Text}
    (hm : (if opens then active w.disk else none) = some m) : m = a := by
  cases opens with
  | false => exact absurd hm nofun
  | true => exact Option.some.inj (hm.symm.trans (h.boots ha).named)

theorem Rests.congr (h : Rests d₀ a w) {t : World} (hdisk : t.disk = w.disk)
    (himage : t.image = w.image) : Rests d₀ a t :=
  ⟨hdisk ▸ h.config, hdisk ▸ h.copy, hdisk ▸ h.there, himage ▸ h.sound⟩

theorem Rests.see (h : Rests d₀ a w) {d : Disk} (hconfig : d .config = w.disk .config)
    (hcopy : d .config_bak = w.disk .config_bak)
    (himage : d (.image (file a)) = w.disk (.image (file a))) :
    Rests d₀ a (w.see d) :=
  ⟨hconfig.trans h.config,
    hcopy.trans h.copy, by rw [← h.there]; exact congrArg Option.isSome himage, h.sound⟩

theorem Rests.same (h : Rests d₀ a w) : Rests d₀ a (w.see w.disk) := h.see rfl rfl rfl

theorem Rests.cleared (h : Rests d₀ a w) {o : Clearing} {d : Disk} (hd : Cleared o w.disk d) :
    Rests d₀ a (w.see d) :=
  h.see (hd.frame _ (by simp) (by simp)) (hd.frame _ (by simp) (by simp))
    (hd.frame _ (by simp) (by simp))

theorem holds_clear (o : Clearing) (h : Rests d₀ a w) :
    (onDisk (clear_pending o)).Holds (Rests d₀ a) (fun _ => Rests d₀ a) w :=
  holds_onDisk_clear fun _ hd => ⟨h.cleared hd, fun _ => h.cleared hd⟩

/-- Removing an image that is not the one. -/
theorem holds_remove (succeeds : Bool) {e : Text} (he : file e ≠ file a) (h : Rests d₀ a w) :
    (onDisk (remove_file succeeds (.image (file e)))).Holds (Rests d₀ a)
      (fun _ => Rests d₀ a) w := by
  have hgone : Rests d₀ a (w.see (Function.update w.disk (.image (file e)) none)) :=
    h.see (by simp) (by simp) (by simp [Ne.symm he])
  exact holds_onDisk (holds_remove_file (fun _ => ⟨hgone, hgone⟩) (fun _ => h.same))

theorem holds_drop_pending (o : Dropping) {e : Text} (he : file e ≠ file a) (h : Rests d₀ a w) :
    (drop_pending o e).Holds (Rests d₀ a) (fun _ => Rests d₀ a) w :=
  holds_drop_rule h.same (fun _ h => holds_remove o.remove he h) fun _ h => holds_clear o.clear h

theorem holds_commit (o : Settling) (version : Text) (h : Rests d₀ a w) :
    (commit o version).Holds (Rests d₀ a) (fun _ => Rests d₀ a) w := by
  refine Steps.Holds.ite (fun _ => .pure h) (fun _ => ?_)
  refine Steps.Holds.bind (R := fun _ => Rests d₀ a) (.step (h.congr rfl rfl) (h.congr rfl rfl)) ?_
  intro _ w h
  refine Steps.Holds.bind (R := fun _ => Rests d₀ a)
    (holds_onDisk ((holds_write_version o.version version w.disk).mono
      (fun d hd => h.see (hd.2 _ (by simp)) (hd.2 _ (by simp)) (hd.2 _ (by simp)))
      fun _ d hd => h.see (hd.1 _ (by simp)) (hd.1 _ (by simp)) (hd.1 _ (by simp)))) ?_
  intro written w h
  exact Steps.Holds.bind (R := fun _ => Rests d₀ a) (.step (h.congr rfl rfl) (h.congr rfl rfl))
    fun _ w h => .pure h

/-- **Settling** leaves the image alone, unless the marker has another name of it. -/
theorem holds_settle (o : Settling) (ha : active d₀ = some a)
    (hmarker : (pendingOf (w.disk .pending)).valid = true →
      (pendingOf (w.disk .pending)).expected_ifs ≠ a →
      file (pendingOf (w.disk .pending)).expected_ifs ≠ file a)
    (h : Rests d₀ a w) : (settle_pending_on_boot o).Holds (Rests d₀ a) (fun _ => Rests d₀ a) w := by
  refine Steps.Holds.bind
    (R := fun p w => (p.valid = true → p.expected_ifs ≠ a → file p.expected_ifs ≠ file a) ∧
    Rests d₀ a w) (holds_read_pending ⟨fun hvalid => ?_, h.same⟩) ?_
  · cases hopens : o.pending with
    | false =>
        rw [hopens] at hvalid
        exact absurd hvalid nofun
    | true =>
        rw [hopens, if_pos rfl] at hvalid
        exact hmarker hvalid
  rintro p w ⟨hmarker, h⟩
  refine Steps.Holds.ite (fun hvalid => ?_) (fun _ => .pure h)
  refine Steps.Holds.bind (R := fun n w => (∀ m, n = some m → m = a) ∧ Rests d₀ a w)
    (holds_get_active_ifs ⟨fun _ => h.read ha, h.same⟩) ?_
  rintro n w ⟨hn, h⟩
  cases n with
  | none => exact .pure h
  | some m =>
      obtain rfl := hn m rfl
      refine Steps.Holds.ite (fun _ => ?_) (fun hne => ?_)
      · refine Steps.Holds.bind (R := fun _ => Rests d₀ m) (holds_system_rebooted_since h.same) ?_
        intro rebooted w h
        refine Steps.Holds.ite (fun _ => ?_) (fun _ => .pure h)
        refine Steps.Holds.bind (holds_commit o p.version h) ?_
        intro committed w h
        refine Steps.Holds.ite (fun _ => ?_) (fun _ => .pure h)
        exact Steps.Holds.bind (holds_clear o.clear h) fun _ w h => .pure h
      · exact Steps.Holds.bind (holds_drop_pending o.drop (hmarker hvalid (Ne.symm hne)) h)
          fun _ w h => .pure h

end

/-! ### A pass of the loop -/

section

variable [Volume] {d₀ : Disk} {a n : Text} {w : World}

theorem Rests.verify (h : Rests d₀ a w) (hn : file n ≠ file a) {version : Text} :
    Rests d₀ a { w with image := Function.update w.image (file n) (.verified version) } :=
  ⟨h.config, h.copy, h.there, by simpa [Ne.symm hn] using h.sound⟩

theorem Rests.load (h : Rests d₀ a w) (hn : file n ≠ file a) (text : Text) :
    Rests d₀ a (w.load n text) :=
  ⟨h.config, h.copy, by
    simpa [World.load, Ne.symm hn] using h.there, by simpa [World.load, Ne.symm hn] using h.sound⟩

/-- `config.txt` names `a`, whatever its copy is. -/
theorem holds_abort (o : Attempt) (hn : file n ≠ file a) (h : Boots a w) :
    (abort_before_switch o n).Holds (Boots a) (fun _ => Boots a) w := by
  have hrests := holds_abort_rule (o := o) (holds_remove o.remove hn h.rests)
    fun _ _ h hd => h.cleared hd
  exact hrests.mono (fun _ h' => h'.boots h.named) fun _ _ h' => h'.boots h.named

/-- The two ways a change of `kernel=` can go, if `config.txt` is not opened again. -/
theorem Rests.switched (ha : Rests d₀ a w) (hn : Rests d₀ n w) {o : Switch} {text : Text} {d : Disk}
    (hactive : activeName text = some a) (hname : Name n)
    (hstored : Renames o → NameStored o n text) (hreopen : ¬ Reopens o d₀)
    (hd : Switched o n text w.disk d) :
    Boots a (w.see d) ∨ Renames o ∧ Boots n (w.see d) := by
  have himage : ∀ m, d (.image m) = w.disk (.image m) :=
    fun m => hd.frame _ (by simp) (by simp) (by simp)
  rcases hd.config with hsame | ⟨hren, hnew⟩ | hopen
  · exact .inl ⟨active_of hsame hactive, (congrArg Option.isSome (himage _)).trans ha.there,
      ha.sound⟩
  · exact .inr ⟨hren, active_of hnew (activeName_newText hname (hstored hren)),
      (congrArg Option.isSome (himage _)).trans hn.there, hn.sound⟩
  · exact absurd ⟨hopen.opens, hopen.failed, hn.copy ▸ hopen.copy, hopen.seen, hopen.dst⟩ hreopen

/-- From the marker to the request. -/
theorem holds_switch_to {o : Attempt} {version text : Text} (ha : Rests d₀ a w) (hn : Rests d₀ n w)
    (hne : file n ≠ file a) (htext : d₀ .config = some text) (hactive : activeName text = some a)
    (hname : Name n)
    (hstored : Renames o.switch → NameStored o.switch n text) (hreopen : ¬ Reopens o.switch d₀) :
    (switch_to o n version).Holds Safe (fun _ => Safe) w := by
  have hnamed := active_of htext hactive
  refine Steps.Holds.bind (R := fun _ w => Rests d₀ a w ∧ Rests d₀ n w)
    (.step ⟨a, Rests.boots (ha.congr rfl rfl) hnamed⟩ ⟨ha.congr rfl rfl, hn.congr rfl rfl⟩) ?_
  rintro _ w ⟨ha, hn⟩
  have hmark : ∀ m d, Rests d₀ m w → Marked o.marking n version w.disk d → Rests d₀ m (w.see d) :=
    fun m d hm hd =>
      hm.see (hd.frame _ (by simp) (by simp)) (hd.frame _ (by simp) (by simp))
        (hd.frame _ (by simp) (by simp))
  refine Steps.Holds.bind (R := fun _ w => Rests d₀ a w ∧ Rests d₀ n w)
    (holds_onDisk ((holds_write_pending o.marking n version w.disk).mono
      (fun d hd => ⟨a, (hmark a d ha hd).boots hnamed⟩) fun _ d hd =>
        ⟨hmark a d ha hd.1, hmark n d hn hd.1⟩)) ?_
  rintro marked w ⟨ha, hn⟩
  refine Steps.Holds.ite (fun _ => ?_) (fun _ => ?_)
  · have hdisk : w.disk .config = some text := ha.config.trans htext
    refine Steps.Holds.bind (R := fun done w => Boots a w ∨ done = true ∧ Boots n w)
      (holds_onDisk ((holds_set_active_ifs o.switch n hdisk).mono (fun d hd => ?_) fun done d hd =>
        ?_)) ?_
    · rcases ha.switched hn hactive hname hstored hreopen hd with h | ⟨-, h⟩
      · exact ⟨a, h⟩
      · exact ⟨n, h⟩
    · rcases ha.switched hn hactive hname hstored hreopen hd.1 with h | ⟨hren, h⟩
      · exact .inl h
      · exact .inr ⟨by_contra fun hnot => hd.2.2 (Bool.eq_false_iff.mpr hnot) hren, h⟩
    · intro done w hw
      refine Steps.Holds.ite (fun _ => ?_) (fun hnot => ?_)
      · have hcall : ∀ m, Boots m w → Boots m { w with call := some .request_reboot } :=
          fun _ h => ⟨h.1, h.2, h.3⟩
        have hsafe : Safe { w with call := some .request_reboot } := by
          rcases hw with h | ⟨-, h⟩
          · exact ⟨a, hcall a h⟩
          · exact ⟨n, hcall n h⟩
        exact Steps.Holds.bind (R := fun _ => Safe) (.step hsafe hsafe) fun _ w h => .pure h
      · have h : Boots a w := hw.resolve_right fun h => hnot h.1
        exact (holds_abort o hne h).mono (fun _ h => ⟨a, h⟩) fun _ _ h => ⟨a, h⟩
  · exact (holds_abort o hne (ha.boots hnamed)).mono (fun _ h => ⟨a, h⟩) fun _ _ h => ⟨a, h⟩

end

/-- An update goes to another file than the one that runs, it stores the new text at least up to the
new name before the rename, and it never comes to open `config.txt` again. -/
structure Careful [Volume] (o : Attempt) (d : Disk) (a text : Text) : Prop where
  apart : file (other a) ≠ file a
  stored : Renames o.switch → NameStored o.switch (other a) text
  closed : ¬ Reopens o.switch d

section

variable [Volume] {a text : Text} {w : World}

/-- **A pass** of the loop. -/
theorem holds_pass {o : Pass} (htext : w.disk .config = some text)
    (hactive : activeName text = some a)
    (hstays : ¬ Blocks o.block w.disk → KeepsPaths o.reload w.g_config w.disk)
    (hmarker : (pendingOf (w.disk .pending)).valid = true →
      (pendingOf (w.disk .pending)).expected_ifs ≠ a →
      file (pendingOf (w.disk .pending)).expected_ifs ≠ file a)
    (hcareful : Attempts o w → Careful o.attempt w.disk a text) (h : Rests w.disk a w) :
    (pass o).Holds Safe (fun _ => Safe) w := by
  have hnamed := active_of htext hactive
  have hsafe : ∀ t, Rests w.disk a t → Safe t := fun t h => ⟨a, h.boots hnamed⟩
  have hsame : ∀ {b t}, Rests w.disk a t → active t.disk = some b → b = a := fun h hb =>
    Option.some.inj (hb.symm.trans (h.boots hnamed).named)
  have hremove : ∀ n t, file n ≠ file a → Rests w.disk a t →
      Rests w.disk a (t.see (Function.update t.disk (.image (file n)) none)) :=
    fun n t hn h => h.see (by simp) (by simp) (by simp [Ne.symm hn])
  refine holds_pass_rule h hsafe hstays (fun _ h => h.same) (fun t d g h hd => ?_)
    (fun b t hvalid hb hn h => hremove _ t (hmarker hvalid (hsame h hb ▸ hn)) h)
    (fun t d h _ hd => h.cleared hd) (fun t h _ _ => hsafe _ (h.congr rfl rfl)) ?_
  · have hseen : Rests w.disk a (t.see d) :=
      h.see (hd _ (by simp)) (hd _ (by simp)) (hd _ (by simp))
    exact hseen.congr rfl rfl
  intro t h hattempts
  obtain ⟨hne, hstored, hreopen⟩ := hcareful hattempts
  refine holds_try_apply_update_rule h hsafe (fun _ h => h.same)
    (fun b t text hb h => ?_) (fun b t hb h => ?_) (fun _ t d _ h hd => h.cleared hd)
      (fun b t hb hthere h => ?_)
    fun b t hb h => ?_
  · obtain rfl := hsame h hb
    exact h.load hne text
  · obtain rfl := hsame h hb
    exact hremove _ t hne h
  · -- both images can be started
    obtain rfl := hsame h hb
    exact holds_switch_to (h.verify hne) ⟨h.config, h.copy, hthere, by simp⟩ hne htext hactive
      (name_slot (other_mem b)) hstored hreopen
  · obtain rfl := hsame h hb
    exact hsafe _ (h.verify hne)

end

/-! ### Runs -/

/-- A marker does not have another spelling of the name in `kernel=`. -/
def MarkerApart [Volume] (d : Disk) : Prop :=
  ∀ a, active d = some a → (pendingOf (d .pending)).valid = true →
    (pendingOf (d .pending)).expected_ifs ≠ a →
    file (pendingOf (d .pending)).expected_ifs ≠ file a

/-- **When the image is kept.**  The settings leave the paths as they are, a marker that is found
does not have another spelling of the name in `kernel=`, and an update is `Careful`. -/
def Whole [Volume] (s : System) : Event → Prop
  | .start o =>
      Stays s (.start o) ∧ ((o.settings s.world.disk).enabled = true → MarkerApart s.world.disk)
  | .pass o => Stays s (.pass o) ∧ MarkerApart s.world.disk ∧ (Attempts o s.world → ∀ text a,
      s.world.disk .config = some text → activeName text = some a →
      Careful o.attempt s.world.disk a text)
  | _ => True

/-- **The image that boots.**  In every state of a run whose events meet `Whole`, `kernel=` names an
image that is there, and that was not written since it was last named or else is a download that
passed both checks. -/
theorem safe_run [Volume] {n : Text} {s₀ s : System} (hnamed : active s₀.world.disk = some n)
    (hthere : (s₀.world.disk (.image (file n))).isSome = true)
    (hkept : s₀.world.image (file n) = .kept)
    (h : Run Whole s₀ s) : Safe s.world := by
  have hinit : Safe s₀.world := ⟨n, hnamed, hthere, by rw [hkept]; nofun⟩
  refine @Reach.rule _ Whole (fun _ => True) (fun s => Safe s.world) s₀ s hinit ?_ h
  rintro s e ⟨a, ha⟩ - hmeets
  cases e with
  | start o =>
      obtain ⟨hstays, hmarker⟩ := hmeets
      have hfirst : Boots a { s.world with g_config := o.settings s.world.disk, call := none } :=
        ⟨ha.1, ha.2, ha.3⟩
      refine holds_main_rule hstays (fun _ => ⟨a, hfirst⟩) (fun _ => ⟨a, hfirst⟩) fun henabled => ?_
      have hsettle := holds_settle
        (w := { s.world with g_config := o.settings s.world.disk, call := none }) o.settle
        ha.named (hmarker henabled a ha.named) hfirst.rests
      exact hsettle.mono (fun w h _ => ⟨a, h.boots ha.named⟩) fun _ w h => ⟨a, h.boots ha.named⟩
  | pass o =>
      obtain ⟨hstays, hmarker, hcareful⟩ := hmeets
      obtain ⟨text, htext, hactive⟩ := Option.bind_eq_some_iff.mp ha.named
      refine Steps.Holds.bind ((holds_pass htext hactive hstays (hmarker a ha.named)
        (fun hattempts => hcareful hattempts text a htext hactive) ha.rests).mono (fun _ h _ => h)
          fun _ _ h => h)
        fun _ w h => .pure h
  | kill => exact .pure ⟨a, ha⟩
  | reboot settings =>
      have hsafe : Safe (s.world.reboot settings) := ⟨a, ha.named, ha.there, ha.sound⟩
      exact Steps.Holds.bind (.step (fun _ => hsafe) hsafe) fun _ _ h => .pure h

/-- An update to the other slot. -/
theorem safe_run_update :
    active (updated ['2'] marking (switchTo 1000)).disk = some IFS_B ∧
    Safe (updated ['2'] marking (switchTo 1000)) := by
  have hmeets : Whole ⟨board, true⟩ (.pass (offered ['2'] marking (switchTo 1000))) := by
    refine ⟨stays_offered _ _ _ _, fun a _ hvalid =>
      absurd hvalid (by decide), fun _ text a htext hactive => ?_⟩
    obtain rfl := Option.some.inj htext
    obtain rfl : IFS_A = a := Option.some.inj (active_board.symm.trans hactive)
    exact ⟨by decide, fun _ => by decide +kernel, fun h => h.failed ⟨rfl, rfl⟩⟩
  have hrun := (Reach.init : Run Whole ⟨board, true⟩ _).pass rfl hmeets
    (result_offered marking _ (by decide +kernel) (by decide +kernel))
  exact ⟨by decide +kernel, safe_run active_board (by decide +kernel) (by decide +kernel) hrun⟩

/-- Without a name in `config.txt`. -/
theorem not_safe [Volume] {w : World} (h : active w.disk = none) : ¬ Safe w := by
  rintro ⟨n, hboots⟩
  exact absurd (h.symm.trans hboots.named) nofun

/-- A volume that is full: the new `config.txt` is stored without its `kernel=` line and replaces
the old one.  And a copy that cannot be opened any more when `config.txt` was opened to be written
from it. -/
theorem kernel_line_lost :
    active board.disk = some IFS_A ∧ (board.disk (.image (file IFS_A))).isSome = true ∧
      board.image (file IFS_A) = .kept ∧
      (∃ s, Run (fun _ _ => True) ⟨board, true⟩ s ∧ s.world.disk .config = some "ker".toList ∧
      ¬ Safe s.world) ∧
      ∃ s, Run (fun _ _ => True) ⟨board, true⟩ s ∧ s.world.disk .config = some [] ∧
      ¬ Safe s.world := by
  have hrun : ∀ switch, Run (fun _ _ => True) ⟨board, true⟩ ⟨updated ['2'] marking switch, true⟩ :=
    fun switch =>
      Reach.init.pass rfl trivial
        (result_offered marking switch (by decide +kernel) (by decide +kernel))
  refine ⟨active_board, by decide +kernel, by decide +kernel,
    ⟨_, hrun (switchTo 3), by decide +kernel, not_safe (by decide +kernel)⟩,
    ⟨_, hrun ⟨true, ⟨true, 1000⟩, true, ⟨true, 1000⟩, false, true, true,
      ⟨true, false, ⟨true, 1000⟩⟩⟩, by decide +kernel, not_safe (by decide +kernel)⟩⟩

end Ota
