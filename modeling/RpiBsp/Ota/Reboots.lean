import RpiBsp.Ota.Committed
import RpiBsp.Ota.Slots

/-!
# OTA — Requests for a reboot

The client asks for a reboot after it has switched, and again as long as the marker is there.  It
should not ask any more once the system has come up with the new image: that is what would make a
board reboot for ever.

* `Awaits` — the marker is of the slot that `kernel=` names;
* `holds_switch_to_fresh` — in a boot in which the client runs, such a marker was written in the
same boot;
* `requests_run` — **main**: when a reboot is asked for in a run.
-/

namespace Ota

open Support

/-- The marker is of the slot that `kernel=` names. -/
def Awaits (d : Disk) : Prop :=
  (pendingOf (d .pending)).valid = true ∧ active d = some (pendingOf (d .pending)).expected_ifs

theorem not_awaits_of_none {d : Disk} (h : d .pending = none) : ¬ Awaits d := by
  rw [Awaits, h]
  rintro ⟨hvalid, -⟩
  exact absurd hvalid nofun

/-- While the client runs: such a marker is of this boot. -/
structure Fresh (w : World) : Prop where
  le : w.switched ≤ w.boot
  now : Awaits w.disk → w.switched = w.boot
  request : w.call = some .request_reboot → Awaits w.disk

/-- Always: after a reboot its witness is gone. -/
structure Marker (w : World) : Prop where
  le : w.switched ≤ w.boot
  gone : Awaits w.disk → w.switched < w.boot → (pendingOf (w.disk .pending)).witness_ok = true →
    w.disk .witness = none
  request : w.call = some .request_reboot → Awaits w.disk ∧ w.switched = w.boot

section

variable {w : World}

theorem Fresh.marker (h : Fresh w) : Marker w where
  le := h.le
  gone ha hlt _ := absurd (h.now ha) (Nat.ne_of_lt hlt)
  request hcall := ⟨h.request hcall, h.now (h.request hcall)⟩

theorem Fresh.see (h : Fresh w) {d : Disk}
    (hd : Awaits d → active d = active w.disk → Awaits w.disk) : Fresh (w.see d) := by
  have hle : (w.see d).switched ≤ w.boot := by
    rw [World.see]
    dsimp only
    split
    case isTrue => exact h.le
    case isFalse => exact Nat.le_refl _
  refine ⟨hle, fun ha => ?_, by rintro ⟨⟩⟩
  -- the name has changed now, or the marker was of the same slot before
  by_cases hactive : active d = active w.disk
  · rw [World.see]
    dsimp only
    rw [if_pos hactive]
    exact h.now (hd ha hactive)
  · rw [World.see]
    dsimp only
    rw [if_neg hactive]

theorem Fresh.see_pending (h : Fresh w) {d : Disk}
    (hpending : d .pending = none ∨ d .pending = w.disk .pending) :
    Fresh (w.see d) := by
  refine h.see fun ha hactive => ?_
  rcases hpending with hnone | hsame
  · exact absurd ha (not_awaits_of_none hnone)
  · rw [Awaits, hsame, hactive] at ha
    exact ha

theorem Fresh.congr (h : Fresh w) {t : World} (hboot : t.boot = w.boot)
    (hswitched : t.switched = w.switched)
    (hpending : t.disk .pending = w.disk .pending) (hconfig : t.disk .config = w.disk .config)
    (hcall : t.call = some .request_reboot → Awaits w.disk) : Fresh t := by
  have hiff : Awaits t.disk ↔ Awaits w.disk := by
    rw [Awaits, Awaits, active, active, hpending, hconfig]
  refine ⟨hboot ▸ hswitched ▸ h.le, fun ha => ?_, fun hc => hiff.mpr (hcall hc)⟩
  rw [hboot, hswitched]
  exact h.now (hiff.mp ha)

/-- The first line of a marker that was stored up to its end. -/
theorem expected_marker {slot version : Text} (hslot : slot ∈ slots) {uptime wall : ℤ}
    {witness : Bool} {k : ℕ} (hk : slot.length ≤ k) :
    (parse_pending ((marker slot version uptime wall witness).take k)).expected_ifs = slot ∧
      (parse_pending ((marker slot version uptime wall witness).take k)).valid = true := by
  have hname := name_slot hslot
  obtain ⟨more, hlines⟩ := @lines_take [] slot (by simp) hname.ne_nil hname.newline
    [version, decimal uptime, decimal wall, if witness then ['1'] else ['0']] k (by simpa using hk)
  have hline :
      trim ((lines ((marker slot version uptime wall witness).take k))[0]?.getD []) = slot := by
    rw [marker]
    exact (congrArg (fun ls : List Text => trim (ls[0]?.getD [])) hlines).trans
      (trim_of_trimmed hname.trimmed)
  exact ⟨hline, decide_eq_true (fun h => hname.ne_nil (hline.symm.trans h))⟩

/-- Giving up an update. -/
theorem holds_abort_fresh [Volume] {o : Attempt} {n : Text} (h : Fresh w) :
    (abort_before_switch o n).Holds Fresh (fun _ => Fresh) w := by
  have hgone : Fresh (w.see (Function.update w.disk (.image (file n)) none)) :=
    h.see_pending (.inr (by simp))
  refine holds_abort_rule (R := Fresh) (holds_onDisk ?_) fun t d h hd => h.see_pending hd.pending
  exact holds_remove_file (fun _ => ⟨hgone, hgone⟩) fun _ => h.see_pending (.inr rfl)

/-- The marker, as far as it is written, is of a slot that is not named yet. -/
theorem Fresh.marked [Volume] {o : Attempt} {a version : Text} (h : Fresh w)
    (hnamed : active w.disk = some a) (hlen : (other a).length ≤ o.marking.pending.stored)
    {d : Disk} (hd : Marked o.marking (other a) version w.disk d) : Fresh (w.see d) := by
  refine h.see fun ha hsame => ?_
  rcases hd.pending with hold | hempty | hnew
  · rw [Awaits, hold, hsame] at ha
    exact ha
  · rw [Awaits, hempty] at ha
    exact absurd ha.1 (by decide)
  · rw [Awaits, hnew, hsame, hnamed] at ha
    have hexpected := Option.some.inj ha.2
    rw [show pendingOf (some _) = parse_pending _ from rfl,
      (expected_marker (other_mem a) hlen).1] at hexpected
    exact absurd hexpected.symm (other_ne a)

/-- **From the marker on.**  The marker is of another slot than `kernel=` until the name is changed,
and the request is made when it is. -/
theorem holds_switch_to_fresh [Volume] {o : Attempt} {a text version : Text}
    (htext : w.disk .config = some text)
    (hactive : activeName text = some a) (hlen : (other a).length ≤ o.marking.pending.stored)
    (hstored : Renames o.switch → NameStored o.switch (other a) text) (h : Fresh w) :
    (switch_to o (other a) version).Holds Fresh (fun _ => Fresh) w := by
  have hclocks : ∀ c, Fresh { w with clocks := c } := fun c => h.congr rfl rfl rfl rfl h.request
  refine Steps.Holds.bind (R := fun _ w => Fresh w ∧ w.disk .config = some text)
    (.step (hclocks _) ⟨hclocks _, htext⟩) ?_
  rintro _ w ⟨h, htext⟩
  have hmark : ∀ d, Marked o.marking (other a) version w.disk d → Fresh (w.see d) := fun d hd =>
    h.marked (active_of htext hactive) hlen hd
  refine Steps.Holds.bind (R := fun marked w => Fresh w ∧ w.disk .config = some text ∧
      (marked = true →
      w.disk .pending = some ((marker (other a) version o.marking.uptime.1 o.marking.wall.1
          o.marking.witness.opens).take
        o.marking.pending.stored)))
    (holds_onDisk ((holds_write_pending o.marking (other a) version w.disk).mono hmark fun _ d hd =>
      ?_)) ?_
  · exact ⟨hmark d hd.1, (hd.1.frame _ (by simp) (by simp)).trans htext, fun hm => (hd.2 hm).1⟩
  rintro marked w ⟨h, htext, hmarked⟩
  refine Steps.Holds.ite (fun hm => ?_) (fun _ => holds_abort_fresh h)
  have hsame : ∀ d, Switched o.switch (other a) text w.disk d → Fresh (w.see d) := fun d hd =>
    h.see_pending (.inr (hd.frame _ (by simp) (by simp) (by simp)))
  refine Steps.Holds.bind (R := fun done w => Fresh w ∧ (done = true → Awaits w.disk))
    (holds_onDisk ((holds_set_active_ifs o.switch (other a) htext).mono hsame fun done d hd =>
      ⟨hsame d hd.1, fun hdone => ?_⟩)) ?_
  · have hpending := (hd.1.frame .pending (by simp) (by simp) (by simp)).trans (hmarked hm)
    obtain ⟨hren, hconfig⟩ := hd.2.1 hdone
    obtain ⟨hexpected, hvalid⟩ :=
      @expected_marker _ version (other_mem a) o.marking.uptime.1 o.marking.wall.1
      o.marking.witness.opens _ hlen
    have hname := active_of hconfig (activeName_newText (name_slot (other_mem a)) (hstored hren))
    show Awaits d
    rw [Awaits, hpending, hname]
    exact ⟨hvalid, congrArg some hexpected.symm⟩
  · rintro done w ⟨h, hawaits⟩
    refine Steps.Holds.ite (fun hdone => ?_) (fun _ => holds_abort_fresh h)
    have hrequest : Fresh { w with call := some .request_reboot } :=
      h.congr rfl rfl rfl rfl fun _ => hawaits hdone
    exact Steps.Holds.bind (R := fun _ => Fresh) (.step hrequest hrequest) fun _ w h => .pure h

/-- An update that stores the first line of its marker, and the new text up to the new name before
the rename. -/
structure Marks (o : Attempt) (a text : Text) : Prop where
  marker : (other a).length ≤ o.marking.pending.stored
  stored : Renames o.switch → NameStored o.switch (other a) text

/-- **A pass** of the loop. -/
theorem holds_pass_fresh [Volume] {o : Pass}
    (hstays : ¬ Blocks o.block w.disk → KeepsPaths o.reload w.g_config w.disk)
    (hmeets : Attempts o w → ∀ text a, w.disk .config = some text → activeName text = some a →
    Marks o.attempt a text)
    (h : Fresh w) : (pass o).Holds Fresh (fun _ => Fresh) w := by
  have hremove : ∀ n t, Fresh t → Fresh (t.see (Function.update t.disk (.image n) none)) :=
    fun n t h => h.see_pending (.inr (by simp))
  have hcleared : ∀ (c : Clearing) t d, Fresh t → Cleared c t.disk d → Fresh (t.see d) :=
    fun c t d h hd => h.see_pending hd.pending
  have hsettings : ∀ t d g, Fresh t → SettingsOnly t.disk d →
    Fresh { t.see d with g_config := g } := fun t d g h hd =>
    (h.see_pending (.inr (hd .pending (by simp)))).congr rfl rfl rfl rfl nofun
  -- up to the switch `config.txt` is the one the pass started with
  refine holds_pass_rule (I := fun t => Fresh t ∧ t.disk .config = w.disk .config) ⟨h, rfl⟩
    (fun _ h => h.1) hstays (fun _ h => ⟨h.1.see_pending (.inr rfl), h.2⟩)
    (fun t d g h hd => ⟨hsettings t d g h.1 hd, (hd .config (by simp)).trans h.2⟩)
    (fun _ t _ _ _ h => ⟨hremove _ t h.1, by simpa [World.see] using h.2⟩)
    (fun t d h _ hd => ⟨hcleared _ t d h.1 hd, (hd.frame _ (by simp) (by simp)).trans h.2⟩)
    (fun t h hvalid hnamed => h.1.congr rfl rfl rfl rfl fun _ => ⟨hvalid, hnamed⟩) ?_
  intro t h hattempts
  refine holds_try_apply_update_rule (I := fun t => Fresh t ∧ t.disk .config = w.disk .config) h
    (fun _ h => h.1)
    (fun _ h => ⟨h.1.see_pending (.inr rfl), h.2⟩) ?_
      (fun _ t _ h => ⟨hremove _ t h.1, by simpa [World.see] using h.2⟩)
    (fun _ t d _ h hd => ⟨hcleared _ t d h.1 hd, (hd.frame _ (by simp) (by simp)).trans h.2⟩) ?_
    (fun _ t _ h => h.1.congr rfl rfl rfl rfl h.1.request)
  · rintro _ t text _ ⟨h, hconfig⟩
    exact ⟨h.congr rfl rfl (by simp [World.load]) (by simp [World.load])
      (by rintro ⟨⟩), by simpa [World.load] using hconfig⟩
  · rintro a t ha - ⟨h, hconfig⟩
    obtain ⟨text, htext, hactive⟩ := Option.bind_eq_some_iff.mp ha
    obtain ⟨hlen, hstored⟩ := hmeets hattempts text a (hconfig.symm.trans htext) hactive
    exact holds_switch_to_fresh htext hactive hlen hstored (h.congr rfl rfl rfl rfl h.request)

/-! ### The start -/

theorem Marker.still (h : Marker w) {t : World} (ht : Still w t) : Marker t := by
  have hiff : Awaits t.disk ↔ Awaits w.disk := by
    rw [Awaits, Awaits, active, active, ht.pending, ht.config]
  refine ⟨ht.boot ▸ ht.switched ▸ h.le, fun ha hlt hok => ?_, fun hcall =>
    absurd (ht.call.symm.trans hcall) (by rintro ⟨⟩)⟩
  rw [ht.boot, ht.switched] at hlt
  rw [ht.pending] at hok
  rw [ht.witness]
  exact h.gone (hiff.mp ha) hlt hok

/-- A marker that is removed, or whose witness is. -/
theorem Marker.cleared (h : Marker w) {c : Clearing} {d : Disk} (hd : Cleared c w.disk d) :
    Marker (w.see d) := by
  have hconfig : d .config = w.disk .config := hd.frame _ (by simp) (by simp)
  refine ⟨(see_switched hconfig).symm ▸ h.le, fun ha hlt hok => ?_, nofun⟩
  rcases hd.pending with hnone | hsame
  · exact absurd ha (not_awaits_of_none hnone)
  · have ha' : Awaits w.disk := by
      rw [Awaits, active, ← hsame, ← hconfig]
      exact ha
    rw [see_switched hconfig] at hlt
    have hok' : (pendingOf (w.disk .pending)).witness_ok = true := by
      rw [← hsame]
      exact hok
    rcases hd.witness with hgone | hthere
    · exact hgone
    · exact hthere.trans (h.gone ha' hlt hok')

end

/-- A start that finds a marker of the slot the system has come up in settles it: it can read the
marker and `config.txt`, sees by the clocks that there was a reboot if there was no witness, can
open the version file, and can remove the marker. -/
structure Completes (o : Settling) (d : Disk) : Prop where
  pending : o.pending = true
  config : o.config = true
  clocks : (pendingOf (d .pending)).witness_ok = false →
    rebooted o.evidence (pendingOf (d .pending)) none = true
  version : (pendingOf (d .pending)).version ≠ [] → o.version.opens = true
  clear : o.clear.pending = true

/-- **When no reboot is asked for again.**  The settings leave the paths as they are, a start
settles the marker of the slot the system has come up in, and an update `Marks` its slot. -/
def Settles (s : System) : Event → Prop
  | .start o =>
      Stays s (.start o) ∧ ((o.settings s.world.disk).enabled = true → Awaits s.world.disk →
      s.world.switched < s.world.boot → Completes o.settle s.world.disk)
  | .pass o =>
      Stays s (.pass o) ∧ (Attempts o s.world → ∀ text a, s.world.disk .config = some text →
      activeName text = some a → Marks o.attempt a text)
  | _ => True

theorem rebooted_congr {o : Evidence} {p : PendingInfo} (h : p.witness_ok = false)
    (x y : Option Text) :
    rebooted o p x = rebooted o p y := by
  rw [rebooted, rebooted, h]
  rfl

theorem rebooted_gone {o : Evidence} {p : PendingInfo} (h : p.witness_ok = true) :
    rebooted o p none = true := by
  rw [rebooted, if_pos h]
  simp

/-- **Settling** leaves no marker of a slot that the system has come up in. -/
theorem holds_settle_fresh [Volume] {o : Settling} {w : World}
    (hmeets : Awaits w.disk → w.switched < w.boot → Completes o w.disk) (h : Marker w) :
    (settle_pending_on_boot o).Holds Marker (fun _ => Fresh) w := by
  have hfresh : ∀ t, Still w t → (Awaits w.disk → ¬ w.switched < w.boot) → Fresh t := by
    intro t ht hnot
    have hiff : Awaits t.disk ↔ Awaits w.disk := by
      rw [Awaits, Awaits, active, active, ht.pending, ht.config]
    have hstill := h.still ht
    refine ⟨hstill.le, fun ha => ?_, fun hcall => absurd (ht.call.symm.trans hcall) (by rintro ⟨⟩)⟩
    rw [ht.boot, ht.switched]
    exact Nat.le_antisymm h.le (Nat.not_lt.mp (hnot (hiff.mp ha)))
  -- after the marker was removed, or not
  have hcleared : ∀ t c d, Still w t → Cleared c t.disk d →
      (d .pending ≠ none → Awaits w.disk → ¬ w.switched < w.boot) →
      Fresh (t.see d) := by
    intro t c d ht hd hnot
    have hconfig : d .config = t.disk .config := hd.frame _ (by simp) (by simp)
    have hmarker := (h.still ht).cleared hd
    refine ⟨hmarker.le, fun ha => ?_, by rintro ⟨⟩⟩
    rcases hd.pending with hnone | hsame
    · exact absurd ha (not_awaits_of_none hnone)
    · have hsome : d .pending ≠ none := fun hnone => not_awaits_of_none hnone ha
      have haw : Awaits w.disk := by
        rw [Awaits, active, ← ht.pending, ← ht.config, ← hsame, ← hconfig]
        exact ha
      have hnow : w.switched = w.boot := Nat.le_antisymm h.le (Nat.not_lt.mp (hnot hsome haw))
      rw [see_switched hconfig, ht.switched, hnow]
      exact ht.boot.symm
  refine holds_settle_rule (fun t ht => h.still ht) (fun t ht hnot => hfresh t ht fun ha hlt =>
    hnot ?_) (fun t ht _ hno => hfresh t ht fun ha hlt => ?_) (fun t ht _ _ _ => ?_)
    (fun t ht _ hne hclosed => hfresh t ht fun ha hlt => ?_) (fun t d ht hfound hyes hd =>
      ⟨(h.still ht).cleared hd, fun hgone => ?_⟩)
    (fun t d ht hother hd => ⟨(h.still ht).cleared hd, ?_⟩)
  · have hsettles := hmeets ha hlt
    exact ⟨hsettles.pending, hsettles.config, ha.1, ha.2⟩
  · -- after a reboot there is evidence for it
    have hclocks := (hmeets ha hlt).clocks
    cases hok : (pendingOf (w.disk .pending)).witness_ok with
    | false =>
        rw [rebooted_congr hok _ none, hclocks hok] at hno
        exact absurd hno (by decide)
    | true =>
        rw [h.gone ha hlt hok, rebooted_gone hok] at hno
        exact absurd hno (by decide)
  · have hstill := h.still ht
    exact ⟨hstill.le, hstill.gone, by rintro ⟨⟩⟩
  · exact absurd (hclosed.symm.trans ((hmeets ha hlt).version hne)) Bool.false_ne_true
  · refine hcleared t _ d ht hd fun hthere ha hlt => ?_
    exact hthere (hgone (hmeets ha hlt).clear)
  · exact hcleared t _ d ht hd fun _ ha => absurd ha.2 hother

/-- **Requests for a reboot.**  In every run whose starts settle what they find, a reboot is asked
for only while `kernel=` names the slot of the marker and the system was not rebooted since it
does. -/
theorem requests_run [Volume] {s₀ s : System} (hle : s₀.world.switched ≤ s₀.world.boot)
    (hpending : s₀.world.disk .pending = none) (hcall : s₀.world.call = none) (h : Run Settles s₀ s)
    (hrequest : s.world.call = some .request_reboot) :
    (pendingOf (s.world.disk .pending)).valid = true ∧
      active s.world.disk = some (pendingOf (s.world.disk .pending)).expected_ifs ∧
      s.world.switched = s.world.boot := by
  have hinv : Marker s.world ∧ (s.running = true → Fresh s.world) := by
    refine @Reach.rule _ Settles (fun _ => True)
      (fun s => Marker s.world ∧ (s.running = true → Fresh s.world)) s₀ s
      ?_ ?_ h
    · have hfresh : Fresh s₀.world := ⟨hle, fun ha => absurd ha (not_awaits_of_none hpending),
        fun hc => absurd (hcall.symm.trans hc) (by rintro ⟨⟩)⟩
      exact ⟨hfresh.marker, fun _ => hfresh⟩
    · rintro s e ⟨hmarker, hfresh⟩ hcan hmeets
      cases e with
      | start o =>
          obtain ⟨hstays, hsettles⟩ := hmeets
          have hfirst : Marker { s.world with g_config := o.settings s.world.disk, call := none } :=
            ⟨hmarker.le, hmarker.gone, nofun⟩
          refine holds_main_rule hstays (fun _ => ⟨hfirst, nofun⟩) (fun _ => ⟨hfirst, nofun⟩)
            fun henabled => ?_
          have hsettle := holds_settle_fresh
            (w := { s.world with g_config := o.settings s.world.disk, call := none })
            (hsettles henabled) hfirst
          exact hsettle.mono (fun t h _ => ⟨h, by rintro ⟨⟩⟩) fun _ t h => ⟨h.marker, fun _ => h⟩
      | pass o =>
          obtain ⟨hstays, hmarks⟩ := hmeets
          exact Steps.Holds.bind ((holds_pass_fresh hstays hmarks (hfresh hcan)).mono
            (fun t h _ => ⟨h.marker, by rintro ⟨⟩⟩) fun _ _ h => h) fun _ t h =>
              .pure ⟨h.marker, fun _ => h⟩
      | kill => exact .pure ⟨hmarker, by rintro ⟨⟩⟩
      | reboot settings =>
          have hreboot : Marker (s.world.reboot settings) :=
            ⟨Nat.le_succ_of_le hmarker.le, fun _ _ _ => rfl, by rintro ⟨⟩⟩
          exact Steps.Holds.bind (R := fun _ t => Marker t)
            (.step (fun _ => ⟨hreboot, by rintro ⟨⟩⟩) hreboot) fun _ _ h => .pure ⟨h, by rintro ⟨⟩⟩
  obtain ⟨hawaits, hnow⟩ := hinv.1.request hrequest
  exact ⟨hawaits.1, hawaits.2, hnow⟩

/-- After an update. -/
theorem requests_run_update :
    (updated ['2'] marking (switchTo 1000)).call = some .request_reboot ∧
      active (updated ['2'] marking (switchTo 1000)).disk = some IFS_B ∧
      (updated ['2'] marking (switchTo 1000)).switched =
        (updated ['2'] marking (switchTo 1000)).boot := by
  have hmeets : Settles ⟨board, true⟩ (.pass (offered ['2'] marking (switchTo 1000))) := by
    refine ⟨stays_offered _ _ _ _, fun _ text a htext hactive => ?_⟩
    obtain rfl := Option.some.inj htext
    obtain rfl : IFS_A = a := Option.some.inj (active_board.symm.trans hactive)
    exact ⟨by decide +kernel, fun _ => by decide +kernel⟩
  have hcall : (updated ['2'] marking (switchTo 1000)).call = some .request_reboot := by
    decide +kernel
  have hrun := (Reach.init : Run Settles ⟨board, true⟩ _).pass rfl hmeets
    (result_offered marking _ (by decide +kernel) (by decide +kernel))
  exact ⟨hcall, by decide +kernel, (requests_run (by decide) rfl rfl hrun hcall).2.2⟩

/-- A pass of the loop after the version file could not be opened. -/
def askedAgain : World :=
  ((pass (offered ['2'] marking (switchTo 1000))).result (restarted false 0)).2

/-- The board has come up in the new slot, but the version file cannot be opened: the next pass asks
for another reboot. -/
theorem reboots_again :
    Run (fun _ _ => True) ⟨board, true⟩ ⟨askedAgain, true⟩ ∧
      askedAgain.call = some .request_reboot ∧
      (pendingOf (askedAgain.disk .pending)).expected_ifs = IFS_B ∧ askedAgain.switched = 1 ∧
      askedAgain.boot = 2 :=
  ⟨(@reach_restarted _ _ false 0 trivial trivial trivial).pass rfl trivial
    rfl, by decide +kernel, by decide +kernel, by decide +kernel, by decide +kernel⟩

end Ota
