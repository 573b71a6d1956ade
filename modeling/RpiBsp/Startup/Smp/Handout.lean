import Mathlib.Data.List.Nodup
import Mathlib.Data.List.Perm.Subperm
import RpiBsp.Startup.Smp.Definitions

/-!
# Startup — Smp — Handout

The kernel stores where the next core is to start at `start_addr`, and the cores in `smp_spin`
exchange it with 0.  An address is taken by the core whose `stlxr` succeeds, and it succeeds only if
nothing was written since its `ldaxr`.

* `Core`, `Handout` — what holds of each core, and of what was stored and taken, and `Handout.step`
that it is kept;
* `smp_spin_once` — no address is taken more often than it was stored, and the order to shut down is
not lost.
-/

namespace Startup.Smp

open Support

/-- Has taken what was at `start_addr`. -/
def Ap.gone : Ap → Bool
  | .cmn _ | .putBack _ | .wfi | .br _ => true
  | _ => false

/-- What holds of a core, by where it is and whether its monitor is set. -/
structure Core (start_addr : BitVec 64) (took : List (ℕ × BitVec 64)) (c : ℕ) (a : Ap)
    (monitor : Bool) : Prop where
  /-- What is watched is what was read. -/
  watched : ∀ v, a = .cbnz v ∨ a = .stlxr v → monitor = true → start_addr = v
  stlxr : ∀ v, a = .stlxr v → v ≠ 0
  cmn : ∀ v, a = .cmn v → (c, v) ∈ took
  br : ∀ v, a = .br v → (c, v) ∈ took ∧ v + 1 ≠ 0
  putBack : ∀ v, a = .putBack v → v + 1 = 0
  gone : c ∈ took.map Prod.fst → a.gone = true

structure Handout (s : State) : Prop where
  core : ∀ c, Core s.start_addr s.took c (s.ap c) (s.monitor c)
  once : (s.took.map Prod.fst).Nodup
  nonzero : ∀ p ∈ s.took, p.2 ≠ 0
  /-- What was taken or can be taken was stored as often. -/
  count : ∀ v, v ≠ 0 → v + 1 ≠ 0 →
    (s.took.map Prod.snd).count v + (if s.start_addr = v then 1 else 0) ≤ s.stored.count v
  /-- The order to shut down is there, or some core is about to put it back. -/
  down : ∀ v, s.stored.getLast? = some v → v + 1 = 0 →
    s.start_addr = v ∨ ∃ c, s.ap c = .cmn v ∨ s.ap c = .putBack v

theorem handout_initial : Handout initial where
  core c :=
    ⟨by simp [initial], by simp [initial], by simp [initial], by simp [initial], by simp [initial],
      by simp [initial]⟩
  once := List.nodup_nil
  nonzero p hp := by cases hp
  count v hv _ := by
    rw [initial, if_neg hv.symm]
    exact le_rfl
  down v h := by simp [initial] at h

namespace Core

variable {x y : BitVec 64} {took : List (ℕ × BitVec 64)} {c : ℕ} {a a' : Ap} {m : Bool}

/-- A monitor that is cleared watches nothing. -/
theorem clear (h : Core x took c a m) : Core y took c a false where
  watched _ _ hm := by cases hm
  stlxr := h.stlxr
  cmn := h.cmn
  br := h.br
  putBack := h.putBack
  gone := h.gone

/-- Another core has taken something. -/
theorem other {c' : ℕ} {v : BitVec 64} (h : Core x took c a m) (hne : c ≠ c') :
    Core x (took ++ [(c', v)]) c a m where
  watched := h.watched
  stlxr := h.stlxr
  cmn w hw := List.mem_append_left _ (h.cmn w hw)
  br w hw := ⟨List.mem_append_left _ (h.br w hw).1, (h.br w hw).2⟩
  putBack := h.putBack
  gone hin := by
    rw [List.map_append, List.mem_append] at hin
    obtain hin | hin := hin
    · exact h.gone hin
    · exact absurd (by simpa using hin) hne

/-- A core that has taken nothing goes where nothing is known of it. -/
theorem plain (h : Core x took c a m) (ha : a.gone = false) (h' : ∀ v, a' ≠ .cbnz v ∧ a' ≠ .stlxr v)
    (hg : a'.gone = false) :
    Core x took c a' m where
  watched v hv := by
    obtain hv | hv := hv
    · exact absurd hv (h' v).1
    · exact absurd hv (h' v).2
  stlxr v hv := absurd hv (h' v).2
  cmn v hv := by
    rw [hv] at hg
    cases hg
  br v hv := by
    rw [hv] at hg
    cases hg
  putBack v hv := by
    rw [hv] at hg
    cases hg
  gone hin := by
    rw [h.gone hin] at ha
    cases ha

end Core

namespace Handout

variable {C : Cores} {s t : State} {c : ℕ} {a : Ap}

/-- One core goes on, and nothing is stored or taken. -/
theorem goto (h : Handout s) (hcore : Core s.start_addr s.took c a (t.monitor c))
    (hap : t.ap = (s.goto c a).ap)
    (haddr : t.start_addr = s.start_addr) (hmon : ∀ c' ≠ c, t.monitor c' = s.monitor c')
    (htook : t.took = s.took)
    (hstored : t.stored = s.stored) (hdown : ∀ v, v + 1 = 0 → s.ap c = .cmn v ∨
      s.ap c = .putBack v →
      a = .cmn v ∨ a = .putBack v) : Handout t where
  core c' := by
    rw [haddr, htook, hap]
    by_cases hne : c' = c
    · subst hne
      rw [State.goto_self]
      exact hcore
    · rw [State.goto_of_ne hne, hmon c' hne]
      exact h.core c'
  once := by
    rw [htook]
    exact h.once
  nonzero := by
    rw [htook]
    exact h.nonzero
  count := by
    rw [htook, haddr, hstored]
    exact h.count
  down v hlast hv := by
    rw [hstored] at hlast
    rw [haddr, hap]
    obtain heq | ⟨c', hc'⟩ := h.down v hlast hv
    · exact .inl heq
    · refine .inr ⟨c', ?_⟩
      by_cases hne : c' = c
      · subst hne
        rw [State.goto_self]
        exact hdown v hv hc'
      · rw [State.goto_of_ne hne]
        exact hc'

/-- A core takes what is at `start_addr`. -/
theorem take {v : BitVec 64} (h : Handout s) (ha : s.ap c = .stlxr v) (haddr : s.start_addr = v)
    (hv : v ≠ 0) (hnew : c ∉ s.took.map Prod.fst) :
    Handout { (s.goto c (.cmn v)).putAddr 0 with took := s.took ++ [(c, v)] } where
  core c' := by
    by_cases hne : c' = c
    · subst hne
      show Core 0 (s.took ++ [(c', v)]) c' ((s.goto c' (.cmn v)).ap c') false
      rw [State.goto_self]
      exact ⟨by simp, by simp, fun w hw => by cases hw; simp, by simp, by simp, fun _ => rfl⟩
    · show Core 0 (s.took ++ [(c, v)]) c' ((s.goto c (.cmn v)).ap c') false
      rw [State.goto_of_ne hne]
      exact ((h.core c').other hne).clear
  once := by
    rw [List.map_append]
    refine List.nodup_append.mpr ⟨h.once, List.nodup_singleton _, ?_⟩
    rintro x hx y hy rfl
    exact hnew (by simpa [List.mem_singleton.mp hy] using hx)
  nonzero p hp := by
    obtain hp | hp := List.mem_append.mp hp
    · exact h.nonzero p hp
    · rw [List.mem_singleton.mp hp]
      exact hv
  count w hw hw' := by
    have hcount := h.count w hw hw'
    show ((s.took ++ [(c, v)]).map Prod.snd).count w + (if (0 : BitVec 64) = w then 1 else 0) ≤
      s.stored.count w
    rw [haddr] at hcount
    rw [if_neg hw.symm, List.map_append, List.count_append, List.map_singleton,
      List.count_singleton]
    by_cases heq : v = w
    · simpa [heq] using hcount
    · simpa [heq] using hcount
  down w hlast hw := by
    obtain heq | ⟨c', hc'⟩ := h.down w hlast hw
    · obtain rfl : v = w := haddr.symm.trans heq
      exact .inr ⟨c, .inl (State.goto_self ..)⟩
    · refine .inr ⟨c', ?_⟩
      have hne : c' ≠ c := by
        rintro rfl
        rw [ha] at hc'
        simp at hc'
      show (s.goto c (.cmn v)).ap c' = _ ∨ (s.goto c (.cmn v)).ap c' = _
      rw [State.goto_of_ne hne]
      exact hc'

/-- A core puts back the order to shut down. -/
theorem restore {v : BitVec 64} (h : Handout s) (ha : s.ap c = .putBack v) (hv : v + 1 = 0) :
    Handout ((s.goto c .wfi).putAddr v) where
  core c' := by
    by_cases hne : c' = c
    · subst hne
      show Core v s.took c' ((s.goto c' .wfi).ap c') false
      rw [State.goto_self]
      exact ⟨by simp, by simp, by simp, by simp, by simp, fun _ => rfl⟩
    · show Core v s.took c' ((s.goto c .wfi).ap c') false
      rw [State.goto_of_ne hne]
      exact (h.core c').clear
  once := h.once
  nonzero := h.nonzero
  count w hw hw' := by
    have hcount := h.count w hw hw'
    show (s.took.map Prod.snd).count w + (if v = w then 1 else 0) ≤ s.stored.count w
    rw [if_neg (by rintro rfl; exact hw' hv)]
    omega
  down w _ hw := by
    refine .inl (?_ : v = w)
    bv_omega

theorem ap_step (h : Handout s) (hs : apStep c s = some t) : Handout t := by
  have hc := h.core c
  rw [apStep] at hs
  cases ha : s.ap c <;> rw [ha] at hs hc
  case off | wfi | br => cases hs
  case smp_start | adjust_num | init_one_cpuinfo | started | cpu_startnext | smp_spin | wfe =>
    cases hs
    exact h.goto (hc.plain rfl (by simp) rfl) rfl rfl (fun _ _ => rfl) rfl rfl (by simp [ha])
  case syspage w =>
    dsimp only at hs
    split_ifs at hs <;> cases hs
    · exact h.goto (hc.plain rfl (by simp) rfl) rfl rfl (fun _ _ => rfl) rfl rfl (by simp [ha])
    · exact h
  case ldaxr =>
    cases hs
    refine h.goto ?_ rfl rfl (fun c' hne => Function.update_of_ne hne ..) rfl rfl (by simp [ha])
    have hplain : Core s.start_addr s.took c .wfe (s.monitor c) := hc.plain rfl (by simp) rfl
    exact ⟨fun v hv _ => by simpa using hv, by simp, by simp, by simp, by simp, fun hin =>
      hplain.gone hin⟩
  case cbnz v =>
    cases hs
    refine h.goto ?_ rfl rfl (fun _ _ => rfl) rfl rfl (by simp [ha])
    by_cases hv : v ≠ 0
    · rw [if_pos hv]
      exact ⟨fun w hw hm => hc.watched w (.inl (by simpa using hw)) hm,
        fun w hw => by cases hw; exact hv, by simp, by simp, by simp, fun hin => hc.gone hin⟩
    · rw [if_neg hv]
      exact hc.plain rfl (by simp) rfl
  case stlxr v =>
    dsimp only at hs
    split_ifs at hs with hm <;> cases hs
    · have haddr : s.start_addr = v := hc.watched v (.inr rfl) hm
      have hnew : c ∉ s.took.map Prod.fst := fun hin => Bool.false_ne_true (hc.gone hin)
      exact h.take ha haddr (hc.stlxr v rfl) hnew
    · exact h.goto (hc.plain rfl (by simp) rfl) rfl rfl (fun _ _ => rfl) rfl rfl (by simp [ha])
  case cmn v =>
    cases hs
    have htook := hc.cmn v rfl
    refine h.goto ?_ rfl rfl (fun _ _ => rfl) rfl rfl ?_
    · by_cases hv : v + 1 = 0
      · rw [if_pos hv]
        exact ⟨by simp, by simp, by simp, by simp, fun w hw => by cases hw; exact hv, fun _ => rfl⟩
      · rw [if_neg hv]
        exact ⟨by simp, by simp, by simp, fun w hw => by cases hw; exact ⟨htook, hv⟩, by simp,
          fun _ => rfl⟩
    · intro w hw hor
      rw [ha] at hor
      obtain heq | heq := hor <;> cases heq
      exact .inr (if_pos hw)
  case putBack v =>
    cases hs
    exact h.restore ha (hc.putBack v rfl)

/-- The kernel stores. -/
theorem kernel_step {v : BitVec 64} (h : Handout s) (hs : kernelStep v s = some t) : Handout t := by
  rw [kernelStep] at hs
  cases hb : s.boot <;> rw [hb] at hs <;> cases hs
  refine ⟨fun c => (h.core c).clear, h.once, h.nonzero, ?_, ?_⟩
  · intro w hw hw'
    have hcount := h.count w hw hw'
    show (s.took.map Prod.snd).count w + (if v = w then 1 else 0) ≤ (s.stored ++ [v]).count w
    rw [List.count_append, List.count_singleton]
    by_cases heq : v = w
    · simp only [heq, if_true, beq_self_eq_true]
      omega
    · simp only [heq, if_false, beq_iff_eq]
      omega
  · intro w hlast _
    have heq : v = w := by simpa using hlast
    exact .inl heq

theorem step (h : Handout s) {e : Action} (hs : Smp.step C s e = some t) : Handout t := by
  cases e with
  | boot =>
      rw [Smp.step, bootStep] at hs
      cases hb : s.boot <;> rw [hb] at hs <;> dsimp only at hs
      case board_smp_start i =>
        split_ifs at hs with hoff
        cases hs
        have hc := h.core (C.psci_cpu_id i)
        exact h.goto (hc.plain (by rw [hoff]; rfl) (by simp) rfl) rfl rfl (fun _ _ => rfl) rfl rfl
          (by simp [hoff])
      all_goals
        try split_ifs at hs
        all_goals
          cases hs
          try exact ⟨h.core, h.once, h.nonzero, h.count, h.down⟩
  | refuse =>
      rw [Smp.step, refuseStep] at hs
      cases hb : s.boot <;> rw [hb] at hs <;> cases hs
      exact ⟨h.core, h.once, h.nonzero, h.count, h.down⟩
  | ap c => exact h.ap_step hs
  | lose c =>
      cases hs
      refine ⟨?_, h.once, h.nonzero, h.count, h.down⟩
      intro c'
      by_cases hne : c' = c
      · subst hne
        simpa [State.watch] using (h.core c').clear
      · simpa [State.watch, Function.update_of_ne hne] using h.core c'
  | kernel v => exact h.kernel_step hs

end Handout

/-- The cores of a list that have taken the same address: they are in the record as often. -/
theorem Handout.length_le {s : State} {v : BitVec 64} (h : Handout s) {cs : List ℕ} (hcs : cs.Nodup)
    (hbr : ∀ c ∈ cs, s.ap c = .br v) : cs.length ≤ (s.took.map Prod.snd).count v := by
  have hsub : cs ⊆ (s.took.filter fun p => p.2 == v).map Prod.fst := by
    intro c hc
    have hin := ((h.core c).br v (hbr c hc)).1
    exact List.mem_map.mpr ⟨(c, v), List.mem_filter.mpr ⟨hin, by simp⟩, rfl⟩
  have hle := (hcs.subperm hsub).length_le
  rw [List.length_map, ← List.countP_eq_length_filter] at hle
  rwa [List.count, List.countP_map]

/-- **Each address is taken once**, whatever order the cores and the kernel run in: no more cores
jump to an address than the kernel has stored it times.  And **the order to shut down is not lost**:
if it was the last thing stored, it is at `start_addr`, or a core has it and puts it back. -/
theorem smp_spin_once {C : Cores} {s : State} (h : Reachable (step C) initial s) :
    (∀ v, ∀ cs : List ℕ, cs.Nodup → (∀ c ∈ cs, s.ap c = .br v) → cs.length ≤ s.stored.count v) ∧
      (s.stored.getLast? = some (-1) →
        s.start_addr = -1 ∨ ∃ c, s.ap c = .cmn (-1) ∨ s.ap c = .putBack (-1)) := by
  have hH : Handout s := h.invariant (fun _ _ _ hI hs => hI.step hs) handout_initial
  refine ⟨?_, fun hlast => hH.down (-1) hlast (by decide)⟩
  intro v cs hcs hbr
  cases cs with
  | nil => exact Nat.zero_le _
  | cons c cs =>
      have hlen := hH.length_le hcs hbr
      obtain ⟨hin, hv⟩ := (hH.core c).br v (hbr c List.mem_cons_self)
      have hcount := hH.count v (hH.nonzero _ hin) hv
      omega

/-- The boot core starts core `i`, without the others. -/
def startRun (C : Cores) (i : ℕ) : List Action :=
  [.boot, .boot] ++ List.replicate 4 (.ap (C.psci_cpu_id i)) ++ [.boot]

/-- The boot core sends core `i` into the spin loop, without the others. -/
def transferRun (C : Cores) (i : ℕ) : List Action :=
  [.boot, .boot] ++ List.replicate 3 (.ap (C.psci_cpu_id i)) ++ [.boot]

/-- Two cores read the same address, and one of them jumps to it. -/
theorem smp_spin_once_two : ∃ s, Reachable (step (bcm2712 3)) initial s ∧ s.stored = [0x80000] ∧
    s.ap 0x100 = .br 0x80000 ∧ s.ap 0x200 ≠ .br 0x80000 := by
  have hrun : (run (step (bcm2712 3)) initial
      (startRun (bcm2712 3) 1 ++ startRun (bcm2712 3) 2 ++ [.boot, .boot] ++
      transferRun (bcm2712 3) 1 ++ transferRun (bcm2712 3) 2 ++
          [.boot, .kernel 0x80000, .ap 0x100, .ap 0x200, .ap 0x100,
        .ap 0x200, .ap 0x100, .ap 0x200, .ap 0x100])).map (fun s => (s.stored, s.ap 0x100)) =
      some ([0x80000], .br 0x80000) := by decide +kernel
  obtain ⟨s, hs, hobs⟩ := Option.map_eq_some_iff.mp hrun
  have hr : Reachable (step (bcm2712 3)) initial s := ⟨_, hs⟩
  obtain ⟨hstored, h1⟩ := Prod.mk.inj hobs
  refine ⟨s, hr, hstored, h1, ?_⟩
  intro h2
  have hle := (smp_spin_once hr).1 0x80000 [0x100, 0x200] (by decide) (by
    intro c hc
    obtain rfl | hc := List.mem_cons.mp hc
    · exact h1
    · rw [List.mem_singleton.mp hc]
      exact h2)
  rw [hstored] at hle
  exact absurd hle (by decide)

end Startup.Smp
