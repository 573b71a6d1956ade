import Mathlib.Logic.Function.Basic
import RpiBsp.Support.Runs
import RpiBsp.Support.Token

/-!
# Startup — interrupts between processors

The callout `sendipi_gic_v2` gives a processor a command: it adds the command to a word that the
processor has for them, and triggers the interrupt that makes the processor look, but only if the
word was 0.  Any number of processors do so at once, for the same or for different ones, and the
word is guarded by the exclusive monitors alone.

An action is one access to memory or to the interrupt controller by one processor.  A write to a
word clears the monitors on it, and a monitor can be lost at any time.  What the kernel does with an
interrupt is not part of the repository: it is identified (`interrupt_id_gic_v2_ppi`), and some time
later the word is taken, and is 0 then.

* `Interrupt` — who has the interrupt for a processor at hand: one who is to trigger it, the
controller, or the processor;
* `Inv.step` — what every action keeps;
* `sendipi_delivers` — **main**: no command is lost, and no interrupt is sent twice.
-/

namespace Startup.Ipi

open Support

/-! ### The callouts -/

/-- Where a processor is in `sendipi_gic_v2`: `w1` is the target, `w2` the command, `w7` what the
word was. -/
inductive Phase where
  /-- Outside, with its interrupts on. -/
  | out
  | ldxr (w1 : ℕ) (w2 : BitVec 32)
  | stxr (w1 : ℕ) (w2 w7 : BitVec 32)
  /-- In front of `cbnz w7, 0f`. -/
  | cbnz (w1 : ℕ) (w7 : BitVec 32)
  /-- In front of `str w7, [x5, #ARM_GICD_SGIR]`. -/
  | str (w1 : ℕ)
  deriving DecidableEq

/-- What is written to `ARM_GICD_SGIR` for a target. -/
def sgir (w1 : ℕ) : BitVec 32 := 0x10000#32 <<< w1

/-- Whether the controller sends the interrupt to a processor: the list of targets is in bits 16 to
23, and counts if the filter in bits 24 and 25 is 0. -/
def Targets (v : BitVec 32) (c : ℕ) : Prop :=
  v.getLsbD 24 = false ∧ v.getLsbD 25 = false ∧ c < 8 ∧ v.getLsbD (16 + c) = true

instance (v : BitVec 32) (c : ℕ) : Decidable (Targets v c) := inferInstanceAs (Decidable (_ ∧ _))

structure State where
  /-- `ipicmds`, by processor. -/
  ipicmds : ℕ → BitVec 32
  phase : ℕ → Phase
  /-- On whose word a processor has its monitor. -/
  monitor : ℕ → Option ℕ
  /-- The interrupts that a processor has not identified, by who sent them. -/
  pending : ℕ → ℕ → Bool
  /-- A processor has identified one, and not yet taken its word. -/
  handling : ℕ → Bool
  /-- The commands that were added to a word, and those that were taken. -/
  posted : ℕ → BitVec 32
  taken : ℕ → BitVec 32

def initial : State where
  ipicmds _ := 0
  phase _ := .out
  monitor _ := none
  pending _ _ := false
  handling _ := false
  posted _ := 0
  taken _ := 0

inductive Action where
  /-- The callout is called, with a command that is not 0. -/
  | call (c w1 : ℕ) (w2 : BitVec 32)
  /-- The next access of a processor in the callout. -/
  | next (c : ℕ)
  | lose (c : ℕ)
  /-- A processor identifies an interrupt that `src` sent. -/
  | identify (c src : ℕ)
  | take (c : ℕ)

namespace State

def goto (s : State) (c : ℕ) (p : Phase) : State := { s with phase := Function.update s.phase c p }

/-- A write to the word of processor `t`. -/
def put (s : State) (t : ℕ) (v : BitVec 32) : State :=
  { s with
    ipicmds := Function.update s.ipicmds t v
    monitor := fun c => if s.monitor c = some t then none else s.monitor c }

end State

/-- One access in `sendipi_gic_v2`. -/
def sendipi (c : ℕ) (s : State) : Option State :=
  match s.phase c with
  | .out => none
  | .ldxr w1 w2 =>
      some { s.goto c (.stxr w1 w2 (s.ipicmds w1)) with
        monitor := Function.update s.monitor c (some w1) }
  | .stxr w1 w2 w7 =>
      if s.monitor c = some w1 then
        some { (s.goto c (.cbnz w1 w7)).put w1 (w7 ||| w2) with
          posted := Function.update s.posted w1 (s.posted w1 ||| w2) }
      else some (s.goto c (.ldxr w1 w2))
  | .cbnz w1 w7 => some (s.goto c (if w7 ≠ 0 then .out else .str w1))
  | .str w1 =>
      some { s.goto c .out with
        pending := fun t =>
          Function.update (s.pending t) c (s.pending t c || decide (Targets (sgir w1) t)) }

/-- What an action does. -/
def step (s : State) : Action → Option State
  | .call c w1 w2 =>
      if s.phase c = .out ∧ w1 < 8 ∧ w2 ≠ 0 then some (s.goto c (.ldxr w1 w2)) else none
  | .next c => sendipi c s
  | .lose c => some { s with monitor := Function.update s.monitor c none }
  | .identify c src =>
      if s.phase c = .out ∧ s.handling c = false ∧ s.pending c src = true then
        some { s with
          pending := Function.update s.pending c (Function.update (s.pending c) src false)
          handling := Function.update s.handling c true }
      else none
  | .take c =>
      if s.handling c = true then
        some { s.put c 0 with
          handling := Function.update s.handling c false
          taken := Function.update s.taken c (s.taken c ||| s.ipicmds c) }
      else none

theorem targets_sgir {w1 : ℕ} (h : w1 < 8) (c : ℕ) : Targets (sgir w1) c ↔ c = w1 := by
  have hall : ∀ w1 < 8, ∀ c < 8, Targets (sgir w1) c ↔ c = w1 := by decide +kernel
  by_cases hc : c < 8
  · exact hall w1 h c hc
  · exact ⟨fun ht => absurd ht.2.2.1 hc, fun heq => absurd (heq ▸ h) hc⟩

/-! ### Who has the interrupt -/

/-- Who can have the interrupt for a processor at hand. -/
inductive Holder where
  | sender (c : ℕ)
  | controller (src : ℕ)
  | processor

/-- The interrupt for `t` is still to be triggered. -/
def Phase.Owes (t : ℕ) : Phase → Prop
  | .cbnz w1 w7 => w1 = t ∧ w7 = 0
  | .str w1 => w1 = t
  | _ => False

def Interrupt (s : State) (t : ℕ) : Holder → Prop
  | .sender c => (s.phase c).Owes t
  | .controller src => s.pending t src = true
  | .processor => s.handling t = true

/-- What holds of a processor, by its monitor and where it is: what is watched is what was read. -/
def Sends (ipicmds : ℕ → BitVec 32) (monitor : Option ℕ) : Phase → Prop
  | .out => True
  | .ldxr w1 w2 => w1 < 8 ∧ w2 ≠ 0
  | .stxr w1 w2 w7 => w1 < 8 ∧ w2 ≠ 0 ∧ (monitor = some w1 → ipicmds w1 = w7)
  | .cbnz w1 _ => w1 < 8
  | .str w1 => w1 < 8

structure Inv (s : State) : Prop where
  sends : ∀ c, Sends s.ipicmds (s.monitor c) (s.phase c)
  /-- While a word is not 0, the interrupt for it is at hand, and only one. -/
  held : ∀ t, Held (s.ipicmds t ≠ 0) (Interrupt s t)
  account : ∀ t, s.taken t ||| s.ipicmds t = s.posted t

theorem inv_initial : Inv initial where
  sends _ := trivial
  held t := by
    refine ⟨fun a b ha => ?_, iff_of_false (not_not.mpr rfl) ?_⟩
    · cases a <;> cases ha
    · rintro ⟨a, ha⟩
      cases a <;> cases ha
  account _ := BitVec.or_self

theorem Sends.put {ipicmds : ℕ → BitVec 32} {monitor : Option ℕ} {p : Phase}
    (h : Sends ipicmds monitor p) (t : ℕ)
    (v : BitVec 32) : Sends (Function.update ipicmds t v) (if monitor = some t then none
      else monitor) p := by
  cases p with
  | stxr w1 w2 w7 =>
      refine ⟨h.1, h.2.1, fun hm => ?_⟩
      split_ifs at hm with ht
      have hne : w1 ≠ t := fun heq => ht (heq ▸ hm)
      rw [Function.update_of_ne hne]
      exact h.2.2 hm
  | _ => exact h

section Goto

variable {s : State} {c t : ℕ} {p : Phase}

theorem phase_goto_self : (s.goto c p).phase c = p := Function.update_self ..

theorem phase_goto_of_ne {c' : ℕ} (h : c' ≠ c) : (s.goto c p).phase c' = s.phase c' :=
  Function.update_of_ne h ..

/-- Only the processor that goes on can get the interrupt, or lose it. -/
theorem interrupt_goto (h : Holder) :
    Interrupt (s.goto c p) t h → h = .sender c ∧ p.Owes t ∨ Interrupt s t h ∧ h ≠ .sender c := by
  intro hi
  by_cases hc : h = .sender c
  · subst hc
    exact .inl ⟨rfl, by rwa [Interrupt, phase_goto_self] at hi⟩
  · refine .inr ⟨?_, hc⟩
    cases h with
    | sender c' => rwa [Interrupt, phase_goto_of_ne fun heq => hc (congrArg _ heq)] at hi
    | controller src => exact hi
    | processor => exact hi

/-- A processor goes on, and has the interrupt as before or not. -/
theorem interrupt_goto_same (hp : p.Owes t ↔ (s.phase c).Owes t) (h : Holder) :
    Interrupt (s.goto c p) t h ↔ Interrupt s t h := by
  cases h with
  | sender c' =>
      by_cases hc : c' = c
      · subst hc
        rw [Interrupt, phase_goto_self]
        exact hp
      · rw [Interrupt, phase_goto_of_ne hc]
        rfl
  | controller src => exact Iff.rfl
  | processor => exact Iff.rfl

theorem sends_goto (hs : ∀ c, Sends s.ipicmds (s.monitor c) (s.phase c))
    (hp : Sends s.ipicmds (s.monitor c) p) (c' : ℕ) :
    Sends s.ipicmds (s.monitor c') ((s.goto c p).phase c') := by
  by_cases heq : c' = c
  · subst heq
    rwa [phase_goto_self]
  · rw [phase_goto_of_ne heq]
    exact hs c'

end Goto

/-- The word is written, and the interrupt is owed if it was 0. -/
theorem Inv.store {s : State} (h : Inv s) {c w1 : ℕ} {w2 w7 : BitVec 32}
    (hphase : s.phase c = .stxr w1 w2 w7) (hmonitor : s.monitor c = some w1) :
    Inv { (s.goto c (.cbnz w1 w7)).put w1
      (w7 ||| w2) with posted := Function.update s.posted w1 (s.posted w1 ||| w2) } := by
  have hc := h.sends c
  rw [hphase] at hc
  obtain ⟨hlt, hne, hread⟩ := hc
  have hw7 := hread hmonitor
  have hnot : ∀ t, ¬ (s.phase c).Owes t := fun t howes => by rw [hphase] at howes; exact howes
  have hor : w7 ||| w2 ≠ 0 := fun hzero => hne (BitVec.or_eq_zero_iff.mp hzero).2
  refine ⟨fun c' => ?_, fun t => ?_, fun t => ?_⟩
  · exact (sends_goto h.sends (p := .cbnz w1 w7) hlt c').put w1 (w7 ||| w2)
  · by_cases ht : t = w1
    · subst ht
      have hword : Function.update s.ipicmds t (w7 ||| w2) t ≠ 0 := by rwa [Function.update_self]
      by_cases hzero : w7 = 0
      · refine (h.held t).give (not_not.mpr (hw7.trans hzero)) hword (b := .sender c) ?_
          fun a ha => ?_
        · change Interrupt (s.goto c _) t (.sender c)
          rw [Interrupt, phase_goto_self]
          exact ⟨rfl, hzero⟩
        · exact (interrupt_goto a ha).imp (·.1) (·.1)
      · refine (h.held t).congr (iff_of_true hword (hw7 ▸ hzero)) fun a => ?_
        have howes : ¬ (Phase.cbnz t w7).Owes t := fun howes => hzero howes.2
        exact interrupt_goto_same (iff_of_false howes (hnot t)) a
    · refine (h.held t).congr ?_ fun a => ?_
      · change Function.update s.ipicmds w1 (w7 ||| w2) t ≠ 0 ↔ _
        rw [Function.update_of_ne ht]
      · have howes : ¬ (Phase.cbnz w1 w7).Owes t := fun howes => ht howes.1.symm
        exact interrupt_goto_same (iff_of_false howes (hnot t)) a
  · change s.taken t ||| Function.update s.ipicmds w1 (w7 ||| w2) t = Function.update s.posted w1
      (s.posted w1 ||| w2) t
    by_cases ht : t = w1
    · subst ht
      rw [Function.update_self, Function.update_self, ← h.account t, hw7, BitVec.or_assoc]
    · rw [Function.update_of_ne ht, Function.update_of_ne ht]
      exact h.account t

/-- A processor goes on without anything to do with the interrupt. -/
theorem Inv.goto {s : State} (h : Inv s) {c : ℕ} {p : Phase} (hp : Sends s.ipicmds (s.monitor c) p)
    (howes : ∀ t, p.Owes t ↔ (s.phase c).Owes t) : Inv (s.goto c p) where
  sends := sends_goto h.sends hp
  held t := (h.held t).congr Iff.rfl fun a => interrupt_goto_same (howes t) a
  account := h.account

/-- A monitor is set on a word that was just read, or lost. -/
theorem Inv.watch {s : State} (h : Inv s) {c : ℕ} {m : Option ℕ}
    (hm : Sends s.ipicmds m (s.phase c)) :
    Inv { s with monitor := Function.update s.monitor c m } where
  sends c' := by
    by_cases heq : c' = c
    · subst heq
      change Sends s.ipicmds (Function.update s.monitor c' m c') (s.phase c')
      rwa [Function.update_self]
    · change Sends s.ipicmds (Function.update s.monitor c m c') (s.phase c')
      rw [Function.update_of_ne heq]
      exact h.sends c'
  held := h.held
  account := h.account

theorem Inv.lose {s : State} (h : Inv s) (c : ℕ) :
    Inv { s with monitor := Function.update s.monitor c none } := by
  refine h.watch ?_
  have hc := h.sends c
  cases hp : s.phase c with
  | stxr w1 w2 w7 =>
      rw [hp] at hc
      exact ⟨hc.1, hc.2.1, fun hm => by cases hm⟩
  | _ => rwa [hp] at hc

/-- The controller has the interrupt. -/
theorem Inv.trigger {s : State} (h : Inv s) {c w1 : ℕ} (hphase : s.phase c = .str w1) :
    Inv { s.goto c .out with
      pending := fun t =>
        Function.update (s.pending t) c (s.pending t c || decide (Targets (sgir w1) t)) } := by
  have hc := h.sends c
  rw [hphase] at hc
  refine ⟨fun c' => sends_goto h.sends (p := .out) trivial c', fun t => ?_, h.account⟩
  by_cases ht : t = w1
  · subst ht
    have howes : Interrupt s t (.sender c) := by
      rw [Interrupt, hphase]
      exact rfl
    refine (h.held t).pass ((h.held t).iff.mpr ⟨_, howes⟩) howes (b := .controller c) ?_
      fun x hx => ?_
    · change Function.update (s.pending t) c _ c = true
      rw [Function.update_self, decide_eq_true ((targets_sgir hc t).mpr rfl), Bool.or_true]
    · cases x with
      | sender c' =>
          obtain ⟨-, hfalse⟩ | hold :=
            interrupt_goto (s := s) (c := c) (p := .out) (t := t) (.sender c') hx
          · exact absurd hfalse id
          · exact .inr hold
      | controller src =>
          by_cases hsrc : src = c
          · exact .inl (congrArg _ hsrc)
          · have hkeep : Function.update (s.pending t) c
              (s.pending t c || decide (Targets (sgir t) t)) src = true := hx
            rw [Function.update_of_ne hsrc] at hkeep
            exact .inr ⟨hkeep, Holder.noConfusion⟩
      | processor => exact .inr ⟨hx, Holder.noConfusion⟩
  · refine (h.held t).congr Iff.rfl fun a => ?_
    cases a with
    | sender c' =>
        refine interrupt_goto_same (s := s) (c := c) (p := .out) (t := t)
          (iff_of_false id fun howes => ?_) (.sender c')
        rw [hphase] at howes
        exact ht howes.symm
    | controller src =>
        change Function.update (s.pending t) c _ src = true ↔ _
        rw [decide_eq_false fun htarget => ht ((targets_sgir hc t).mp htarget), Bool.or_false,
          Function.update_eq_self]
        rfl
    | processor => exact Iff.rfl

/-- The processor has the interrupt. -/
theorem Inv.identify {s : State} (h : Inv s) {c src : ℕ} (hpending : s.pending c src = true) :
    Inv { s with
      pending := Function.update s.pending c (Function.update (s.pending c) src false)
      handling := Function.update s.handling c true } := by
  refine ⟨h.sends, fun t => ?_, h.account⟩
  by_cases ht : t = c
  · subst ht
    have hat : Interrupt s t (.controller src) := hpending
    refine (h.held t).pass ((h.held t).iff.mpr ⟨_, hat⟩) hat (b := .processor) ?_ fun x hx => ?_
    · change Function.update s.handling t true t = true
      rw [Function.update_self]
    · cases x with
      | sender c' => exact .inr ⟨hx, Holder.noConfusion⟩
      | controller src' =>
          have hkeep : Function.update s.pending t (Function.update (s.pending t) src false) t
            src' = true := hx
          rw [Function.update_self] at hkeep
          have hne : src' ≠ src := by
            rintro rfl
            rw [Function.update_self] at hkeep
            cases hkeep
          rw [Function.update_of_ne hne] at hkeep
          exact .inr ⟨hkeep, fun heq => hne (Holder.controller.inj heq)⟩
      | processor => exact .inl rfl
  · refine (h.held t).congr Iff.rfl fun a => ?_
    cases a with
    | sender c' => exact Iff.rfl
    | controller src' =>
        change Function.update s.pending c _ t src' = true ↔ _
        rw [Function.update_of_ne ht]
        rfl
    | processor =>
        change Function.update s.handling c true t = true ↔ _
        rw [Function.update_of_ne ht]
        rfl

/-- The word is taken. -/
theorem Inv.take {s : State} (h : Inv s) {c : ℕ} (hhandling : s.handling c = true) :
    Inv { s.put c 0 with
      handling := Function.update s.handling c false
      taken := Function.update s.taken c (s.taken c ||| s.ipicmds c) } := by
  refine ⟨fun c' => (h.sends c').put c 0, fun t => ?_, fun t => ?_⟩
  · by_cases ht : t = c
    · subst ht
      refine (h.held t).drop (a := .processor) (not_not.mpr (Function.update_self ..)) hhandling
        fun x hx => ?_
      cases x with
      | processor =>
          have hkeep : Function.update s.handling t false t = true := hx
          rw [Function.update_self] at hkeep
          cases hkeep
      | sender c' => exact ⟨hx, Holder.noConfusion⟩
      | controller src => exact ⟨hx, Holder.noConfusion⟩
    · refine (h.held t).congr (not_congr ?_) fun a => ?_
      · rw [show (s.put c 0).ipicmds t = s.ipicmds t from Function.update_of_ne ht ..]
      · cases a with
        | processor =>
            change Function.update s.handling c false t = true ↔ _
            rw [Function.update_of_ne ht]
            rfl
        | _ => exact Iff.rfl
  · change Function.update s.taken c (s.taken c ||| s.ipicmds c) t ||| Function.update s.ipicmds c 0
      t = s.posted t
    by_cases ht : t = c
    · subst ht
      rw [Function.update_self, Function.update_self, ← h.account t]
      exact BitVec.or_zero
    · rw [Function.update_of_ne ht, Function.update_of_ne ht]
      exact h.account t

/-! ### Runs -/

/-- **Every action keeps it.** -/
theorem Inv.step {s s' : State} (h : Inv s) (a : Action) (hs : step s a = some s') : Inv s' := by
  cases a with
  | call c w1 w2 =>
      rw [Ipi.step] at hs
      split_ifs at hs with hcall
      cases hs
      exact h.goto ⟨hcall.2.1, hcall.2.2⟩ fun t => iff_of_false id (by rw [hcall.1]; exact id)
  | next c =>
      rw [Ipi.step, sendipi] at hs
      have hc := h.sends c
      cases hp : s.phase c with
      | out =>
          rw [hp] at hs
          cases hs
      | ldxr w1 w2 =>
          rw [hp] at hs hc
          cases hs
          have hgoto : Inv (s.goto c (.stxr w1 w2 (s.ipicmds w1))) :=
            h.goto ⟨hc.1, hc.2, fun _ => rfl⟩ fun t => iff_of_false id (by rw [hp]; exact id)
          refine hgoto.watch ?_
          rw [phase_goto_self]
          exact ⟨hc.1, hc.2, fun _ => rfl⟩
      | stxr w1 w2 w7 =>
          rw [hp] at hs hc
          dsimp only at hs
          split_ifs at hs with hm
          · cases hs
            exact h.store hp hm
          · cases hs
            exact h.goto ⟨hc.1, hc.2.1⟩ fun t => iff_of_false id (by rw [hp]; exact id)
      | cbnz w1 w7 =>
          rw [hp] at hs hc
          cases hs
          by_cases hw7 : w7 ≠ 0
          · rw [if_pos hw7]
            exact h.goto trivial fun t =>
              iff_of_false id (by rw [hp]; exact fun howes => hw7 howes.2)
          · rw [if_neg hw7]
            refine h.goto hc fun t => ?_
            rw [hp]
            exact ⟨fun heq => ⟨heq, not_not.mp hw7⟩, fun howes => howes.1⟩
      | str w1 =>
          rw [hp] at hs
          cases hs
          exact h.trigger hp
  | lose c =>
      cases hs
      exact h.lose c
  | identify c src =>
      rw [Ipi.step] at hs
      split_ifs at hs with hid
      cases hs
      exact h.identify hid.2.2
  | take c =>
      rw [Ipi.step] at hs
      split_ifs at hs with ht
      cases hs
      exact h.take ht

/-- **No command is lost, and no interrupt is sent twice**: wherever any number of processors have
come to, a processor whose word is not 0 has the interrupt before it, on its way or at hand, once;
one whose word is 0 has none; and what was added to a word is in it or was taken.  So when nobody is
in the callout, no interrupt is pending and none is being handled, every command was taken. -/
theorem sendipi_delivers {s : State} (h : Reachable step initial s) (t : ℕ) :
    (s.ipicmds t ≠ 0 ↔ ∃! a, Interrupt s t a) ∧ (s.ipicmds t = 0 → ∀ a, ¬ Interrupt s t a) ∧
      s.taken t ||| s.ipicmds t = s.posted t ∧
      ((∀ c, s.phase c = .out) → (∀ src, s.pending t src = false) → s.handling t = false →
      s.taken t = s.posted t) := by
  have hinv : Inv s := h.invariant (fun _ a _ hI hstep => hI.step a hstep) inv_initial
  have hheld := hinv.held t
  refine ⟨⟨fun hne => ?_, fun ⟨a, ha, _⟩ => hheld.iff.mpr ⟨a, ha⟩⟩, fun hzero =>
    hheld.not (not_not.mpr hzero), hinv.account t, fun hout hpending hhandling => ?_⟩
  · obtain ⟨a, ha⟩ := hheld.iff.mp hne
    exact ⟨a, ha, fun b hb => hheld.sole b a hb ha⟩
  · have hzero : s.ipicmds t = 0 := by
      by_contra hne
      obtain ⟨a, ha⟩ := hheld.iff.mp hne
      cases a with
      | sender c =>
          rw [Interrupt, hout] at ha
          exact ha
      | controller src =>
          rw [Interrupt, hpending] at ha
          cases ha
      | processor =>
          rw [Interrupt, hhandling] at ha
          cases ha
    rw [← hinv.account t, hzero]
    exact BitVec.or_zero.symm

/-- Processors 1 and 2 give processor 0 a command each; 2 has read the word when 1 writes it. -/
def twoSenders : List Action :=
  [.call 1 0 1, .call 2 0 2, .next 1, .next 2, .next 1, .next 2, .next 2, .next 2, .next 2, .next 1,
    .next 1, .identify 0 1, .take 0]

theorem sendipi_delivers_two :
    ∃ s, run step initial twoSenders = some s ∧ s.taken 0 ||| s.ipicmds 0 = 3 ∧
    (s.ipicmds 0 = 0 → ∀ a, ¬ Interrupt s 0 a) := by
  have hrun : (run step initial twoSenders).isSome = true := by decide
  obtain ⟨s, hs⟩ := Option.isSome_iff_exists.mp hrun
  have hposted : (run step initial twoSenders).map (fun s => s.posted 0) = some 3 := by decide
  rw [hs] at hposted
  obtain ⟨-, hnone, haccount, -⟩ := sendipi_delivers ⟨twoSenders, hs⟩ 0
  exact ⟨s, hs, haccount.trans (Option.some.inj hposted), hnone⟩

end Startup.Ipi
