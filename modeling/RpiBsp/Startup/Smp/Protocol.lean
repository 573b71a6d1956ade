import RpiBsp.Startup.Smp.Definitions

/-!
# Startup — Smp — Protocol

What the boot core has done says where each of the other cores can be (`Expected`), and what is in
the variables (`Vars`).  Together they are an invariant of every action (`Inv.step`), so they hold
wherever the cores and the kernel have got to.

* `Inv.starting`, `Inv.passing` — a core is on the stack only while the boot core waits for this
very core;
* `start_aps_exclusive` — no two cores are on the stack, and the entries of `cpuinfo` are set up
  in order, each by its own core;
* `transfer_aps_complete` — the kernel is started only when every core is in the spin loop, and it
always can be.
-/

namespace Startup.Smp

open Support

/-- On the way from `smp_start` to the wait for the system page, as core `i`. -/
inductive Starting (i : ℕ) : Ap → Prop where
  | smp_start : Starting i .smp_start
  | adjust_num : Starting i .adjust_num
  | init_one_cpuinfo : Starting i (.init_one_cpuinfo i)
  | started : Starting i (.started i)

/-- On the way from the wait for the system page into the spin loop, as core `i`. -/
inductive Passing (i : ℕ) : Ap → Prop where
  | cpu_startnext : Passing i (.cpu_startnext i)
  | smp_spin : Passing i .smp_spin

namespace Ap

/-- From the first `ldaxr` on. -/
def inLoop : Ap → Bool
  | .ldaxr | .cbnz _ | .wfe | .stlxr _ | .cmn _ | .putBack _ | .wfi | .br _ => true
  | _ => false

/-- Has set up its entry of `cpuinfo`. -/
def inited : Ap → Bool
  | .off | .smp_start | .adjust_num | .init_one_cpuinfo _ => false
  | _ => true

/-- The stack is set, and what uses it is not over: from `mov sp, x0` to the store that tells the
boot core, twice. -/
def onStack : Ap → Bool
  | .adjust_num | .init_one_cpuinfo _ | .started _ | .cpu_startnext _ | .smp_spin => true
  | _ => false

end Ap

/-- Where core `j` can be. -/
def Expected : Boot → ℕ → Ap → Prop
  | .start_aps i, j, a | .board_smp_start i, j, a => if j < i then a = .syspage j else a = .off
  | .poll i _, j, a =>
      if j < i then a = .syspage j else if j = i then Starting i a ∨ a = .syspage i else a = .off
  | .ap_fail i, j, a =>
      if j < i then a = .syspage j else if j = i then a = .off ∨ Starting i a ∨ a = .syspage i
      else a = .off
  | .hooked, j, a => a = .syspage j
  | .transfer_aps i, j, a | .available i, j, a => if j < i then a.inLoop = true else a = .syspage j
  | .pending i, j, a =>
      if j < i then a.inLoop = true else if j = i then a = .syspage i ∨ Passing i a ∨
        a.inLoop = true
      else a = .syspage j
  | .startnext, _, a => a.inLoop = true

/-- What is in the variables. -/
def Vars (C : Cores) (s : State) : Prop :=
  match s.boot with
  | .start_aps i => 1 ≤ i ∧ i ≤ C.num_cpu ∧ s.syspage_available = 0
  | .board_smp_start i => 1 ≤ i ∧ i < C.num_cpu ∧ s.syspage_available = 0 ∧ s.cpu_starting = i + 1
  | .poll i _ | .ap_fail i => 1 ≤ i ∧ i < C.num_cpu ∧ s.syspage_available = 0 ∧
      s.cpu_starting = if s.ap (C.psci_cpu_id i) = .syspage i then 0 else i + 1
  | .hooked => s.syspage_available = 0
  | .transfer_aps i => 1 ≤ i ∧ i ≤ C.num_cpu ∧ s.syspage_available + 1 = i
  | .available i => 1 ≤ i ∧ i < C.num_cpu ∧ s.syspage_available + 1 = i ∧ s.pending = 1
  | .pending i => 1 ≤ i ∧ i < C.num_cpu ∧ s.syspage_available = i ∧
      s.pending = if (s.ap (C.psci_cpu_id i)).inLoop then 0 else 1
  | .startnext => s.syspage_available + 1 = C.num_cpu

/-- The entries of `cpuinfo` up to that of core `k`, each with its core. -/
def entries (C : Cores) (k : ℕ) : List (ℕ × ℕ) :=
  (List.range' 1 k).map fun j => (C.psci_cpu_id j, j)

theorem entries_succ (C : Cores) (k : ℕ) :
    entries C (k + 1) = entries C k ++ [(C.psci_cpu_id (k + 1), k + 1)] := by
  simp [entries, List.range'_concat, Nat.add_comm]

theorem Starting.apart {i : ℕ} {a : Ap} (h : Starting i a) :
    a ≠ .off ∧ (∀ w, a ≠ .syspage w) ∧ a.inLoop = false ∧ ∀ w, ¬ Passing w a := by
  cases h <;> exact ⟨by simp, by simp, rfl, fun w hw => by cases hw⟩

theorem Passing.apart {i : ℕ} {a : Ap} (h : Passing i a) :
    a ≠ .off ∧ (∀ w, a ≠ .syspage w) ∧ a.inLoop = false := by
  cases h <;> exact ⟨by simp, by simp, rfl⟩

theorem Ap.apart_of_inLoop {a : Ap} (h : a.inLoop = true) :
    a ≠ .off ∧ (∀ w, a ≠ .syspage w) ∧ a.inited = true ∧ (∀ w, ¬ Starting w a) ∧
    ∀ w, ¬ Passing w a := by
  refine ⟨?_, ?_, ?_, fun w hw => ?_, fun w hw => ?_⟩
  · rintro rfl
    cases h
  · rintro w rfl
    cases h
  · cases a <;> cases h <;> rfl
  · rw [hw.apart.2.2.1] at h
    cases h
  · rw [hw.apart.2.2] at h
    cases h

/-- In the spin loop a core can be anywhere. -/
theorem Expected.inLoop {b : Boot} {j : ℕ} {a a' : Ap} (h : Expected b j a) (ha : a.inLoop = true)
    (ha' : a'.inLoop = true) : Expected b j a' := by
  obtain ⟨hoff, hsys, -, hstart, -⟩ := Ap.apart_of_inLoop ha
  cases b <;> grind [Expected]

structure Inv (C : Cores) (s : State) : Prop where
  expected : ∀ j, 1 ≤ j → j < C.num_cpu → Expected s.boot j (s.ap (C.psci_cpu_id j))
  outside : ∀ c, s.ap c ≠ .off → ∃ j, 1 ≤ j ∧ j < C.num_cpu ∧ c = C.psci_cpu_id j
  vars : Vars C s
  inits : ∃ k < C.num_cpu, s.inits = entries C k ∧
    ∀ j, 1 ≤ j → j < C.num_cpu → ((s.ap (C.psci_cpu_id j)).inited = true ↔ j ≤ k)

theorem inv_initial (C : Cores) : Inv C initial where
  expected j hj _ := by
    rw [initial, Expected, if_neg (by omega)]
  outside c hc := absurd rfl hc
  vars := ⟨le_rfl, C.one_le, rfl⟩
  inits := by
    refine ⟨0, C.one_le, rfl, ?_⟩
    intro j hj _
    rw [initial, Ap.inited]
    simp
    omega

/-! ### Where the boot core is, by where another core is -/

namespace Inv

variable {C : Cores} {s t : State} {i j w c : ℕ} {a : Ap}

/-- A core that is starting is the one that the boot core polls for, or gave up on. -/
theorem starting (h : Inv C s) (h1 : 1 ≤ j) (hj : j < C.num_cpu)
    (ha : Starting i (s.ap (C.psci_cpu_id j))) :
    ((∃ count, s.boot = .poll j count) ∨ s.boot = .ap_fail j) ∧
      Starting j (s.ap (C.psci_cpu_id j)) ∧
      s.cpu_starting = j + 1 := by
  have he := h.expected j h1 hj
  have hv := h.vars
  obtain ⟨hoff, hsys, hloop, hpass⟩ := ha.apart
  cases hb : s.boot <;> rw [Vars, hb] at hv <;> grind [Expected]

/-- A core that passes on is the one that the boot core waits for. -/
theorem passing (h : Inv C s) (h1 : 1 ≤ j) (hj : j < C.num_cpu)
    (ha : Passing i (s.ap (C.psci_cpu_id j))) :
    s.boot = .pending j ∧ Passing j (s.ap (C.psci_cpu_id j)) := by
  have he := h.expected j h1 hj
  obtain ⟨hoff, hsys, hloop⟩ := ha.apart
  have hstart : ∀ w, ¬ Starting w (s.ap (C.psci_cpu_id j)) := fun w hw => (hw.apart).2.2.2 i ha
  cases hb : s.boot <;> grind [Expected]

/-- A core that sees its number in `syspage_available` is the one that the boot core waits for. -/
theorem called (h : Inv C s) (h1 : 1 ≤ j) (hj : j < C.num_cpu)
    (ha : s.ap (C.psci_cpu_id j) = .syspage w) :
    w = j ∧ (s.syspage_available = w → s.boot = .pending j) := by
  have he := h.expected j h1 hj
  have hv := h.vars
  have hloop : (s.ap (C.psci_cpu_id j)).inLoop = false := by
    rw [ha]
    rfl
  have hstart : ∀ i, ¬ Starting i (s.ap (C.psci_cpu_id j)) := fun i hi => (hi.apart).2.1 w ha
  have hpass : ∀ i, ¬ Passing i (s.ap (C.psci_cpu_id j)) := fun i hi => (hi.apart).2.1 w ha
  rw [ha] at he
  cases hb : s.boot <;> rw [Vars, hb] at hv <;> grind [Expected]

/-! ### Steps -/

theorem goto_other {j' : ℕ} (hj : j < C.num_cpu) (hj' : j' < C.num_cpu) (hne : j' ≠ j) :
    (s.goto (C.psci_cpu_id j) a).ap (C.psci_cpu_id j') = s.ap (C.psci_cpu_id j') :=
  State.goto_of_ne fun heq => hne (C.inj j' j hj' hj heq)

/-- A core goes where it may, and nothing is said about its `cpuinfo`. -/
theorem goto (h : Inv C s) (h1 : 1 ≤ j) (hj : j < C.num_cpu)
    (hap : t.ap = (s.goto (C.psci_cpu_id j) a).ap)
    (hboot : t.boot = s.boot) (ha : Expected s.boot j a) (hoff : s.ap (C.psci_cpu_id j) ≠ .off)
    (hvars : Vars C t) (hinits : ∃ k < C.num_cpu, t.inits = entries C k ∧
      ∀ j, 1 ≤ j → j < C.num_cpu → ((t.ap (C.psci_cpu_id j)).inited = true ↔ j ≤ k)) : Inv C t where
  expected j' h1' hj' := by
    rw [hboot, hap]
    by_cases hne : j' = j
    · subst hne
      rw [State.goto_self]
      exact ha
    · rw [goto_other hj hj' hne]
      exact h.expected j' h1' hj'
  outside c' hc' := by
    by_cases heq : c' = C.psci_cpu_id j
    · exact ⟨j, h1, hj, heq⟩
    · rw [hap, State.goto_of_ne heq] at hc'
      exact h.outside c' hc'
  vars := hvars
  inits := hinits

/-- Nobody's `cpuinfo` is set up by a step that does not say so. -/
theorem inits_same (h : Inv C s) (hj : j < C.num_cpu) (hap : t.ap = (s.goto (C.psci_cpu_id j) a).ap)
    (hinits : t.inits = s.inits) (ha : a.inited = (s.ap (C.psci_cpu_id j)).inited) :
    ∃ k < C.num_cpu, t.inits = entries C k ∧
      ∀ j, 1 ≤ j → j < C.num_cpu → ((t.ap (C.psci_cpu_id j)).inited = true ↔ j ≤ k) := by
  obtain ⟨k, hk, hs, hin⟩ := h.inits
  refine ⟨k, hk, hinits.trans hs, ?_⟩
  intro j' h1' hj'
  rw [hap, ← hin j' h1' hj']
  by_cases hne : j' = j
  · subst hne
    rw [State.goto_self, ha]
  · rw [goto_other hj hj' hne]

/-- The entry of core `j` is set up: it is the next one. -/
theorem inits_next (h : Inv C s) (h1 : 1 ≤ j) (hj : j < C.num_cpu)
    (ha : Starting i (s.ap (C.psci_cpu_id j)))
    (hnot : (s.ap (C.psci_cpu_id j)).inited = false)
    (hap : t.ap = (s.goto (C.psci_cpu_id j) (.started j)).ap)
    (hinits : t.inits = s.inits ++ [(C.psci_cpu_id j, j)]) :
    ∃ k < C.num_cpu, t.inits = entries C k ∧
      ∀ j, 1 ≤ j → j < C.num_cpu → ((t.ap (C.psci_cpu_id j)).inited = true ↔ j ≤ k) := by
  obtain ⟨k, hk, hs, hin⟩ := h.inits
  obtain ⟨hboot, -, -⟩ := h.starting h1 hj ha
  have hbefore : ∀ j' < j, 1 ≤ j' → s.ap (C.psci_cpu_id j') = .syspage j' := by
    intro j' hlt h1'
    have he := h.expected j' h1' (hlt.trans hj)
    obtain ⟨count, hb⟩ | hb := hboot <;> rw [hb, Expected, if_pos hlt] at he <;> exact he
  -- core `j` is the first that is not set up
  obtain rfl : j = k + 1 := by
    have hlt : ¬ j ≤ k := by
      rw [← hin j h1 hj, hnot]
      exact Bool.false_ne_true
    by_contra hne
    have := (hin (k + 1) (by omega) (by omega)).mp
      (by rw [hbefore (k + 1) (by omega) (by omega)]; rfl)
    omega
  refine ⟨k + 1, hj, by rw [hinits, hs, entries_succ], ?_⟩
  intro j' h1' hj'
  rw [hap]
  by_cases hne : j' = k + 1
  · subst hne
    rw [State.goto_self]
    simp [Ap.inited]
  · rw [goto_other hj hj' hne, hin j' h1' hj']
    omega

/-- What an action in the spin loop can change. -/
theorem apStep_inLoop (ha : (s.ap c).inLoop = true) (hs : apStep c s = some t) :
    ∃ b, b.inLoop = true ∧ t.ap = (s.goto c b).ap ∧ t.boot = s.boot ∧ t.inits = s.inits ∧
      t.cpu_starting = s.cpu_starting ∧ t.syspage_available = s.syspage_available ∧
      t.pending = s.pending := by
  rw [apStep] at hs
  cases hc : s.ap c <;> rw [hc] at hs ha <;> try cases ha
  case ldaxr | wfe | putBack =>
    cases hs
    exact ⟨_, rfl, rfl, rfl, rfl, rfl, rfl, rfl⟩
  case cbnz | cmn =>
    cases hs
    exact ⟨_, by split_ifs <;> rfl, rfl, rfl, rfl, rfl, rfl, rfl⟩
  case stlxr =>
    dsimp only at hs
    split_ifs at hs <;> cases hs <;> exact ⟨_, rfl, rfl, rfl, rfl, rfl, rfl, rfl⟩
  case wfi | br => cases hs

/-- What is in the variables depends on another core only through where it waits and whether it is
in the spin loop. -/
theorem vars_goto (h : Inv C s) (hj : j < C.num_cpu) (hap : t.ap = (s.goto (C.psci_cpu_id j) a).ap)
    (hsys : a = .syspage j ↔ s.ap (C.psci_cpu_id j) = .syspage j)
    (hloop : a.inLoop = (s.ap (C.psci_cpu_id j)).inLoop)
    (hboot : t.boot = s.boot) (hstart : t.cpu_starting = s.cpu_starting)
    (havail : t.syspage_available = s.syspage_available) (hpend : t.pending = s.pending) :
      Vars C t := by
  have hv := h.vars
  have hsame : ∀ i < C.num_cpu,
      (t.ap (C.psci_cpu_id i) = .syspage i ↔ s.ap (C.psci_cpu_id i) = .syspage i) ∧
      (t.ap (C.psci_cpu_id i)).inLoop = (s.ap (C.psci_cpu_id i)).inLoop := by
    intro i hi
    rw [hap]
    by_cases hne : i = j
    · subst hne
      rw [State.goto_self]
      exact ⟨hsys, hloop⟩
    · rw [goto_other hj hi hne]
      exact ⟨Iff.rfl, rfl⟩
  cases hb : s.boot <;> rw [Vars, hb] at hv <;> rw [Vars, hboot, hb] <;> grind

theorem ap_step (h : Inv C s) (hs : apStep c s = some t) : Inv C t := by
  have hoff : s.ap c ≠ .off := by
    intro h0
    rw [apStep, h0] at hs
    cases hs
  obtain ⟨j, h1, hj, rfl⟩ := h.outside c hoff
  by_cases hloop : (s.ap (C.psci_cpu_id j)).inLoop = true
  · obtain ⟨b, hbl, hap, hboot, hinits, hstart, havail, hpend⟩ := apStep_inLoop hloop hs
    obtain ⟨-, hsys, hin, -, -⟩ := Ap.apart_of_inLoop hloop
    obtain ⟨-, hsys', hin', -, -⟩ := Ap.apart_of_inLoop hbl
    exact h.goto h1 hj hap hboot ((h.expected j h1 hj).inLoop hloop hbl) hoff
      (h.vars_goto hj hap (iff_of_false (hsys' j) (hsys j)) (hbl.trans hloop.symm) hboot hstart
        havail hpend)
      (h.inits_same hj hap hinits (hin'.trans hin.symm))
  · rw [apStep] at hs
    cases ha : s.ap (C.psci_cpu_id j) <;> rw [ha] at hs hloop <;> try exact absurd rfl hloop
    case off => exact absurd ha hoff
    case smp_start =>
      cases hs
      obtain ⟨hboot, -, hstart⟩ := h.starting h1 hj (ha ▸ .smp_start : Starting j _)
      refine h.goto h1 hj rfl rfl ?_ hoff
        (h.vars_goto hj rfl (by simp [ha]) (by rw [ha]; rfl) rfl rfl rfl rfl)
          (h.inits_same hj rfl rfl (by rw [ha]; rfl))
      obtain ⟨count, hb⟩ | hb := hboot <;> rw [hb] <;> simp [Expected, Starting.adjust_num]
    case adjust_num =>
      cases hs
      obtain ⟨hboot, -, hstart⟩ := h.starting h1 hj (ha ▸ .adjust_num : Starting j _)
      refine h.goto h1 hj rfl rfl ?_ hoff
        (h.vars_goto hj rfl (by simp [ha]) (by rw [ha]; rfl) rfl rfl rfl rfl)
          (h.inits_same hj rfl rfl (by rw [ha]; rfl))
      have hlt := C.lt
      rw [hstart, subW_of_le (by omega) (by omega), Nat.add_sub_cancel]
      obtain ⟨count, hb⟩ | hb := hboot <;> rw [hb] <;> simp [Expected, Starting.init_one_cpuinfo]
    case init_one_cpuinfo w =>
      cases hs
      have hst : Starting w (s.ap (C.psci_cpu_id j)) := ha ▸ .init_one_cpuinfo
      obtain ⟨hboot, hj', -⟩ := h.starting h1 hj hst
      obtain rfl : w = j := by
        rw [ha] at hj'
        cases hj'
        rfl
      refine h.goto h1 hj rfl rfl ?_ hoff
        (h.vars_goto hj rfl (by simp [ha]) (by rw [ha]; rfl) rfl rfl rfl rfl)
        (h.inits_next h1 hj hst (by rw [ha]; rfl) rfl rfl)
      obtain ⟨count, hb⟩ | hb := hboot <;> rw [hb] <;> simp [Expected, Starting.started]
    case started w =>
      cases hs
      obtain ⟨hboot, hj', -⟩ := h.starting h1 hj (ha ▸ .started : Starting w _)
      obtain rfl : w = j := by
        rw [ha] at hj'
        cases hj'
        rfl
      have hv := h.vars
      refine h.goto h1 hj rfl rfl ?_ hoff ?_ (h.inits_same hj rfl rfl (by rw [ha]; rfl))
      · obtain ⟨count, hb⟩ | hb := hboot <;> rw [hb] <;> simp [Expected]
      · obtain ⟨count, hb⟩ | hb := hboot <;> simp only [Vars, hb] at hv <;>
          simp [Vars, State.goto, hb, hv.1, hv.2.1, hv.2.2.1]
    case syspage w =>
      obtain ⟨rfl, hcall⟩ := h.called h1 hj ha
      dsimp only at hs
      split_ifs at hs with havail <;> cases hs
      · have hb := hcall havail
        have hv := h.vars
        refine h.goto h1 hj rfl rfl ?_ hoff ?_ (h.inits_same hj rfl rfl (by rw [ha]; rfl))
        · rw [hb]
          simp [Expected, Passing.cpu_startnext]
        · simp only [Vars, hb] at hv
          have hloop' : (s.ap (C.psci_cpu_id w)).inLoop = (Ap.cpu_startnext w).inLoop := by
            rw [ha]
            rfl
          rw [hloop'] at hv
          simpa only [Vars, hb, State.goto, Function.update_self] using hv
      · exact h
    case cpu_startnext w =>
      cases hs
      obtain ⟨hb, -⟩ := h.passing h1 hj (ha ▸ .cpu_startnext : Passing w _)
      refine h.goto h1 hj rfl rfl ?_ hoff
        (h.vars_goto hj rfl (by simp [ha]) (by rw [ha]; rfl) rfl rfl rfl rfl)
          (h.inits_same hj rfl rfl (by rw [ha]; rfl))
      rw [hb]
      simp [Expected, Passing.smp_spin]
    case smp_spin =>
      cases hs
      obtain ⟨hb, -⟩ := h.passing h1 hj (ha ▸ .smp_spin : Passing j _)
      have hv := h.vars
      refine h.goto h1 hj rfl rfl ?_ hoff ?_ (h.inits_same hj rfl rfl (by rw [ha]; rfl))
      · rw [hb, Expected, if_neg (lt_irrefl j), if_pos rfl]
        exact .inr (.inr rfl)
      · simp only [Vars, hb] at hv
        simp only [Vars, hb, State.goto, Function.update_self]
        exact ⟨hv.1, hv.2.1, hv.2.2.1, rfl⟩

/-- The boot core goes on, and no other core does. -/
theorem move (h : Inv C s) (hap : t.ap = s.ap) (hinits : t.inits = s.inits)
    (hexp : ∀ j, 1 ≤ j → j < C.num_cpu → Expected s.boot j (s.ap (C.psci_cpu_id j)) →
      Expected t.boot j (s.ap (C.psci_cpu_id j))) (hvars : Vars C t) : Inv C t where
  expected j h1 hj := by
    rw [hap]
    exact hexp j h1 hj (h.expected j h1 hj)
  outside c hc := h.outside c (by rwa [hap] at hc)
  vars := hvars
  inits := by
    rw [hap, hinits]
    exact h.inits

theorem boot_step (h : Inv C s) (hs : bootStep C s = some t) : Inv C t := by
  have hv := h.vars
  rw [bootStep] at hs
  cases hb : s.boot <;> rw [hb] at hs <;> simp only [Vars, hb] at hv
  case start_aps i =>
    obtain ⟨h1, hle, havail⟩ := hv
    dsimp only at hs
    split_ifs at hs with hlt <;> cases hs
    · refine h.move rfl rfl ?_ ?_
      · intro j _ _ he
        rwa [hb] at he
      · exact ⟨h1, hlt, havail, rfl⟩
    · refine h.move rfl rfl ?_ havail
      intro j _ hj he
      rw [hb, Expected, if_pos (by omega)] at he
      exact he
  case board_smp_start i =>
    obtain ⟨h1, hlt, havail, hstart⟩ := hv
    dsimp only at hs
    split_ifs at hs with hoff
    cases hs
    constructor
    · intro j hj1 hj
      by_cases hne : j = i
      · subst hne
        rw [State.goto_self, Expected, if_neg (lt_irrefl j), if_pos rfl]
        exact .inl .smp_start
      · have he := h.expected j hj1 hj
        rw [hb, Expected] at he
        rw [goto_other hlt hj hne, Expected, if_neg hne]
        exact he
    · intro c hc
      by_cases heq : c = C.psci_cpu_id i
      · exact ⟨i, h1, hlt, heq⟩
      · rw [State.goto_of_ne heq] at hc
        exact h.outside c hc
    · refine ⟨h1, hlt, havail, ?_⟩
      rw [State.goto_self, if_neg (by simp)]
      exact hstart
    · exact h.inits_same hlt rfl rfl (by rw [hoff]; rfl)
  case poll i count =>
    obtain ⟨h1, hlt, havail, hstart⟩ := hv
    dsimp only at hs
    split_ifs at hs with hwrap hzero <;> cases hs
    · refine h.move rfl rfl ?_ ⟨h1, hlt, havail, hstart⟩
      intro j _ _ he
      rw [hb, Expected] at he
      rw [Expected]
      split_ifs at he ⊢
      · exact he
      · exact .inr he
      · exact he
    · refine h.move rfl rfl ?_ ⟨h1, hlt, havail, hstart⟩
      intro j _ _ he
      rwa [hb] at he
    · -- the core has stored 0, so it waits for the system page
      have hsys : s.ap (C.psci_cpu_id i) = .syspage i := by
        by_contra hne
        rw [if_neg hne] at hstart
        omega
      refine h.move rfl rfl ?_ ⟨by omega, by omega, havail⟩
      intro j _ _ he
      rw [hb, Expected] at he
      rw [Expected]
      by_cases hne : j = i
      · subst hne
        rw [if_pos (by omega)]
        exact hsys
      · rw [if_neg hne] at he
        split_ifs at he ⊢ <;> first | exact he | omega
  case hooked =>
    cases hs
    refine h.move rfl rfl ?_ ⟨le_rfl, C.one_le, by rw [hv]⟩
    intro j h1 _ he
    rw [hb] at he
    rw [Expected, if_neg (by omega)]
    exact he
  case transfer_aps i =>
    obtain ⟨h1, hle, havail⟩ := hv
    dsimp only at hs
    split_ifs at hs with hlt <;> cases hs
    · refine h.move rfl rfl ?_ ?_
      · intro j _ _ he
        rwa [hb] at he
      · exact ⟨h1, hlt, havail, rfl⟩
    · refine h.move rfl rfl ?_ (show s.syspage_available + 1 = C.num_cpu by omega)
      intro j _ hj he
      rw [hb, Expected, if_pos (by omega)] at he
      exact he
  case available i =>
    obtain ⟨h1, hlt, havail, hpend⟩ := hv
    cases hs
    have hsys : s.ap (C.psci_cpu_id i) = .syspage i := by
      have he := h.expected i h1 hlt
      rwa [hb, Expected, if_neg (lt_irrefl i)] at he
    refine h.move rfl rfl ?_ ⟨h1, hlt, rfl, ?_⟩
    · intro j _ _ he
      rw [hb, Expected] at he
      rw [Expected]
      by_cases hne : j = i
      · subst hne
        rw [if_neg (lt_irrefl j), if_pos rfl]
        exact .inl hsys
      · rw [if_neg hne]
        exact he
    · rw [hsys]
      exact hpend
  case pending i =>
    obtain ⟨h1, hlt, havail, hpend⟩ := hv
    dsimp only at hs
    split_ifs at hs with hzero <;> cases hs
    · exact h
    · -- the core has stored 0, so it is in the spin loop
      have hloop : (s.ap (C.psci_cpu_id i)).inLoop = true := by
        by_contra hne
        rw [if_neg hne] at hpend
        omega
      refine h.move rfl rfl ?_ ⟨by omega, by omega, by rw [havail]⟩
      intro j _ _ he
      rw [hb, Expected] at he
      rw [Expected]
      by_cases hne : j = i
      · subst hne
        rw [if_pos (by omega)]
        exact hloop
      · rw [if_neg hne] at he
        split_ifs at he ⊢ <;> first | exact he | omega
  case ap_fail | startnext => cases hs

/-- **Every action keeps the invariant.** -/
theorem step (h : Inv C s) {e : Action} (hs : Smp.step C s e = some t) : Inv C t := by
  cases e with
  | boot => exact h.boot_step hs
  | ap c => exact h.ap_step hs
  | lose c =>
      cases hs
      exact h.move rfl rfl (fun _ _ _ he => he) h.vars
  | refuse =>
      rw [Smp.step, refuseStep] at hs
      cases hb : s.boot <;> rw [hb] at hs <;> cases hs
      rename_i i
      have hv := h.vars
      simp only [Vars, hb] at hv
      obtain ⟨h1, hlt, havail, hstart⟩ := hv
      have hoff : s.ap (C.psci_cpu_id i) = .off := by
        have he := h.expected i h1 hlt
        rwa [hb, Expected, if_neg (lt_irrefl i)] at he
      refine h.move rfl rfl ?_ ⟨h1, hlt, havail, ?_⟩
      · intro j _ _ he
        rw [hb, Expected] at he
        rw [Expected]
        split_ifs at he ⊢
        · exact he
        · exact .inl he
        · exact he
      · rw [hoff, if_neg (by simp)]
        exact hstart
  | kernel v =>
      rw [Smp.step, kernelStep] at hs
      cases hb : s.boot <;> rw [hb] at hs <;> cases hs
      have hv := h.vars
      simp only [Vars, hb] at hv
      refine h.move rfl rfl (fun _ _ _ he => he) ?_
      simpa only [Vars, State.putAddr, hb] using hv

end Inv

/-- **Wherever the cores have got to, the invariant holds.** -/
theorem inv_of_reachable {C : Cores} {s : State} (h : Reachable (step C) initial s) : Inv C s :=
  h.invariant (fun _ _ _ hI hs => Inv.step hI hs) (inv_initial C)

/-! ### The stack -/

/-- A core on the stack is the one that the boot core waits for, or gave up on. -/
def Boot.waitsFor (j : ℕ) : Boot → Prop
  | .poll i _ | .ap_fail i | .pending i => i = j
  | _ => False

theorem Inv.waitsFor {C : Cores} {s : State} {c : ℕ} (h : Inv C s) (hc : (s.ap c).onStack = true) :
    ∃ j, c = C.psci_cpu_id j ∧ s.boot.waitsFor j := by
  have hoff : s.ap c ≠ .off := by
    intro h0
    rw [h0] at hc
    cases hc
  obtain ⟨j, h1, hj, rfl⟩ := h.outside c hoff
  refine ⟨j, rfl, ?_⟩
  have hor : (∃ i, Starting i (s.ap (C.psci_cpu_id j))) ∨
      ∃ i, Passing i (s.ap (C.psci_cpu_id j)) := by
    cases ha : s.ap (C.psci_cpu_id j) <;> rw [ha] at hc <;> try cases hc
    case adjust_num => exact .inl ⟨0, .adjust_num⟩
    case init_one_cpuinfo w => exact .inl ⟨w, .init_one_cpuinfo⟩
    case started w => exact .inl ⟨w, .started⟩
    case cpu_startnext w => exact .inr ⟨w, .cpu_startnext⟩
    case smp_spin => exact .inr ⟨0, .smp_spin⟩
  obtain ⟨i, hi⟩ | ⟨i, hi⟩ := hor
  · obtain ⟨⟨count, hb⟩ | hb, -, -⟩ := h.starting h1 hj hi <;> rw [hb] <;> rfl
  · obtain ⟨hb, -⟩ := h.passing h1 hj hi
    rw [hb]
    rfl

theorem Boot.waitsFor_unique {b : Boot} {i j : ℕ} (hi : b.waitsFor i) (hj : b.waitsFor j) :
    i = j := by
  cases b <;> first | exact hi.symm.trans hj | exact hi.elim

/-- `start_aps` has come back. -/
def Boot.past : Boot → Bool
  | .hooked | .transfer_aps _ | .available _ | .pending _ | .startnext => true
  | _ => false

theorem Inv.inited_of_past {C : Cores} {s : State} {j : ℕ} (h : Inv C s) (hb : s.boot.past = true)
    (h1 : 1 ≤ j) (hj : j < C.num_cpu) : (s.ap (C.psci_cpu_id j)).inited = true := by
  have he := h.expected j h1 hj
  have hsys : ∀ w, s.ap (C.psci_cpu_id j) = .syspage w →
      (s.ap (C.psci_cpu_id j)).inited = true := by
    intro w hw
    rw [hw]
    rfl
  have hloop : (s.ap (C.psci_cpu_id j)).inLoop = true → (s.ap (C.psci_cpu_id j)).inited = true :=
    fun hl => (Ap.apart_of_inLoop hl).2.2.1
  have hpass : ∀ w, Passing w (s.ap (C.psci_cpu_id j)) →
      (s.ap (C.psci_cpu_id j)).inited = true := by
    intro w hw
    generalize s.ap (C.psci_cpu_id j) = a at hw
    cases hw <;> rfl
  cases hs : s.boot <;> rw [hs] at hb he <;> grind [Expected, Boot.past]

/-- **The cores take turns on the stack**: no two are on it, whatever order they run in.  The
entries of `cpuinfo` are set up from the first on, each once and by its own core, and all of them
are when `start_aps` comes back. -/
theorem start_aps_exclusive {C : Cores} {s : State} (h : Reachable (step C) initial s) :
    (∀ c c', (s.ap c).onStack = true → (s.ap c').onStack = true → c = c') ∧
      ∃ k < C.num_cpu, s.inits = entries C k ∧ (s.boot.past = true → k + 1 = C.num_cpu) := by
  have hI := inv_of_reachable h
  constructor
  · intro c c' hc hc'
    obtain ⟨i, rfl, hi⟩ := hI.waitsFor hc
    obtain ⟨j, rfl, hj⟩ := hI.waitsFor hc'
    rw [Boot.waitsFor_unique hi hj]
  · obtain ⟨k, hk, hs, hin⟩ := hI.inits
    refine ⟨k, hk, hs, ?_⟩
    intro hb
    by_contra hne
    have hall := hI.inited_of_past hb (show 1 ≤ k + 1 by omega) (by omega)
    rw [hin (k + 1) (by omega) (by omega)] at hall
    omega

/-- With two cores, core 1 has set up its entry when `start_aps` comes back. -/
theorem start_aps_exclusive_two :
    ∃ s, Reachable (step (bcm2712 2)) initial s ∧ s.boot.past = true ∧ s.inits = [(0x100, 1)] := by
  have hr : Reachable (step (bcm2712 2)) initial _ :=
    ⟨[.boot, .boot, .ap 0x100, .ap 0x100, .ap 0x100, .ap 0x100, .boot, .boot], rfl⟩
  obtain ⟨-, k, -, hk, hlast⟩ := start_aps_exclusive hr
  have hk1 : k + 1 = 2 := hlast rfl
  refine ⟨_, hr, rfl, ?_⟩
  rw [hk, show k = 1 by omega]
  rfl

/-! ### The way to the kernel -/

/-- `ap_fail` was not called, and will not be by the next poll. -/
def Boot.alive : Boot → Prop
  | .poll _ count => addW 32 count 1 ≠ 0
  | .ap_fail _ => False
  | _ => True

/-- How far a core is from the wait for the system page, and from the spin loop. -/
def Ap.toGo : Ap → ℕ
  | .smp_start => 8
  | .adjust_num => 7
  | .init_one_cpuinfo _ => 6
  | .started _ => 5
  | .syspage _ => 4
  | .cpu_startnext _ => 3
  | .smp_spin => 2
  | _ => 1

/-- How far the boot core is from the kernel. -/
def toGo (C : Cores) (s : State) : ℕ :=
  match s.boot with
  | .start_aps i => 20 * (C.num_cpu - i) + 20 * C.num_cpu + 40
  | .board_smp_start i => 20 * (C.num_cpu - i) + 20 * C.num_cpu + 39
  | .poll i _ => 20 * (C.num_cpu - i) + 20 * C.num_cpu + 20 + (s.ap (C.psci_cpu_id i)).toGo
  | .hooked => 20 * C.num_cpu + 30
  | .transfer_aps i => 20 * (C.num_cpu - i) + 40
  | .available i => 20 * (C.num_cpu - i) + 39
  | .pending i => 20 * (C.num_cpu - i) + 20 + (s.ap (C.psci_cpu_id i)).toGo
  | .startnext | .ap_fail _ => 0

/-- A core that the boot core polls for comes nearer. -/
theorem Inv.starting_step {C : Cores} {s : State} {i j : ℕ} (h : Inv C s) (h1 : 1 ≤ j)
    (hj : j < C.num_cpu) (ha : Starting i (s.ap (C.psci_cpu_id j))) :
    ∃ t, apStep (C.psci_cpu_id j) s = some t ∧ t.boot = s.boot ∧
      (t.ap (C.psci_cpu_id j)).toGo < (s.ap (C.psci_cpu_id j)).toGo := by
  obtain ⟨-, hst, -⟩ := h.starting h1 hj ha
  rw [apStep]
  generalize ha' : s.ap (C.psci_cpu_id j) = a at hst
  cases hst <;> exact ⟨_, rfl, rfl, by simp [State.goto, Ap.toGo]⟩

/-- A core that the boot core has called comes nearer. -/
theorem Inv.passing_step {C : Cores} {s : State} {j : ℕ} (h : Inv C s) (h1 : 1 ≤ j)
    (hj : j < C.num_cpu)
    (hb : s.boot = .pending j) (hloop : (s.ap (C.psci_cpu_id j)).inLoop = false) :
    ∃ t, apStep (C.psci_cpu_id j) s = some t ∧ t.boot = s.boot ∧
      (t.ap (C.psci_cpu_id j)).toGo < (s.ap (C.psci_cpu_id j)).toGo := by
  have he := h.expected j h1 hj
  have hv := h.vars
  simp only [Vars, hb] at hv
  rw [hb, Expected, if_neg (lt_irrefl j), if_pos rfl, hloop] at he
  obtain hsys | hpass | habs := he
  · rw [apStep, hsys]
    refine ⟨_, if_pos hv.2.2.1, rfl, ?_⟩
    simp [Ap.toGo]
  · rw [apStep]
    generalize ha' : s.ap (C.psci_cpu_id j) = a at hpass
    cases hpass <;> exact ⟨_, rfl, rfl, by simp [State.goto, Ap.toGo]⟩
  · cases habs

/-- Some action brings the boot core nearer to the kernel. -/
theorem Inv.nearer {C : Cores} {s : State} (h : Inv C s) (halive : s.boot.alive)
    (hgoal : s.boot ≠ .startnext) :
    ∃ e t, Smp.step C s e = some t ∧ (Inv C t ∧ t.boot.alive) ∧ toGo C t < toGo C s := by
  have hv := h.vars
  -- an action of another core leaves the boot core where it is
  have hother : ∀ j,
      (∃ t, apStep (C.psci_cpu_id j) s = some t ∧ t.boot = s.boot ∧ toGo C t < toGo C s) →
      ∃ e t, Smp.step C s e = some t ∧ (Inv C t ∧ t.boot.alive) ∧ toGo C t < toGo C s := by
    rintro j ⟨t, ht, hboot, hlt⟩
    exact ⟨.ap (C.psci_cpu_id j), t, ht, ⟨h.ap_step ht, hboot ▸ halive⟩, hlt⟩
  have hboot : ∀ t, bootStep C s = some t → t.boot.alive → toGo C t < toGo C s →
      ∃ e t, Smp.step C s e = some t ∧ (Inv C t ∧ t.boot.alive) ∧ toGo C t < toGo C s :=
    fun t ht ha hlt => ⟨.boot, t, ht, ⟨h.boot_step ht, ha⟩, hlt⟩
  cases hb : s.boot <;> simp only [Vars, hb] at hv <;> rw [hb] at halive
  case start_aps i =>
    by_cases hlt : i < C.num_cpu
    · refine hboot { s with cpu_starting := i + 1, boot := .board_smp_start i } ?_ trivial ?_
      · rw [bootStep, hb]
        exact if_pos hlt
      · simp [toGo, hb]
    · refine hboot { s with boot := .hooked } ?_ trivial ?_
      · rw [bootStep, hb]
        exact if_neg hlt
      · simp only [toGo, hb]
        omega
  case board_smp_start i =>
    have hoff : s.ap (C.psci_cpu_id i) = .off := by
      have he := h.expected i hv.1 hv.2.1
      rwa [hb, Expected, if_neg (lt_irrefl i)] at he
    refine hboot { s.goto (C.psci_cpu_id i) .smp_start with boot := .poll i 0 } ?_
      (show addW 32 0 1 ≠ 0 by decide) ?_
    · rw [bootStep, hb]
      exact if_pos hoff
    · simp [toGo, hb, Ap.toGo]
  case poll i count =>
    have he := h.expected i hv.1 hv.2.1
    rw [hb, Expected, if_neg (lt_irrefl i), if_pos rfl] at he
    obtain hst | hsys := he
    · obtain ⟨t, ht, hbt, hlt⟩ := h.starting_step hv.1 hv.2.1 hst
      refine hother i ⟨t, ht, hbt, ?_⟩
      simp only [toGo, hbt, hb]
      omega
    · rw [if_pos hsys] at hv
      refine hboot { s with boot := .start_aps (i + 1) } ?_ trivial ?_
      · simp only [bootStep, hb]
        rw [if_neg halive, if_neg (not_not.mpr hv.2.2.2)]
      · simp only [toGo, hb, hsys, Ap.toGo]
        omega
  case hooked =>
    refine hboot { s with boot := .transfer_aps 1 } ?_ trivial ?_
    · rw [bootStep, hb]
    · have := C.one_le
      simp only [toGo, hb]
      omega
  case transfer_aps i =>
    by_cases hlt : i < C.num_cpu
    · refine hboot { s with pending := 1, boot := .available i } ?_ trivial ?_
      · rw [bootStep, hb]
        exact if_pos hlt
      · simp [toGo, hb]
    · refine hboot { s with boot := .startnext } ?_ trivial ?_
      · rw [bootStep, hb]
        exact if_neg hlt
      · simp [toGo, hb]
  case available i =>
    refine hboot { s with syspage_available := i, boot := .pending i } ?_ trivial ?_
    · rw [bootStep, hb]
    · have he := h.expected i hv.1 hv.2.1
      rw [hb, Expected, if_neg (lt_irrefl i)] at he
      simp [toGo, hb, he, Ap.toGo]
  case pending i =>
    by_cases hloop : (s.ap (C.psci_cpu_id i)).inLoop = true
    · rw [if_pos hloop] at hv
      refine hboot { s with boot := .transfer_aps (i + 1) } ?_ trivial ?_
      · simp only [bootStep, hb]
        rw [if_neg (not_not.mpr hv.2.2.2)]
      · have hpos : 1 ≤ (s.ap (C.psci_cpu_id i)).toGo := by
          unfold Ap.toGo
          split <;> omega
        simp only [toGo, hb]
        omega
    · obtain ⟨t, ht, hbt, hlt⟩ := h.passing_step hv.1 hv.2.1 hb (Bool.eq_false_iff.mpr hloop)
      refine hother i ⟨t, ht, hbt, ?_⟩
      simp only [toGo, hbt, hb]
      omega
  case ap_fail i => exact halive.elim
  case startnext => exact absurd hb hgoal

theorem apStep_boot {s t : State} {c : ℕ} (hs : apStep c s = some t) : t.boot = s.boot := by
  rw [apStep] at hs
  cases hc : s.ap c <;> rw [hc] at hs <;> dsimp only at hs <;> try split_ifs at hs
  all_goals
    cases hs
    try rfl

/-- Once `ap_fail` is called, or is bound to be by the next poll, the kernel is not started. -/
theorem dead_step {C : Cores} {s t : State} {e : Action} (h : ¬ s.boot.alive ∧ s.boot ≠ .startnext)
    (hs : Smp.step C s e = some t) : ¬ t.boot.alive ∧ t.boot ≠ .startnext := by
  obtain ⟨hdead, hne⟩ := h
  cases e with
  | boot =>
      rw [Smp.step, bootStep] at hs
      cases hb : s.boot <;> rw [hb] at hs hdead <;> try exact absurd trivial hdead
      case poll i count =>
        simp only [if_pos (not_not.mp hdead)] at hs
        cases hs
        exact ⟨id, by simp⟩
      case ap_fail => cases hs
  | refuse =>
      rw [Smp.step, refuseStep] at hs
      cases hb : s.boot <;> rw [hb] at hs hdead <;> cases hs
      exact absurd trivial hdead
  | ap c =>
      rw [apStep_boot hs]
      exact ⟨hdead, hne⟩
  | lose c =>
      cases hs
      exact ⟨hdead, hne⟩
  | kernel v =>
      rw [Smp.step, kernelStep] at hs
      cases hb : s.boot <;> rw [hb] at hs <;> cases hs
      exact absurd hb hne

/-- **No core is left behind**: when the kernel is started, every core is in the spin loop.  And
**nobody waits for ever**: from wherever the cores have got to, the kernel can still be started,
unless `ap_fail` was called, or the next poll is the last of `2 ^ 32`. -/
theorem transfer_aps_complete {C : Cores} {s : State} (h : Reachable (step C) initial s) :
    (s.boot = .startnext → ∀ j, 1 ≤ j → j < C.num_cpu → (s.ap (C.psci_cpu_id j)).inLoop = true) ∧
      ((∃ t, Reachable (step C) s t ∧ t.boot = .startnext) ↔ s.boot.alive) := by
  have hI := inv_of_reachable h
  refine ⟨?_, ?_, ?_⟩
  · intro hb j h1 hj
    have he := hI.expected j h1 hj
    rwa [hb] at he
  · rintro ⟨t, hr, ht⟩
    by_contra hdead
    have hne : s.boot ≠ .startnext := by
      intro hb
      rw [hb] at hdead
      exact hdead trivial
    exact (hr.invariant (I := fun s => ¬ s.boot.alive ∧ s.boot ≠ .startnext)
      (fun _ _ _ hd hs => dead_step hd hs) ⟨hdead, hne⟩).2 ht
  · intro halive
    obtain ⟨t, hr, -, ht⟩ :=
      Reachable.leads (I := fun s => Inv C s ∧ s.boot.alive) (G := fun s => s.boot = .startnext)
      (toGo C) (fun s hs hG => hs.1.nearer hs.2 hG) ⟨hI, halive⟩
    exact ⟨t, hr, ht⟩

/-- The kernel can be started on all four cores. -/
theorem transfer_aps_complete_four :
    ∃ t, Reachable (step (bcm2712 4)) initial t ∧ t.boot = .startnext :=
  (transfer_aps_complete (Reachable.refl _)).2.mpr trivial

end Startup.Smp
