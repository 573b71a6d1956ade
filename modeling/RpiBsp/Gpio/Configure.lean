import Mathlib.Data.List.Nodup
import RpiBsp.Gpio.PinList
import RpiBsp.Support.Registers

/-!
# Gpio — configuring pins

What `gpio-rp1` and `gpio-bcm` have in common between their command line and their registers: `set`
sets the pins of its list, one after the other.

* `Acts` — a call changes one pin, and no bit of a register that is not its own;
* `exec_each` — calls for different pins change each of them once;
* `configures` — so does the program, for a list of pins and options that it takes.
-/

namespace Gpio

open Support

/-- What the calls do to the registers; a pin that is read leaves them as they are. -/
def exec {M α : Type*} (gpio_get : ℕ → M → Option α) (gpio_set : ℕ → Options → M → Option M) :
    List Call → M → Option M
  | [], m => some m
  | .gpio_get pinnum :: calls, m => (gpio_get pinnum m).bind fun _ => exec gpio_get gpio_set calls m
  | .gpio_set pinnum o :: calls, m =>
      (gpio_set pinnum o m).bind fun m => exec gpio_get gpio_set calls m

/-! ### The options -/

/-- What the options of `set` can ask for. -/
structure Options.Known (o : Options) : Prop where
  func_sel : o.func_sel = FUNC_UNSET ∨ o.func_sel ≤ 8 ∨ o.func_sel = FUNC_IP ∨
    o.func_sel = FUNC_OP ∨
    o.func_sel = FUNC_GP ∨ o.func_sel = FUNC_NO
  drive : o.drive = DRIVE_UNSET ∨ o.drive = DRIVE_LOW ∨ o.drive = DRIVE_HIGH
  pull : o.pull = PULL_UNSET ∨ o.pull ≤ PULL_UP

theorem optionTable_known {row : String × (Options → Options)} (hrow : row ∈ optionTable)
    {o : Options} (h : o.Known) :
    (row.2 o).Known := by
  obtain ⟨hfunc, hdrive, hpull⟩ := h
  simp only [optionTable, List.mem_cons, List.not_mem_nil, or_false] at hrow
  rcases hrow with rfl | rfl | rfl | rfl | rfl | rfl | rfl | rfl | rfl | rfl | rfl | rfl | rfl |
    rfl | rfl | rfl | rfl | rfl
  all_goals
    constructor <;> dsimp only
    · first | exact hfunc | decide
    · first | exact hdrive | decide
    · first | exact hpull | decide

theorem setOptions_known {args : List Text} {o o' : Options} (h : setOptions args o = some o')
    (ho : o.Known) :
    o'.Known := by
  induction args generalizing o with
  | nil =>
      cases h
      exact ho
  | cons arg args ih =>
      rw [setOptions] at h
      cases hfind : optionTable.find? fun row => row.1.toList = arg with
      | none =>
          rw [hfind] at h
          cases h
      | some row =>
          rw [hfind] at h
          exact ih h (optionTable_known (List.mem_of_find?_eq_some hfind) ho)

theorem unset_known : ({} : Options).Known := ⟨.inl rfl, .inl rfl, .inl rfl⟩

/-! ### Calls -/

section Acts

variable {N : ℕ} {ρ Pin α : Type*}

/-- Pin `pin` is changed by `g`, the others are as they were, and so is every bit that is not one of
its own. -/
structure Acts (Of : Fin N → BitField ρ → Prop) (pinOf : (ρ → BitVec 32) → Fin N → Pin)
    (pin : Fin N) (g : Pin → Pin) (m m' : ρ → BitVec 32) : Prop where
  here : pinOf m' pin = g (pinOf m pin)
  other : ∀ pin' ≠ pin, pinOf m' pin' = pinOf m pin'
  spares : Spares (Of pin) m m'

variable {Of : Fin N → BitField ρ → Prop} {pinOf : (ρ → BitVec 32) → Fin N → Pin}
    {set : Fin N → Options → Pin → Pin}
  {gpio_get : ℕ → (ρ → BitVec 32) → Option α} {gpio_set : ℕ → Options → (ρ → BitVec 32) →
  Option (ρ → BitVec 32)}

variable (gpio_get) in
/-- Each pin of a list without repetitions is changed once. -/
theorem exec_each {o : Options}
    (hset : ∀ pin m, ∃ m', gpio_set pin.val o m = some m' ∧ Acts Of pinOf pin (set pin o) m m') :
    ∀ (l : List ℕ) (m : ρ → BitVec 32), l.Nodup → (∀ pin ∈ l, pin < N) →
      ∃ m', exec gpio_get gpio_set (l.map fun pin => .gpio_set pin o) m = some m' ∧
        (∀ pin : Fin N, pin.val ∈ l → pinOf m' pin = set pin o (pinOf m pin)) ∧
        (∀ pin : Fin N, pin.val ∉ l → pinOf m' pin = pinOf m pin) ∧
        Spares (fun f => ∃ pin : Fin N, pin.val ∈ l ∧ Of pin f) m m' := by
  intro l
  induction l with
  | nil =>
      intro m _ _
      exact ⟨m, rfl, fun _ hpin => absurd hpin List.not_mem_nil, fun _ _ => rfl, .refl _ _⟩
  | cons a l ih =>
      intro m hnodup hlt
      obtain ⟨ha, hl⟩ := List.nodup_cons.mp hnodup
      rw [List.forall_mem_cons] at hlt
      obtain ⟨m₁, hm₁, hact⟩ := hset ⟨a, hlt.1⟩ m
      obtain ⟨m', hm', hin, hout, hspares⟩ := ih m₁ hl hlt.2
      refine ⟨m', ?_, ?_, ?_, ?_⟩
      · rw [List.map_cons, exec, hm₁, Option.bind_some, hm']
      · intro pin hpin
        by_cases heq : pin = ⟨a, hlt.1⟩
        · rw [hout pin (by rw [heq]; exact ha), heq, hact.here]
        · have hmem : pin.val ∈ l := (List.mem_cons.mp hpin).resolve_left fun h => heq (Fin.ext h)
          rw [hin pin hmem, hact.other pin heq]
      · intro pin hpin
        obtain ⟨hne, hnot⟩ := not_or.mp (mt List.mem_cons.mpr hpin)
        rw [hout pin hnot, hact.other pin fun h => hne (congrArg Fin.val h)]
      · refine (hact.spares.mono ?_).trans (hspares.mono ?_)
        · exact fun f hf => ⟨⟨a, hlt.1⟩, List.mem_cons_self, hf⟩
        · rintro f ⟨pin, hpin, hf⟩
          exact ⟨pin, List.mem_cons_of_mem a hpin, hf⟩

/-! ### The program -/

/-- What `set` does when it succeeds. -/
theorem run_set {pins : Text → Except Failure (BitVec 64)} {first max : ℕ} {argv : List Text}
    {calls : List Call}
    (hset : argv[1]? = some "set".toList)
    (h : run pins first max true argv = (.EXIT_SUCCESS, calls)) :
    ∃ pin_opt pin_mask o, argv[2]? = some pin_opt ∧ pins pin_opt = .ok pin_mask ∧
      setOptions (argv.drop 3) {} = some o ∧
      calls = ((List.range' first (max - first)).filter fun pin =>
          pin_mask = 0 ∨ pin_mask.getLsbD pin).map
        fun pin => .gpio_set pin o := by
  have hget : ¬ argv[1]? = some "get".toList := by
    rw [hset]
    decide
  have hfuncs : ¬ argv[1]? = some "funcs".toList := by
    rw [hset]
    decide
  unfold run at h
  dsimp only at h
  by_cases hnone : argv.length < 2
  · rw [if_pos hnone] at h
    cases h
  rw [if_neg hnone, if_neg fun hno => hno.1 hset, if_neg fun hor => hor.1.elim hget hfuncs] at h
  by_cases hargc : argv.length < 4
  · rw [if_pos ⟨hset, hargc⟩] at h
    cases h
  · rw [if_neg fun hno => hargc hno.2] at h
    obtain ⟨pin_opt, hopt⟩ : ∃ pin_opt, argv[2]? = some pin_opt :=
      ⟨argv[2], List.getElem?_eq_getElem (by omega)⟩
    rw [hopt, Option.elim_some] at h
    cases hpins : pins pin_opt with
    | error f =>
        rw [hpins] at h
        cases h
    | ok pin_mask =>
        rw [hpins] at h
        dsimp only at h
        rw [if_pos hset] at h
        cases ho : setOptions (argv.drop 3) {} with
        | none =>
            rw [ho] at h
            cases h
        | some o =>
            rw [ho] at h
            dsimp only at h
            rw [if_neg hfuncs, if_neg Bool.true_eq_false_eq_False] at h
            cases h
            exact ⟨pin_opt, pin_mask, o, hopt, hpins, rfl, by simp only [if_neg hget]⟩

/-- The pins of a list that is taken. -/
theorem pinLoop_marks {number : Text → Except Failure (ℕ × Text)} {rounds : ℕ} {pin_opt : Text}
    {pin_mask : BitVec 64} (hnumber : ∀ s pin rest, number s = .ok (pin, rest) → pin < 64)
    (h : pinLoop number number rounds pin_opt 0 = .ok pin_mask) :
    ∃ items, Ranges (Takes number) pin_opt items ∧ pin_mask ≠ 0 ∧
      ∀ pin, pin_mask.getLsbD pin = true ↔ ∃ item ∈ items, Spans item pin := by
  obtain ⟨items, hitems, rfl⟩ := pinLoop_ok h
  have hroom := hitems.forall_mem (p := fun pin => pin < 64) hnumber
  have hmarks : ∀ pin,
      (items.foldl (fun pin_mask item => mark pin_mask (ordered item)) (0 : BitVec 64)).getLsbD
        pin =
      true ↔ ∃ item ∈ items, Spans item pin := by
    intro pin
    rw [foldl_mark_getLsbD hroom]
    simp
  refine ⟨items, hitems, ?_, hmarks⟩
  intro hzero
  obtain ⟨item, hitem⟩ := List.exists_mem_of_ne_nil items hitems.ne_nil
  have hbit := (hmarks item.1).mpr ⟨item, hitem, min_le_left _ _, le_max_left _ _⟩
  rw [hzero] at hbit
  simp at hbit

/-- **What `set` comes to**: each pin that the list names is set as the options say, once, and no
other pin is, nor any bit that belongs to none. -/
theorem configures {number : Text → Except Failure (ℕ × Text)}
    {pins : Text → Except Failure (BitVec 64)}
    (hpins : ∀ s, pins s = pinLoop number number (s.length + 1) s 0)
    (hnumber : ∀ s pin rest, number s = .ok (pin, rest) → pin < 64)
    (hset : ∀ pin o m, o.Known → ∃ m', gpio_set pin.val o m = some m' ∧
    Acts Of pinOf pin (set pin o) m m')
    {argv : List Text} {calls : List Call} (hargv : argv[1]? = some "set".toList)
    (h : run pins 0 N true argv = (.EXIT_SUCCESS, calls)) (m : ρ → BitVec 32) :
    ∃ pin_opt items o m', argv[2]? = some pin_opt ∧ Ranges (Takes number) pin_opt items ∧
      setOptions (argv.drop 3) {} = some o ∧ exec gpio_get gpio_set calls m = some m' ∧
      (∀ pin : Fin N, (∃ item ∈ items, Spans item pin) → pinOf m' pin = set pin o (pinOf m pin)) ∧
      (∀ pin : Fin N, (¬ ∃ item ∈ items, Spans item pin) → pinOf m' pin = pinOf m pin) ∧
      Spares (fun f => ∃ pin : Fin N, (∃ item ∈ items, Spans item pin) ∧ Of pin f) m m' := by
  obtain ⟨pin_opt, pin_mask, o, hopt, hmask, ho, rfl⟩ := run_set hargv h
  rw [hpins] at hmask
  obtain ⟨items, hitems, hne, hmarks⟩ := pinLoop_marks hnumber hmask
  have hmem : ∀ pin : Fin N,
      pin.val ∈ ((List.range' 0 (N - 0)).filter fun pin => pin_mask = 0 ∨ pin_mask.getLsbD pin) ↔
      ∃ item ∈ items, Spans item pin := by
    intro pin
    rw [List.mem_filter, decide_eq_true_eq, ← hmarks, List.mem_range'_1]
    have := pin.isLt
    exact ⟨fun hin => hin.2.resolve_left hne, fun hbit => ⟨by omega, .inr hbit⟩⟩
  have hknown : o.Known := setOptions_known ho unset_known
  obtain ⟨m', hm', hin, hout, hspares⟩ := exec_each gpio_get (fun pin m => hset pin o m hknown)
    ((List.range' 0 (N - 0)).filter fun pin => pin_mask = 0 ∨ pin_mask.getLsbD pin) m
    (List.Nodup.filter _ List.nodup_range') (by
      intro pin hpin
      have := List.mem_range'_1.mp (List.mem_filter.mp hpin).1
      omega)
  refine ⟨pin_opt, items, o, m', hopt, hitems, ho, hm', ?_, ?_, ?_⟩
  · exact fun pin hpin => hin pin ((hmem pin).mpr hpin)
  · exact fun pin hpin => hout pin (mt (hmem pin).mp hpin)
  · refine hspares.mono ?_
    rintro f ⟨pin, hpin, hf⟩
    exact ⟨pin, (hmem pin).mp hpin, hf⟩

end Acts

end Gpio
