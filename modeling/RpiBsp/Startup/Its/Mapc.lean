import Mathlib.Algebra.GroupWithZero.Nat
import Mathlib.Algebra.Ring.Int.Defs
import Mathlib.Data.Nat.Bitwise
import Mathlib.Order.CompletePartialOrder
import Mathlib.Tactic.Common
import RpiBsp.Startup.Its.Definitions
import RpiBsp.Support.Word

/-!
# Startup — ITS — mapping a collection

`gic_v3_its_mapc` puts three commands into the command queue of the ITS and tells it by GITS_CWRITER
that they are there.  What it does is a list of events, in the order in which they happen.

* `issue_of_le`, `issue_of_lt` — the commands, and the one flush that follows, without a wrap and
with one;
* `full_of_fits`, `fits_of_full` — what a run that gets as far as the commands has done;
* `mapc_iff` — **main**: the commands are the right ones and are flushed in time just if the ring
  does not wrap before the last of them, and what is left of the redistributor's address in 32 bits
  leads to the same target.

The address of the queue is that in GITS_CBASER, reached one to one.
-/

namespace Startup.Its

open Support

/-! ### Definitions -/

/-- What reaches the memory, the cache and the registers. -/
inductive Event where
  | ctlr (value : ℕ)
  | store (addr value : ℕ)
  | flush (start len : ℕ)
  | cwriter (value : ℕ)
deriving DecidableEq, Repr

namespace Event

def store? : Event → Option (ℕ × ℕ)
  | .store a v => some (a, v)
  | _ => none

end Event

/-- What the registers give.  GITS_CTLR and GITS_CREADR change by themselves, and GITS_CWRITER comes
back with any low bits. -/
structure Registers where
  ctlr : ℕ → ℕ
  cbaser : ℕ
  cwriter : ℕ
  cwriterLow : ℕ → ℕ
  creader : ℕ → ℕ
  typer : ℕ
  /-- GICR_TYPER of the redistributor at an address. -/
  gicr_typer : ℕ → ℕ

def pta_bit (typer : ℕ) : ℕ := (typer >>> 19) &&& 1

def processor_num (gicr_typer : ℕ) : ℕ := (gicr_typer >>> 8) &&& 0xFFFF

def RDbase_mask : ℕ := (2 ^ 52 - 1) ^^^ 0xFFFF

def RDbase (g : Registers) (gicr_base_for_cpu : ℕ) : ℕ :=
  if pta_bit g.typer = 1 then gicr_base_for_cpu
  else uint (processor_num (g.gicr_typer gicr_base_for_cpu) <<< max 16 (icid_bits g.typer))

/-- Where the next word goes. -/
structure Cursor where
  cur_slot : ℕ
  q : ℕ
deriving DecidableEq, Repr

def next_cmd_q_slot (num_slots q_base : ℕ) (c : Cursor) : Cursor :=
  let next_slot := uint (c.cur_slot + 1) % num_slots
  ⟨next_slot, if next_slot = 0 then q_base else c.q⟩

/-- The words of a command, one behind the other. -/
def words : ℕ → List ℕ → List Event
  | _, [] => []
  | q, w :: ws => .store q w :: words (q + 8) ws

def dcache_flush (start len : ℕ) : List Event := if len > 0 then [.flush start len] else []

/-- The three commands and the flush, and the slot for GITS_CWRITER. -/
def issue (q_base num_slots cur_slot icid RDbase : ℕ) : List Event × ℕ :=
  let q := q_base + uint (cur_slot * 32)
  let mapc := words q [0x9, 0, icid ||| RDbase ||| 1 <<< 63, 0]
  let c := next_cmd_q_slot num_slots q_base ⟨cur_slot, q + 32⟩
  let sync := words c.q [0x5, 0, RDbase, 0]
  let c := next_cmd_q_slot num_slots q_base ⟨c.cur_slot, c.q + 32⟩
  let invall := words c.q [0xD, 0, icid, 0]
  let flush := dcache_flush q (subW 64 (c.q + 32) q)
  (mapc ++ sync ++ invall ++ flush,
    (next_cmd_q_slot num_slots q_base ⟨c.cur_slot, c.q + 32⟩).cur_slot)

/-- The loop that waits for the ITS; `written` is what GITS_CWRITER was given.  The second part is
the assertion. -/
def wait (g : Registers) : ℕ → ℕ → ℕ → List Event × Bool
  | 0, _, _ => ([], false)
  | tries + 1, i, written =>
    let creader := g.creader i
    let cwriter := written / 32 * 32 + g.cwriterLow i % 32
    if creader = cwriter then ([], true)
    else if creader &&& 1 ≠ 0 then
      let rest := wait g tries (i + 1) (cwriter ||| 1)
      (.cwriter (cwriter ||| 1) :: rest.1, rest.2)
    else wait g tries (i + 1) written

def enable (fuel : ℕ) (g : Registers) : Option (List Event) :=
  if g.ctlr 0 &&& 1 = 0 then (quiescent g.ctlr fuel 0).map fun gits_ctlr =>
    [.ctlr (gits_ctlr ||| 1)]
  else some []

def its_cmd_q_num_slots (num_4k_pages : ℕ) : ℕ := uint (num_4k_pages * 4096) / 32

/-- The events, and whether no assertion failed; `none` if the ITS is not quiescent in time.  The
caller has the address of the redistributor in 64 bits. -/
def gic_v3_its_mapc (fuel : ℕ) (g : Registers) (num_4k_pages cpu gicr_base : ℕ) :
    Option (List Event × Bool) :=
  (enable fuel g).map fun enabling =>
    let gicr_base_for_cpu := uint gicr_base
    let num_slots := its_cmd_q_num_slots num_4k_pages
    let q_base := g.cbaser &&& 0xFFFFFFFFFF000
    let icid_mask := 1 <<< icid_bits g.typer - 1
    let cur_slot := uint (g.cwriter / 32)
    if cur_slot < num_slots then
      let issued := issue q_base num_slots cur_slot (cpu &&& icid_mask)
        (RDbase g gicr_base_for_cpu &&& RDbase_mask)
      let cwriter := uint (issued.2 * 32) ||| 1
      let waited := wait g 255 0 cwriter
      (enabling ++ issued.1 ++ .cwriter cwriter :: waited.1, waited.2)
    else (enabling, false)

/-! ### What it is for -/

/-- What the commands name: the redistributor's address, or its processor number from bit 16 on. -/
def target (g : Registers) (gicr_base : ℕ) : ℕ :=
  if pta_bit g.typer = 1 then gicr_base else processor_num (g.gicr_typer gicr_base) * 2 ^ 16

/-- The words of a command in a slot of the ring. -/
def slotWords (q_base slots slot : ℕ) (ws : List ℕ) : List (ℕ × ℕ) :=
  (words (q_base + 32 * (slot % slots)) ws).filterMap Event.store?

/-- MAPC, SYNC and INVALL in three slots of a ring. -/
def commands (q_base slots slot cpu rd : ℕ) : List (ℕ × ℕ) :=
  slotWords q_base slots slot [0x9, 0, 2 ^ 63 + rd + cpu, 0] ++
    slotWords q_base slots (slot + 1) [0x5, 0, rd, 0] ++ slotWords q_base slots (slot + 2)
      [0xD, 0, cpu, 0]

/-- What is flushed before GITS_CWRITER is written. -/
def flushes : List Event → List (ℕ × ℕ)
  | [] => []
  | .flush start len :: t => (start, len) :: flushes t
  | .cwriter _ :: _ => []
  | _ :: t => flushes t

/-- Every byte that is stored is flushed after that and before GITS_CWRITER is written. -/
def Published : List Event → Prop
  | [] => True
  | .store a _ :: t => (∀ i < 8, ∃ f ∈ flushes t, f.1 ≤ a + i ∧ a + i < f.1 + f.2) ∧ Published t
  | .cwriter _ :: t => t.filterMap Event.store? = [] ∧ Published t
  | _ :: t => Published t

/-- The slot in GITS_CWRITER. -/
def slotAfter : ℕ → List Event → ℕ
  | slot, [] => slot
  | _, .cwriter v :: t => slotAfter (v / 32) t
  | slot, _ :: t => slotAfter slot t

/-- The commands for `cpu` are in the queue and the ITS has been told. -/
structure Maps (g : Registers) (num_4k_pages cpu gicr_base : ℕ) (t : List Event) : Prop where
  stores : t.filterMap Event.store? =
    commands (g.cbaser &&& 0xFFFFFFFFFF000) (128 * num_4k_pages) (g.cwriter / 32) cpu
      (target g gicr_base)
  published : Published t
  slot : slotAfter (g.cwriter / 32) t = (g.cwriter / 32 + 3) % (128 * num_4k_pages)

/-- The ITS is enabled, or says that it is quiescent. -/
def Enables (g : Registers) : Prop := g.ctlr 0 &&& 1 ≠ 0 ∨ ∃ i, (g.ctlr i >>> 31) &&& 1 ≠ 0

/-- The three slots are in one piece, and the size of the queue in bytes fits in 32 bits as far as
it matters. -/
def Fits (num_4k_pages slot : ℕ) : Prop :=
  slot + 3 ≤ its_cmd_q_num_slots num_4k_pages ∧
    (slot + 3 < its_cmd_q_num_slots num_4k_pages ∨ num_4k_pages < 2 ^ 20)

/-- The lower half of the redistributor's address is enough. -/
def Narrow (g : Registers) (gicr_base : ℕ) : Prop :=
  if pta_bit g.typer = 1 then gicr_base < 2 ^ 32
  else processor_num (g.gicr_typer (uint gicr_base)) = processor_num (g.gicr_typer gicr_base)

/-! ### The fields -/

theorem processor_num_lt (gicr_typer : ℕ) : processor_num gicr_typer < 2 ^ 16 :=
  Nat.lt_of_le_of_lt Nat.and_le_right (by decide)

theorem icid_and_mask {b cpu : ℕ} (h : cpu < 2 ^ b) : cpu &&& (1 <<< b - 1) = cpu := by
  rw [Nat.one_shiftLeft, Nat.and_two_pow_sub_one_eq_mod, Nat.mod_eq_of_lt h]

theorem and_RDbase_mask {r : ℕ} (h : r < 2 ^ 36) : r * 2 ^ 16 &&& RDbase_mask = r * 2 ^ 16 := by
  have hmask : RDbase_mask = (2 ^ 36 - 1) * 2 ^ 16 := by decide
  rw [hmask, and_field, Nat.mul_div_cancel _ (by decide), Nat.mod_eq_of_lt h]

/-- The code's target is the right one. -/
theorem and_RDbase_eq_iff {g : Registers} {r : ℕ} (hr : r < 2 ^ 36) :
    RDbase g (uint (r * 2 ^ 16)) &&& RDbase_mask = target g (r * 2 ^ 16) ↔
    Narrow g (r * 2 ^ 16) := by
  by_cases hpta : pta_bit g.typer = 1
  · have huint : uint (r * 2 ^ 16) = r % 2 ^ 16 * 2 ^ 16 := by rw [uint]; omega
    simp only [RDbase, target, Narrow, hpta, if_true, huint]
    rw [and_RDbase_mask (by omega)]
    omega
  · have hmax : max 16 (icid_bits g.typer) = 16 := Nat.max_eq_left (icid_bits_le _)
    have hlt := processor_num_lt (g.gicr_typer (uint (r * 2 ^ 16)))
    simp only [RDbase, target, Narrow, hpta, if_false, hmax, Nat.shiftLeft_eq]
    rw [uint_of_lt (by omega), and_RDbase_mask (by omega)]
    omega

theorem exists_target {g : Registers} {r : ℕ} (hr : r < 2 ^ 36) :
    ∃ k < 2 ^ 36, target g (r * 2 ^ 16) = k * 2 ^ 16 := by
  rw [target]
  split
  · exact ⟨r, hr, rfl⟩
  · exact ⟨_, (processor_num_lt _).trans (by decide), rfl⟩

/-- The fields of MAPC do not meet. -/
theorem mapc_word {cpu r : ℕ} (hcpu : cpu < 2 ^ 16) (hr : r < 2 ^ 36) :
    cpu ||| r * 2 ^ 16 ||| 1 <<< 63 = 2 ^ 63 + r * 2 ^ 16 + cpu := by
  have hlow : cpu ||| r * 2 ^ 16 = 2 ^ 16 * r + cpu := by
    rw [Nat.two_pow_add_eq_or_of_lt hcpu, Nat.mul_comm, Nat.lor_comm]
  have hlt : 2 ^ 16 * r + cpu < 2 ^ 63 := by omega
  have hhigh := Nat.two_pow_add_eq_or_of_lt hlt 1
  rw [hlow, Nat.one_shiftLeft, Nat.lor_comm]
  rw [Nat.mul_one] at hhigh
  omega

/-! ### The commands -/

variable {q_base m s icid rd : ℕ}

theorem next_of_lt {q : ℕ} (h : s + 1 < m) (hm : m < 2 ^ 32) :
    next_cmd_q_slot m q_base ⟨s, q⟩ = ⟨s + 1, q⟩ := by
  have hnext : uint (s + 1) % m = s + 1 := by rw [uint_of_lt (by omega), Nat.mod_eq_of_lt h]
  simp [next_cmd_q_slot, hnext]

theorem next_of_eq {q : ℕ} (h : s + 1 = m) (hm : m < 2 ^ 32) :
    next_cmd_q_slot m q_base ⟨s, q⟩ = ⟨0, q_base⟩ := by
  have hnext : uint (s + 1) % m = 0 := by rw [uint_of_lt (by omega), h, Nat.mod_self]
  simp [next_cmd_q_slot, hnext]

theorem next_cur_slot {q : ℕ} (h : s < m) (hm : m < 2 ^ 32) :
    (next_cmd_q_slot m q_base ⟨s, q⟩).cur_slot = (s + 1) % m := by
  change uint (s + 1) % m = _
  rw [uint_of_lt (by omega)]

theorem slot_offset (hm : m < 2 ^ 27) (h : s < m) : uint (s * 32) = 32 * s := by
  rw [uint_of_lt (by omega), Nat.mul_comm]

/-- Without a wrap before the last command one flush takes them all. -/
theorem issue_of_le (h : s + 3 ≤ m) (hm : m < 2 ^ 27) (hq : q_base < 2 ^ 52) :
    issue q_base m s icid rd =
      (words (q_base + 32 * s) [0x9, 0, icid ||| rd ||| 1 <<< 63, 0] ++
          words (q_base + 32 * (s + 1)) [0x5, 0, rd, 0] ++ words (q_base + 32 * (s + 2))
            [0xD, 0, icid, 0] ++
          [.flush (q_base + 32 * s) 96], (s + 3) % m) := by
  have hs : uint (s * 32) = 32 * s := by rw [uint, Nat.mod_eq_of_lt (by omega), Nat.mul_comm]
  have h₁ : next_cmd_q_slot m q_base ⟨s, q_base + 32 * s + 32⟩ =
      ⟨s + 1, q_base + 32 * (s + 1)⟩ := by
    rw [next_of_lt (by omega) (by omega)]; congr 1
  have h₂ : next_cmd_q_slot m q_base ⟨s + 1, q_base + 32 * (s + 1) + 32⟩ =
      ⟨s + 2, q_base + 32 * (s + 2)⟩ := by
    rw [next_of_lt (by omega) (by omega)]; congr 1
  have hlen : subW 64 (q_base + 32 * (s + 2) + 32) (q_base + 32 * s) = 96 := by
    rw [subW_of_le (by omega) (by omega)]; omega
  simp only [issue, hs, h₁, h₂, hlen, next_cur_slot (show s + 2 < m by omega) (by omega)]
  rfl

/-- With a wrap one command is in the first slot. -/
theorem issue_of_lt (h : s < m) (h3 : m < s + 3) (hm : m < 2 ^ 27) :
    ∃ w, .store q_base w ∈ (issue q_base m s icid rd).1 := by
  simp only [issue]
  by_cases h₁ : s + 1 = m
  · rw [next_of_eq h₁ (by omega)]
    exact ⟨0x5, by simp [words]⟩
  · rw [next_of_lt (by omega) (by omega), next_of_eq (show s + 1 + 1 = m by omega) (by omega)]
    exact ⟨0xD, by simp [words]⟩

theorem flush_notMem_words {start len : ℕ} (ws : List ℕ) (q : ℕ) :
    .flush start len ∉ words q ws := by
  induction ws generalizing q with
  | nil => exact List.not_mem_nil
  | cons w ws ih => simp [words, ih]

/-- The one flush starts where the first command does. -/
theorem eq_of_flush_mem_issue {start len : ℕ}
    (h : .flush start len ∈ (issue q_base m s icid rd).1) :
    start = q_base + uint (s * 32) := by
  simp only [issue, List.mem_append, flush_notMem_words, false_or, dcache_flush] at h
  split at h
  · simp only [List.mem_singleton, Event.flush.injEq] at h
    exact h.1
  · simp at h

/-! ### Reading a run -/

variable {t t' : List Event}

theorem slotAfter_words (ws : List ℕ) (q slot : ℕ) :
    slotAfter slot (words q ws ++ t) = slotAfter slot t := by
  induction ws generalizing q with
  | nil => rfl
  | cons w ws ih => exact ih (q + 8)

theorem flushes_words (ws : List ℕ) (q : ℕ) : flushes (words q ws ++ t) = flushes t := by
  induction ws generalizing q with
  | nil => rfl
  | cons w ws ih => exact ih (q + 8)

/-- Words that a flush takes. -/
theorem published_words {ws : List ℕ} {q : ℕ} (h : Published t)
    (hf : ∃ f ∈ flushes t, f.1 ≤ q ∧ q + 8 * ws.length ≤ f.1 + f.2) :
      Published (words q ws ++ t) := by
  induction ws generalizing q with
  | nil => exact h
  | cons w ws ih =>
      obtain ⟨f, hf, hstart, hend⟩ := hf
      rw [List.length_cons] at hend
      refine ⟨fun i hi => ⟨f, ?_, by omega, by omega⟩, ih ⟨f, hf, by omega, by omega⟩⟩
      change f ∈ flushes (words (q + 8) ws ++ t)
      rwa [flushes_words]

/-- What is flushed before GITS_CWRITER is written is in front of it. -/
theorem mem_of_mem_flushes {f : ℕ × ℕ} {w : ℕ} (h : f ∈ flushes (t ++ .cwriter w :: t')) :
    .flush f.1 f.2 ∈ t := by
  induction t with
  | nil => simp [flushes] at h
  | cons e t ih =>
      cases e with
      | flush start len =>
          simp only [List.cons_append, flushes, List.mem_cons] at h ⊢
          rcases h with rfl | h
          · exact .inl rfl
          · exact .inr (ih h)
      | cwriter v => simp [flushes] at h
      | ctlr v => exact List.mem_cons_of_mem _ (ih h)
      | store a v => exact List.mem_cons_of_mem _ (ih h)

/-- Of a published word the first byte is in a flush. -/
theorem Published.flush_of_mem {a v : ℕ} (h : Published t) (ha : .store a v ∈ t) :
    ∃ f ∈ flushes t, f.1 ≤ a := by
  induction t with
  | nil => simp at ha
  | cons e t ih =>
      cases e with
      | store b w =>
          rcases List.mem_cons.mp ha with heq | hmem
          · cases heq
            obtain ⟨f, hf, hle, -⟩ := h.1 0 (by decide)
            exact ⟨f, hf, hle⟩
          · exact ih h.2 hmem
      | cwriter w =>
          have hmem : (a, v) ∈ t.filterMap Event.store? :=
            List.mem_filterMap.mpr ⟨_, by simpa using ha, rfl⟩
          rw [h.1] at hmem
          simp at hmem
      | ctlr w => exact ih h (by simpa using ha)
      | flush start len =>
          obtain ⟨f, hf, hle⟩ := ih h (by simpa using ha)
          exact ⟨f, List.mem_cons_of_mem _ hf, hle⟩

theorem or_one_div (x : ℕ) : (x ||| 1) / 32 = x / 32 := by
  have h : (x ||| 1) >>> 5 = x >>> 5 := by simp [Nat.shiftRight_or_distrib]
  simpa [Nat.shiftRight_eq_div_pow] using h

/-- While it waits, the code writes the slot again at most. -/
theorem wait_spec (g : Registers) (tries i written : ℕ) :
    (wait g tries i written).1.filterMap Event.store? = [] ∧ Published (wait g tries i written).1 ∧
      ∀ slot, slotAfter slot (wait g tries i written).1 = slot ∨
        slotAfter slot (wait g tries i written).1 = written / 32 := by
  induction tries generalizing i written with
  | zero => exact ⟨rfl, trivial, fun slot => .inl rfl⟩
  | succ tries ih =>
      simp only [wait]
      split
      · exact ⟨rfl, trivial, fun slot => .inl rfl⟩
      · split
        · have hslot : ((written / 32 * 32 + g.cwriterLow i % 32) ||| 1) / 32 = written / 32 := by
            rw [or_one_div]; omega
          obtain ⟨hstore, hpub, hlast⟩ :=
            ih (i + 1) ((written / 32 * 32 + g.cwriterLow i % 32) ||| 1)
          refine ⟨hstore, ⟨hstore, hpub⟩, fun slot => .inr ?_⟩
          rw [hslot] at hlast
          simp only [slotAfter, hslot]
          rcases hlast (written / 32) with h | h <;> exact h
        · exact ih (i + 1) written

/-- Enabling the ITS is nothing but a write of GITS_CTLR. -/
theorem enable_eq_some {fuel : ℕ} {g : Registers} (h : enable fuel g = some t) :
    t = [] ∨ ∃ v, t = [.ctlr v] := by
  rw [enable] at h
  split at h
  · obtain ⟨v, -, rfl⟩ := Option.map_eq_some_iff.mp h
    exact .inr ⟨_, rfl⟩
  · exact .inl (Option.some.inj h).symm

theorem store?_enabling {enabling : List Event} (he : enabling = [] ∨ ∃ v, enabling = [.ctlr v]) :
    enabling.filterMap Event.store? = [] := by
  rcases he with rfl | ⟨v, rfl⟩ <;> rfl

theorem slotAfter_enabling {enabling : List Event} (he : enabling = [] ∨ ∃ v, enabling = [.ctlr v])
    (slot : ℕ) :
    slotAfter slot (enabling ++ t) = slotAfter slot t := by
  rcases he with rfl | ⟨v, rfl⟩ <;> rfl

theorem exists_enable {g : Registers} : (∃ fuel t, enable fuel g = some t) ↔ Enables g := by
  rw [Enables]
  by_cases h : g.ctlr 0 &&& 1 = 0
  · have hq := @exists_quiescent g.ctlr 0
    simp only [Nat.zero_add] at hq
    simp only [enable, h, if_true, Option.map_eq_some_iff, ne_eq, not_true_eq_false, false_or]
    rw [← hq]
    constructor
    · rintro ⟨fuel, t, v, hv, -⟩; exact ⟨fuel, v, hv⟩
    · rintro ⟨fuel, v, hv⟩; exact ⟨fuel, _, v, hv, rfl⟩
  · exact ⟨fun _ => .inl h, fun _ => ⟨0, [], if_neg h⟩⟩

/-! ### The run -/

/-- The stores of the commands are those of three cursors. -/
theorem store?_issue : ∃ q₁ q₂, (issue q_base m s icid rd).1.filterMap Event.store? =
    (words (q_base + uint (s * 32)) [0x9, 0, icid ||| rd ||| 1 <<< 63, 0]).filterMap Event.store? ++
      (words q₁ [0x5, 0, rd, 0]).filterMap Event.store? ++ (words q₂ [0xD, 0, icid, 0]).filterMap
        Event.store? := by
  have hflush (start len : ℕ) : (dcache_flush start len).filterMap Event.store? = [] := by
    rw [dcache_flush]
    split <;> rfl
  simp only [issue, List.filterMap_append, hflush, List.append_nil]
  exact ⟨_, _, rfl⟩

theorem slots_lt (n : ℕ) : its_cmd_q_num_slots n < 2 ^ 27 := by
  have : uint (n * 4096) < 2 ^ 32 := Nat.mod_lt _ (by decide)
  rw [its_cmd_q_num_slots]
  omega

theorem slots_le (n : ℕ) : its_cmd_q_num_slots n ≤ 128 * n := by
  have : uint (n * 4096) ≤ n * 4096 := Nat.mod_le _ _
  rw [its_cmd_q_num_slots]
  omega

theorem slots_eq_iff {n : ℕ} (hn : 0 < n) : its_cmd_q_num_slots n = 128 * n ↔ n < 2 ^ 20 := by
  refine ⟨fun h => ?_, fun h => ?_⟩
  · have := slots_lt n
    omega
  · rw [its_cmd_q_num_slots, uint_of_lt (by omega)]
    omega

/-- A queue has room for the commands, or for nothing. -/
theorem le_slots {n : ℕ} (h : 0 < its_cmd_q_num_slots n) : 128 ≤ its_cmd_q_num_slots n := by
  rw [its_cmd_q_num_slots, uint] at *
  omega

variable {g : Registers} {n cpu r : ℕ}

/-- The parts of a run that gets as far as the commands. -/
def full (enabling : List Event) (g : Registers) (n cpu gicr_base : ℕ) : List Event :=
  let issued := issue (g.cbaser &&& 0xFFFFFFFFFF000) (its_cmd_q_num_slots n) (uint (g.cwriter / 32))
    (cpu &&& 1 <<< icid_bits g.typer - 1) (RDbase g (uint gicr_base) &&& RDbase_mask)
  let cwriter := uint (issued.2 * 32) ||| 1
  enabling ++ issued.1 ++ .cwriter cwriter :: (wait g 255 0 cwriter).1

/-- Commands in three slots on end, all flushed, and a write of GITS_CWRITER. -/
theorem published_commands {q w : ℕ} {a b c : List ℕ} (ha : a.length = 4) (hb : b.length = 4)
    (hc : c.length = 4) (hstore : t.filterMap Event.store? = []) (h : Published t) :
    Published (words q a ++
      (words (q + 32) b ++ (words (q + 64) c ++ (.flush q 96 :: .cwriter w :: t)))) := by
  have hend : Published (.flush q 96 :: .cwriter w :: t) := ⟨hstore, h⟩
  refine published_words (published_words (published_words hend ?_) ?_) ?_
  · exact ⟨(q, 96), List.mem_cons_self, by omega, by omega⟩
  · rw [flushes_words]
    exact ⟨(q, 96), List.mem_cons_self, by omega, by omega⟩
  · rw [flushes_words, flushes_words]
    exact ⟨(q, 96), List.mem_cons_self, by omega, by omega⟩

theorem next_slot_eq (hn : 0 < n) (hfits : Fits n s) :
    (s + 3) % its_cmd_q_num_slots n = (s + 3) % (128 * n) := by
  rcases hfits.2 with hlt | hsmall
  · rw [Nat.mod_eq_of_lt hlt, Nat.mod_eq_of_lt (hlt.trans_le (slots_le n))]
  · rw [(slots_eq_iff hn).mpr hsmall]

theorem full_of_fits {gicr_base : ℕ} {enabling : List Event} (hcpu : cpu < 2 ^ icid_bits g.typer)
    (hfits : Fits n (g.cwriter / 32)) (hrd : RDbase g (uint gicr_base) &&& RDbase_mask = r * 2 ^ 16)
    (hr : r < 2 ^ 36) :
    full enabling g n cpu gicr_base =
      let q := (g.cbaser &&& 0xFFFFFFFFFF000) + 32 * (g.cwriter / 32)
      let w := (g.cwriter / 32 + 3) % its_cmd_q_num_slots n * 32 ||| 1
      enabling ++ (words q [0x9, 0, 2 ^ 63 + r * 2 ^ 16 + cpu, 0] ++
          (words (q + 32) [0x5, 0, r * 2 ^ 16, 0] ++
        (words (q + 64) [0xD, 0, cpu, 0] ++
          (.flush q 96 :: .cwriter w :: (wait g 255 0 w).1)))) := by
  have hm := slots_lt n
  have h3 := hfits.1
  have hs : uint (g.cwriter / 32) = g.cwriter / 32 := uint_of_lt (by omega)
  have hcpu16 : cpu < 2 ^ 16 := hcpu.trans_le (Nat.pow_le_pow_right (by decide) (icid_bits_le _))
  have hq : g.cbaser &&& 0xFFFFFFFFFF000 < 2 ^ 52 := Nat.lt_of_le_of_lt Nat.and_le_right (by decide)
  have hw : uint ((g.cwriter / 32 + 3) % its_cmd_q_num_slots n * 32) =
      (g.cwriter / 32 + 3) % its_cmd_q_num_slots n * 32 := by
    have := Nat.mod_lt (g.cwriter / 32 + 3) (show 0 < its_cmd_q_num_slots n by omega)
    exact uint_of_lt (by omega)
  rw [full, hs, issue_of_le hfits.1 hm hq, icid_and_mask hcpu, hrd, mapc_word hcpu16 hr]
  simp only [hw, List.append_assoc, List.cons_append, List.nil_append]
  rfl

theorem maps_of_fits {enabling : List Event} (he : enabling = [] ∨ ∃ v, enabling = [.ctlr v])
    (hn : 0 < n)
    (hcpu : cpu < 2 ^ icid_bits g.typer) (hr : r < 2 ^ 36) (hfits : Fits n (g.cwriter / 32))
    (hnarrow : Narrow g (r * 2 ^ 16)) :
      Maps g n cpu (r * 2 ^ 16) (full enabling g n cpu (r * 2 ^ 16)) := by
  have hle := slots_le n
  have h3 := hfits.1
  have hnext := next_slot_eq hn hfits
  obtain ⟨k, hk, htarget⟩ := @exists_target g r hr
  have hrd : RDbase g (uint (r * 2 ^ 16)) &&& RDbase_mask = k * 2 ^ 16 :=
    ((and_RDbase_eq_iff hr).mpr hnarrow).trans htarget
  rw [full_of_fits hcpu hfits hrd hk, hnext]
  obtain ⟨hstore, hpub, hlast⟩ := wait_spec g 255 0 ((g.cwriter / 32 + 3) % (128 * n) * 32 ||| 1)
  have hw : ((g.cwriter / 32 + 3) % (128 * n) * 32 ||| 1) / 32 = (g.cwriter / 32 + 3) %
      (128 * n) := by
    rw [or_one_div, Nat.mul_div_cancel _ (by decide)]
  have hcommands := published_commands (q := (g.cbaser &&& 0xFFFFFFFFFF000) + 32 * (g.cwriter / 32))
    (w := (g.cwriter / 32 + 3) % (128 * n) * 32 ||| 1) (a := [0x9, 0, 2 ^ 63 + k * 2 ^ 16 + cpu, 0])
    (b := [0x5, 0, k * 2 ^ 16, 0]) (c := [0xD, 0, cpu, 0]) rfl rfl rfl hstore hpub
  refine ⟨?_, ?_, ?_⟩
  · have hmod (i : ℕ) (hi : i < 3) : (g.cwriter / 32 + i) % (128 * n) = g.cwriter / 32 + i :=
      Nat.mod_eq_of_lt (by omega)
    simp only [List.filterMap_append, store?_enabling he, List.nil_append, commands, slotWords,
      htarget]
    rw [hmod 1 (by decide), hmod 2 (by decide), show g.cwriter / 32 % (128 * n) = g.cwriter /
      32 from hmod 0 (by decide)]
    simp only [List.filterMap_cons, Event.store?, hstore, List.append_nil, List.append_assoc]
    rfl
  · rcases he with rfl | ⟨v, rfl⟩
    · exact hcommands
    · exact hcommands
  · simp only [slotAfter_enabling he, slotAfter_words, slotAfter, hw]
    rw [hw] at hlast
    rcases hlast ((g.cwriter / 32 + 3) % (128 * n)) with h | h <;> exact h

/-- What the stores of a run that maps the collection say. -/
theorem Maps.commands_eq {enabling : List Event} {gicr_base : ℕ}
    (he : enabling = [] ∨ ∃ v, enabling = [.ctlr v])
    (hs : g.cwriter / 32 < 128 * n) (h : Maps g n cpu gicr_base (full enabling g n cpu gicr_base)) :
    uint (uint (g.cwriter / 32) * 32) = 32 * (g.cwriter / 32) ∧
      RDbase g (uint gicr_base) &&& RDbase_mask = target g gicr_base := by
  obtain ⟨hstore, -, -⟩ :=
    wait_spec g 255 0 (uint ((issue (g.cbaser &&& 0xFFFFFFFFFF000) (its_cmd_q_num_slots n)
    (uint (g.cwriter / 32)) (cpu &&& 1 <<< icid_bits g.typer - 1)
    (RDbase g (uint gicr_base) &&& RDbase_mask)).2 * 32) ||| 1)
  obtain ⟨q₁, q₂, hissue⟩ := @store?_issue (g.cbaser &&& 0xFFFFFFFFFF000) (its_cmd_q_num_slots n)
    (uint (g.cwriter / 32)) (cpu &&& 1 <<< icid_bits g.typer - 1)
      (RDbase g (uint gicr_base) &&& RDbase_mask)
  have hall := h.stores
  simp only [full, List.filterMap_append, store?_enabling he, List.nil_append, List.filterMap_cons,
    Event.store?, hstore, hissue, List.append_nil, commands, slotWords, Nat.mod_eq_of_lt hs] at hall
  simp only [words, List.filterMap_cons, Event.store?, List.filterMap_nil, List.cons_append,
    List.nil_append, List.cons.injEq, Prod.mk.injEq] at hall
  omega

theorem fits_of_full {enabling : List Event} (he : enabling = [] ∨ ∃ v, enabling = [.ctlr v])
    (hs : g.cwriter / 32 < 128 * n) (hr : r < 2 ^ 36)
    (hlt : uint (g.cwriter / 32) < its_cmd_q_num_slots n)
    (h : Maps g n cpu (r * 2 ^ 16) (full enabling g n cpu (r * 2 ^ 16))) :
    Fits n (g.cwriter / 32) ∧ Narrow g (r * 2 ^ 16) := by
  have hm := slots_lt n
  have hm128 := le_slots (show 0 < its_cmd_q_num_slots n by omega)
  obtain ⟨hoffset, hrd⟩ := h.commands_eq he hs
  rw [slot_offset hm hlt] at hoffset
  have hslot : uint (g.cwriter / 32) = g.cwriter / 32 := by omega
  refine ⟨?_, (and_RDbase_eq_iff hr).mp hrd⟩
  -- with a wrap, the first word of the queue is stored and lies in front of the flush
  have h3 : g.cwriter / 32 + 3 ≤ its_cmd_q_num_slots n := by
    by_contra hwrap
    obtain ⟨w, hw⟩ := @issue_of_lt (g.cbaser &&& 0xFFFFFFFFFF000) _ _
      (cpu &&& 1 <<< icid_bits g.typer - 1)
      (RDbase g (uint (r * 2 ^ 16)) &&& RDbase_mask) hlt (by omega) hm
    obtain ⟨f, hf, hle⟩ := h.published.flush_of_mem
      (List.mem_append_left _ (List.mem_append_right enabling hw))
    rcases List.mem_append.mp (mem_of_mem_flushes hf) with hmem | hmem
    · rcases he with rfl | ⟨v, rfl⟩ <;> simp at hmem
    · rw [eq_of_flush_mem_issue hmem, slot_offset hm hlt] at hle
      omega
  refine ⟨h3, ?_⟩
  by_contra hnot
  rw [not_or, Nat.not_lt, Nat.not_lt] at hnot
  have hend : (g.cwriter / 32 + 3) % its_cmd_q_num_slots n = 0 := by
    rw [show g.cwriter / 32 + 3 = its_cmd_q_num_slots n by omega, Nat.mod_self]
  have hpos : (g.cwriter / 32 + 3) % (128 * n) = g.cwriter / 32 + 3 := Nat.mod_eq_of_lt (by omega)
  have hcwriter := h.slot
  have hq : g.cbaser &&& 0xFFFFFFFFFF000 < 2 ^ 52 := Nat.lt_of_le_of_lt Nat.and_le_right (by decide)
  rw [full, hslot, issue_of_le h3 hm hq] at hcwriter
  simp only [hend, List.append_assoc, slotAfter_enabling he, slotAfter_words, List.cons_append,
    List.nil_append, slotAfter, hpos] at hcwriter
  obtain ⟨-, -, hlast⟩ := wait_spec g 255 0 (uint (0 * 32) ||| 1)
  rcases hlast ((uint (0 * 32) ||| 1) / 32) with
    h | h <;> rw [h] at hcwriter <;> simp [uint] at hcwriter

theorem mapc_eq_some {fuel gicr_base : ℕ} {run : List Event × Bool}
    (h : gic_v3_its_mapc fuel g n cpu gicr_base = some run) :
    ∃ enabling, (enabling = [] ∨ ∃ v, enabling = [.ctlr v]) ∧
      run.1 = if uint (g.cwriter / 32) < its_cmd_q_num_slots n then full enabling g n cpu gicr_base
        else enabling := by
  obtain ⟨enabling, henable, rfl⟩ := Option.map_eq_some_iff.mp h
  refine ⟨enabling, enable_eq_some henable, ?_⟩
  dsimp only
  split <;> rfl

theorem fits_of_maps {fuel : ℕ} {run : List Event × Bool} (hs : g.cwriter / 32 < 128 * n)
    (hr : r < 2 ^ 36)
    (hrun : gic_v3_its_mapc fuel g n cpu (r * 2 ^ 16) = some run)
    (h : Maps g n cpu (r * 2 ^ 16) run.1) :
    Fits n (g.cwriter / 32) ∧ Narrow g (r * 2 ^ 16) := by
  obtain ⟨enabling, he, heq⟩ := mapc_eq_some hrun
  rw [heq] at h
  split at h
  · exact fits_of_full he hs hr ‹_› h
  · -- the assertion on the slot: there are no commands
    have hnone := h.stores
    rw [store?_enabling he] at hnone
    simp [commands, slotWords, words, Event.store?] at hnone

theorem enables_of_run {fuel gicr_base : ℕ} {run : List Event × Bool}
    (hrun : gic_v3_its_mapc fuel g n cpu gicr_base = some run) : Enables g := by
  obtain ⟨enabling, henable, -⟩ := Option.map_eq_some_iff.mp hrun
  exact exists_enable.mp ⟨fuel, enabling, henable⟩

/-- **Mapping a collection.**  The three commands are in their slots with the fields of this CPU and
redistributor, all is flushed before the ITS is told, and GITS_CWRITER is three slots further, just
if the ITS can be enabled, the ring does not wrap before the last command and 32 bits of the
redistributor's address are enough. -/
theorem mapc_iff {gicr_base : ℕ} (hn : 0 < n) (hs : g.cwriter / 32 < 128 * n)
    (hcpu : cpu < 2 ^ icid_bits g.typer)
    (halign : 2 ^ 16 ∣ gicr_base) (hbase : gicr_base < 2 ^ 52) :
    (∃ fuel run, gic_v3_its_mapc fuel g n cpu gicr_base = some run ∧ Maps g n cpu gicr_base run.1) ↔
      Enables g ∧ Fits n (g.cwriter / 32) ∧ Narrow g gicr_base := by
  obtain ⟨r, rfl⟩ := halign
  rw [Nat.mul_comm (2 ^ 16) r] at *
  have hr : r < 2 ^ 36 := by omega
  constructor
  · rintro ⟨fuel, run, hrun, h⟩
    exact ⟨enables_of_run hrun, fits_of_maps hs hr hrun h⟩
  · rintro ⟨henables, hfits, hnarrow⟩
    obtain ⟨fuel, enabling, henable⟩ := exists_enable.mpr henables
    have hlt : uint (g.cwriter / 32) < its_cmd_q_num_slots n := by
      have h3 := hfits.1
      have hm := slots_lt n
      rw [uint_of_lt (by omega)]
      omega
    refine ⟨fuel, _, Option.map_eq_some_iff.mpr ⟨enabling, henable, rfl⟩, ?_⟩
    simp only [if_pos hlt]
    exact maps_of_fits (enable_eq_some henable) hn hcpu hr hfits hnarrow

/-- Registers of an enabled ITS that has processed everything, with the queue at 64 MiB and PTA
set. -/
def registers (cwriter : ℕ) : Registers :=
  { ctlr := fun _ => 0x80000001
    cbaser := 0x4000000
    cwriter := cwriter
    cwriterLow := fun _ => 0
    creader := fun _ => cwriter + 96
    typer := 1 <<< 19
    gicr_typer := fun _ => 0 }

theorem mapc_iff_first : ∃ fuel run, gic_v3_its_mapc fuel (registers 0) 2 1 0x8000000 = some run ∧
    Maps (registers 0) 2 1 0x8000000 run.1 :=
  (mapc_iff (by decide) (by decide) (by decide) (by decide) (by decide)).mpr
    ⟨.inl (by decide), ⟨by decide, .inl (by decide)⟩, by unfold Narrow; decide⟩

/-- A queue of one page whose 43rd group of commands wraps: INVALL is in slot 0, in front of what is
flushed. -/
theorem mapc_wraps :
    ¬ ∃ fuel run, gic_v3_its_mapc fuel (registers (126 * 32)) 1 42 0x8000000 = some run ∧
    Maps (registers (126 * 32)) 1 42 0x8000000 run.1 := by
  rintro ⟨fuel, run, hrun, h⟩
  have hfits := (fits_of_maps (r := 0x800) (by decide) (by decide) hrun h).1.1
  revert hfits
  decide

end Startup.Its
