import RpiBsp.Startup.Syspage.Definitions
import RpiBsp.Support.Layout
import RpiBsp.Support.Outcome

/-!
# Startup — Syspage — callouts

`callouts.c`: the kernel's callouts are copied behind the system page.  A first pass over the slots
adds up the sizes of the code and of the read/write areas, `alloc_syspage_memory` reserves memory
for them, and a second pass copies the code and makes the slots point to the copies.  Both passes
count in `rtn_size`; in the second one it is where the next copy goes, and 0 says that there is none
yet.

A slot is at an address in the temporary page, and `hooks` are the addresses in the order in which
the chain of output hooks visits them; the page may have moved between the passes.  Routines and the
sizes of their areas are data of the startup program, and a patcher is its code for the target: what
it writes to the page is a parameter.  The entries of `co_free_list`, and `patch_channel`, which
only patchers read, are left out.

* `sizing_pass` — the sums, and the areas one behind the other.
* `output_pass` — the copies one behind the other, each with its slot and its area.
* `callouts_laid` — everything that is written is inside what was reserved.
-/

namespace Startup

open Support

/-! ### The code -/

/-- What a patcher does to the bytes from `_syspage_ptr` on, given `paddr`, `vaddr`, `rtn_offset`,
`rw_offset` and `data`. -/
abbrev Patcher := ℕ → ℕ → ℕ → ℕ → ℕ → (ℕ → UInt8) → ℕ → UInt8

/-- `struct callout_rtn`; `rw_size` is a pointer, and so what names an area. -/
structure CalloutRtn where
  rw_size : ℕ
  patcher : Option Patcher
  rtn_size : ℕ
  rtn_code : ℕ → UInt8

/-- The startup program: its routines by address, and the `unsigned` numbers that `rw_size` points
to. -/
structure Program where
  rtn : ℕ → CalloutRtn
  word : ℕ → ℕ

/-- `struct co_info` in `rw_addrs`. -/
structure RwInfo where
  rw_off : ℕ
  data : ℕ
deriving DecidableEq, Repr

/-- What was done for a slot: the routine, where its code was copied, and the area that it was
given. -/
structure Copy where
  slot : ℕ
  rtn : ℕ
  off : ℕ
  rw_off : ℕ
deriving DecidableEq, Repr

/-- The pointers in the slots, the static variables of `callouts.c`, what the code reads from the
temporary page, and the bytes from `_syspage_ptr` on.  `copies` is not in the source. -/
structure Callouts where
  hooks : List ℕ
  slot : ℕ → ℕ
  rw_addrs : List RwInfo
  patch_data : List CoInfo
  rw_size : ℕ
  rtn_size : ℕ
  total_size : ℕ
  kern_syspageptr : ℕ
  syspage_paddr : ℕ
  mem : ℕ → UInt8
  copies : List Copy

/-- `memmove` of code that is not in the page. -/
def copyCode (dst n : ℕ) (code : ℕ → UInt8) (mem : ℕ → UInt8) : ℕ → UInt8 :=
  fun a => if dst ≤ a ∧ a < dst + n then code (a - dst) else mem a

/-- `callout_output_one` while sizing. -/
def sizing_one (P : Program) (rtn : CalloutRtn) (s : Callouts) : Callouts :=
  let s := { s with rtn_size := addW 32 s.rtn_size rtn.rtn_size }
  if rtn.rw_size ≠ 0 then
    match s.rw_addrs.find? fun rw => rw.data = rtn.rw_size with
    | some _ => s
    | none => { s with
        rw_addrs := ⟨s.rw_size, rtn.rw_size⟩ :: s.rw_addrs
        rw_size := addW 32 s.rw_size (P.word rtn.rw_size) }
  else s

/-- The offset of a routine's area, or of the areas if it has none. -/
def areaOf (rtn : CalloutRtn) (s : Callouts) : Except Crash ℕ :=
  if rtn.rw_size ≠ 0 then
    match s.rw_addrs.find? fun rw => rw.data = rtn.rw_size with
    | some rw => .ok (addW 32 s.total_size rw.rw_off)
    | none => .error .outside
  else .ok s.total_size

/-- The first copy clears the areas and goes to the page behind them. -/
def initOutput (s : Callouts) : Callouts :=
  if s.rtn_size = 0 then
    { s with
      mem := memset s.total_size s.rw_size 0 s.mem
      rtn_size := ROUNDPG (addW 32 s.total_size s.rw_size) % 2 ^ 32 }
  else s

/-- The routine is copied, and its patcher is called with what was registered for the slot. -/
def copyRoutine (rtn : CalloutRtn) (rp rw_off : ℕ) (s : Callouts) : ℕ → UInt8 :=
  let mem := copyCode s.rtn_size rtn.rtn_size rtn.rtn_code s.mem
  match rtn.patcher with
  | some patcher =>
      let data := ((s.patch_data.find? fun pd => pd.owner = rp).map CoInfo.data).getD 0
      patcher s.syspage_paddr s.kern_syspageptr s.rtn_size rw_off data mem
  | none => mem

/-- `callout_output_one` once the sizes are known. -/
def output_one (P : Program) (rp : ℕ) (s : Callouts) : Except Crash Callouts := do
  let rtn := P.rtn (s.slot rp)
  let s := initOutput s
  let rw_off ← areaOf rtn s
  return { s with
    mem := copyRoutine rtn rp rw_off s
    slot := Function.update s.slot rp (addW 64 s.kern_syspageptr s.rtn_size)
    rtn_size := addW 32 s.rtn_size rtn.rtn_size
    copies := s.copies ++ [⟨rp, s.slot rp, s.rtn_size, rw_off⟩] }

/-- `callout_output_one`. -/
def callout_output_one (P : Program) (sizing : Bool) (s : Callouts) (rp : ℕ) :
    Except Crash Callouts :=
  if s.slot rp = 0 then .ok s
  else if sizing then .ok (sizing_one P (P.rtn (s.slot rp)) s)
  else output_one P rp s

/-- `output_callouts`; `*rwsize` is `rw_size`. -/
def output_callouts (P : Program) (sizing : Bool) (s : Callouts) : Except Crash (ℕ × Callouts) := do
  let s ← s.hooks.foldlM (callout_output_one P sizing) s
  let s := { s with rw_size := round 64 s.rw_size 8 % 2 ^ 32 }
  let size := round 64 s.rtn_size 8 % 2 ^ 32
  return (size, if sizing then { s with rtn_size := 0 } else s)

/-- What `alloc_syspage_memory` reserves, the part of it that is made read only, and the state when
the memory had been allocated and at the end. -/
structure SyspageMemory where
  spsize : ℕ
  callout_off : ℕ
  callouts_size : ℕ
  reserved : Callouts
  written : Callouts

/-- `alloc_syspage_memory`; `asinfo_entry` is the size of an entry. -/
def alloc_syspage_memory (P : Program) (asinfo_entry : ℕ)
    (cpu_alloc_syspage_memory : ℕ → Callouts → Except Crash Callouts)
    (s : Callouts) : Except Crash SyspageMemory := do
  let (callouts_size, s) ← output_callouts P true s
  let rwsize := s.rw_size
  let spsize := ROUNDPG (addW 64 (addW 32 s.total_size rwsize) (4 * asinfo_entry)) % 2 ^ 32
  let spsize := addW 32 spsize (ROUNDPG callouts_size % 2 ^ 32)
  let s ← cpu_alloc_syspage_memory spsize s
  let (_, s') ← output_callouts P false s
  return ⟨spsize, ROUNDPG (addW 32 s.total_size rwsize), callouts_size, s, s'⟩

/-! ### What is laid out -/

section Spec

variable (P : Program)

/-- The size of the code at a pointer. -/
def Program.codeSize (p : ℕ) : ℕ := (P.rtn p).rtn_size

/-- The areas of the routines at pointers, each once, behind those that are known. -/
def Program.areas : List ℕ → List ℕ → List ℕ
  | known, [] => known
  | known, p :: ps =>
      if (P.rtn p).rw_size = 0 ∨ (P.rtn p).rw_size ∈ known then Program.areas known ps
      else Program.areas (known ++ [(P.rtn p).rw_size]) ps

end Spec

/-- The routines in slots. -/
def routines (slot : ℕ → ℕ) (hooks : List ℕ) : List ℕ := (hooks.map slot).filter (· ≠ 0)

/-- The slots that have a routine, with it. -/
def filled (slot : ℕ → ℕ) (hooks : List ℕ) : List (ℕ × ℕ) :=
  (hooks.map fun rp => (rp, slot rp)).filter fun x => x.2 ≠ 0

variable {P : Program} {s s' s₀ s₁ s₂ : Callouts} {known ps : List ℕ} {p : ℕ}

theorem prefix_areas (P : Program) (known ps : List ℕ) : known <+: P.areas known ps := by
  induction ps generalizing known with
  | nil => exact List.prefix_rfl
  | cons p ps ih =>
      rw [Program.areas]
      split
      · exact ih known
      · exact (List.prefix_append known _).trans (ih _)

theorem nodup_areas (h : known.Nodup) (ps : List ℕ) : (P.areas known ps).Nodup := by
  induction ps generalizing known with
  | nil => exact h
  | cons p ps ih =>
      rw [Program.areas]
      split
      · exact ih h
      case isFalse hnew =>
        rw [not_or] at hnew
        exact ih (List.nodup_append.mpr
          ⟨h, List.nodup_cons.mpr ⟨List.not_mem_nil, .nil⟩, fun a ha b hb heq => hnew.2
          (List.mem_singleton.mp hb ▸ heq ▸ ha)⟩)

/-- The area of a routine is one of them. -/
theorem mem_areas (known : List ℕ) (hp : p ∈ ps) (hrw : (P.rtn p).rw_size ≠ 0) :
    (P.rtn p).rw_size ∈ P.areas known ps := by
  induction ps generalizing known with
  | nil => exact absurd hp List.not_mem_nil
  | cons q ps ih =>
      rw [Program.areas]
      rcases List.mem_cons.mp hp with rfl | hp
      · split
        case isTrue hknown => exact (prefix_areas P known ps).subset (hknown.resolve_left hrw)
        · exact (prefix_areas P _ ps).subset (List.mem_append_right _ List.mem_cons_self)
      · split
        · exact ih known hp
        · exact ih _ hp

theorem total_le_of_prefix {α : Type} {size : α → ℕ} {xs ys : List α} (h : xs <+: ys) :
    total size xs ≤ total size ys := by
  obtain ⟨zs, rfl⟩ := h
  rw [total_append]
  exact Nat.le_add_right _ _

/-! ### The sizing pass -/

/-- The areas of `known` are one behind the other. -/
def Areas (P : Program) (known : List ℕ) (rw_addrs : List RwInfo) : Prop :=
  rw_addrs.reverse.map (fun rw => (rw.rw_off, rw.data)) = laid P.word 0 known

variable {rw_addrs : List RwInfo} {off a : ℕ}

theorem Areas.mem_iff (h : Areas P known rw_addrs) (off a : ℕ) :
    ⟨off, a⟩ ∈ rw_addrs ↔ (off, a) ∈ laid P.word 0 known := by
  rw [← h, List.mem_map]
  constructor
  · intro hmem
    exact ⟨⟨off, a⟩, List.mem_reverse.mpr hmem, rfl⟩
  · rintro ⟨rw, hrw, heq⟩
    obtain ⟨rfl, rfl⟩ := Prod.mk.inj heq
    exact List.mem_reverse.mp hrw

/-- The search finds an area that is known. -/
theorem Areas.find (h : Areas P known rw_addrs) (hnodup : known.Nodup)
    (ha : (off, a) ∈ laid P.word 0 known) :
    rw_addrs.find? (fun rw => rw.data = a) = some ⟨off, a⟩ := by
  have hmem := (h.mem_iff off a).mpr ha
  cases hfind : rw_addrs.find? (fun rw => rw.data = a) with
  | none => exact absurd (List.find?_eq_none.mp hfind _ hmem) (by simp)
  | some rw =>
      have hdata : rw.data = a := by simpa using List.find?_some hfind
      have hother : (rw.rw_off, a) ∈ laid P.word 0 known := by
        rw [← h.mem_iff, ← hdata]
        exact List.mem_of_find?_eq_some hfind
      rw [laid_inj hnodup ha hother, ← hdata]

theorem Areas.find_none (h : Areas P known rw_addrs) (ha : a ∉ known) :
    rw_addrs.find? (fun rw => rw.data = a) = none := by
  refine List.find?_eq_none.mpr fun rw hrw heq => ha ?_
  have hdata : rw.data = a := by simpa using heq
  have hlaid : (rw.rw_off, rw.data) ∈ laid P.word 0 known := (h.mem_iff _ _).mp hrw
  exact hdata ▸ mem_of_mem_laid hlaid

/-- What the sizing pass has summed up. -/
structure Sums (P : Program) (known : List ℕ) (code : ℕ) (s : Callouts) : Prop where
  areas : Areas P known s.rw_addrs
  rw_size : s.rw_size = total P.word known
  rtn_size : s.rtn_size = code

/-- Nothing but the sums changes while sizing. -/
structure Sized (s s' : Callouts) : Prop where
  hooks : s'.hooks = s.hooks
  slot : s'.slot = s.slot
  total_size : s'.total_size = s.total_size
  copies : s'.copies = s.copies

/-- One slot adds its code, and its area unless it is known. -/
theorem sizing_step {code : ℕ} (h : Sums P known code s) (hnodup : known.Nodup)
    (hfits : code + P.codeSize p < 2 ^ 32) (harea : total P.word (P.areas known [p]) < 2 ^ 32) :
    Sums P (P.areas known [p]) (code + P.codeSize p) (sizing_one P (P.rtn p) s) ∧
    Sized s (sizing_one P (P.rtn p) s) := by
  have hsum : addW 32 s.rtn_size (P.rtn p).rtn_size = code + P.codeSize p := by
    rw [h.rtn_size]
    exact addW_of_lt hfits
  by_cases hnone : (P.rtn p).rw_size = 0
  · have hareas : P.areas known [p] = known := if_pos (.inl hnone)
    rw [hareas, sizing_one, if_neg (not_not.mpr hnone)]
    exact ⟨⟨h.areas, h.rw_size, hsum⟩, rfl, rfl, rfl, rfl⟩
  by_cases hknown : (P.rtn p).rw_size ∈ known
  · have hareas : P.areas known [p] = known := if_pos (.inr hknown)
    obtain ⟨off, hoff⟩ := exists_laid P.word 0 hknown
    rw [hareas, sizing_one, if_pos hnone]
    dsimp only
    rw [h.areas.find hnodup hoff]
    exact ⟨⟨h.areas, h.rw_size, hsum⟩, rfl, rfl, rfl, rfl⟩
  · have hareas : P.areas known [p] = known ++ [(P.rtn p).rw_size] :=
      if_neg (by rw [not_or]; exact ⟨hnone, hknown⟩)
    rw [hareas, total_append, total_cons, total_nil, Nat.add_zero] at harea
    rw [hareas, sizing_one, if_pos hnone]
    dsimp only
    rw [h.areas.find_none hknown]
    refine ⟨⟨?_, ?_, hsum⟩, rfl, rfl, rfl, rfl⟩
    · have hmap := h.areas
      rw [Areas] at hmap ⊢
      rw [List.reverse_cons, List.map_append, hmap, laid_concat, Nat.zero_add, ← h.rw_size]
      rfl
    · rw [total_append, total_cons, total_nil, Nat.add_zero]
      change addW 32 s.rw_size (P.word (P.rtn p).rw_size) = _
      rw [h.rw_size]
      exact addW_of_lt harea

theorem areas_cons (P : Program) (known : List ℕ) (p : ℕ) (ps : List ℕ) :
    P.areas known (p :: ps) = P.areas (P.areas known [p]) ps := by
  rw [Program.areas]
  split
  · rw [show P.areas known [p] = known from if_pos ‹_›]
  · rw [show P.areas known [p] = known ++ [(P.rtn p).rw_size] from if_neg ‹_›]

/-- **The sizing pass** adds up the code and the areas. -/
theorem sizing_pass (hooks : List ℕ) {code : ℕ} (h : Sums P known code s) (hnodup : known.Nodup)
    (hfits : code + total P.codeSize (routines s.slot hooks) < 2 ^ 32)
    (harea : total P.word (P.areas known (routines s.slot hooks)) < 2 ^ 32) :
    ∃ s', hooks.foldlM (callout_output_one P true) s = .ok s' ∧
      Sums P (P.areas known (routines s.slot hooks))
        (code + total P.codeSize (routines s.slot hooks)) s' ∧ Sized s s' := by
  induction hooks generalizing s known code with
  | nil => exact ⟨s, rfl, h, rfl, rfl, rfl, rfl⟩
  | cons rp hooks ih =>
      rw [List.foldlM_cons, callout_output_one]
      by_cases hempty : s.slot rp = 0
      · have hskip : routines s.slot (rp :: hooks) = routines s.slot hooks := by
          simp [routines, hempty]
        rw [hskip] at hfits harea ⊢
        rw [if_pos hempty]
        exact ih h hnodup hfits harea
      · have hcons : routines s.slot (rp :: hooks) = s.slot rp :: routines s.slot hooks := by
          simp [routines, hempty]
        rw [hcons, total_cons, ← Nat.add_assoc] at hfits
        rw [hcons, areas_cons] at harea
        rw [hcons, areas_cons, total_cons, ← Nat.add_assoc, if_neg hempty, if_pos rfl]
        have hle : total P.word _ ≤ total P.word _ :=
          total_le_of_prefix (prefix_areas P (P.areas known [s.slot rp]) (routines s.slot hooks))
        obtain ⟨h₁, hsized⟩ := sizing_step h hnodup (by omega) (hle.trans_lt harea)
        have hrest := ih h₁ (nodup_areas hnodup _)
        rw [hsized.slot] at hrest
        obtain ⟨s', hs', h', hsized'⟩ := hrest hfits harea
        exact ⟨s', hs', h', hsized'.hooks.trans hsized.hooks, hsized'.slot.trans hsized.slot,
          hsized'.total_size.trans hsized.total_size, hsized'.copies.trans hsized.copies⟩

/-! ### The output pass -/

/-- A size in whole pages. -/
def pages (x : ℕ) : ℕ := (x + 4095) / 4096 * 4096

/-- Where the code begins. -/
def Callouts.base (s : Callouts) : ℕ := pages (s.total_size + s.rw_size)

/-- Patchers write to their own copy and their own area only, as long as the area begins at `limit`
or below. -/
def Program.Confined (P : Program) (limit : ℕ) : Prop :=
  ∀ p patcher, (P.rtn p).patcher = some patcher → ∀ paddr vaddr rtn_offset rw_offset data mem a,
    rw_offset ≤ limit →
    (a < rtn_offset ∨ rtn_offset + P.codeSize p ≤ a) →
    ((P.rtn p).rw_size = 0 ∨ a < rw_offset ∨ rw_offset + P.word (P.rtn p).rw_size ≤ a) →
    patcher paddr vaddr rtn_offset rw_offset data mem a = mem a

@[simp] theorem initOutput_slot (s : Callouts) : (initOutput s).slot = s.slot := by
  unfold initOutput
  split <;> rfl

@[simp] theorem initOutput_rw_addrs (s : Callouts) : (initOutput s).rw_addrs = s.rw_addrs := by
  unfold initOutput
  split <;> rfl

@[simp] theorem initOutput_rw_size (s : Callouts) : (initOutput s).rw_size = s.rw_size := by
  unfold initOutput
  split <;> rfl

@[simp] theorem initOutput_total_size (s : Callouts) :
    (initOutput s).total_size = s.total_size := by
  unfold initOutput
  split <;> rfl

@[simp] theorem initOutput_kern (s : Callouts) :
    (initOutput s).kern_syspageptr = s.kern_syspageptr := by
  unfold initOutput
  split <;> rfl

@[simp] theorem initOutput_copies (s : Callouts) : (initOutput s).copies = s.copies := by
  unfold initOutput
  split <;> rfl

/-- Only the areas are cleared. -/
theorem initOutput_mem {a : ℕ} (h : a < s.total_size ∨ s.total_size + s.rw_size ≤ a) :
    (initOutput s).mem a = s.mem a := by
  unfold initOutput
  split
  · exact memset_outside h
  · rfl

/-- The size of the routine in a slot. -/
def Program.slotSize (P : Program) (x : ℕ × ℕ) : ℕ := P.codeSize x.2

/-- What the output pass has done for slots, from `s₂` on. -/
structure Output (P : Program) (known : List ℕ) (s₂ : Callouts) (slots : List (ℕ × ℕ))
    (s : Callouts) : Prop where
  rw_addrs : s.rw_addrs = s₂.rw_addrs
  rw_size : s.rw_size = s₂.rw_size
  total_size : s.total_size = s₂.total_size
  kern : s.kern_syspageptr = s₂.kern_syspageptr
  cursor : (initOutput s).rtn_size = s₂.base + total P.slotSize slots
  copies : s.copies.map (fun c => (c.off, (c.slot, c.rtn))) = laid P.slotSize s₂.base slots
  areas : ∀ c ∈ s.copies, (P.rtn c.rtn).rw_size ≠ 0 →
    ∃ off, (off, (P.rtn c.rtn).rw_size) ∈ laid P.word 0 known ∧ c.rw_off = s₂.total_size + off
  rewritten : ∀ c ∈ s.copies, s.slot c.slot = addW 64 s₂.kern_syspageptr c.off
  others : ∀ rp, (∀ c ∈ s.copies, c.slot ≠ rp) → s.slot rp = s₂.slot rp
  outside : ∀ a, (a < s₂.total_size ∨ s₂.total_size + s₂.rw_size ≤ a) →
    (a < s₂.base ∨ s₂.base + total P.slotSize slots ≤ a) → s.mem a = s₂.mem a
  code : ∀ c ∈ s.copies, (P.rtn c.rtn).patcher = none →
    ∀ j < P.codeSize c.rtn, s.mem (c.off + j) = (P.rtn c.rtn).rtn_code j

variable {slots : List (ℕ × ℕ)} {limit : ℕ}

/-- A copy is one of a slot that was visited. -/
theorem Output.mem_laid (h : Output P known s₂ slots s) {c : Copy} (hc : c ∈ s.copies) :
    (c.off, (c.slot, c.rtn)) ∈ laid P.slotSize s₂.base slots := by
  rw [← h.copies]
  exact List.mem_map.mpr ⟨c, hc, rfl⟩

/-- A slot that was not visited is as it was. -/
theorem Output.unvisited (h : Output P known s₂ slots s) {rp : ℕ} (hnew : ∀ x ∈ slots, x.1 ≠ rp) :
    (∀ c ∈ s.copies, c.slot ≠ rp) ∧ s.slot rp = s₂.slot rp := by
  have hother : ∀ c ∈ s.copies, c.slot ≠ rp := fun c hc => hnew _ (mem_of_mem_laid (h.mem_laid hc))
  exact ⟨hother, h.others rp hother⟩

/-- What the code relies on after the memory was reserved. -/
structure Ready (P : Program) (known : List ℕ) (limit : ℕ) (s₂ : Callouts) : Prop where
  areas : Areas P known s₂.rw_addrs
  nodup : known.Nodup
  room : total P.word known ≤ s₂.rw_size
  header : 0 < s₂.total_size
  below : s₂.total_size + s₂.rw_size ≤ limit
  fits : s₂.base < 2 ^ 32
  confined : P.Confined limit

theorem Ready.le_base (h : Ready P known limit s₂) :
    s₂.total_size + s₂.rw_size ≤ s₂.base ∧ 0 < s₂.base := by
  have hpos := h.header
  unfold Callouts.base pages
  omega

/-- The area of a routine. -/
theorem Ready.areaOf (hr : Ready P known limit s₂) (haddrs : s.rw_addrs = s₂.rw_addrs)
    (htotal : s.total_size = s₂.total_size)
    (hknown : (P.rtn p).rw_size ≠ 0 → (P.rtn p).rw_size ∈ known) :
    ∃ rw_off, areaOf (P.rtn p) s = .ok rw_off ∧ rw_off ≤ s₂.total_size + s₂.rw_size ∧
      ((P.rtn p).rw_size ≠ 0 → ∃ off, (off, (P.rtn p).rw_size) ∈ laid P.word 0 known ∧
      rw_off = s₂.total_size + off) := by
  have hbase := hr.le_base
  have hfits := hr.fits
  unfold Startup.areaOf
  by_cases hnone : (P.rtn p).rw_size = 0
  · rw [if_neg (not_not.mpr hnone), htotal]
    exact ⟨_, rfl, Nat.le_add_right _ _, fun h => absurd hnone h⟩
  · obtain ⟨off, hoff⟩ := exists_laid P.word 0 (hknown hnone)
    have hin : 0 ≤ off ∧ off + P.word (P.rtn p).rw_size ≤ 0 + total P.word known := laid_inside hoff
    have hroom := hr.room
    rw [if_pos hnone, haddrs, hr.areas.find hr.nodup hoff, htotal]
    dsimp only
    rw [addW_of_lt (by omega)]
    exact ⟨_, rfl, by omega, fun _ => ⟨off, hoff, rfl⟩⟩

/-- A routine changes its own copy and its own area. -/
theorem copyRoutine_outside (hconf : P.Confined limit) {rp rw_off a : ℕ} (hlimit : rw_off ≤ limit)
    (ha : a < s.rtn_size ∨ s.rtn_size + P.codeSize p ≤ a)
    (harea : (P.rtn p).rw_size = 0 ∨ a < rw_off ∨ rw_off + P.word (P.rtn p).rw_size ≤ a) :
    copyRoutine (P.rtn p) rp rw_off s a = s.mem a := by
  have hcopied : copyCode s.rtn_size (P.rtn p).rtn_size (P.rtn p).rtn_code s.mem a = s.mem a := by
    rw [copyCode, if_neg]
    intro hin
    unfold Program.codeSize at ha
    omega
  unfold copyRoutine
  cases hpatch : (P.rtn p).patcher with
  | none => exact hcopied
  | some patcher => exact (hconf _ _ hpatch _ _ _ _ _ _ _ hlimit ha harea).trans hcopied

/-- Without a patcher the copy is the code. -/
theorem copyRoutine_code (hnone : (P.rtn p).patcher = none) {rp rw_off j : ℕ}
    (hj : j < P.codeSize p) :
    copyRoutine (P.rtn p) rp rw_off s (s.rtn_size + j) = (P.rtn p).rtn_code j := by
  unfold copyRoutine
  rw [hnone]
  dsimp only
  rw [copyCode, if_pos ⟨Nat.le_add_right _ _, Nat.add_lt_add_left hj _⟩, Nat.add_sub_cancel_left]

/-- What is written for one slot more is its copy, and the area of its routine. -/
theorem Output.written (hr : Ready P known limit s₂) (h : Output P known s₂ slots s) {rp rw_off : ℕ}
    (hlt : rw_off ≤ s₂.total_size + s₂.rw_size)
    (hplace : (P.rtn p).rw_size ≠ 0 → ∃ off, (off, (P.rtn p).rw_size) ∈ laid P.word 0 known ∧
    rw_off = s₂.total_size + off)
    (hout : a < s₂.total_size ∨ s₂.total_size + s₂.rw_size ≤ a)
    (hcopy : a < s₂.base + total P.slotSize slots ∨
    s₂.base + total P.slotSize slots + P.codeSize p ≤ a) :
    copyRoutine (P.rtn p) rp rw_off (initOutput s) a = s.mem a := by
  have hroom := hr.room
  have hclear : (initOutput s).mem a = s.mem a :=
    initOutput_mem (by rw [h.total_size, h.rw_size]; exact hout)
  rw [← hclear]
  refine copyRoutine_outside hr.confined (hlt.trans hr.below) (by rw [h.cursor]; exact hcopy) ?_
  by_cases hnone : (P.rtn p).rw_size = 0
  · exact .inl hnone
  · obtain ⟨off, hoff, rfl⟩ := hplace hnone
    have hin : 0 ≤ off ∧ off + P.word (P.rtn p).rw_size ≤ 0 + total P.word known := laid_inside hoff
    exact .inr (by omega)

/-- What `output_one` does for a slot that was not visited. -/
theorem Output.output_one (h : Output P known s₂ slots s) {rp rw_off : ℕ}
    (hsame : s.slot rp = s₂.slot rp)
    (harea : areaOf (P.rtn (s₂.slot rp)) (initOutput s) = .ok rw_off)
    (hfits : s₂.base + total P.slotSize slots + P.codeSize (s₂.slot rp) < 2 ^ 32) :
    Startup.output_one P rp s = .ok { initOutput s with
      mem := copyRoutine (P.rtn (s₂.slot rp)) rp rw_off (initOutput s)
      slot := Function.update s.slot rp
        (addW 64 s₂.kern_syspageptr (s₂.base + total P.slotSize slots))
      rtn_size := s₂.base + total P.slotSize slots + P.codeSize (s₂.slot rp)
      copies := s.copies ++ [⟨rp, s₂.slot rp, s₂.base + total P.slotSize slots, rw_off⟩] } := by
  have hend : addW 32 (s₂.base + total P.slotSize slots) (P.codeSize (s₂.slot rp)) =
      s₂.base + total P.slotSize slots + P.codeSize (s₂.slot rp) := addW_of_lt hfits
  rw [Startup.output_one, hsame, harea, ok_bind, ← hend, ← h.cursor, ← h.kern, ← hsame]
  simp only [initOutput_slot, initOutput_kern, initOutput_copies]
  rfl

/-- **One slot** more: its routine is copied behind the others. -/
theorem output_step (hr : Ready P known limit s₂) (h : Output P known s₂ slots s) {rp : ℕ}
    (hnew : ∀ x ∈ slots, x.1 ≠ rp)
    (hknown : (P.rtn (s₂.slot rp)).rw_size ≠ 0 → (P.rtn (s₂.slot rp)).rw_size ∈ known)
    (hfits : s₂.base + total P.slotSize slots + P.codeSize (s₂.slot rp) < 2 ^ 32) :
    ∃ s', output_one P rp s = .ok s' ∧ Output P known s₂ (slots ++ [(rp, s₂.slot rp)]) s' := by
  obtain ⟨hbase, hpos⟩ := hr.le_base
  obtain ⟨hother, hsame⟩ := h.unvisited hnew
  have hsum : total P.slotSize (slots ++ [(rp, s₂.slot rp)]) = total P.slotSize slots +
      P.codeSize (s₂.slot rp) :=
    total_append P.slotSize slots _
  obtain ⟨rw_off, harea, hlt, hplace⟩ := hr.areaOf (s := initOutput s) (p := s₂.slot rp)
    (by rw [initOutput_rw_addrs, h.rw_addrs]) (by rw [initOutput_total_size, h.total_size]) hknown
  refine ⟨_, h.output_one hsame harea hfits, ⟨?_, ?_, ?_, ?_, ?_, ?_, ?_, ?_, ?_, ?_, ?_⟩⟩
  · exact (initOutput_rw_addrs s).trans h.rw_addrs
  · exact (initOutput_rw_size s).trans h.rw_size
  · exact (initOutput_total_size s).trans h.total_size
  · exact (initOutput_kern s).trans h.kern
  · rw [hsum, initOutput, if_neg (by dsimp only; omega)]
    exact Nat.add_assoc _ _ _
  · rw [laid_concat, List.map_append, h.copies]
    rfl
  · intro c hc hne
    rcases List.mem_append.mp hc with hc | hc
    · exact h.areas c hc hne
    · obtain rfl := List.mem_singleton.mp hc
      exact hplace hne
  · intro c hc
    rcases List.mem_append.mp hc with hc | hc
    · exact (Function.update_of_ne (hother c hc) _ _).trans (h.rewritten c hc)
    · obtain rfl := List.mem_singleton.mp hc
      exact Function.update_self _ _ _
  · intro rp' hrp'
    have hne : rp' ≠ rp := fun heq => hrp' _ (List.mem_append_right _ List.mem_cons_self) heq.symm
    exact (Function.update_of_ne hne _ _).trans (h.others rp' fun c hc =>
      hrp' c (List.mem_append_left _ hc))
  · intro a hout hcopy
    rw [hsum] at hcopy
    exact (h.written hr hlt hplace hout (by omega)).trans (h.outside a hout (by omega))
  · intro c hc hnone j hj
    rcases List.mem_append.mp hc with hc | hc
    · -- a copy from before is behind the areas and in front of the new one
      have hin : s₂.base ≤ c.off ∧ c.off + P.codeSize c.rtn ≤ s₂.base + total P.slotSize slots :=
        laid_inside (h.mem_laid hc)
      exact (h.written hr hlt hplace (by omega) (by omega)).trans (h.code c hc hnone j hj)
    · obtain rfl := List.mem_singleton.mp hc
      dsimp only
      rw [← h.cursor]
      exact copyRoutine_code hnone hj

/-- **The output pass** copies the routines one behind the other. -/
theorem output_pass (hr : Ready P known limit s₂) (hooks : List ℕ) (h : Output P known s₂ slots s)
    (hnew : ∀ x ∈ slots, x.1 ∉ hooks) (honce : hooks.Nodup)
    (hknown : ∀ p ∈ routines s₂.slot hooks, (P.rtn p).rw_size ≠ 0 → (P.rtn p).rw_size ∈ known)
    (hfits : s₂.base + total P.slotSize slots + total P.slotSize (filled s₂.slot hooks) < 2 ^ 32) :
    ∃ s', hooks.foldlM (callout_output_one P false) s = .ok s' ∧
    Output P known s₂ (slots ++ filled s₂.slot hooks) s' := by
  induction hooks generalizing s slots with
  | nil => exact ⟨s, rfl, by rwa [show filled s₂.slot [] = [] from rfl, List.append_nil]⟩
  | cons rp hooks ih =>
      obtain ⟨hrp, honce⟩ := List.nodup_cons.mp honce
      have hunvisited : ∀ x ∈ slots, x.1 ≠ rp :=
        fun x hx heq => hnew x hx (heq ▸ List.mem_cons_self)
      have hsame := (h.unvisited hunvisited).2
      rw [List.foldlM_cons, callout_output_one, hsame]
      by_cases hempty : s₂.slot rp = 0
      · have hskip : filled s₂.slot (rp :: hooks) = filled s₂.slot hooks := by simp [filled, hempty]
        have hroutines : routines s₂.slot (rp :: hooks) = routines s₂.slot hooks := by
          simp [routines, hempty]
        rw [hskip] at hfits ⊢
        rw [hroutines] at hknown
        rw [if_pos hempty]
        exact ih h (fun x hx hmem => hnew x hx (List.mem_cons_of_mem _ hmem)) honce hknown hfits
      · have hcons : filled s₂.slot (rp :: hooks) = (rp, s₂.slot rp) :: filled s₂.slot hooks := by
          simp [filled, hempty]
        have hroutines : routines s₂.slot (rp :: hooks) = s₂.slot rp :: routines s₂.slot hooks := by
          simp [routines, hempty]
        rw [hcons, total_cons] at hfits
        rw [hroutines] at hknown
        have hsize : P.slotSize (rp, s₂.slot rp) = P.codeSize (s₂.slot rp) := rfl
        obtain ⟨s₁, hs₁, h₁⟩ := output_step hr h hunvisited (hknown _ List.mem_cons_self) (by omega)
        rw [if_neg hempty, if_neg (by decide), hs₁, hcons, List.append_cons]
        refine ih h₁ (fun x hx => ?_) honce (fun p hp => hknown p (List.mem_cons_of_mem _ hp)) ?_
        · rcases List.mem_append.mp hx with hx | hx
          · exact fun hmem => hnew x hx (List.mem_cons_of_mem _ hmem)
          · rw [List.mem_singleton.mp hx]
            exact hrp
        · rw [total_append, total_cons, total_nil]
          omega

/-! ### Both passes -/

/-- A size in words of 8 bytes. -/
def eights (x : ℕ) : ℕ := (x + 7) / 8 * 8

theorem ROUNDPG_eq {x : ℕ} (h : x < 2 ^ 33) : ROUNDPG x = pages x :=
  round_two_pow (k := 12) (by decide) (by omega)

theorem round_eights {x : ℕ} (h : x < 2 ^ 33) : round 64 x 8 = eights x :=
  round_two_pow (k := 3) (by decide) (by omega)

/-- The size of the areas, and of the code. -/
def Callouts.areasSize (P : Program) (s : Callouts) : ℕ :=
  eights (total P.word (P.areas [] (routines s.slot s.hooks)))

def Callouts.codeSize (P : Program) (s : Callouts) : ℕ :=
  eights (total P.codeSize (routines s.slot s.hooks))

/-- What is to be reserved. -/
def Callouts.needed (P : Program) (asinfo_entry : ℕ) (s : Callouts) : ℕ :=
  pages (s.total_size + s.areasSize P + 4 * asinfo_entry) + pages (s.codeSize P)

/-- Before the passes. -/
structure Callouts.Start (s : Callouts) : Prop where
  rw_addrs : s.rw_addrs = []
  rw_size : s.rw_size = 0
  rtn_size : s.rtn_size = 0
  copies : s.copies = []
  header : 0 < s.total_size

/-- What `cpu_alloc_syspage_memory` may do to the temporary page: it grows by four entries at most,
and the slots may move with their pointers. -/
structure Reserves (asinfo_entry : ℕ) (s s' : Callouts) : Prop where
  rw_addrs : s'.rw_addrs = s.rw_addrs
  rw_size : s'.rw_size = s.rw_size
  rtn_size : s'.rtn_size = s.rtn_size
  copies : s'.copies = s.copies
  pointers : s'.hooks.map s'.slot = s.hooks.map s.slot
  once : s'.hooks.Nodup
  grows : s.total_size ≤ s'.total_size
  grown : s'.total_size ≤ s.total_size + 4 * asinfo_entry

/-- The callouts are laid out in the memory that was reserved. -/
structure SyspageMemory.Laid (P : Program) (m : SyspageMemory) : Prop where
  /-- The copies are one behind the other, in the order of the slots. -/
  consecutive : m.written.copies.map (fun c => (c.off, (c.slot, c.rtn))) =
    laid P.slotSize (pages (m.reserved.total_size + m.reserved.rw_size))
      (filled m.reserved.slot m.reserved.hooks)
  disjoint : m.written.copies.Pairwise fun c d => c.off + P.codeSize c.rtn ≤ d.off
  rewritten : ∀ c ∈ m.written.copies,
    m.written.slot c.slot = addW 64 m.reserved.kern_syspageptr c.off
  others : ∀ rp, (∀ c ∈ m.written.copies, c.slot ≠ rp) → m.written.slot rp = m.reserved.slot rp
  shared : ∀ c ∈ m.written.copies, ∀ d ∈ m.written.copies, (P.rtn c.rtn).rw_size ≠ 0 →
    (P.rtn c.rtn).rw_size = (P.rtn d.rtn).rw_size → c.rw_off = d.rw_off
  apart : ∀ c ∈ m.written.copies, ∀ d ∈ m.written.copies, (P.rtn c.rtn).rw_size ≠ 0 →
    (P.rtn d.rtn).rw_size ≠ 0 →
    (P.rtn c.rtn).rw_size ≠ (P.rtn d.rtn).rw_size →
    c.rw_off + P.word (P.rtn c.rtn).rw_size ≤ d.rw_off ∨
    d.rw_off + P.word (P.rtn d.rtn).rw_size ≤ c.rw_off
  areas : ∀ c ∈ m.written.copies, (P.rtn c.rtn).rw_size ≠ 0 → m.reserved.total_size ≤ c.rw_off ∧
    c.rw_off + P.word (P.rtn c.rtn).rw_size ≤ m.reserved.total_size + m.reserved.rw_size
  /-- What is written is inside what was reserved, and the copies are inside what is made read
  only. -/
  inside : ∀ c ∈ m.written.copies, c.off + P.codeSize c.rtn ≤ m.spsize
  untouched : ∀ a, m.spsize ≤ a → m.written.mem a = m.reserved.mem a
  readonly : ∀ c ∈ m.written.copies, m.callout_off ≤ c.off ∧
    c.off + P.codeSize c.rtn ≤ m.callout_off + m.callouts_size
  /-- A routine without a patcher is copied as it is. -/
  code : ∀ c ∈ m.written.copies, (P.rtn c.rtn).patcher = none →
    ∀ j < P.codeSize c.rtn, m.written.mem (c.off + j) = (P.rtn c.rtn).rtn_code j

theorem total_filled (P : Program) (slot : ℕ → ℕ) (hooks : List ℕ) :
    total P.slotSize (filled slot hooks) = total P.codeSize (routines slot hooks) := by
  induction hooks with
  | nil => rfl
  | cons rp hooks ih =>
      by_cases h : slot rp = 0
      · rw [show filled slot (rp :: hooks) = filled slot hooks by simp [filled, h], ih,
          show routines slot (rp :: hooks) = routines slot hooks by simp [routines, h]]
      · rw [show filled slot (rp :: hooks) = (rp, slot rp) :: filled slot hooks by simp [filled, h],
          show routines slot (rp :: hooks) = slot rp :: routines slot hooks by simp [routines, h],
          total_cons, total_cons, ih]
        rfl

/-- What the output pass has done is laid out. -/
theorem Output.laid_out (hr : Ready P known limit s₂)
    (h : Output P known s₂ (filled s₂.slot s₂.hooks) s)
    {m : SyspageMemory} (hm : m.reserved = s₂ ∧ m.written.copies = s.copies ∧
    m.written.slot = s.slot ∧ m.written.mem = s.mem)
    (hspsize : s₂.base + total P.slotSize (filled s₂.slot s₂.hooks) ≤ m.spsize)
    (hoff : m.callout_off = s₂.base)
    (hsize : total P.slotSize (filled s₂.slot s₂.hooks) ≤ m.callouts_size) : m.Laid P := by
  obtain ⟨hreserved, hcopies, hslot, hmem⟩ := hm
  have hbase := hr.le_base
  have hin : ∀ c ∈ s.copies, s₂.base ≤ c.off ∧
      c.off + P.codeSize c.rtn ≤ s₂.base + total P.slotSize (filled s₂.slot s₂.hooks) :=
    fun c hc => laid_inside (h.mem_laid hc)
  have harea : ∀ {off a : ℕ}, (off, a) ∈ laid P.word 0 known → 0 ≤ off ∧
      off + P.word a ≤ 0 + total P.word known :=
    laid_inside
  have hroom := hr.room
  constructor
  · rw [hreserved, hcopies]
    exact h.copies
  · have hapart := laid_apart P.slotSize s₂.base (filled s₂.slot s₂.hooks)
    rw [← h.copies, List.pairwise_map] at hapart
    rw [hcopies]
    exact hapart
  · rw [hreserved, hcopies, hslot]
    exact h.rewritten
  · rw [hreserved, hcopies, hslot]
    exact h.others
  · intro c hc d hd hne heq
    rw [hcopies] at hc hd
    obtain ⟨o, ho, hco⟩ := h.areas c hc hne
    obtain ⟨o', ho', hdo⟩ := h.areas d hd (heq ▸ hne)
    rw [heq] at ho
    rw [hco, hdo, laid_inj hr.nodup ho ho']
  · intro c hc d hd hcne hdne hne
    rw [hcopies] at hc hd
    obtain ⟨o, ho, hco⟩ := h.areas c hc hcne
    obtain ⟨o', ho', hdo⟩ := h.areas d hd hdne
    rcases laid_disjoint ho ho' with heq | hle
    · exact absurd (Prod.mk.inj heq).2 hne
    · omega
  · intro c hc hne
    rw [hcopies] at hc
    obtain ⟨o, ho, hco⟩ := h.areas c hc hne
    have := harea ho
    rw [hreserved]
    omega
  · intro c hc
    rw [hcopies] at hc
    exact (hin c hc).2.trans hspsize
  · intro a ha
    rw [hreserved, hmem]
    exact h.outside a (by omega) (by omega)
  · intro c hc
    rw [hcopies] at hc
    have := hin c hc
    rw [hoff]
    omega
  · rw [hcopies, hmem]
    exact h.code

/-- The sizing pass of `output_callouts`. -/
theorem output_callouts_sizing (hs : s₀.Start) (hareas : s₀.areasSize P < 2 ^ 32)
    (hcode : s₀.codeSize P < 2 ^ 32) :
    ∃ s₁, output_callouts P true s₀ = .ok (s₀.codeSize P, s₁) ∧
      Areas P (P.areas [] (routines s₀.slot s₀.hooks)) s₁.rw_addrs ∧ s₁.rw_size = s₀.areasSize P ∧
      s₁.rtn_size = 0 ∧
      Sized s₀ s₁ := by
  unfold Callouts.areasSize eights at hareas
  unfold Callouts.codeSize eights at hcode
  have hsums : Sums P [] 0 s₀ := ⟨by rw [Areas, hs.rw_addrs]; rfl, hs.rw_size, hs.rtn_size⟩
  obtain ⟨s', hs', h', hsized⟩ := sizing_pass s₀.hooks hsums List.nodup_nil (by omega) (by omega)
  rw [Nat.zero_add] at h'
  have hrw : round 64 s'.rw_size 8 % 2 ^ 32 = s₀.areasSize P := by
    rw [h'.rw_size, round_eights (by omega), Nat.mod_eq_of_lt (by unfold eights; omega)]
    rfl
  have hrtn : round 64 s'.rtn_size 8 % 2 ^ 32 = s₀.codeSize P := by
    rw [h'.rtn_size, round_eights (by omega), Nat.mod_eq_of_lt (by unfold eights; omega)]
    rfl
  refine ⟨{ s' with rw_size := s₀.areasSize P, rtn_size := 0 }, ?_, h'.areas, rfl, rfl,
    ⟨hsized.hooks, hsized.slot, hsized.total_size, hsized.copies⟩⟩
  rw [output_callouts, hs', ok_bind]
  dsimp only
  rw [hrw, hrtn, if_pos rfl]
  rfl

/-- The output pass of `output_callouts`. -/
theorem output_callouts_output (hr : Ready P known limit s₂) (hstart : s₂.rtn_size = 0)
    (hcopies : s₂.copies = [])
    (honce : s₂.hooks.Nodup) (hknown : known = P.areas [] (routines s₂.slot s₂.hooks))
    (hfits : s₂.base + total P.slotSize (filled s₂.slot s₂.hooks) < 2 ^ 32) :
    ∃ n s s₃, output_callouts P false s₂ = .ok (n, s₃) ∧
      Output P known s₂ (filled s₂.slot s₂.hooks) s ∧
      s₃.copies = s.copies ∧ s₃.slot = s.slot ∧ s₃.mem = s.mem := by
  have hbase := hr.le_base
  have hnone : ∀ c ∈ s₂.copies, False :=
    fun c hc => by rw [hcopies] at hc; exact List.not_mem_nil hc
  have hcursor : (initOutput s₂).rtn_size = s₂.base := by
    have hlt := hr.fits
    rw [initOutput, if_pos hstart]
    dsimp only
    rw [addW_of_lt (by omega), ROUNDPG_eq (by omega)]
    exact Nat.mod_eq_of_lt hlt
  have hempty : Output P known s₂ [] s₂ := by
    refine ⟨rfl, rfl, rfl, rfl, ?_, ?_, ?_, ?_, fun rp _ => rfl, fun a _ _ => rfl, ?_⟩
    · rwa [total_nil, Nat.add_zero]
    · rw [hcopies]
      rfl
    · exact fun c hc => (hnone c hc).elim
    · exact fun c hc => (hnone c hc).elim
    · exact fun c hc => (hnone c hc).elim
  obtain ⟨s, hs, h⟩ := output_pass hr s₂.hooks hempty (fun x hx => absurd hx List.not_mem_nil) honce
    (fun p hp hne => by rw [hknown]; exact mem_areas [] hp hne) (by rw [total_nil]; omega)
  rw [List.nil_append] at h
  refine ⟨round 64 s.rtn_size 8 % 2 ^ 32, s, { s with rw_size := round 64 s.rw_size 8 % 2 ^ 32 },
    ?_, h, rfl, rfl, rfl⟩
  rw [output_callouts, hs, ok_bind]
  rfl

/-- **The callouts fit what is reserved for them.**  For all routines in all slots, whatever the
areas are that they share, if what is to be reserved is less than 4 GiB: after both passes the
copies are one behind the other from the page behind the areas on, the slots point to them, the
areas are shared by name and otherwise apart, and nothing is written behind what was reserved.  Only
reserving the memory can fail. -/
theorem callouts_laid {asinfo_entry : ℕ} {cpu_alloc : ℕ → Callouts → Except Crash Callouts}
    (hs : s₀.Start) (hneeded : s₀.needed P asinfo_entry < 2 ^ 32)
    (hcpu : ∀ spsize s s', Sized s₀ s → cpu_alloc spsize s = .ok s' → Reserves asinfo_entry s s')
    (hconf : P.Confined limit)
    (hlimit : s₀.total_size + s₀.areasSize P + 4 * asinfo_entry ≤ limit) :
    (∃ e spsize s, cpu_alloc spsize s = .error e ∧
      alloc_syspage_memory P asinfo_entry cpu_alloc s₀ = .error e) ∨
      ∃ m, alloc_syspage_memory P asinfo_entry cpu_alloc s₀ = .ok m ∧ m.Laid P := by
  have hsum : pages (s₀.total_size + s₀.areasSize P + 4 * asinfo_entry) + pages (s₀.codeSize P) <
    2 ^ 32 := hneeded
  have hareas : s₀.areasSize P < 2 ^ 32 := by unfold pages at hsum; omega
  have hcode : s₀.codeSize P < 2 ^ 32 := by unfold pages at hsum; omega
  obtain ⟨s₁, hs₁, haddrs, hrw, hrtn, hsized⟩ := output_callouts_sizing hs hareas hcode
  -- what is reserved
  have hspsize : addW 32
      (ROUNDPG (addW 64 (addW 32 s₁.total_size s₁.rw_size) (4 * asinfo_entry)) % 2 ^ 32)
      (ROUNDPG (s₀.codeSize P) % 2 ^ 32) = s₀.needed P asinfo_entry := by
    have hfirst : s₀.total_size + s₀.areasSize P + 4 * asinfo_entry < 2 ^ 32 := by
      unfold pages at hsum; omega
    have hword : addW 32 s₀.total_size (s₀.areasSize P) = s₀.total_size + s₀.areasSize P :=
      addW_of_lt (by omega)
    have hlong : addW 64 (s₀.total_size + s₀.areasSize P) (4 * asinfo_entry) =
        s₀.total_size + s₀.areasSize P + 4 * asinfo_entry := addW_of_lt (by omega)
    rw [hsized.total_size, hrw, hword, hlong, ROUNDPG_eq (Nat.lt_trans hfirst (by decide)),
      ROUNDPG_eq (Nat.lt_trans hcode (by decide)), Nat.mod_eq_of_lt (by omega),
      Nat.mod_eq_of_lt (by omega)]
    exact addW_of_lt hsum
  rw [alloc_syspage_memory, hs₁, ok_bind]
  dsimp only
  rw [hspsize]
  cases hcpu₁ : cpu_alloc (s₀.needed P asinfo_entry) s₁ with
  | error e => exact .inl ⟨e, _, s₁, hcpu₁, rfl⟩
  | ok s₂ =>
      obtain ⟨haddrs₂, hrw₂, hrtn₂, hcopies₂, hpointers, honce, hgrows, hgrown⟩ :=
        hcpu _ _ _ hsized hcpu₁
      rw [hsized.hooks, hsized.slot] at hpointers
      rw [hsized.total_size] at hgrows hgrown
      have hroutines : routines s₂.slot s₂.hooks = routines s₀.slot s₀.hooks :=
        congrArg (List.filter _) hpointers
      have hsize : total P.slotSize (filled s₂.slot s₂.hooks) ≤ s₀.codeSize P := by
        rw [total_filled, hroutines, Callouts.codeSize, eights]
        omega
      have hbase : s₂.base ≤ pages (s₀.total_size + s₀.areasSize P + 4 * asinfo_entry) := by
        unfold Callouts.base pages
        omega
      have hpages : s₀.codeSize P ≤ pages (s₀.codeSize P) := by unfold pages; omega
      have hready : Ready P (P.areas [] (routines s₀.slot s₀.hooks)) limit s₂ := by
        refine ⟨haddrs₂ ▸ haddrs, nodup_areas List.nodup_nil _, ?_, ?_, by omega, by omega, hconf⟩
        · rw [hrw₂, hrw, Callouts.areasSize, eights]
          omega
        · exact Nat.lt_of_lt_of_le hs.header hgrows
      obtain ⟨n, s, s₃, hs₃, hout, hcopies, hslot, hmem⟩ :=
        output_callouts_output hready (hrtn₂.trans hrtn)
        (hcopies₂.trans (hsized.copies.trans hs.copies)) honce (by rw [hroutines]) (by omega)
      refine .inr ⟨⟨s₀.needed P asinfo_entry, ROUNDPG (addW 32 s₂.total_size s₁.rw_size),
        s₀.codeSize P, s₂, s₃⟩, ?_, ?_⟩
      · rw [ok_bind, hs₃, ok_bind]
        rfl
      · refine hout.laid_out hready ⟨rfl, hcopies, hslot, hmem⟩ ?_ ?_ hsize
        · change _ ≤ s₀.needed P asinfo_entry
          rw [Callouts.needed]
          omega
        · have hle := hready.le_base
          have hlt := hready.fits
          change ROUNDPG (addW 32 s₂.total_size s₁.rw_size) = s₂.base
          rw [← hrw₂, addW_of_lt (by omega), ROUNDPG_eq (by omega)]
          rfl

/-- Routines at 1 and 2 that share an area of 8 bytes, and one at 3 that has an area of 16 and a
patcher that stores what was registered. -/
def smallProgram : Program where
  rtn
    | 1 => ⟨100, none, 12, fun _ => 0x11⟩
    | 2 => ⟨100, none, 20, fun _ => 0x22⟩
    | 3 =>
        ⟨200, some fun _ _ _ rw_offset data mem => Function.update mem rw_offset (UInt8.ofNat data),
        8, fun _ => 0x33⟩
    | _ => ⟨0, none, 0, fun _ => 0⟩
  word p := if p = 200 then 16 else 8

/-- A page of `0x500` bytes with five slots, one of them empty. -/
def smallCallouts : Callouts where
  hooks := [10, 20, 30, 40, 50]
  slot rp := if rp = 10 then 1 else if rp = 20 then 3 else if rp = 40 then 2
    else if rp = 50 then 1 else 0
  rw_addrs := []
  patch_data := [⟨20, 0x77⟩]
  rw_size := 0
  rtn_size := 0
  total_size := 0x500
  kern_syspageptr := 0xffffff8040000000
  syspage_paddr := 0x80000
  mem _ := 0xff
  copies := []

theorem smallProgram_confined (limit : ℕ) : smallProgram.Confined limit := by
  intro p patcher hpatch paddr vaddr rtn_offset rw_offset data mem a _ _ harea
  have hp : p = 3 := by
    by_contra hne
    have hnone : (smallProgram.rtn p).patcher = none := by
      unfold smallProgram
      dsimp only
      split <;> simp_all
    rw [hnone] at hpatch
    cases hpatch
  subst hp
  obtain rfl := Option.some.inj hpatch
  refine Function.update_of_ne ?_ _ _
  rintro rfl
  have hword : smallProgram.word (smallProgram.rtn 3).rw_size = 16 := rfl
  have hrw : (smallProgram.rtn 3).rw_size = 200 := rfl
  omega

/-- Five slots, in a page that grows by an entry between the passes. -/
theorem callouts_laid_five : ∃ m,
    alloc_syspage_memory smallProgram 48 (fun _ s => .ok { s with total_size := s.total_size + 48 })
        smallCallouts = .ok m ∧
      m.Laid smallProgram := by
  have hstart : smallCallouts.Start := ⟨rfl, rfl, rfl, rfl, by decide⟩
  have hcpu : ∀ (spsize : ℕ) (s s' : Callouts), Sized smallCallouts s →
      (Except.ok { s with total_size := s.total_size + 48 } : Except Crash Callouts) = .ok s' →
      Reserves 48 s s' := by
    intro spsize s s' hsized heq
    obtain rfl := Except.ok.inj heq
    exact ⟨rfl, rfl, rfl, rfl, rfl, hsized.hooks ▸ (by decide : smallCallouts.hooks.Nodup),
      Nat.le_add_right _ _, Nat.add_le_add_left (by decide) _⟩
  rcases callouts_laid hstart (by decide +kernel) hcpu (smallProgram_confined (2 ^ 16 - 1))
    (by decide +kernel) with
    ⟨_, _, _, herr, _⟩ | hlaid
  · cases herr
  · exact hlaid

/-- One routine of 2 GiB. -/
def hugeProgram : Program := ⟨fun _ => ⟨0, none, 2 ^ 31, fun _ => 0x11⟩, fun _ => 0⟩

def hugeCallouts : Callouts := { smallCallouts with hooks := [10, 20] }

/-- Two slots have the routine.  The sum of the sizes wraps to 0, so that nothing is reserved for
the code, and the copies are written behind what is. -/
theorem callouts_wrap :
    hugeCallouts.Start ∧ Reserves 48 hugeCallouts hugeCallouts ∧ hugeProgram.Confined (2 ^ 16 - 1) ∧
    ∃ m, alloc_syspage_memory hugeProgram 48 (fun _ s => .ok s) hugeCallouts = .ok m ∧
    ¬ m.Laid hugeProgram := by
  have hrun : ((alloc_syspage_memory hugeProgram 48 (fun _ s => .ok s) hugeCallouts).map fun m =>
      (m.spsize, m.written.mem 4096, m.reserved.mem 4096)).toOption = some (4096, 0x11, 0xff) := by
    decide +kernel
  have hconf : hugeProgram.Confined (2 ^ 16 - 1) := by
    intro p patcher hpatch
    cases hpatch
  refine ⟨⟨rfl, rfl, rfl, rfl, by decide⟩,
    ⟨rfl, rfl, rfl, rfl, rfl, by decide, Nat.le_refl _, Nat.le_add_right _ _⟩,
    hconf, ?_⟩
  cases hm : alloc_syspage_memory hugeProgram 48 (fun _ s => .ok s) hugeCallouts with
  | error e =>
      rw [hm] at hrun
      cases hrun
  | ok m =>
      rw [hm] at hrun
      obtain ⟨hspsize, hwritten, hreserved⟩ : m.spsize = 4096 ∧ m.written.mem 4096 = 0x11 ∧
        m.reserved.mem 4096 = 0xff := by
        simpa only [Except.map, Except.toOption, Option.some.injEq, Prod.mk.injEq] using hrun
      refine ⟨m, rfl, fun h => ?_⟩
      have hsame := h.untouched 4096 (Nat.le_of_eq hspsize)
      rw [hwritten, hreserved] at hsame
      exact absurd hsame (by decide)

end Startup
