import RpiBsp.Startup.Ram.Search

/-!
# Startup — RAM — what is handed out is handed out once

A run of `avoid_ram`, `add_ram`, `ws_alloc`, `alloc_ram(NULL_PADDR, ..)` and `calloc_ram` leaves a
log of what was added, what was to be avoided and what was given out (`Event`).  The log is in
order when the ranges given out are pairwise disjoint and each one given out after the first
`add_ram` lies in RAM that was added, off every range to be avoided (`Apart`).

Two mechanisms keep it so.  `alloc_ram` takes what it gives out of `ram_list`; `ws_alloc` leaves it
there and records it in `avoid_list`, which every later search respects.  `Linked` ties the two
tables to the log, and every call whose `Call.Safe` holds keeps it (`Call.run_linked`).

On a secure system `alloc_ram` clears what it found, at an address cut to 32 bits.  With RAM below
4 GiB it clears what it gives out (`ClearsOwn`), and nothing else.

* `given_out_once` — every run of safe calls leaves a log in order, and clears what it gives out;
* `given_out_despite_avoid` — without `Call.Safe` it need not: a zero-size `avoid_ram` at 0 ends the
  list early, and a `ws_alloc` that finds `ram_list` empty takes it that no RAM was added yet.
-/

namespace Startup

open Support

/-! ### Runs and their logs -/

/-- What a run did, as its callers see it. -/
inductive Event where
  | added (start size : ℕ)
  | avoided (start size : ℕ)
  | given (start size : ℕ)
deriving DecidableEq, Repr

def addedBytes (log : List Event) : Set ℕ :=
  {b | ∃ start size, .added start size ∈ log ∧ start ≤ b ∧ b < start + size}

/-- There has been an `add_ram`. -/
def Added (log : List Event) : Prop := ∃ start size, .added start size ∈ log

instance (log : List Event) : Decidable (Added log) :=
  decidable_of_iff (log.any fun e => e matches .added _ _) (by
    rw [List.any_eq_true]
    refine ⟨fun ⟨e, he, hm⟩ => ?_, fun ⟨start, size, hm⟩ => ⟨_, hm, rfl⟩⟩
    cases e with
    | added start size => exact ⟨start, size, he⟩
    | _ => cases hm)

/-- The log, newest event first, is in order. -/
def Apart : List Event → Prop
  | [] => True
  | .added _ _ :: log => Apart log
  | .avoided _ _ :: log => Apart log
  | .given start size :: log =>
      (∀ start' size', .given start' size' ∈ log →
        Disjoint (Set.Ico start (start + size)) (Set.Ico start' (start' + size'))) ∧
      (Added log → Set.Ico start (start + size) ⊆ addedBytes log ∧
        ∀ start' size', .avoided start' size' ∈ log →
          Disjoint (Set.Ico start (start + size)) (Set.Ico start' (start' + size'))) ∧
      Apart log

inductive Call where
  | avoid_ram (start size : ℕ)
  | add_ram (start size : ℕ)
  | ws_alloc (size : ℕ)
  | alloc_ram (size align : ℕ)
  | calloc_ram (size align : ℕ)
deriving DecidableEq, Repr

/-- `ws_init` passes the startup program's own memory to `avoid_ram`. -/
def initLog (b : BootInfo) (s : RamState) (log : List Event) : List Event :=
  if s.inited then log else .avoided b.full_ram_paddr b.startup_size :: log

/-- The `add_ram` that places the temporary system page passes it to `avoid_ram`. -/
def syspageLog (s s' : RamState) (log : List Event) : List Event :=
  if s.temp_syspage = NULL_PADDR ∧ s'.temp_syspage ≠ NULL_PADDR then
    .avoided s'.temp_syspage TEMP_SYSPAGE_SIZE :: log
  else log

def allocLog (addr size : ℕ) (log : List Event) : List Event :=
  if addr = NULL_PADDR then log else .given addr size :: log

@[simp] theorem added_mem_initLog {b : BootInfo} {s : RamState} {log : List Event}
    {start size : ℕ} : .added start size ∈ initLog b s log ↔ .added start size ∈ log := by
  unfold initLog
  split_ifs <;> simp

@[simp] theorem added_mem_syspageLog {s s' : RamState} {log : List Event} {start size : ℕ} :
    .added start size ∈ syspageLog s s' log ↔ .added start size ∈ log := by
  unfold syspageLog
  split_ifs <;> simp

@[simp] theorem added_mem_allocLog {addr n : ℕ} {log : List Event} {start size : ℕ} :
    .added start size ∈ allocLog addr n log ↔ .added start size ∈ log := by
  unfold allocLog
  split_ifs <;> simp

namespace Call

/-- The call, and what it adds to the log. -/
def run (b : BootInfo) : Call → RamState × List Event → Except Crash (RamState × List Event)
  | .avoid_ram start size, (s, log) => do
      let s' ← Startup.avoid_ram b start size s
      return (s', .avoided start size :: initLog b s log)
  | .add_ram start size, (s, log) => do
      let s' ← Startup.add_ram b start size s
      return (s', syspageLog s s' (.added start size :: log))
  | .ws_alloc size, (s, log) => do
      let (p, s') ← Startup.ws_alloc b size s
      match p with
      | none => return (s', initLog b s log)
      | some addr => return (s', .given addr size :: initLog b s log)
  | .alloc_ram size align, (s, log) => do
      let (addr, s') ← Startup.alloc_ram NULL_PADDR size align s
      return (s', allocLog addr size log)
  | .calloc_ram size align, (s, log) => do
      let (addr, s') ← Startup.calloc_ram size align s
      return (s', allocLog addr size log)

/-- The arguments are of their types, and a range to be avoided does not wrap. -/
def InRange : Call → Prop
  | .avoid_ram start size | .add_ram start size => start + size < 2 ^ 64
  | .ws_alloc size => size < 2 ^ 64
  | .alloc_ram size align | .calloc_ram size align => size < 2 ^ 64 ∧ align < 2 ^ 32

/-- Two calls do not both add the same RAM. -/
def AddsOther : Call → Call → Prop
  | .add_ram start size, .add_ram start' size' =>
      Disjoint (Set.Ico start (start + size)) (Set.Ico start' (start' + size'))
  | _, _ => True

/-- `ws_alloc` once the tables are there. -/
abbrev WsSafe (size : ℕ) (log : List Event) (s : RamState) : Prop :=
  (Added log → ENTRY_SIZE < s.ram.ram_list_size ∧
    (size = 0 → (find_ram s 0 8 0 0).toOption ≠ some 0)) ∧
  (¬ Added log → s.ws_early_next + round 64 size 8 < 2 ^ 64)

/-- A call that does not meet one of the flaws of the code.

* An entry that ends at 0 is the end of `avoid_list`, so none is recorded.
* `ws_alloc` takes an empty `ram_list` to mean that no RAM was added yet, so it is not called
  when RAM was added and all of it is given out.
* Rounding up does not wrap and has something to round to.
* A secure system has no RAM above 4 GiB. -/
def Safe (b : BootInfo) : Call → RamState × List Event → Prop
  | .avoid_ram start size, _ => start + size ≠ 0
  | .add_ram start size, (s, _) =>
      start + size ≤ RAM_LIMIT ∧ (s.secure_system = true → start + size ≤ 2 ^ 32)
  | .ws_alloc size, (s, log) => size + 7 < 2 ^ 64 ∧ IfOk (ensureInit b s) (WsSafe size log)
  | .alloc_ram _ align, _ | .calloc_ram _ align, _ => align ≠ 0

instance (b : BootInfo) : ∀ (c : Call) (x : RamState × List Event), Decidable (c.Safe b x)
  | .avoid_ram _ _, _ => inferInstanceAs (Decidable (_ ≠ _))
  | .add_ram _ _, (_, _) => inferInstanceAs (Decidable (_ ∧ (_ → _)))
  | .ws_alloc _, (_, _) => inferInstanceAs (Decidable (_ ∧ IfOk _ _))
  | .alloc_ram _ _, _ | .calloc_ram _ _, _ => inferInstanceAs (Decidable (_ ≠ _))

/-- What a secure system clears for the call is what the call gives out. -/
def ClearsOwn : Call → RamState → Prop
  | .alloc_ram size align, s | .calloc_ram size align, s =>
      s.inited = true → s.secure_system = true →
        IfOk (find_ram s size align 0 0) fun found => found ≠ NULL_PADDR → found % 2 ^ 32 = found
  | _, _ => True

end Call

/-- What is asked of the callers. -/
structure Legal (cs : List Call) : Prop where
  range : ∀ c ∈ cs, c.InRange
  once : cs.Pairwise Call.AddsOther

/-- The calls one after the other. -/
def runFrom (b : BootInfo) (cs : List Call) (x : RamState × List Event) :
    Except Crash (RamState × List Event) :=
  cs.foldlM (fun x c => c.run b x) x

/-- Every call is safe where it is made. -/
def SafeRun (b : BootInfo) : List Call → RamState × List Event → Prop
  | [], _ => True
  | c :: cs, x => c.Safe b x ∧ IfOk (c.run b x) (SafeRun b cs)

instance decideSafeRun (b : BootInfo) : ∀ cs, DecidablePred (SafeRun b cs)
  | [], _ => isTrue trivial
  | c :: cs, x =>
      haveI := decideSafeRun b cs
      inferInstanceAs (Decidable (c.Safe b x ∧ IfOk (c.run b x) (SafeRun b cs)))

/-- No call clears anything but what it gives out. -/
def ClearsOwn (b : BootInfo) : List Call → RamState × List Event → Prop
  | [], _ => True
  | c :: cs, x => c.ClearsOwn x.1 ∧ IfOk (c.run b x) (ClearsOwn b cs)

/-- What the startup header promises: the startup program is the first part of the image, and the
memory after the image is there. -/
structure BootInfo.Sane (b : BootInfo) : Prop where
  startup : 0 < b.startup_size
  image : b.startup_size ≤ b.ram_size
  size : b.ram_size < 2 ^ 32
  above : b.full_ram_paddr + b.ram_size + 2 * PAGESIZE ≤ 2 ^ 64

/-- The static data as the image brings it. -/
structure RamState.Boot (s : RamState) : Prop where
  inited : s.inited = false
  sysram : s.sysram_added = false
  size : s.ram.ram_list_size = 0

/-! ### The tables and the log -/

/-- How the tables stand to the log: free RAM was added, what is to be avoided is avoided, and what
was given out is either avoided or no longer free, and then it cannot be added again. -/
structure Linked (s : RamState) (log : List Event) (l al : List (Span ℕ)) : Prop where
  inited : s.inited = true
  sysram : s.sysram_added = false
  ram : s.ram.Rep l
  avoid : s.avoid.Rep al
  limit : ∀ b ∈ cover l, b < RAM_LIMIT
  low : s.secure_system = true → ∀ b ∈ cover l, b < 2 ^ 32
  added : cover l ⊆ addedBytes log
  avoided : ∀ start size, .avoided start size ∈ log → Set.Ico start (start + size) ⊆ cover al
  given : ∀ start size, .given start size ∈ log → Set.Ico start (start + size) ⊆ cover al ∨
    Disjoint (Set.Ico start (start + size)) (cover l) ∧
      Set.Ico start (start + size) ⊆ addedBytes log
  /-- Before the first `add_ram` everything given out lies below the bump pointer. -/
  early : ¬ Added log → ∀ start size, .given start size ∈ log → start + size ≤ s.ws_early_next
  next : 0 < s.ws_early_next
  apart : Apart log

/-- What holds between calls. -/
def Tracked (s : RamState) (log : List Event) : Prop :=
  s.Boot ∧ log = [] ∨ ∃ l al, Linked s log l al

theorem addedBytes_cons_subset (e : Event) (log : List Event) :
    addedBytes log ⊆ addedBytes (e :: log) :=
  fun _ ⟨start, size, hm, hb⟩ => ⟨start, size, List.mem_cons_of_mem _ hm, hb⟩

namespace Linked

variable {s : RamState} {log : List Event} {l al : List (Span ℕ)}

theorem hi_le (h : Linked s log l al) : ∀ u ∈ l, u.hi ≤ RAM_LIMIT := by
  intro u hu
  have hp := h.ram.normal.proper u hu
  have := h.limit (u.hi - 1) (mem_cover.mpr ⟨u, hu, ⟨by omega, by omega⟩⟩)
  omega

theorem eq_nil (h : Linked s log l al) (hno : ¬ Added log) : l = [] := by
  cases l with
  | nil => rfl
  | cons u l =>
      have hp := h.ram.normal.proper u (by simp)
      obtain ⟨start, size, hm, -⟩ := h.added (mem_cover.mpr ⟨u, by simp, ⟨le_rfl, hp⟩⟩)
      exact absurd ⟨start, size, hm⟩ hno

/-- Taking RAM out of `ram_list` breaks nothing. -/
theorem shrink (h : Linked s log l al) {t : RamList} {l' : List (Span ℕ)} (ht : t.Rep l')
    (hsub : cover l' ⊆ cover l) : Linked { s with ram := t } log l' al where
  inited := h.inited
  sysram := h.sysram
  ram := ht
  avoid := h.avoid
  limit b hb := h.limit b (hsub hb)
  low hs b hb := h.low hs b (hsub hb)
  added := hsub.trans h.added
  avoided := h.avoided
  given start size hm := (h.given start size hm).imp_right fun ⟨hd, ha⟩ =>
    ⟨hd.mono_right hsub, ha⟩
  early := h.early
  next := h.next
  apart := h.apart

/-- The section of the system page is not part of the link. -/
theorem with_asinfo (h : Linked s log l al) (asinfo : Asinfo) (temp_syspage : ℕ) :
    Linked { s with asinfo := asinfo, temp_syspage := temp_syspage } log l al :=
  ⟨h.inited, h.sysram, h.ram, h.avoid, h.limit, h.low, h.added, h.avoided, h.given, h.early,
    h.next, h.apart⟩

/-- RAM that was not there before can be added. -/
theorem grow (h : Linked s log l al) {start size : ℕ} (hlim : start + size ≤ RAM_LIMIT)
    (hlow : s.secure_system = true → start + size ≤ 2 ^ 32)
    (hnew : Disjoint (Set.Ico start (start + size)) (addedBytes log)) {t : RamList}
    (ht : add_mem start size s.ram = .ok t) :
    ∃ l', Linked { s with ram := t } (.added start size :: log) l' al := by
  obtain ⟨l', hl', hcov⟩ : ∃ l', t.Rep l' ∧ cover l' = Set.Ico start (start + size) ∪ cover l := by
    rcases Nat.eq_zero_or_pos size with rfl | hsz
    · cases ht
      exact ⟨l, h.ram, by simp⟩
    · have hw : start + size < 2 ^ 64 := hlim.trans_lt (by decide)
      rcases add_mem_spec h.ram hsz hw with ⟨-, he⟩ | ⟨t', ht', hR⟩
      · rw [he] at ht; cases ht
      · rw [ht'] at ht
        cases ht
        exact ⟨_, hR, cover_unite (Nat.lt_add_of_pos_right hsz) h.ram.normal⟩
  have hadd := addedBytes_cons_subset (.added start size) log
  refine ⟨l', h.inited, h.sysram, hl', h.avoid, ?_, ?_, ?_, ?_, ?_, ?_, h.next, h.apart⟩
  · intro c hc
    rw [hcov] at hc
    rcases hc with hc | hc
    · exact hc.2.trans_le hlim
    · exact h.limit c hc
  · intro hs c hc
    rw [hcov] at hc
    rcases hc with hc | hc
    · exact hc.2.trans_le (hlow hs)
    · exact h.low hs c hc
  · rw [hcov]
    exact Set.union_subset (fun c hc => ⟨start, size, by simp, hc⟩) (h.added.trans hadd)
  · intro st sz hm
    exact h.avoided st sz (by simpa using hm)
  · intro st sz hm
    refine (h.given st sz (by simpa using hm)).imp_right fun ⟨hd, hs⟩ => ⟨?_, hs.trans hadd⟩
    rw [hcov]
    exact Set.disjoint_union_right.mpr ⟨(hnew.mono_right hs).symm, hd⟩
  · exact fun hno => absurd ⟨start, size, by simp⟩ hno

/-- `avoid_ram` once the tables are there. -/
theorem avoidAdd (h : Linked s log l al) {start size : ℕ} (hw : start + size < 2 ^ 64)
    (hne : start + size ≠ 0) {a : AvoidList} (ha : avoidAdd start size s.avoid = .ok a) :
    ∃ al', Linked { s with avoid := a } (.avoided start size :: log) l al' := by
  obtain ⟨al', hal', hcov⟩ := avoidAdd_spec h.avoid hw hne ha
  have hold : cover al ⊆ cover al' := hcov ▸ Set.subset_union_left
  have hadd := addedBytes_cons_subset (.avoided start size) log
  refine ⟨al', h.inited, h.sysram, h.ram, hal', h.limit, h.low, h.added.trans hadd, ?_, ?_, ?_,
    h.next, h.apart⟩
  · intro st sz hm
    rcases List.mem_cons.mp hm with heq | hm
    · cases heq
      exact hcov ▸ Set.subset_union_right
    · exact (h.avoided st sz hm).trans hold
  · intro st sz hm
    have hm : .given st sz ∈ log := by simpa using hm
    exact (h.given st sz hm).imp (fun hs => hs.trans hold) fun ⟨hd, hs⟩ => ⟨hd, hs.trans hadd⟩
  · intro hno st sz hm
    have hm : .given st sz ∈ log := by simpa using hm
    exact h.early (fun ⟨a, b, hab⟩ => hno ⟨a, b, List.mem_cons_of_mem _ hab⟩) st sz hm

/-- `ws_alloc` once it has the range: it is given out, and avoided from now on. -/
theorem record (h : Linked s log l al) {a : AvoidList} {al' : List (Span ℕ)} {addr n size : ℕ}
    (ha : a.Rep al') (hcov : cover al' = cover al ∪ Set.Ico addr (addr + n)) (hn : size ≤ n)
    (hap : Apart (.given addr size :: log)) {next : ℕ} (hle : s.ws_early_next ≤ next)
    (hearly : ¬ Added log → addr + size ≤ next) :
    Linked { s with ws_early_next := next, avoid := a } (.given addr size :: log) l al' := by
  have hold : cover al ⊆ cover al' := hcov ▸ Set.subset_union_left
  have hsub := addedBytes_cons_subset (.given addr size) log
  refine ⟨h.inited, h.sysram, h.ram, ha, h.limit, h.low, h.added.trans hsub, ?_, ?_, ?_,
    h.next.trans_le hle, hap⟩
  · intro st sz hm
    exact (h.avoided st sz (by simpa using hm)).trans hold
  · intro st sz hm
    rcases List.mem_cons.mp hm with heq | hm
    · cases heq
      refine .inl fun c hc => ?_
      rw [hcov]
      exact .inr ⟨hc.1, hc.2.trans_le (by omega)⟩
    · exact (h.given st sz hm).imp (fun hs => hs.trans hold) fun ⟨hd, hs⟩ => ⟨hd, hs.trans hsub⟩
  · intro hno st sz hm
    have hno : ¬ Added log := fun ⟨a, b, hab⟩ => hno ⟨a, b, List.mem_cons_of_mem _ hab⟩
    rcases List.mem_cons.mp hm with heq | hm
    · cases heq
      exact hearly hno
    · exact (h.early hno st sz hm).trans hle

/-- A range that a search came back with can be given out, after RAM was added. -/
theorem apart_given (h : Linked s log l al) {addr size : ℕ} (hu : Usable l al addr size) {n : ℕ}
    (hn : n ≤ size) : Apart (.given addr n :: log) := by
  have hsub : Set.Ico addr (addr + n) ⊆ Set.Ico addr (addr + size) := by
    intro b hb
    exact ⟨hb.1, hb.2.trans_le (by omega)⟩
  have hoff : Disjoint (Set.Ico addr (addr + n)) (cover al) :=
    Set.disjoint_left.mpr fun b hb => hu.off b (hsub hb).1 (hsub hb).2
  refine ⟨fun st sz hm => ?_, fun _ => ⟨?_, fun st sz hm => ?_⟩, h.apart⟩
  · -- Avoided ranges are off the list; ranges taken out of it are not free.
    rcases h.given st sz hm with hs | ⟨hd, -⟩
    · exact hoff.mono_right hs
    · exact (hd.mono_right (hsub.trans hu.cover)).symm
  · exact (hsub.trans hu.cover).trans h.added
  · exact hoff.mono_right (h.avoided st sz hm)

end Linked

/-! ### The calls, one by one -/

/-- `alloc_ram` from the point where the address is known, before `add_sysram`. -/
theorem allocAt_spec {s s' : RamState} {l : List (Span ℕ)} (hl : s.ram.Rep l)
    (hsys : s.sysram_added = false) {addr size : ℕ} (hw : addr + size < 2 ^ 64)
    (h : allocAt addr size s = .ok s') :
    ∃ t, s' = { s with ram := t } ∧ t.Rep (cutAll addr (addr + size) l) := by
  obtain ⟨t, ht, h⟩ := bind_eq_ok.mp h
  rcases allocFrom_rep hl hw with ⟨-, he⟩ | ⟨t', ht', hR⟩
  · rw [he] at ht; cases ht
  · rw [ht'] at ht
    cases ht
    rw [if_neg (by simp [hsys])] at h
    cases h
    exact ⟨t, rfl, hR⟩

theorem alloc_ram_linked {s s' : RamState} {log : List Event} {l al : List (Span ℕ)}
    (h : Linked s log l al) {size align addr : ℕ} (ha : align ≠ 0) (haw : align < 2 ^ 32)
    (hrun : alloc_ram NULL_PADDR size align s = .ok (addr, s')) :
    ∃ l', Linked s' (allocLog addr size log) l' al := by
  rcases (alloc_ram_found h.inited h.ram h.avoid h.hi_le (Nat.pos_of_ne_zero ha) haw hrun).2 with
    ⟨rfl, rfl⟩ | ⟨hnull, hu, hw, hs₁⟩
  · exact ⟨l, by simpa [allocLog] using h⟩
  · obtain ⟨u, hul, -, -, hhi⟩ := hu.inside
    obtain ⟨t, rfl, hR⟩ := allocAt_spec h.ram h.sysram hw hs₁
    have hcov := cover_cutAll addr (addr + size) l
    have h' := h.shrink hR (hcov ▸ Set.sdiff_subset)
    rw [allocLog, if_neg hnull]
    have hadd := addedBytes_cons_subset (.given addr size) log
    refine ⟨_, h'.inited, h'.sysram, h'.ram, h'.avoid, h'.limit, h'.low, h'.added.trans hadd, ?_,
      ?_, ?_, h'.next, h.apart_given hu le_rfl⟩
    · intro st sz hm
      exact h.avoided st sz (by simpa using hm)
    · intro st sz hm
      rcases List.mem_cons.mp hm with heq | hm
      · cases heq
        refine .inr ⟨?_, (hu.cover.trans h.added).trans hadd⟩
        rw [hcov]
        exact Set.disjoint_sdiff_right
      · exact (h'.given st sz hm).imp_right fun ⟨hd, hs⟩ => ⟨hd, hs.trans hadd⟩
    · -- Nothing is found before RAM is added.
      intro hno
      rw [h.eq_nil fun ⟨a, b, hab⟩ => hno ⟨a, b, List.mem_cons_of_mem _ hab⟩] at hul
      cases hul

/-- `ws_alloc` before RAM is added: the bump pointer moves and what it passes is avoided. -/
theorem wsTake_early {s s' : RamState} {al : List (Span ℕ)} (hal : s.avoid.Rep al)
    (hram : s.ram.ram_list_size ≤ ENTRY_SIZE) {size : ℕ} {p : Option ℕ}
    (hw : s.ws_early_next + round 64 size 8 < 2 ^ 64) (hpos : 0 < s.ws_early_next)
    (h : wsTake size s = .ok (p, s')) :
    p = some s.ws_early_next ∧ ∃ a al',
      s' = { s with ws_early_next := s.ws_early_next + round 64 size 8, avoid := a } ∧
      a.Rep al' ∧
      cover al' = cover al ∪ Set.Ico s.ws_early_next (s.ws_early_next + round 64 size 8) := by
  simp only [wsTake, hram, if_true] at h
  obtain ⟨a, ha, h⟩ := bind_eq_ok.mp h
  obtain ⟨al', hal', hcov⟩ := avoidAdd_spec hal hw (by omega) ha
  cases h
  exact ⟨rfl, a, al', by rw [addW_of_lt hw], hal', hcov⟩

theorem ws_init_linked {b : BootInfo} (hb : b.Sane) {s s' : RamState} (hs : s.Boot)
    (h : ws_init b s = .ok s') :
    ∃ al, Linked s' [.avoided b.full_ram_paddr b.startup_size] [] al := by
  obtain ⟨hst, himg, hsz, habove⟩ := hb
  simp only [PAGESIZE] at habove
  simp only [ws_init] at h
  rw [addW_of_lt (show b.full_ram_paddr + b.ram_size < 2 ^ 64 by omega)] at h
  have hwrap : b.full_ram_paddr + b.ram_size + (8 - 1) < 2 ^ 64 := by omega
  have hlo := le_round (a := 8) (by decide) (by decide) hwrap
  have hhi := round_le (a := 8) (by decide) (by decide) hwrap
  set base := round 64 (b.full_ram_paddr + b.ram_size) 8
  rw [show round 64 MAX_AVOID_LIST_SIZE 8 = 1024 by decide,
    addW_of_lt (show base + 1024 < 2 ^ 64 by omega)] at h
  obtain ⟨⟨p, s₁⟩, hs₁, h⟩ := bind_eq_ok.mp h
  obtain ⟨a, ha, h⟩ := bind_eq_ok.mp h
  -- The first entry is the list's own memory.
  set f := Function.update s.avoid.slots 0 ⟨base, base + 1024⟩ with hf
  have hroom : 2 * ENTRY_SIZE ≤ MAX_AVOID_LIST_SIZE := by decide
  have hfirst : AvoidList.Rep
      ⟨Function.update f 1 { f 1 with end_ := 0 }, 2 * ENTRY_SIZE⟩ [⟨base, base + 1024⟩] := by
    refine ⟨⟨{ f 1 with end_ := 0 }, rfl, ?_⟩, rfl, hroom, by simp, by simp⟩
    rw [List.map_singleton, List.singleton_append, holds_cons, holds_cons]
    exact ⟨by simp [hf, encAvoid], by simp, Holds.nil _ _⟩
  have hsize : s.ram.ram_list_size ≤ ENTRY_SIZE := by rw [hs.size]; decide
  have hround : round 64 MAX_RAM_LIST_SIZE 8 = 3072 := by decide
  have hbump : base + 1024 + round 64 MAX_RAM_LIST_SIZE 8 < 2 ^ 64 := by rw [hround]; omega
  obtain ⟨-, a₁, al₁, rfl, hal₁, -⟩ := wsTake_early (s := ⟨true, s.ram, ⟨_, _⟩, base + 1024,
    s.temp_syspage, s.sysram_added, s.asinfo, s.secure_system⟩) hfirst hsize hbump
      (Nat.succ_pos _) hs₁
  cases h
  obtain ⟨al, hal, hcov⟩ := avoidAdd_spec hal₁ (by omega) (by omega) ha
  refine ⟨al, rfl, hs.sysram, ?_, hal, by simp, by simp, by simp, ?_, by simp, by simp, ?_,
    trivial⟩
  · exact .nil (by simp) rfl
  · intro st sz hm
    simp only [List.mem_singleton, Event.avoided.injEq] at hm
    obtain ⟨rfl, rfl⟩ := hm
    exact hcov ▸ Set.subset_union_right
  · simp only [hround]; omega

theorem ensureInit_linked {b : BootInfo} (hb : b.Sane) {s s' : RamState} {log : List Event}
    (ht : Tracked s log) (h : ensureInit b s = .ok s') :
    ∃ l al, Linked s' (initLog b s log) l al := by
  rcases ht with ⟨hs, rfl⟩ | ⟨l, al, hl⟩
  · simp only [ensureInit, hs.inited] at h
    obtain ⟨al, hal⟩ := ws_init_linked hb hs h
    exact ⟨[], al, by simpa [initLog, hs.inited] using hal⟩
  · simp only [ensureInit, hl.inited, if_true] at h
    cases h
    exact ⟨l, al, by simpa [initLog, hl.inited] using hl⟩

theorem avoid_ram_linked {b : BootInfo} (hb : b.Sane) {s s' : RamState} {log : List Event}
    (ht : Tracked s log) {start size : ℕ} (hw : start + size < 2 ^ 64) (hne : start + size ≠ 0)
    (h : avoid_ram b start size s = .ok s') :
    ∃ l al, Linked s' (.avoided start size :: initLog b s log) l al := by
  obtain ⟨s₁, hs₁, h⟩ := bind_eq_ok.mp h
  obtain ⟨a, ha, h⟩ := bind_eq_ok.mp h
  cases h
  obtain ⟨l, al, hl⟩ := ensureInit_linked hb ht hs₁
  obtain ⟨al', hl'⟩ := hl.avoidAdd hw hne ha
  exact ⟨l, al', hl'⟩

/-- `ws_alloc`, before and after RAM is added. -/
theorem ws_alloc_linked {b : BootInfo} (hb : b.Sane) {s s' : RamState} {log : List Event}
    (ht : Tracked s log) {size : ℕ} {p : Option ℕ} (hsafe : (Call.ws_alloc size).Safe b (s, log))
    (h : ws_alloc b size s = .ok (p, s')) :
    ∃ l al, Linked s' (match p with
      | none => initLog b s log
      | some addr => .given addr size :: initLog b s log) l al := by
  obtain ⟨s₁, hs₁, h⟩ := bind_eq_ok.mp h
  obtain ⟨l, al, hl⟩ := ensureInit_linked hb ht hs₁
  obtain ⟨hsz, hsafe⟩ := hsafe
  obtain ⟨hlate, hearly⟩ := hsafe s₁ hs₁
  rw [show Added log ↔ Added (initLog b s log) by simp [Added]] at hlate hearly
  generalize initLog b s log = log₁ at *
  have hround : size ≤ round 64 size 8 := le_round (by decide) (by decide) (by omega)
  by_cases hadd : Added log₁
  · -- RAM was added: the search finds the range and `avoid_list` records it.
    obtain ⟨hsome, hzero⟩ := hlate hadd
    obtain ⟨q, hq, hres⟩ := find_ram_spec hl.ram hl.avoid hl.hi_le (round 64 size 8)
      (show 0 < 8 by decide) (by decide)
    simp only [wsTake, not_le.mpr hsome, if_false, hq, bind, Except.bind] at h
    by_cases hnull : q = NULL_PADDR
    · rw [if_pos hnull] at h
      cases h
      exact ⟨l, al, hl⟩
    · rw [if_neg hnull] at h
      have hu := hres.resolve_left hnull
      obtain ⟨u, hul, -, -, hhi⟩ := hu.inside
      have hw : q + round 64 size 8 < 2 ^ 64 := hhi.trans_lt (hl.ram.bound u hul)
      obtain ⟨a, ha, h⟩ := bind_eq_ok.mp h
      cases h
      have hne : q + round 64 size 8 ≠ 0 := by
        intro h₀
        obtain ⟨rfl, hr⟩ := Nat.add_eq_zero_iff.mp h₀
        rw [hr] at hround hq
        exact hzero (Nat.le_zero.mp hround) (by rw [hq]; rfl)
      obtain ⟨al', hal', hcov⟩ := avoidAdd_spec hl.avoid hw hne ha
      exact ⟨l, al', hl.record hal' hcov hround (hl.apart_given hu hround) le_rfl
        fun hno => absurd hadd hno⟩
  · -- No RAM yet: the range comes from the bump pointer.
    have hnil := hl.eq_nil hadd
    have hsize : s₁.ram.ram_list_size ≤ ENTRY_SIZE := by
      rw [hl.ram.size, hnil]; decide
    obtain ⟨rfl, a, al', rfl, hal', hcov⟩ := wsTake_early hl.avoid hsize (hearly hadd) hl.next h
    have hap : Apart (.given s₁.ws_early_next size :: log₁) := by
      refine ⟨fun st sz hm => ?_, fun h => absurd h hadd, hl.apart⟩
      have hle := hl.early hadd st sz hm
      exact Set.disjoint_left.mpr fun c h₁ h₂ => absurd (h₂.2.trans_le hle) (not_lt.mpr h₁.1)
    exact ⟨l, al', hl.record hal' hcov hround hap (Nat.le_add_right _ _) fun _ => by omega⟩

/-- `add_ram`: the RAM, less the image, with room set aside for the system page. -/
theorem add_ram_linked {b : BootInfo} (hb : b.Sane) {s s' : RamState} {log : List Event}
    (ht : Tracked s log) {start size : ℕ} (hlim : start + size ≤ RAM_LIMIT)
    (hlow : s.secure_system = true → start + size ≤ 2 ^ 32)
    (hnew : Disjoint (Set.Ico start (start + size)) (addedBytes log))
    (h : add_ram b start size s = .ok s') :
    ∃ l al, Linked s' (syspageLog s s' (.added start size :: log)) l al := by
  obtain ⟨asinfo, -, h⟩ := bind_eq_ok.mp h
  obtain ⟨⟨_, asinfo⟩, -, h⟩ := bind_eq_ok.mp h
  rcases ht with ⟨hs, -⟩ | ⟨l, al, hl⟩
  · simp [hs.inited, bind, Except.bind, throw, throwThe, MonadExceptOf.throw] at h
  dsimp only at h
  rw [if_neg (not_not.mpr hl.inited)] at h
  obtain ⟨t, ht, h⟩ := bind_eq_ok.mp h
  obtain ⟨⟨_, s₁⟩, hs₁, h⟩ := bind_eq_ok.mp h
  obtain ⟨l₁, hl₁⟩ := (hl.with_asinfo asinfo s.temp_syspage).grow hlim hlow hnew ht
  -- The image is taken out of the free RAM.
  obtain ⟨t₂, l₂, hl₂, hs₁⟩ : ∃ t₂ l₂, Linked { s with ram := t₂, asinfo := asinfo }
      (.added start size :: log) l₂ al ∧ s₁ = { s with ram := t₂, asinfo := asinfo } := by
    obtain ⟨hst, himg, hsz, habove⟩ := hb
    simp only [PAGESIZE] at habove
    have hlt : b.full_ram_paddr + b.startup_size < NULL_PADDR := by
      simp only [NULL_PADDR]; omega
    rw [addW_of_lt (hlt.trans (by decide)), subW_of_le himg hsz, alloc_ram,
      if_neg (not_not.mpr hl₁.inited), if_neg hlt.ne] at hs₁
    obtain ⟨s₂, hs₂, hs₁⟩ := bind_eq_ok.mp hs₁
    cases hs₁
    have hw : b.full_ram_paddr + b.startup_size + (b.ram_size - b.startup_size) < 2 ^ 64 := by
      omega
    obtain ⟨t₂, rfl, hR⟩ := allocAt_spec hl₁.ram hl₁.sysram hw hs₂
    have hcov := cover_cutAll (b.full_ram_paddr + b.startup_size)
      (b.full_ram_paddr + b.startup_size + (b.ram_size - b.startup_size)) l₁
    exact ⟨t₂, _, hl₁.shrink hR (hcov ▸ Set.sdiff_subset), rfl⟩
  subst hs₁
  simp only at h
  by_cases hnull : s.temp_syspage = NULL_PADDR
  · rw [if_pos hnull] at h
    obtain ⟨q, hq, h⟩ := bind_eq_ok.mp h
    obtain ⟨q', hq', hres⟩ := find_ram_spec hl₂.ram hl₂.avoid hl₂.hi_le TEMP_SYSPAGE_SIZE
      (show 0 < PAGESIZE by decide) (by decide)
    rw [hq'] at hq
    cases hq
    by_cases hqn : q = NULL_PADDR
    · simp only [hqn, ne_eq, not_true, if_false] at h
      cases h
      exact ⟨l₂, al, by simpa [syspageLog] using hl₂.with_asinfo asinfo NULL_PADDR⟩
    · have hu := hres.resolve_left hqn
      obtain ⟨u, hul, -, -, hhi⟩ := hu.inside
      rw [if_pos hqn] at h
      obtain ⟨l₃, al₃, hl₃⟩ := avoid_ram_linked hb (.inr ⟨l₂, al, hl₂.with_asinfo asinfo q⟩)
        (hhi.trans_lt (hl₂.ram.bound u hul)) (by simp [TEMP_SYSPAGE_SIZE]) h
      have htemp : s'.temp_syspage = q := by
        simp only [avoid_ram, ensureInit, hl.inited, if_true, bind, Except.bind] at h
        split at h
        · cases h
        · cases h; rfl
      refine ⟨l₃, al₃, ?_⟩
      rw [syspageLog, htemp, if_pos ⟨hnull, hqn⟩]
      simpa [initLog, hl.inited] using hl₃
  · rw [if_neg hnull] at h
    cases h
    exact ⟨l₂, al, by simpa [syspageLog, hnull] using hl₂⟩

/-! ### Runs -/

/-- A safe call keeps the tables tied to the log. -/
theorem Call.run_linked {b : BootInfo} (hb : b.Sane) {c : Call} {x y : RamState × List Event}
    (ht : Tracked x.1 x.2) (hrange : c.InRange)
    (hnew : ∀ start size, .added start size ∈ x.2 → c.AddsOther (.add_ram start size))
    (hsafe : c.Safe b x) (hy : c.run b x = .ok y) : ∃ l al, Linked y.1 y.2 l al := by
  obtain ⟨s, log⟩ := x
  cases c with
  | avoid_ram start size =>
      obtain ⟨s', hs', hy⟩ := bind_eq_ok.mp hy
      cases hy
      exact avoid_ram_linked hb ht hrange hsafe hs'
  | add_ram start size =>
      obtain ⟨s', hs', hy⟩ := bind_eq_ok.mp hy
      cases hy
      refine add_ram_linked hb ht hsafe.1 hsafe.2 (Set.disjoint_left.mpr ?_) hs'
      rintro c hc ⟨st, sz, hm, hc'⟩
      exact Set.disjoint_left.mp (hnew st sz hm) hc hc'
  | ws_alloc size =>
      obtain ⟨⟨p, s'⟩, hs', hy⟩ := bind_eq_ok.mp hy
      obtain ⟨l, al, hl⟩ := ws_alloc_linked hb ht hsafe hs'
      refine ⟨l, al, ?_⟩
      cases p <;> cases hy <;> exact hl
  | alloc_ram size align | calloc_ram size align =>
      obtain ⟨⟨addr, s'⟩, hs', hy⟩ := bind_eq_ok.mp hy
      cases hy
      have hs' : Startup.alloc_ram NULL_PADDR size align s = .ok (addr, s') := hs'
      rcases ht with ⟨hs, -⟩ | ⟨l, al, hl⟩
      · -- Before `ws_init` there is no list to search.
        rw [Startup.alloc_ram, if_pos (by simp [show s.inited = false from hs.inited])] at hs'
        cases hs'
      · obtain ⟨l', hl'⟩ := alloc_ram_linked hl hsafe hrange.2 hs'
        exact ⟨l', al, hl'⟩

/-- What the log says was added, a call added. -/
theorem Call.added_of_run {b : BootInfo} {c : Call} {x y : RamState × List Event}
    (hy : c.run b x = .ok y) {start size : ℕ} (hm : .added start size ∈ y.2) :
    .added start size ∈ x.2 ∨ c = .add_ram start size := by
  obtain ⟨s, log⟩ := x
  cases c with
  | avoid_ram st sz =>
      obtain ⟨s', -, hy⟩ := bind_eq_ok.mp hy
      cases hy
      left
      simpa using hm
  | add_ram st sz =>
      obtain ⟨s', -, hy⟩ := bind_eq_ok.mp hy
      cases hy
      rw [added_mem_syspageLog, List.mem_cons] at hm
      rcases hm with heq | hm
      · cases heq; exact .inr rfl
      · exact .inl hm
  | ws_alloc sz =>
      obtain ⟨⟨p, s'⟩, -, hy⟩ := bind_eq_ok.mp hy
      left
      cases p <;> cases hy <;> simpa using hm
  | alloc_ram sz align | calloc_ram sz align =>
      obtain ⟨⟨addr, s'⟩, -, hy⟩ := bind_eq_ok.mp hy
      cases hy
      left
      simpa using hm

/-- With RAM below 4 GiB, what `alloc_ram` found is what it clears. -/
theorem Linked.clearsOwn {s : RamState} {log : List Event} {l al : List (Span ℕ)}
    (h : Linked s log l al) {size align : ℕ} (ha : align ≠ 0) (haw : align < 2 ^ 32)
    (hsec : s.secure_system = true) :
    IfOk (find_ram s size align 0 0) fun found => found ≠ NULL_PADDR → found % 2 ^ 32 = found := by
  intro found hfound hnull
  obtain ⟨p, hp, hres⟩ := find_ram_spec h.ram h.avoid h.hi_le size (Nat.pos_of_ne_zero ha) haw
  cases hp.symm.trans hfound
  obtain ⟨u, hu, hlo, hhi, -⟩ := (hres.resolve_left hnull).inside
  exact Nat.mod_eq_of_lt (h.low hsec found (mem_cover.mpr ⟨u, hu, ⟨hlo, hhi⟩⟩))

theorem Call.clearsOwn {b : BootInfo} {c : Call} {x : RamState × List Event}
    (ht : Tracked x.1 x.2) (hrange : c.InRange) (hsafe : c.Safe b x) : c.ClearsOwn x.1 := by
  cases c with
  | avoid_ram _ _ | add_ram _ _ | ws_alloc _ => trivial
  | alloc_ram size align | calloc_ram size align =>
      intro hin hsec
      rcases ht with ⟨hs, -⟩ | ⟨l, al, hl⟩
      · exact absurd (hs.inited.symm.trans hin) Bool.false_ne_true
      · exact hl.clearsOwn hsafe hrange.2 hsec

theorem runFrom_tracked {b : BootInfo} (hb : b.Sane) {cs : List Call}
    {x : RamState × List Event} (hlegal : Legal cs) (ht : Tracked x.1 x.2)
    (hnew : ∀ c ∈ cs, ∀ start size, .added start size ∈ x.2 → c.AddsOther (.add_ram start size))
    (hsafe : SafeRun b cs x) :
    ClearsOwn b cs x ∧ ∀ y, runFrom b cs x = .ok y → Tracked y.1 y.2 := by
  induction cs generalizing x with
  | nil =>
      refine ⟨trivial, fun y hrun => ?_⟩
      cases hrun
      exact ht
  | cons c cs ih =>
      have honce := List.pairwise_cons.mp hlegal.once
      have hrest : ∀ z, c.run b x = .ok z →
          ClearsOwn b cs z ∧ ∀ y, runFrom b cs z = .ok y → Tracked y.1 y.2 := by
        intro z hz
        refine ih ⟨fun d hd => hlegal.range d (by simp [hd]), honce.2⟩
          (.inr (Call.run_linked hb ht (hlegal.range c (by simp)) (hnew c (by simp)) hsafe.1 hz))
          (fun d hd st sz hm => ?_) (hsafe.2 z hz)
        rcases Call.added_of_run hz hm with hm | rfl
        · exact hnew d (by simp [hd]) st sz hm
        · -- A later call adds other RAM than this one did.
          have hd' := honce.1 d hd
          cases d with
          | add_ram st' sz' => exact hd'.symm
          | _ => trivial
      refine ⟨⟨Call.clearsOwn ht (hlegal.range c (by simp)) hsafe.1, fun z hz => (hrest z hz).1⟩,
        fun y hrun => ?_⟩
      rw [runFrom, List.foldlM_cons] at hrun
      obtain ⟨z, hz, hrun⟩ := bind_eq_ok.mp hrun
      exact (hrest z hz).2 y hrun

/-- **What is handed out is handed out once.**  Whatever calls are made and in whatever order, as
long as each is safe where it is made, the log is in order; and on a secure system nothing is
cleared but what is given out. -/
theorem given_out_once {b : BootInfo} (hb : b.Sane) {s : RamState} (hs : s.Boot)
    {cs : List Call} (hlegal : Legal cs) (hsafe : SafeRun b cs (s, [])) :
    ClearsOwn b cs (s, []) ∧ ∀ s' log, runFrom b cs (s, []) = .ok (s', log) → Apart log := by
  obtain ⟨hclears, htracked⟩ := runFrom_tracked hb hlegal (.inl ⟨hs, rfl⟩) (by simp) hsafe
  refine ⟨hclears, fun s' log hrun => ?_⟩
  rcases htracked _ hrun with ⟨-, hlog⟩ | ⟨l, al, hl⟩
  · rw [show log = [] from hlog]
    trivial
  · exact hl.apart

/-! ### Two boots -/

/-- The static data of the image, with room for 64 entries in the system page. -/
def bootRam : RamState where
  inited := false
  ram := ⟨fun _ => ⟨0, 0⟩, 0⟩
  avoid := ⟨fun _ => ⟨0, 0⟩, 0⟩
  ws_early_next := 0
  temp_syspage := NULL_PADDR
  sysram_added := false
  asinfo := ⟨[], 64⟩

/-- A 16 MiB image at the load address of the boot loader. -/
def bootInfo : BootInfo where
  full_ram_paddr := 0x80000
  ram_size := 0x1000000
  startup_size := 0x20000
  memory_end := 2 ^ 40 - 1

/-- An early `ws_alloc`, a range to be avoided, and two requests in the RAM around it. -/
def avoidThenAlloc : List Call :=
  [.ws_alloc 0x20, .avoid_ram 0x1000 0, .avoid_ram 0x40000000 0x1000,
    .add_ram 0x40000000 0x2000, .ws_alloc 0x10, .alloc_ram 0x800 0x100]

def avoidThenAllocLog : List Event :=
  [.given 0x40001100 0x800, .given 0x40001000 0x10, .added 0x40000000 0x2000,
    .avoided 0x40000000 0x1000, .avoided 0x1000 0, .given 0x1081000 0x20,
    .avoided 0x80000 0x20000]

/-- The same static data on a secure system. -/
def secureRam : RamState := { bootRam with secure_system := true }

theorem given_out_once_around_a_hole : ClearsOwn bootInfo avoidThenAlloc (secureRam, []) ∧ ∃ s',
    runFrom bootInfo avoidThenAlloc (secureRam, []) = .ok (s', avoidThenAllocLog) ∧
    Apart avoidThenAllocLog := by
  have hrun : (runFrom bootInfo avoidThenAlloc (secureRam, [])).toOption.map (fun y => y.2) =
      some avoidThenAllocLog := by decide +kernel
  obtain ⟨⟨s', log⟩, hs', rfl⟩ := Option.map_eq_some_iff.mp hrun
  have hs' := toOption_eq_some.mp hs'
  have hlegal : Legal avoidThenAlloc :=
    ⟨by simp [avoidThenAlloc, Call.InRange], by simp [avoidThenAlloc, Call.AddsOther]⟩
  have hsafe : SafeRun bootInfo avoidThenAlloc (secureRam, []) := by decide +kernel
  obtain ⟨hclears, hapart⟩ := given_out_once ⟨by decide, by decide, by decide, by decide⟩
    ⟨rfl, rfl, rfl⟩ hlegal hsafe
  exact ⟨hclears, s', hs', hapart s' _ hs'⟩

/-- An empty range to be avoided, and then one that is not empty. -/
def hiddenAvoid : List Call :=
  [.avoid_ram 0 0, .avoid_ram 0x40000000 0x1000, .add_ram 0x40000000 0x2000,
    .alloc_ram 0x1000 1]

/-- All RAM given out, and then one request more. -/
def ramGone : List Call :=
  [.avoid_ram 0x1000 0x1000, .add_ram 0x40000000 0x2000, .alloc_ram 0x2000 1, .ws_alloc 8]

/-- An `avoid_ram(0, 0)` hides the range to be avoided after it; and once all RAM is given out,
`ws_alloc` gives out memory that is not RAM. -/
theorem given_out_despite_avoid :
    (Legal hiddenAvoid ∧ ∃ s' log,
      runFrom bootInfo hiddenAvoid (bootRam, []) = .ok (s', log) ∧ ¬ Apart log) ∧
    Legal ramGone ∧ ∃ s' log,
      runFrom bootInfo ramGone (bootRam, []) = .ok (s', log) ∧ ¬ Apart log := by
  refine ⟨⟨⟨by simp [hiddenAvoid, Call.InRange], by simp [hiddenAvoid, Call.AddsOther]⟩, ?_⟩,
    ⟨by simp [ramGone, Call.InRange], by simp [ramGone, Call.AddsOther]⟩, ?_⟩
  · have hrun : (runFrom bootInfo hiddenAvoid (bootRam, [])).toOption.map (fun y => y.2) =
        some [.given 0x40000000 0x1000, .added 0x40000000 0x2000, .avoided 0x40000000 0x1000,
          .avoided 0 0, .avoided 0x80000 0x20000] := by decide +kernel
    obtain ⟨⟨s', log⟩, hs', hlog⟩ := Option.map_eq_some_iff.mp hrun
    refine ⟨s', log, toOption_eq_some.mp hs', fun hap => ?_⟩
    obtain rfl : log = _ := hlog
    -- The first page is to be avoided, and given out.
    have hoff := (hap.2.1 ⟨0x40000000, 0x2000, by simp⟩).2 0x40000000 0x1000 (by simp)
    have hmem : 0x40000000 ∈ Set.Ico 0x40000000 (0x40000000 + 0x1000) := by simp
    exact Set.disjoint_left.mp hoff hmem hmem
  · have hrun : (runFrom bootInfo ramGone (bootRam, [])).toOption.map (fun y => y.2) =
        some [.given 0x1081000 8, .given 0x40000000 0x2000, .added 0x40000000 0x2000,
          .avoided 0x1000 0x1000, .avoided 0x80000 0x20000] := by decide +kernel
    obtain ⟨⟨s', log⟩, hs', hlog⟩ := Option.map_eq_some_iff.mp hrun
    refine ⟨s', log, toOption_eq_some.mp hs', fun hap => ?_⟩
    obtain rfl : log = _ := hlog
    -- The bump pointer is below the only RAM.
    have hmem : 0x1081000 ∈ Set.Ico 0x1081000 (0x1081000 + 8) := by simp
    obtain ⟨st, sz, hm, hlo, -⟩ := (hap.2.1 ⟨0x40000000, 0x2000, by simp⟩).1 hmem
    simp only [List.mem_cons, Event.added.injEq, reduceCtorEq, false_or, or_false,
      List.not_mem_nil] at hm
    omega

end Startup
