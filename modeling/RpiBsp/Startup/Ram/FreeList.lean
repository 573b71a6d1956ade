import RpiBsp.Startup.Ram.Table
import RpiBsp.Support.Outcome

/-!
# Startup — RAM — the free list

What `ram_list` is for: it denotes a set of bytes, `add_mem` adds a range to the set and
`alloc_ram` at an address takes one out, and the table keeps its form whatever the order of the
calls (`ram_list_after_every_call`).
-/

namespace Startup

open Support

/-- The entries of `ram_list`, up to its end. -/
def RamList.entries (t : RamList) : List RamEntry :=
  ((List.range RAM_SLOTS).map t.slots).takeWhile fun e => e.size ≠ 0

/-- The bytes `ram_list` denotes. -/
def RamList.bytes (t : RamList) : Set ℕ := {b | ∃ e ∈ t.entries, e.addr ≤ b ∧ b < e.addr + e.size}

/-- `ram_list` is ascending, with no empty entry and no two that overlap or touch, it ends inside
the table, and `ram_list_size` counts its entries and the end. -/
structure RamList.WellFormed (t : RamList) : Prop where
  ascending : t.entries.Pairwise fun a b => a.addr < b.addr
  nonempty : ∀ e ∈ t.entries, e.size ≠ 0
  separate : t.entries.Pairwise fun a b => a.addr + a.size < b.addr
  ended : (t.slots t.entries.length).size = 0
  size : t.ram_list_size = (t.entries.length + 1) * ENTRY_SIZE

theorem RamList.Rep.entries {t : RamList} {l : List (Span ℕ)} (h : t.Rep l) :
    t.entries = l.map enc := by
  obtain ⟨z, hz, hh⟩ := h.holds
  have hlt := h.length_lt
  obtain ⟨hl, hend⟩ := holds_append.mp hh
  rw [Nat.zero_add, List.length_map] at hend
  -- The first slots are the list, the next is the end; what follows does not matter.
  have hsplit : (List.range RAM_SLOTS).map t.slots =
      l.map enc ++ z :: (List.range' (l.length + 1) (RAM_SLOTS - (l.length + 1))).map t.slots := by
    have hr : List.range RAM_SLOTS = List.range' 0 l.length ++
        l.length :: List.range' (l.length + 1) (RAM_SLOTS - (l.length + 1)) := by
      have happ := List.range'_append_1 (s := 0) (m := l.length) (n := RAM_SLOTS - l.length)
      rw [Nat.zero_add, Nat.add_sub_cancel' hlt.le] at happ
      rw [List.range_eq_range', ← List.range'_succ, ← happ]
      congr 2; omega
    have hfst : (List.range' 0 l.length).map t.slots = l.map enc := by
      refine List.ext_getElem (by simp) fun i h₁ h₂ => ?_
      simp only [List.getElem_map, List.getElem_range', Nat.zero_add, Nat.one_mul]
      have := hl i (by simpa using h₂)
      rwa [Nat.zero_add, List.getElem_map] at this
    have hz' : t.slots l.length = z := (holds_cons.mp hend).1
    rw [hr, List.map_append, List.map_cons, hfst, hz']
  have hne : ∀ e ∈ l.map enc, (fun e : RamEntry => decide (e.size ≠ 0)) e = true := by
    intro e he
    obtain ⟨s, hs, rfl⟩ := List.mem_map.mp he
    simpa using enc_size_ne (h.normal.proper s hs)
  rw [RamList.entries, hsplit, List.takeWhile_append_of_pos hne]
  simp [hz]

theorem RamList.Rep.bytes {t : RamList} {l : List (Span ℕ)} (h : t.Rep l) :
    t.bytes = cover l := by
  ext b
  simp only [RamList.bytes, h.entries, mem_cover, Span.mem_set, Set.mem_ofPred_eq, List.mem_map]
  constructor
  · rintro ⟨e, ⟨s, hs, rfl⟩, h₁, h₂⟩
    have := h.normal.proper s hs
    simp only [enc] at h₁ h₂
    exact ⟨s, hs, h₁, by omega⟩
  · rintro ⟨s, hs, h₁, h₂⟩
    exact ⟨enc s, ⟨s, hs, rfl⟩, h₁, by simp only [enc]; omega⟩

theorem RamList.Rep.wellFormed {t : RamList} {l : List (Span ℕ)} (h : t.Rep l) :
    t.WellFormed := by
  have hsep : (l.map enc).Pairwise fun a b => a.addr + a.size < b.addr := by
    refine List.pairwise_map.mpr (h.normal.gaps.imp_of_mem fun {s u} hs _ hsu => ?_)
    have := h.normal.proper s hs
    simp only [enc]; omega
  refine ⟨?_, ?_, ?_, ?_, ?_⟩ <;> rw [h.entries]
  · exact hsep.imp fun {a b} hab => by omega
  · intro e he
    obtain ⟨s, hs, rfl⟩ := List.mem_map.mp he
    exact enc_size_ne (h.normal.proper s hs)
  · exact hsep
  · exact h.raw.slot_end (by simp)
  · simpa using h.size

/-! ### Calls -/

/-- A call that changes `ram_list` at a given place. -/
inductive RamCall where
  | add_mem (start size : ℕ)
  | alloc_ram (addr size align : ℕ)
deriving DecidableEq, Repr

namespace RamCall

/-- The range ends below `2 ^ 64`, and `alloc_ram` is given an address. -/
def NonWrapping : RamCall → Prop
  | .add_mem start size => start + size < 2 ^ 64
  | .alloc_ram addr size _ => addr ≠ NULL_PADDR ∧ addr + size < 2 ^ 64

def run : RamCall → RamState → Except Crash RamState
  | .add_mem start size, s => do
      let ram ← Startup.add_mem start size s.ram
      return { s with ram := ram }
  | .alloc_ram addr size align, s => do
      let (_, s) ← Startup.alloc_ram addr size align s
      return s

/-- What the call is to do to the set of bytes. -/
def effect : RamCall → Set ℕ → Set ℕ
  | .add_mem start size, B => B ∪ Set.Ico start (start + size)
  | .alloc_ram addr size _, B => B \ Set.Ico addr (addr + size)

end RamCall

/-- The calls one after the other. -/
def runCalls (cs : List RamCall) (s : RamState) : Except Crash RamState :=
  cs.foldlM (fun s c => c.run s) s

/-- The tables are there, `ram_list` is empty, and `add_sysram` has not been called. -/
structure RamState.Fresh (s : RamState) : Prop where
  inited : s.inited = true
  sysram : s.sysram_added = false
  ended : (s.ram.slots 0).size = 0
  size : s.ram.ram_list_size = ENTRY_SIZE

/-- What holds between calls: the table is a normal list of spans. -/
structure RamState.Kept (s : RamState) : Prop where
  inited : s.inited = true
  sysram : s.sysram_added = false
  rep : ∃ l, s.ram.Rep l

theorem RamList.Rep.nil {t : RamList} (hend : (t.slots 0).size = 0)
    (hsize : t.ram_list_size = ENTRY_SIZE) : t.Rep [] := by
  refine ⟨⟨t.slots 0, hend, ?_⟩, by simpa using hsize, by rw [hsize]; decide, .nil, by simp⟩
  intro j hj
  obtain rfl : j = 0 := by simpa using hj
  rfl

theorem RamState.Fresh.kept {s : RamState} (h : s.Fresh) : s.Kept :=
  ⟨h.inited, h.sysram, [], .nil h.ended h.size⟩

/-- The loop of `alloc_ram` over a table in order: it comes back unless the table is full, with
the range taken out. -/
theorem allocFrom_rep {t : RamList} {l : List (Span ℕ)} (h : t.Rep l) {addr size : ℕ}
    (hw : addr + size < 2 ^ 64) :
    (MAX_RAM_LIST_SIZE - ENTRY_SIZE < t.ram_list_size ∧
      allocFrom addr (addW 64 addr size) (2 * RAM_SLOTS) t 0 = .error .ram_overflow) ∨
    ∃ t', allocFrom addr (addW 64 addr size) (2 * RAM_SLOTS) t 0 = .ok t' ∧
      t'.Rep (cutAll addr (addr + size) l) := by
  rw [addW_of_lt hw]
  have hl := h.length_lt
  have hf : l.length + 1 < 2 * RAM_SLOTS := by
    have : 1 ≤ RAM_SLOTS := by decide
    omega
  exact allocFrom_spec (Nat.le_add_right _ _) hw l _ t [] h hf

/-- One call, from a table in order. -/
theorem RamCall.run_spec {s : RamState} (h : s.Kept) {c : RamCall} (hc : c.NonWrapping) :
    (MAX_RAM_LIST_SIZE - ENTRY_SIZE < s.ram.ram_list_size ∧ c.run s = .error .ram_overflow) ∨
    ∃ s', c.run s = .ok s' ∧ s'.Kept ∧ s'.ram.bytes = c.effect s.ram.bytes := by
  obtain ⟨hinit, hsys, l, hl⟩ := h
  cases c with
  | add_mem start size =>
      rcases Nat.eq_zero_or_pos size with rfl | hsz
      · refine .inr ⟨s, ?_, ⟨hinit, hsys, l, hl⟩, ?_⟩
        · simp [RamCall.run, Startup.add_mem, bind, Except.bind, pure, Except.pure]
        · simp [RamCall.effect]
      · rcases add_mem_spec hl hsz hc with ⟨hfull, he⟩ | ⟨t, ht, hR⟩
        · exact .inl ⟨hfull, by rw [RamCall.run, he]; rfl⟩
        · refine .inr ⟨{ s with ram := t }, by rw [RamCall.run, ht]; rfl, ⟨hinit, hsys, _, hR⟩, ?_⟩
          rw [hR.bytes, hl.bytes, cover_unite (Nat.lt_add_of_pos_right hsz) hl.normal,
            Set.union_comm]
          rfl
  | alloc_ram addr size align =>
      have hrun : (RamCall.alloc_ram addr size align).run s =
          (allocFrom addr (addW 64 addr size) (2 * RAM_SLOTS) s.ram 0 >>= fun t =>
            .ok { s with ram := t }) := by
        simp only [RamCall.run, Startup.alloc_ram, allocAt, hinit, hc.1, not_true, if_false]
        cases allocFrom addr (addW 64 addr size) (2 * RAM_SLOTS) s.ram 0 with
        | error e => rfl
        | ok t => simp [bind, Except.bind, hsys, pure, Except.pure]
      rw [hrun]
      rcases allocFrom_rep hl hc.2 with ⟨hfull, he⟩ | ⟨t, ht, hR⟩
      · exact .inl ⟨hfull, by rw [he]; rfl⟩
      · refine .inr ⟨{ s with ram := t }, by rw [ht]; rfl, ⟨hinit, hsys, _, hR⟩, ?_⟩
        rw [hR.bytes, hl.bytes, cover_cutAll]; rfl

theorem runCalls_kept {s₀ s : RamState} (h₀ : s₀.Kept) {cs : List RamCall}
    (hcs : ∀ c ∈ cs, c.NonWrapping) (hs : runCalls cs s₀ = .ok s) : s.Kept := by
  induction cs generalizing s₀ with
  | nil => cases hs; exact h₀
  | cons c cs ih =>
      rw [runCalls, List.foldlM_cons] at hs
      rcases RamCall.run_spec h₀ (hcs c (by simp)) with ⟨-, he⟩ | ⟨s₁, hs₁, hk, -⟩
      · rw [he] at hs; cases hs
      · rw [hs₁] at hs
        exact ih hk (fun d hd => hcs d (by simp [hd])) hs

/-- **`ram_list` after every call.**  From the empty table, whatever non-wrapping calls have come
back, the table is in order; and whatever non-wrapping call comes next, it comes back if there is
a slot left, and if it comes back the table is in order again and denotes the old bytes with the
range added, or taken out. -/
theorem ram_list_after_every_call {s₀ s : RamState} (h₀ : s₀.Fresh) {cs : List RamCall}
    (hcs : ∀ c ∈ cs, c.NonWrapping) (hs : runCalls cs s₀ = .ok s) :
    s.ram.WellFormed ∧
    ∀ c : RamCall, c.NonWrapping →
      (s.ram.ram_list_size + ENTRY_SIZE ≤ MAX_RAM_LIST_SIZE → ∃ s', c.run s = .ok s') ∧
      ∀ s', c.run s = .ok s' →
        s'.ram.WellFormed ∧ s'.ram.bytes = c.effect s.ram.bytes := by
  have hk := runCalls_kept h₀.kept hcs hs
  obtain ⟨l, hl⟩ := hk.rep
  refine ⟨hl.wellFormed, fun c hc => ⟨fun hroom => ?_, fun s' hs' => ?_⟩⟩
  · rcases RamCall.run_spec hk hc with ⟨hfull, -⟩ | ⟨s', hs', -, -⟩
    · simp only [ENTRY_SIZE, MAX_RAM_LIST_SIZE] at *; omega
    · exact ⟨s', hs'⟩
  · rcases RamCall.run_spec hk hc with ⟨-, he⟩ | ⟨s'', hs'', hk', hb⟩
    · rw [he] at hs'; cases hs'
    · rw [hs''] at hs'
      cases hs'
      exact ⟨hk'.rep.choose_spec.wellFormed, hb⟩

/-- Empty tables. -/
def emptyRam : RamState where
  inited := true
  ram := ⟨fun _ => ⟨0, 0⟩, ENTRY_SIZE⟩
  avoid := ⟨fun _ => ⟨0, 0⟩, ENTRY_SIZE⟩
  ws_early_next := 0
  temp_syspage := NULL_PADDR
  sysram_added := false
  asinfo := ⟨[], 0⟩

/-- Two banks that touch, and a hole cut out of them. -/
def twoBanks : List RamCall :=
  [.add_mem 0x2000 0x1000, .add_mem 0x1000 0x1000, .alloc_ram 0x1800 0x400 1]

/-- After the two banks, one request takes in the end of the first part and the start of the
second. -/
theorem ram_list_after_two_banks : ∃ s s', runCalls twoBanks emptyRam = .ok s ∧
    s.ram.entries = [⟨0x1000, 0x800⟩, ⟨0x1c00, 0x1400⟩] ∧ s.ram.WellFormed ∧
    (RamCall.alloc_ram 0x1400 0x1000 1).run s = .ok s' ∧ s'.ram.WellFormed ∧
    s'.ram.bytes = s.ram.bytes \ Set.Ico 0x1400 0x2400 := by
  have hrun : (runCalls twoBanks emptyRam).toOption.map (fun s => s.ram.entries) =
      some [⟨0x1000, 0x800⟩, ⟨0x1c00, 0x1400⟩] := by decide +kernel
  obtain ⟨s, hs, he⟩ := Option.map_eq_some_iff.mp hrun
  have hs : runCalls twoBanks emptyRam = .ok s := toOption_eq_some.mp hs
  have hcs : ∀ c ∈ twoBanks, c.NonWrapping := by simp [twoBanks, RamCall.NonWrapping, NULL_PADDR]
  obtain ⟨hwf, hcall⟩ := ram_list_after_every_call ⟨rfl, rfl, rfl, rfl⟩ hcs hs
  obtain ⟨hback, hnext⟩ := hcall (.alloc_ram 0x1400 0x1000 1)
    (by simp [RamCall.NonWrapping, NULL_PADDR])
  obtain ⟨s', hs'⟩ := hback (by rw [hwf.size, he]; decide)
  exact ⟨s, s', hs, he, hwf, hs', hnext s' hs'⟩

end Startup
