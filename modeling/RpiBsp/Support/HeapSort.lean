import Mathlib.Algebra.GroupWithZero.Nat
import Mathlib.Algebra.Ring.Int.Defs
import Mathlib.Data.List.Nodup
import Mathlib.Logic.Equiv.Basic
import Mathlib.Order.CompletePartialOrder
import Mathlib.Tactic.Common

/-!
# Support — heap sort in place

Cells are sorted by exchanging two at a time: each of them is moved up from where it is until the
cell above it, which is half as far from the start, has no smaller key, and then the first cell,
which is the largest, goes to the end.  The cells need not be an array: all that is asked of them is
what an exchange does (`Swaps`).

* `UpOrder` — a heap but for one cell that is too large; `UpOrder.swap` moves it up;
* `heapify_spec` — the cells become a heap, and none is lost;
* `sort_spec` — **main**: the cells are sorted, and none is lost.
-/

namespace Support.HeapSort

/-- Cells that can be read, and exchanged. -/
structure Cells (σ α : Type*) where
  get : σ → ℕ → α
  swap : ℕ → ℕ → σ → σ

section Algorithm

variable {σ α β : Type*} [LinearOrder β] (C : Cells σ α) (key : α → β)

/-- The cell goes up until the one above it has no smaller key. -/
def siftUp (child : ℕ) (s : σ) : σ :=
  if child = 0 then s
  else if key (C.get s child) ≤ key (C.get s ((child - 1) / 2)) then s
  else siftUp ((child - 1) / 2) (C.swap ((child - 1) / 2) child s)
termination_by child
decreasing_by omega

/-- The first cells become a heap, one after the other. -/
def heapify (count : ℕ) (s : σ) : σ :=
  (List.range' 1 (count - 1)).foldl (fun s child => siftUp C key child s) s

/-- From `last` down, the first cell is exchanged with one at the end, and the others become a heap
again. -/
def sortFrom : ℕ → σ → σ
  | 0, s => s
  | last + 1, s => sortFrom last (heapify C key (last + 1) (C.swap (last + 1) 0 s))

end Algorithm

/-! ### Exchanges -/

section Shuffles

variable {σ α : Type*} {C : Cells σ α} {n : ℕ}

/-- What an exchange does to the first `n` cells. -/
def Cells.Swaps (C : Cells σ α) (n : ℕ) : Prop :=
  ∀ i < n, ∀ j < n, ∀ s, ∀ k < n, C.get (C.swap i j s) k = C.get s (Equiv.swap i j k)

/-- The first `c` of `n` cells are in another order. -/
def Shuffles (C : Cells σ α) (n c : ℕ) (s s' : σ) : Prop :=
  ∃ f : Equiv.Perm ℕ, (∀ k, c ≤ k → f k = k) ∧ ∀ k < n, C.get s' k = C.get s (f k)

/-- A permutation that leaves everything from `c` on alone keeps below it what is below. -/
theorem perm_lt {f : Equiv.Perm ℕ} {c : ℕ} (hf : ∀ k, c ≤ k → f k = k) {k : ℕ} (hk : k < c) :
    f k < c := by
  by_contra hge
  have heq : f (f k) = f k := hf _ (by omega)
  rw [f.injective heq] at hge
  exact hge hk

theorem Shuffles.refl (C : Cells σ α) (n c : ℕ) (s : σ) : Shuffles C n c s s :=
  ⟨1, fun _ _ => rfl, fun _ _ => rfl⟩

theorem Shuffles.trans {c : ℕ} {s s' s'' : σ} (hc : c ≤ n) (h : Shuffles C n c s s')
    (h' : Shuffles C n c s' s'') :
    Shuffles C n c s s'' := by
  obtain ⟨f, hf, hget⟩ := h
  obtain ⟨g, hg, hget'⟩ := h'
  refine ⟨g.trans f, fun k hk => ?_, fun k hk => ?_⟩
  · rw [Equiv.trans_apply, hg k hk, hf k hk]
  · have hlt : g k < n := perm_lt (fun j hj => hg j (hc.trans hj)) hk
    rw [Equiv.trans_apply, hget' k hk, hget _ hlt]

theorem Shuffles.mono {c c' : ℕ} {s s' : σ} (hc : c ≤ c') (h : Shuffles C n c s s') :
    Shuffles C n c' s s' := by
  obtain ⟨f, hf, hget⟩ := h
  exact ⟨f, fun k hk => hf k (hc.trans hk), hget⟩

theorem Cells.Swaps.shuffles (hC : C.Swaps n) {i j c : ℕ} (hi : i < c) (hj : j < c) (hc : c ≤ n)
    (s : σ) :
    Shuffles C n c s (C.swap i j s) :=
  ⟨Equiv.swap i j, fun _ hk => Equiv.swap_apply_of_ne_of_ne (by omega) (by omega),
    fun k hk => hC i (by omega) j (by omega) s k hk⟩

/-- What is in the first cells was in them. -/
theorem Shuffles.low {c : ℕ} {s s' : σ} (hc : c ≤ n) (h : Shuffles C n c s s') {k : ℕ}
    (hk : k < c) :
    ∃ j < c, C.get s' k = C.get s j := by
  obtain ⟨f, hf, hget⟩ := h
  exact ⟨f k, perm_lt hf hk, hget k (by omega)⟩

/-- The others are as they were. -/
theorem Shuffles.high {c : ℕ} {s s' : σ} (h : Shuffles C n c s s') {k : ℕ} (hk : c ≤ k)
    (hkn : k < n) :
    C.get s' k = C.get s k := by
  obtain ⟨f, hf, hget⟩ := h
  rw [hget k hkn, hf k hk]

/-- No cell is lost. -/
theorem Shuffles.perm {s s' : σ} (h : Shuffles C n n s s') :
    ((List.range n).map (C.get s')).Perm ((List.range n).map (C.get s)) := by
  obtain ⟨f, hf, hget⟩ := h
  have hrange : ((List.range n).map f).Perm (List.range n) := by
    refine (List.perm_ext_iff_of_nodup (List.Nodup.map f.injective List.nodup_range)
      List.nodup_range).mpr fun k => ?_
    rw [List.mem_map, List.mem_range]
    constructor
    · rintro ⟨j, hj, rfl⟩
      exact perm_lt hf (List.mem_range.mp hj)
    · intro hk
      refine ⟨f.symm k, List.mem_range.mpr ?_, f.apply_symm_apply k⟩
      by_contra hge
      have heq := hf (f.symm k) (by omega)
      rw [f.apply_symm_apply] at heq
      omega
  have heq : (List.range n).map (C.get s') = ((List.range n).map f).map (C.get s) := by
    rw [List.map_map]
    exact List.map_congr_left fun k hk => hget k (List.mem_range.mp hk)
  rw [heq]
  exact hrange.map _

end Shuffles

/-! ### Heaps -/

section Heaps

variable {σ α β : Type*} [LinearOrder β] {C : Cells σ α} {key : α → β} {n c : ℕ} {s : σ}

/-- Of the first `c` cells, none has a larger key than the one above it. -/
def Heap (C : Cells σ α) (key : α → β) (c : ℕ) (s : σ) : Prop :=
  ∀ i, 0 < i → i < c → key (C.get s i) ≤ key (C.get s ((i - 1) / 2))

/-- The first cell is the largest. -/
theorem Heap.root (h : Heap C key c s) : ∀ i, i < c → key (C.get s i) ≤ key (C.get s 0) := by
  intro i
  induction i using Nat.strong_induction_on with
  | _ i ih =>
      intro hi
      by_cases h0 : i = 0
      · rw [h0]
      · exact (h i (by omega) hi).trans (ih _ (by omega) (by omega))

/-- The first `c` cells are a heap, but for the one at `hole`, which can be larger than the one
above it. -/
structure UpOrder (C : Cells σ α) (key : α → β) (c hole : ℕ) (s : σ) : Prop where
  except : ∀ i, 0 < i → i < c → i ≠ hole → key (C.get s i) ≤ key (C.get s ((i - 1) / 2))
  grand : hole ≠ 0 → ∀ i, 0 < i → i < c → (i - 1) / 2 = hole →
    key (C.get s i) ≤ key (C.get s ((hole - 1) / 2))

/-- One more cell at the end of a heap. -/
theorem Heap.upOrder (h : Heap C key c s) : UpOrder C key (c + 1) c s where
  except i h0 hi hne := h i h0 (by omega)
  grand _ i h0 hi hparent := absurd hparent (by omega)

theorem UpOrder.heap {hole : ℕ} (h : UpOrder C key c hole s)
    (hstop : hole ≠ 0 → key (C.get s hole) ≤ key (C.get s ((hole - 1) / 2))) : Heap C key c s := by
  intro i h0 hi
  by_cases heq : i = hole
  · rw [heq]
    exact hstop (by omega)
  · exact h.except i h0 hi heq

/-- The cell is exchanged with the one above it. -/
theorem UpOrder.swap (hC : C.Swaps n) (hc : c ≤ n) {hole : ℕ} (h : UpOrder C key c hole s)
    (hne : hole ≠ 0) (hlt : hole < c) (hbig : key (C.get s ((hole - 1) / 2)) < key (C.get s hole)) :
    UpOrder C key c ((hole - 1) / 2) (C.swap ((hole - 1) / 2) hole s) := by
  have hget : ∀ k < n, C.get (C.swap ((hole - 1) / 2) hole s) k =
      C.get s (Equiv.swap ((hole - 1) / 2) hole k) :=
    fun k hk => hC _ (by omega) _ (by omega) s k hk
  have hup : C.get (C.swap ((hole - 1) / 2) hole s) ((hole - 1) / 2) = C.get s hole := by
    rw [hget _ (by omega), Equiv.swap_apply_left]
  have hdown : C.get (C.swap ((hole - 1) / 2) hole s) hole = C.get s ((hole - 1) / 2) := by
    rw [hget _ (by omega), Equiv.swap_apply_right]
  have hother : ∀ k < n, k ≠ (hole - 1) / 2 → k ≠ hole →
      C.get (C.swap ((hole - 1) / 2) hole s) k = C.get s k := by
    intro k hk h₁ h₂
    rw [hget k hk, Equiv.swap_apply_of_ne_of_ne h₁ h₂]
  constructor
  · intro i h0 hi hip
    by_cases hih : i = hole
    · rw [hih, hdown, hup]
      exact hbig.le
    · rw [hother i (by omega) hip hih]
      by_cases hph : (i - 1) / 2 = hole
      · rw [hph, hdown]
        exact h.grand hne i h0 hi hph
      · by_cases hpp : (i - 1) / 2 = (hole - 1) / 2
        · rw [hpp, hup]
          exact (hpp ▸ h.except i h0 hi hih).trans hbig.le
        · rw [hother _ (by omega) hpp hph]
          exact h.except i h0 hi hih
  · intro hp0 i h0 hi hip
    have habove : key (C.get s ((hole - 1) / 2)) ≤ key (C.get s (((hole - 1) / 2 - 1) / 2)) :=
      h.except _ (by omega) (by omega) (by omega)
    rw [hother (((hole - 1) / 2 - 1) / 2) (by omega) (by omega) (by omega)]
    by_cases hih : i = hole
    · rw [hih, hdown]
      exact habove
    · rw [hother i (by omega) (by omega) hih]
      exact (hip ▸ h.except i h0 hi hih).trans habove

theorem siftUp_spec (hC : C.Swaps n) (hc : c ≤ n) {hole : ℕ} (h : UpOrder C key c hole s)
    (hlt : hole < c) :
    Heap C key c (siftUp C key hole s) ∧ Shuffles C n c s (siftUp C key hole s) := by
  induction hole, s using siftUp.induct C key with
  | case1 s =>
      rw [siftUp, if_pos rfl]
      exact ⟨h.heap fun h0 => absurd rfl h0, .refl _ _ _ _⟩
  | case2 hole s hne hle =>
      rw [siftUp, if_neg hne, if_pos hle]
      exact ⟨h.heap fun _ => hle, .refl _ _ _ _⟩
  | case3 hole s hne hle ih =>
      rw [siftUp, if_neg hne, if_neg hle]
      obtain ⟨hheap, hshuffles⟩ := ih (h.swap hC hc hne hlt (not_le.mp hle)) (by omega)
      exact ⟨hheap, (hC.shuffles (by omega) hlt hc s).trans hc hshuffles⟩

/-- **The cells become a heap.** -/
theorem heapify_spec (key : α → β) (hC : C.Swaps n) (hc : c ≤ n) (s : σ) :
    Heap C key c (heapify C key c s) ∧ Shuffles C n c s (heapify C key c s) := by
  have hfold : ∀ m, m + 1 ≤ n →
      Heap C key (m + 1) ((List.range' 1 m).foldl (fun s child => siftUp C key child s) s) ∧
      Shuffles C n (m + 1) s ((List.range' 1 m).foldl (fun s child => siftUp C key child s) s) := by
    intro m
    induction m with
    | zero => exact fun _ => ⟨fun i h0 hi => absurd hi (by omega), .refl _ _ _ _⟩
    | succ m ih =>
        intro hm
        obtain ⟨hheap, hshuffles⟩ := ih (by omega)
        rw [List.range'_concat, List.foldl_append, List.foldl_cons, List.foldl_nil, Nat.one_mul,
          Nat.add_comm 1 m]
        obtain ⟨hheap', hshuffles'⟩ := siftUp_spec hC hm hheap.upOrder (Nat.lt_succ_self _)
        exact ⟨hheap', (hshuffles.mono (Nat.le_succ _)).trans hm hshuffles'⟩
  cases c with
  | zero => exact ⟨fun i h0 hi => absurd hi (by omega), .refl _ _ _ _⟩
  | succ m => exact hfold m hc

/-! ### Sorting -/

/-- From `last` on the cells are sorted, and none before has a larger key than one behind. -/
structure Sorting (C : Cells σ α) (key : α → β) (n last : ℕ) (s : σ) : Prop where
  heap : Heap C key (last + 1) s
  behind : ∀ i j, last < i → i < j → j < n → key (C.get s i) ≤ key (C.get s j)
  across : ∀ i j, i ≤ last → last < j → j < n → key (C.get s i) ≤ key (C.get s j)

theorem Sorting.step (hC : C.Swaps n) {last : ℕ} (hlast : last + 1 < n)
    (h : Sorting C key n (last + 1) s) :
    Sorting C key n last (heapify C key (last + 1) (C.swap (last + 1) 0 s)) ∧
      Shuffles C n n s (heapify C key (last + 1) (C.swap (last + 1) 0 s)) := by
  obtain ⟨hheap, hshuffles⟩ := heapify_spec key hC (Nat.le_of_lt hlast) (C.swap (last + 1) 0 s)
  have hget : ∀ k < n, C.get (C.swap (last + 1) 0 s) k = C.get s (Equiv.swap (last + 1) 0 k) :=
    fun k hk => hC _ hlast _ (by omega) s k hk
  -- the cell that was the first one, and those that were behind
  have hfirst : C.get (heapify C key (last + 1) (C.swap (last + 1) 0 s)) (last + 1) =
      C.get s 0 := by
    rw [hshuffles.high (Nat.le_refl _) hlast, hget _ hlast, Equiv.swap_apply_left]
  have hbehind : ∀ k, last + 1 < k → k < n →
      C.get (heapify C key (last + 1) (C.swap (last + 1) 0 s)) k = C.get s k := by
    intro k hk hkn
    rw [hshuffles.high hk.le hkn, hget k hkn, Equiv.swap_apply_of_ne_of_ne (by omega) (by omega)]
  have hfront : ∀ k ≤ last, ∃ j ≤ last + 1, C.get (heapify C key (last + 1) (C.swap (last + 1) 0 s))
      k = C.get s j := by
    intro k hk
    obtain ⟨j, hj, heq⟩ := hshuffles.low (Nat.le_of_lt hlast) (Nat.lt_succ_of_le hk)
    rw [heq, hget j (by omega)]
    by_cases h0 : j = 0
    · exact ⟨last + 1, Nat.le_refl _, by rw [h0, Equiv.swap_apply_right]⟩
    · exact ⟨j, by omega, by rw [Equiv.swap_apply_of_ne_of_ne (by omega) h0]⟩
  refine ⟨⟨hheap, fun i j hi hij hj => ?_, fun i j hi hj hjn => ?_⟩, ?_⟩
  · by_cases heq : i = last + 1
    · rw [heq, hfirst, hbehind j (by omega) hj]
      exact h.across 0 j (Nat.zero_le _) (by omega) hj
    · rw [hbehind i (by omega) (by omega), hbehind j (by omega) hj]
      exact h.behind i j (by omega) hij hj
  · obtain ⟨k, hk, heq⟩ := hfront i hi
    rw [heq]
    by_cases hjl : j = last + 1
    · rw [hjl, hfirst]
      exact h.heap.root k (by omega)
    · rw [hbehind j (by omega) hjn]
      exact h.across k j hk (by omega) hjn
  · exact (hC.shuffles hlast (by omega) (Nat.le_refl n) s).trans (Nat.le_refl n)
      (hshuffles.mono hlast.le)

theorem sortFrom_spec (hC : C.Swaps n) {last : ℕ} (hlast : last < n) (h : Sorting C key n last s) :
    Sorting C key n 0 (sortFrom C key last s) ∧ Shuffles C n n s (sortFrom C key last s) := by
  induction last generalizing s with
  | zero => exact ⟨h, .refl _ _ _ _⟩
  | succ last ih =>
      obtain ⟨hstep, hshuffles⟩ := h.step hC hlast
      obtain ⟨hsorted, hshuffles'⟩ := ih (by omega) hstep
      exact ⟨hsorted, hshuffles.trans (Nat.le_refl n) hshuffles'⟩

/-- **The cells are sorted.** -/
theorem sort_spec (key : α → β) (hC : C.Swaps n) (hn : 0 < n) (s : σ) :
    ((List.range n).map (C.get (sortFrom C key (n - 1) (heapify C key n s)))).Pairwise
        (key · ≤ key ·) ∧
      Shuffles C n n s (sortFrom C key (n - 1) (heapify C key n s)) := by
  obtain ⟨hheap, hshuffles⟩ := heapify_spec key hC (Nat.le_refl n) s
  have hstart : Sorting C key n (n - 1) (heapify C key n s) :=
    ⟨by rwa [Nat.sub_add_cancel hn], fun i j hi hij hj => by omega, fun i j hi hj hjn => by omega⟩
  obtain ⟨hsorted, hshuffles'⟩ := sortFrom_spec hC (Nat.sub_lt hn Nat.one_pos) hstart
  refine ⟨?_, hshuffles.trans (Nat.le_refl n) hshuffles'⟩
  rw [List.pairwise_map]
  refine List.pairwise_lt_range.imp_of_mem fun {i j} hi hj hij => ?_
  rw [List.mem_range] at hi hj
  by_cases h0 : i = 0
  · exact hsorted.across i j h0.le (by omega) hj
  · exact hsorted.behind i j (by omega) hij hj

end Heaps

end Support.HeapSort
