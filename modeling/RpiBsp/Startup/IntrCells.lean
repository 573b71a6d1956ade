import Mathlib.Order.Interval.Set.Defs
import Mathlib.Order.Interval.Finset.Basic
import Mathlib.Data.Int.Interval
import RpiBsp.Startup.Fdt
import RpiBsp.Support.Chain
import RpiBsp.Support.Rounds

/-!
# Startup — the cells of an interrupt

`fdt_get_intr_cells` looks for the node whose `#interrupt-cells` says how the interrupts of a node
are written: it goes to the interrupt parent, or to the parent in the tree, as long as the node it
comes to has no such property.  The last parent that a phandle led to is kept for the queries that
follow.

* `round_follow`, `round_last` — a round of the loop, whatever is kept: it goes where the tree
  leads, and it ends where the way in the tree ends, with the same answer;
* `returns_iff` — a query ends just if its way comes to no node twice;
* `answers_as_fresh_iff` — **main**: and then it answers as if nothing had been kept.
-/

namespace Startup.Fdt

open Support

/-! ### The code -/

inductive Property where
  /-- `interrupt-parent` -/
  | interrupt_parent
  /-- `#interrupt-cells` -/
  | interrupt_cells
deriving DecidableEq, Repr

/-- What libfdt tells of a tree.  Nodes are offsets into it, and a negative code is an error. -/
structure Libfdt where
  getprop : ℤ → Property → Except ℤ (List UInt8)
  node_offset_by_phandle : ℕ → ℤ
  parent_offset : ℤ → ℤ
  size : ℤ
  getprop_neg : ∀ node name len, getprop node name = .error len → len < 0
  by_phandle_lt : ∀ phandle, node_offset_by_phandle phandle < size
  parent_lt : ∀ node, parent_offset node < size

def FDT_ERR_BADSTRUCTURE : ℤ := 11
def FDT_MAX_NCELLS : ℤ := 4

/-- `(uint32_t)-1`. -/
def NO_PHANDLE : ℕ := 2 ^ 32 - 1

/-- The return value, and what is stored. -/
def fdt_get_u32 (fdt : Libfdt) (node : ℤ) (offset : ℕ) (name : Property) : ℤ × Option ℕ :=
  match fdt.getprop node name with
  | .error len => (len, none)
  | .ok p =>
    if p.length < offset + 4 then (-FDT_ERR_BADSTRUCTURE, none)
    else (if offset + 4 < p.length then (offset + 4 : ℕ)
      else 0, some (ofBytes ((p.drop offset).take 4)))

/-- The number is taken as an `int`. -/
def fdt_get_int (fdt : Libfdt) (node : ℤ) (offset : ℕ) (name : Property) : ℤ × Option ℤ :=
  let (r, v) := fdt_get_u32 fdt node offset name
  (r, v.map fun v => if v < 2 ^ 31 then v else v - 2 ^ 32)

section Code

variable {P : Type} [DecidableEq P]

/-- `cache_fdt`, `cache_phandle`, `cache_parent` and `cache_intr_cells`; a tree is known by its
address. -/
structure Cache (P : Type) where
  fdt : P
  phandle : ℕ
  parent : ℤ
  intr_cells : ℤ

/-- The return value, what is stored for the parent, and what is kept. -/
structure Answer (P : Type) where
  ret : ℤ
  parent : Option ℤ
  cache : Option (Cache P)

/-- The rest of a round, at the node it comes to. -/
def arrive (tree : Libfdt) (fdt : P) (cache : Option (Cache P)) (node : ℤ) (phandle : ℕ) :
    Answer P ⊕ ℤ × ℕ :=
  let (r, v) := fdt_get_int tree node 0 .interrupt_cells
  let intr_cells := v.getD 0
  if r ≥ 0 then
    if r ≠ 0 ∨ intr_cells ≤ 0 ∨ intr_cells > FDT_MAX_NCELLS then
      .inl ⟨-FDT_ERR_BADNCELLS, none, cache⟩
    else .inl ⟨intr_cells, some node, if phandle ≠ NO_PHANDLE then
      some ⟨fdt, phandle, node, intr_cells⟩ else cache⟩
  else if r ≠ -FDT_ERR_NOTFOUND then .inl ⟨r, none, cache⟩
  else .inr (node, phandle)

/-- A round of the loop, for a node and a phandle. -/
def round (tree : Libfdt) (fdt : P) (cache : Option (Cache P)) (s : ℤ × ℕ) : Answer P ⊕ ℤ × ℕ :=
  let (r, v) := fdt_get_u32 tree s.1 0 .interrupt_parent
  let phandle := v.getD s.2
  match if r = 0 then cache.filter fun c => c.fdt = fdt ∧ phandle = c.phandle else none with
  | some c => .inl ⟨c.intr_cells, some c.parent, cache⟩
  | none =>
    let (r, phandle) :=
      if r = 0 then (tree.node_offset_by_phandle phandle, phandle)
      else if r = -FDT_ERR_NOTFOUND then (tree.parent_offset s.1, NO_PHANDLE)
      else (r, phandle)
    if r < 0 then .inl ⟨r, none, cache⟩ else arrive tree fdt cache r phandle

/-- `fdt_get_intr_cells`, for at most `fuel` rounds. -/
def fdt_get_intr_cells (tree : Libfdt) (fdt : P) (cache : Option (Cache P)) (node : ℤ) (fuel : ℕ) :
    Option (Answer P) :=
  rounds (round tree fdt cache) fuel (node, NO_PHANDLE)

end Code

/-! ### The way in the tree -/

/-- Where a node leads: to its interrupt parent or its parent, or nowhere.  An interrupt parent of
more than one cell leads to the offset behind its first cell. -/
def target (tree : Libfdt) (node : ℤ) : ℤ :=
  match fdt_get_u32 tree node 0 .interrupt_parent with
  | (r, v) =>
    if r = 0 then tree.node_offset_by_phandle (v.getD 0)
    else if r = -FDT_ERR_NOTFOUND then tree.parent_offset node
    else r

/-- The next node, if it has no `#interrupt-cells`. -/
def follow (tree : Libfdt) (node : ℤ) : Option ℤ :=
  if 0 ≤ target tree node ∧ (fdt_get_int tree (target tree node) 0 .interrupt_cells).1 =
    -FDT_ERR_NOTFOUND then
    some (target tree node)
  else none

/-- What a node with `#interrupt-cells` says. -/
def verdict (tree : Libfdt) (node : ℤ) : ℤ × Option ℤ :=
  match fdt_get_int tree node 0 .interrupt_cells with
  | (r, v) =>
    if r < 0 then (r, none)
    else if r ≠ 0 ∨ v.getD 0 ≤ 0 ∨ v.getD 0 > FDT_MAX_NCELLS then (-FDT_ERR_BADNCELLS, none)
    else (v.getD 0, some node)

/-- The answer at the last node of a way. -/
def final (tree : Libfdt) (node : ℤ) : ℤ × Option ℤ :=
  if target tree node < 0 then (target tree node, none) else verdict tree (target tree node)

/-- Nothing on the way of a node has an interrupt parent of more than one cell that leads to
something with `#interrupt-cells`. -/
def Clean (tree : Libfdt) (node : ℤ) : Prop :=
  ∀ k n, chain (follow tree) node k = some n → 0 < (fdt_get_u32 tree n 0 .interrupt_parent).1 →
    (verdict tree 4).2 = none

section Proofs

variable {P : Type} {trees : P → Libfdt} {fdt : P} {cache : Option (Cache P)}

/-- What is kept is what the tree says. -/
def CacheOk (trees : P → Libfdt) (cache : Option (Cache P)) : Prop :=
  ∀ c ∈ cache, (trees c.fdt).node_offset_by_phandle c.phandle = c.parent ∧ 0 ≤ c.parent ∧
    verdict (trees c.fdt) c.parent = (c.intr_cells, some c.parent)

/-- A property has one cell, more than one, or it cannot be read. -/
theorem fdt_get_u32_cases (tree : Libfdt) (node : ℤ) (name : Property) :
    (∃ v, fdt_get_u32 tree node 0 name = (0, some v)) ∨
      (∃ v, fdt_get_u32 tree node 0 name = (4, some v)) ∨
      ∃ r < 0, fdt_get_u32 tree node 0 name = (r, none) := by
  unfold fdt_get_u32
  cases h : tree.getprop node name with
  | error len => exact .inr (.inr ⟨len, tree.getprop_neg node name len h, rfl⟩)
  | ok p =>
      by_cases hshort : p.length < 0 + 4
      · exact .inr (.inr ⟨_, by decide, if_pos hshort⟩)
      · by_cases hlong : 0 + 4 < p.length
        · exact .inr (.inl ⟨_, by simp only [if_neg hshort, if_pos hlong]; rfl⟩)
        · exact .inl ⟨_, by simp only [if_neg hshort, if_neg hlong]; rfl⟩

/-- What is kept after a verdict. -/
def kept (fdt : P) (cache : Option (Cache P)) (node : ℤ) (phandle : ℕ) (a : ℤ × Option ℤ) :
    Option (Cache P) :=
  if a.2 ≠ none ∧ phandle ≠ NO_PHANDLE then some ⟨fdt, phandle, node, a.1⟩ else cache

/-- At the end of a round, what is kept has no part in the answer. -/
theorem arrive_eq (tree : Libfdt) (node : ℤ) (phandle : ℕ) :
    arrive tree fdt cache node phandle =
      if (fdt_get_int tree node 0 .interrupt_cells).1 = -FDT_ERR_NOTFOUND then .inr (node, phandle)
      else .inl ⟨(verdict tree node).1, (verdict tree node).2,
      kept fdt cache node phandle (verdict tree node)⟩ := by
  unfold arrive verdict
  rcases fdt_get_int tree node 0 .interrupt_cells with ⟨r, v⟩
  dsimp only
  by_cases hneg : r < 0
  · rw [if_neg (not_le.mpr hneg), if_pos hneg]
    by_cases hr : r = -FDT_ERR_NOTFOUND <;> simp [hr, kept]
  · have hr : r ≠ -FDT_ERR_NOTFOUND := fun h => hneg (h ▸ by decide)
    rw [if_pos (not_lt.mp hneg), if_neg hneg, if_neg hr]
    split <;> simp [kept]

/-- Where a round goes once the node is known: on, or to its end. -/
theorem arrive_cases (tree : Libfdt) {node : ℤ} (phandle : ℕ) (h : 0 ≤ target tree node) :
    (∀ n, follow tree node = some n → arrive tree fdt cache (target tree node) phandle =
        .inr (n, phandle)) ∧
      (follow tree node = none → arrive tree fdt cache (target tree node) phandle =
        .inl ⟨(final tree node).1, (final tree node).2,
        kept fdt cache (target tree node) phandle (final tree node)⟩) := by
  rw [arrive_eq, follow, final, if_neg (not_lt.mpr h)]
  by_cases hcells : (fdt_get_int tree (target tree node) 0 .interrupt_cells).1 = -FDT_ERR_NOTFOUND
  · rw [if_pos ⟨h, hcells⟩, if_pos hcells]
    exact ⟨fun n hn => by rw [Option.some.inj hn], fun hn => absurd hn (Option.some_ne_none _)⟩
  · rw [if_neg fun h => hcells h.2, if_neg hcells]
    exact ⟨fun n hn => absurd hn.symm (Option.some_ne_none n), fun _ => rfl⟩

theorem verdict_snd {tree : Libfdt} {node p : ℤ} (h : (verdict tree node).2 = some p) :
    p = node ∧ (fdt_get_int tree node 0 .interrupt_cells).1 ≠ -FDT_ERR_NOTFOUND := by
  unfold verdict at h
  generalize fdt_get_int tree node 0 .interrupt_cells = x at h ⊢
  obtain ⟨r, v⟩ := x
  dsimp only at h ⊢
  split at h
  · exact absurd h.symm (Option.some_ne_none p)
  · rename_i hneg
    refine ⟨?_, fun hr => hneg (hr.trans_lt (show -FDT_ERR_NOTFOUND < 0 by decide))⟩
    split at h
    · exact absurd h.symm (Option.some_ne_none p)
    · exact (Option.some.inj h).symm

theorem kept_of_none {node : ℤ} {phandle : ℕ} {a : ℤ × Option ℤ}
    (h : a.2 = none ∨ phandle = NO_PHANDLE) :
    kept fdt cache node phandle a = cache := if_neg fun ha => h.elim ha.1 ha.2

/-- What a phandle led to may be kept. -/
theorem CacheOk.kept (hc : CacheOk trees cache) {node : ℤ} {phandle : ℕ}
    (hph : (trees fdt).node_offset_by_phandle phandle = node) (hnode : 0 ≤ node) :
    CacheOk trees (kept fdt cache node phandle (verdict (trees fdt) node)) := by
  unfold Fdt.kept
  split
  · rename_i hkeep
    obtain ⟨p, hp⟩ := Option.ne_none_iff_exists'.mp hkeep.1
    rintro _ ⟨⟩
    refine ⟨hph, hnode, Prod.ext rfl ?_⟩
    rw [hp, (verdict_snd hp).1]
  · exact hc

/-- A round, whatever is kept: it goes where the tree leads, and it ends where the way ends. -/
structure Follows (trees : P → Libfdt) (fdt : P) (node : ℤ) (r : Answer P ⊕ ℤ × ℕ) : Prop where
  next : ∀ n, follow (trees fdt) node = some n → ∃ ph, r = .inr (n, ph)
  last : follow (trees fdt) node = none → ∃ cache', r =
    .inl ⟨(final (trees fdt) node).1, (final (trees fdt) node).2, cache'⟩ ∧
    ((0 < (fdt_get_u32 (trees fdt) node 0 .interrupt_parent).1 → (verdict (trees fdt) 4).2 = none) →
    CacheOk trees cache')

/-- A round that ends because the node leads nowhere. -/
theorem Follows.nowhere (hc : CacheOk trees cache) {node r : ℤ} (ht : target (trees fdt) node = r)
    (hr : r < 0) :
    Follows trees fdt node (.inl ⟨r, none, cache⟩) := by
  have hfollow : follow (trees fdt) node = none :=
    if_neg fun h => absurd h.1 (by rw [ht]; exact not_le.mpr hr)
  have hfinal : final (trees fdt) node = (r, none) := by
    rw [final, if_pos (by rw [ht]; exact hr), ht]
  exact ⟨fun n hn => absurd (hfollow.symm.trans hn).symm (Option.some_ne_none n), fun _ =>
    ⟨cache, by rw [hfinal], fun _ => hc⟩⟩

theorem Follows.arrive {node r : ℤ} (phandle : ℕ) (ht : target (trees fdt) node = r) (hr : 0 ≤ r)
    (hc : (0 < (fdt_get_u32 (trees fdt) node 0 .interrupt_parent).1 →
      (verdict (trees fdt) 4).2 = none) →
      CacheOk trees (Fdt.kept fdt cache r phandle (verdict (trees fdt) r))) :
    Follows trees fdt node (Fdt.arrive (trees fdt) fdt cache r phandle) := by
  subst ht
  obtain ⟨hnext, hlast⟩ := @arrive_cases P fdt cache (trees fdt) _ phandle hr
  refine ⟨fun n hn => ⟨phandle, hnext n hn⟩, fun hn => ⟨_, hlast hn, fun hclean => ?_⟩⟩
  rw [final, if_neg (not_lt.mpr hr)]
  exact hc hclean

variable [DecidableEq P]

theorem round_follows (hc : CacheOk trees cache) (node : ℤ) (phandle : ℕ) :
    Follows trees fdt node (round (trees fdt) fdt cache (node, phandle)) := by
  unfold round
  rcases fdt_get_u32_cases (trees fdt) node .interrupt_parent with ⟨v, hv⟩ | ⟨v, hv⟩ | ⟨r, hneg, hr⟩
  · have ht : target (trees fdt) node = (trees fdt).node_offset_by_phandle v := by simp [target, hv]
    simp only [hv, Option.getD_some, if_true]
    cases hhit : cache.filter fun c => c.fdt = fdt ∧ v = c.phandle with
    | some c =>
        obtain ⟨hmem, hsame⟩ := Option.filter_eq_some_iff.mp hhit
        obtain ⟨rfl, rfl⟩ : c.fdt = fdt ∧ v = c.phandle := by simpa using hsame
        obtain ⟨hph, hpos, hverdict⟩ := hc c hmem
        rw [hph] at ht
        refine ⟨fun n hn => ?_, fun _ => ⟨cache, ?_, fun _ => hc⟩⟩
        · rw [follow, ht, if_neg fun h => (verdict_snd (congrArg Prod.snd hverdict)).2 h.2] at hn
          exact absurd hn.symm (Option.some_ne_none n)
        · rw [final, ht, if_neg (not_lt.mpr hpos), hverdict]
    | none =>
        dsimp only
        split
        · exact .nowhere hc ht ‹_›
        · exact .arrive v ht (not_lt.mp ‹_›) fun _ => hc.kept rfl (not_lt.mp ‹_›)
  · have ht : target (trees fdt) node = 4 := by simp [target, hv, FDT_ERR_NOTFOUND]
    have hfour : ((4 : ℤ) = 0) = False ∧ ((4 : ℤ) = -FDT_ERR_NOTFOUND) = False ∧
      ((4 : ℤ) < 0) = False := by decide
    simp only [hv, Option.getD_some, hfour, if_false]
    refine .arrive v ht (by decide) fun hclean => ?_
    rw [kept_of_none (.inl (hclean (by rw [hv]; exact show (0 : ℤ) < 4 by decide)))]
    exact hc
  · have hzero : (r = 0) = False := by simp [hneg.ne]
    simp only [hr, Option.getD_none, hzero, if_false]
    by_cases hnf : r = -FDT_ERR_NOTFOUND
    · have ht : target (trees fdt) node = (trees fdt).parent_offset node := by
        simp [target, hr, hnf, FDT_ERR_NOTFOUND]
      simp only [hnf, if_true]
      split
      · exact .nowhere hc ht ‹_›
      · refine .arrive NO_PHANDLE ht (not_lt.mp ‹_›) fun _ => ?_
        rw [kept_of_none (.inr rfl)]
        exact hc
    · have ht : target (trees fdt) node = r := by simp [target, hr, hneg.ne, hnf]
      simp only [hnf, if_false, hneg, if_true]
      exact .nowhere hc ht hneg

/-! ### Queries -/

/-- A query that answers has come to the end of its way. -/
theorem ends_of_rounds (hc : CacheOk trees cache) {a : Answer P} :
    ∀ {fuel : ℕ} {node : ℤ} {phandle : ℕ},
    rounds (round (trees fdt) fdt cache) fuel (node, phandle) = some a →
    ∃ k, chain (follow (trees fdt)) node k = none := by
  intro fuel
  induction fuel with
  | zero => exact fun h => absurd h.symm (Option.some_ne_none a)
  | succ fuel ih =>
      intro node phandle h
      cases hf : follow (trees fdt) node with
      | none => exact ⟨1, by rw [chain_succ, hf]; rfl⟩
      | some n =>
          obtain ⟨ph, hround⟩ := (round_follows hc node phandle).next n hf
          rw [rounds, hround] at h
          obtain ⟨k, hk⟩ := ih h
          exact ⟨k + 1, by rw [chain_succ, hf]; exact hk⟩

/-- At the end of its way, a query has the answer of the last node. -/
theorem rounds_of_way (hc : CacheOk trees cache) {last : ℤ} : ∀ {k : ℕ} {node : ℤ} {phandle : ℕ},
    chain (follow (trees fdt)) node k = some last → follow (trees fdt) last = none →
    ∃ cache', rounds (round (trees fdt) fdt cache) (k + 1) (node, phandle) =
      some ⟨(final (trees fdt) last).1, (final (trees fdt) last).2, cache'⟩ := by
  intro k
  induction k with
  | zero =>
      intro node phandle h hlast
      rw [Option.some.inj h]
      obtain ⟨cache', hround, -⟩ := (round_follows hc last phandle).last hlast
      exact ⟨cache', by rw [rounds, hround]⟩
  | succ k ih =>
      intro node phandle h hlast
      rw [chain_succ] at h
      obtain ⟨n, hn, hrest⟩ := Option.bind_eq_some_iff.mp h
      obtain ⟨ph, hround⟩ := (round_follows hc node phandle).next n hn
      obtain ⟨cache', hrounds⟩ := ih hrest hlast
      exact ⟨cache', by rw [rounds, hround]; exact hrounds⟩

theorem Clean.next {tree : Libfdt} {node n : ℤ} (h : Clean tree node)
    (hn : follow tree node = some n) : Clean tree n :=
  fun k m hm => h (k + 1) m (by rw [chain_succ, hn]; exact hm)

/-- What a query keeps is what the tree says. -/
theorem cacheOk_of_rounds (hc : CacheOk trees cache) {a : Answer P} :
    ∀ {fuel : ℕ} {node : ℤ} {phandle : ℕ},
    Clean (trees fdt) node → rounds (round (trees fdt) fdt cache) fuel (node, phandle) = some a →
    CacheOk trees a.cache := by
  intro fuel
  induction fuel with
  | zero => exact fun _ h => absurd h.symm (Option.some_ne_none a)
  | succ fuel ih =>
      intro node phandle hclean h
      cases hf : follow (trees fdt) node with
      | none =>
          obtain ⟨cache', hround, hok⟩ := (round_follows hc node phandle).last hf
          rw [rounds, hround] at h
          obtain rfl := Option.some.inj h
          exact hok (hclean 0 node rfl)
      | some n =>
          obtain ⟨ph, hround⟩ := (round_follows hc node phandle).next n hf
          rw [rounds, hround] at h
          exact ih (hclean.next hf) h

theorem follow_finite (tree : Libfdt) : ∃ S :
    Set ℤ, S.Finite ∧ ∀ a b, follow tree a = some b → b ∈ S := by
  refine ⟨Set.Ico 0 (max tree.size 5), Set.finite_Ico _ _, fun a b h => ?_⟩
  unfold follow at h
  split at h
  · rename_i hpos
    obtain rfl := Option.some.inj h
    refine ⟨hpos.1, lt_max_iff.mpr ?_⟩
    have hlt := tree.by_phandle_lt
    have hparent := tree.parent_lt a
    unfold target
    rcases fdt_get_u32_cases tree a .interrupt_parent with ⟨v, hv⟩ | ⟨v, hv⟩ | ⟨r, hneg, hr⟩
    · simp only [hv]
      exact .inl (hlt v)
    · simp only [hv]
      exact .inr (show (4 : ℤ) < 5 by decide)
    · simp only [hr, hneg.ne, if_false]
      split
      · exact .inl hparent
      · exact .inr (hneg.trans (by decide))
  · exact absurd h.symm (Option.some_ne_none b)

/-- A way ends at a last node, if it comes to no node twice. -/
theorem exists_last {tree : Libfdt} {node : ℤ} (h : NoRepeat (follow tree) node) :
    ∃ k last, chain (follow tree) node k = some last ∧ follow tree last = none := by
  obtain ⟨S, hS, hmem⟩ := follow_finite tree
  have hends := (chain_ends_iff hS hmem node).mpr h
  have hfirst := Nat.find_spec hends
  have hleast := fun j (hj : j < Nat.find hends) => Nat.find_min hends hj
  cases hk : Nat.find hends with
  | zero =>
      rw [hk] at hfirst
      exact absurd hfirst (Option.some_ne_none node)
  | succ k =>
      obtain ⟨last, hlast⟩ := Option.ne_none_iff_exists'.mp (hleast k (by omega))
      rw [hk, chain, hlast] at hfirst
      exact ⟨k, last, hlast, hfirst⟩

/-- What is kept after queries, each of which has answered.  On none of their ways is there an
interrupt parent of more than one cell that leads to something with `#interrupt-cells`. -/
inductive Reached (trees : P → Libfdt) : Option (Cache P) → Prop where
  | init : Reached trees none
  | query {cache : Option (Cache P)} {fdt : P} {node : ℤ} {fuel : ℕ} {a : Answer P} :
      Reached trees cache →
      Clean (trees fdt) node → fdt_get_intr_cells (trees fdt) fdt cache node fuel = some a →
      Reached trees a.cache

theorem Reached.ok (h : Reached trees cache) : CacheOk trees cache := by
  induction h with
  | init => exact fun c hc => absurd hc.symm (Option.some_ne_none c)
  | query _ hclean ha ih => exact cacheOk_of_rounds ih hclean ha

/-- **Main.**  After any queries on any trees, a query answers, and as it would if nothing had been
kept, exactly if its way comes to no node twice. -/
theorem answers_as_fresh_iff (h : Reached trees cache) (fdt : P) (node : ℤ) :
    (∃ fuel a b, fdt_get_intr_cells (trees fdt) fdt cache node fuel = some a ∧
      fdt_get_intr_cells (trees fdt) fdt none node fuel = some b ∧ a.ret = b.ret ∧
      a.parent = b.parent) ↔
      NoRepeat (follow (trees fdt)) node := by
  constructor
  · rintro ⟨fuel, a, -, ha, -⟩
    obtain ⟨k, hk⟩ := ends_of_rounds h.ok ha
    exact .of_ends hk
  · intro hno
    obtain ⟨k, last, hlast, hend⟩ := exists_last hno
    obtain ⟨_, hcached⟩ := rounds_of_way h.ok hlast hend
    obtain ⟨_, hfresh⟩ := rounds_of_way Reached.init.ok hlast hend
    exact ⟨k + 1, _, _, hcached, hfresh, rfl, rfl⟩

end Proofs

/-- A tree with a device at 8, whose interrupt parent is the node with phandle 1, and an interrupt
controller at 16. -/
def board (phandle1 : ℤ) (h : phandle1 < 24) : Libfdt where
  getprop node name :=
    if node = 8 ∧ name = .interrupt_parent then .ok [0, 0, 0, 1]
    else if node = 16 ∧ name = .interrupt_cells then .ok [0, 0, 0, 3]
    else .error (-FDT_ERR_NOTFOUND)
  node_offset_by_phandle phandle := if phandle = 1 then phandle1 else -FDT_ERR_NOTFOUND
  parent_offset node := if node = 8 ∨ node = 16 then 0 else -FDT_ERR_NOTFOUND
  size := 24
  getprop_neg node name len h := by
    split at h
    · cases h
    · split at h
      · cases h
      · cases h
        decide
  by_phandle_lt phandle := by
    split
    · exact h
    · decide
  parent_lt node := by split <;> decide

/-- The first query for the device, and what it keeps. -/
theorem board_first :
    fdt_get_intr_cells (board 16 (by decide)) () none 8 1 =
      some ⟨3, some 16, some ⟨(), 1, 16, 3⟩⟩ := by
  simp [fdt_get_intr_cells, rounds, round, arrive, fdt_get_int, fdt_get_u32, board, ofBytes,
    NO_PHANDLE, FDT_MAX_NCELLS]

theorem board_noRepeat : NoRepeat (follow (board 16 (by decide))) 8 := by
  have hend : chain (follow (board 16 (by decide))) 8 1 = none := by
    simp [chain, follow, target, fdt_get_int, fdt_get_u32, board, ofBytes, FDT_ERR_NOTFOUND]
  exact .of_ends hend

theorem board_clean : Clean (board 16 (by decide)) 8 := by
  intro _ _ _ _
  simp [verdict, fdt_get_int, fdt_get_u32, board, FDT_ERR_NOTFOUND]

/-- The second query for the device. -/
theorem answers_as_fresh_iff_board :
    ∃ fuel a b, fdt_get_intr_cells (board 16 (by decide)) () (some ⟨(), 1, 16, 3⟩) 8 fuel = some a ∧
      fdt_get_intr_cells (board 16 (by decide)) () none 8 fuel = some b ∧ a.ret = b.ret ∧
      a.parent = b.parent :=
  have hreached : Reached (fun _ : Unit => board 16 (by decide)) (some ⟨(), 1, 16, 3⟩) :=
    @Reached.query _ _ (fun _ => board 16 (by decide)) none () 8 1 ⟨3, some 16, some ⟨(), 1, 16, 3⟩⟩
      .init board_clean board_first
  (answers_as_fresh_iff hreached () 8).mpr board_noRepeat

/-- A device that is its own interrupt parent. -/
theorem board_own_parent :
    ¬ ∃ fuel r, fdt_get_intr_cells (board 8 (by decide)) () none 8 fuel = some r := by
  have hloop : ∀ fuel phandle,
      rounds (round (board 8 (by decide)) () none) fuel (8, phandle) = none := by
    intro fuel
    induction fuel with
    | zero => exact fun _ => rfl
    | succ fuel ih => exact fun _ => ih 1
  rintro ⟨fuel, r, h⟩
  exact absurd ((hloop fuel NO_PHANDLE).symm.trans h) (by simp)

end Startup.Fdt
