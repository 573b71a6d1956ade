import Mathlib.Data.Int.Notation
import RpiBsp.Support.Memory
import RpiBsp.Support.Outcome
import Mathlib.Tactic.Ring

/-!
# Startup — RAM from the device tree

`init_raminfo_fdt` reads the `reg` property of each memory node in chunks, with
`fdt_get_reg64_cells`, and hands each pair of an address and a size to `add_ram`.

* `copy_spec`, `get_reg64_spec` — up to a chunk of pairs is copied, and the number of all that are
left comes back;
* `addRams_of_le`, `addRams_of_gt` — up to a chunk, each pair is added once; with more, an array is
read past its end;
* `adds_iff` — **main**: the pairs of all nodes are added just if no node has more than a chunk.
-/

namespace Startup.Fdt

open Support

/-! ### Definitions -/

/-- An array is accessed past its end. -/
inductive Fault where
  | read
  | write
  /-- The loop over the chunks goes on for more rounds than the property has bytes. -/
  | stuck
deriving DecidableEq, Repr

/-- What libfdt tells of a node: `fdt_getprop` of `reg`, and the cells of its parent, or negative
codes. -/
structure Node where
  reg : Except ℤ (List UInt8)
  parent : Except ℤ (ℤ × ℤ)

def FDT_ERR_NOTFOUND : ℤ := 1
def FDT_ERR_BADOFFSET : ℤ := 4
def FDT_ERR_BADNCELLS : ℤ := 14

/-- `fdt32_to_cpu` or `fdt64_to_cpu` of the cells from `pos` on. -/
def number (reg : List UInt8) (pos cells : ℕ) : Except Fault ℕ :=
  if 4 * (pos + cells) ≤ reg.length then .ok (ofBytes ((reg.drop (4 * pos)).take (4 * cells)))
  else .error .read

def put (a : List ℕ) (k v : ℕ) : Except Fault (List ℕ) :=
  if k < a.length then .ok (a.set k v) else .error .write

/-- The loop of `fdt_get_reg64_cells`, with the cell that is read next and the element that is
filled next. -/
def copy (reg : List UInt8) (addr_cells size_cells : ℕ) :
    ℕ → ℕ → ℕ → List ℕ → Option (List ℕ) → Except Fault (List ℕ × Option (List ℕ))
  | 0, _, _, addr, size => .ok (addr, size)
  | num + 1, pos, k, addr, size => do
    let a ← number reg pos addr_cells
    let addr ← put addr k a
    match size with
    | none => copy reg addr_cells size_cells num (pos + addr_cells) (k + 1) addr none
    | some size =>
      let size ←
        if size_cells = 0 then pure size
        else do
          let s ← number reg (pos + addr_cells) size_cells
          put size k s
      copy reg addr_cells size_cells num (pos + addr_cells + size_cells) (k + 1) addr (some size)

/-- The return value, and the two arrays; `none` is a null pointer. -/
def fdt_get_reg64_cells (node : Node) (index num : ℤ) (addr size : Option (List ℕ))
    (addr_cells size_cells : ℤ) :
    Except Fault (ℤ × Option (List ℕ) × Option (List ℕ)) :=
  match node.reg with
  | .error len => .ok (len, addr, size)
  | .ok reg =>
    match if addr_cells = -1 then node.parent else .ok (addr_cells, size_cells) with
    | .error parent => .ok (parent, addr, size)
    | .ok (addr_cells, size_cells) =>
      if addr_cells < 1 ∨ addr_cells > 2 then .ok (-FDT_ERR_BADNCELLS, addr, size)
      else if size_cells < 0 ∨ size_cells > 2 then .ok (-FDT_ERR_BADNCELLS, addr, size)
      else
        let ent_cells := addr_cells + size_cells
        let entlen := ent_cells * 4
        if (reg.length : ℤ) % entlen ≠ 0 then .ok (-FDT_ERR_BADOFFSET, addr, size)
        else
          let len := (reg.length : ℤ) / entlen
          if index < 0 ∨ index ≥ len then .ok (-FDT_ERR_NOTFOUND, addr, size)
          else
            let pos := index * ent_cells
            let len := len - index
            match addr with
            | none => .ok (len, none, size)
            | some addr =>
              if (size_cells = 0) ≠ (size = none) then .ok (-FDT_ERR_BADNCELLS, some addr, size)
              else do
                let num := if num > len then len else num
                let (addr, size) ← copy reg addr_cells.toNat size_cells.toNat num.toNat pos.toNat 0
                  addr size
                return (len, some addr, size)

def REG_CHUNK : ℕ := 8

def at_ (a : Option (List ℕ)) (i : ℕ) : Except Fault ℕ :=
  match a.bind (·[i]?) with
  | some v => .ok v
  | none => .error .read

/-- The calls of `add_ram` with the elements from `i` on. -/
def adds (addr size : Option (List ℕ)) : ℕ → ℕ → Except Fault (List (ℕ × ℕ))
  | 0, _ => .ok []
  | n + 1, i => do
    let a ← at_ addr i
    let s ← at_ size i
    let rest ← adds addr size n (i + 1)
    return (a, s) :: rest

/-- The loop over the chunks of a node: the calls of `add_ram`. -/
def addRams (node : Node) : ℕ → ℤ → Except Fault (List (ℕ × ℕ))
  | 0, _ => .error .stuck
  | fuel + 1, idx => do
    let zeros := List.replicate REG_CHUNK 0
    let (nreg, addr, size) ← fdt_get_reg64_cells node idx REG_CHUNK (some zeros) (some zeros)
      (-1) (-1)
    if nreg ≤ 0 then return []
    else
      let calls ← adds addr size nreg.toNat 0
      let rest ← addRams node fuel (idx + nreg)
      return calls ++ rest

/-- A round more than there are bytes: each but the last goes past a pair. -/
def Node.rounds (node : Node) : ℕ :=
  match node.reg with
  | .error _ => 1
  | .ok reg => reg.length + 1

/-- The calls into `ram.c`. -/
inductive Call where
  | avoid_ram (start size : ℕ)
  | add_ram (addr size : ℕ)
  | alloc_ram (addr size align : ℕ)
deriving DecidableEq, Repr

/-- The reserved ranges that `fdt_get_mem_rsv` gives, by number, and the memory nodes in their
order. -/
structure Tree where
  rsv : List (Option (ℕ × ℕ))
  memory : List Node

/-- The calls, in order, and the return value; `none` is a null pointer. -/
def init_raminfo_fdt (fdt : Option Tree) : Except Fault (List Call × ℕ) :=
  match fdt with
  | none => .ok ([], 0)
  | some fdt => do
    let rsv := fdt.rsv.reverse.filterMap id
    let rams ← fdt.memory.mapM fun node => addRams node node.rounds 0
    return (rsv.map (fun r => .avoid_ram r.1 r.2) ++ rams.flatten.map (fun r => .add_ram r.1 r.2) ++
      rsv.map (fun r => .alloc_ram r.1 r.2 1), 1)

/-! ### A property of pairs -/

/-- The bytes of pairs, in so many cells each. -/
def encode (addr_cells size_cells : ℕ) (pairs : List (ℕ × ℕ)) : List UInt8 :=
  pairs.flatMap fun r => beBytes (4 * addr_cells) r.1 ++ beBytes (4 * size_cells) r.2

/-- A memory node whose property is the encoding of pairs that fit in their cells. -/
structure Encodes (node : Node) (pairs : List (ℕ × ℕ)) (ac sc : ℕ) : Prop where
  reg : node.reg = .ok (encode ac sc pairs)
  parent : node.parent = .ok ((ac : ℤ), (sc : ℤ))
  addr_cells : ac = 1 ∨ ac = 2
  size_cells : sc = 1 ∨ sc = 2
  fits : ∀ r ∈ pairs, r.1 < 256 ^ (4 * ac) ∧ r.2 < 256 ^ (4 * sc)

theorem length_encode (ac sc : ℕ) (pairs : List (ℕ × ℕ)) :
    (encode ac sc pairs).length = 4 * (ac + sc) * pairs.length := by
  induction pairs with
  | nil => rfl
  | cons r pairs ih =>
    rw [encode, List.flatMap_cons, ← encode, List.length_append, ih, List.length_append,
      length_beBytes, length_beBytes, List.length_cons]
    ring

theorem drop_encode (ac sc i : ℕ) (pairs : List (ℕ × ℕ)) :
    (encode ac sc pairs).drop (4 * (i * (ac + sc))) = encode ac sc (pairs.drop i) := by
  induction i generalizing pairs with
  | zero => simp
  | succ i ih =>
    cases pairs with
    | nil => simp [encode]
    | cons r pairs =>
      have he : 4 * ((i + 1) * (ac + sc)) = (beBytes (4 * ac) r.1 ++ beBytes (4 * sc) r.2).length +
          4 * (i * (ac + sc)) := by
        rw [List.length_append, length_beBytes, length_beBytes]
        ring
      rw [List.drop_succ_cons, ← ih, encode, List.flatMap_cons, ← encode, he,
        List.drop_length_add_append]

variable {ac sc : ℕ} {pairs : List (ℕ × ℕ)}

/-- The pair with a number is read back. -/
theorem number_encode {i : ℕ} {r : ℕ × ℕ} (h : pairs[i]? = some r)
    (hr : r.1 < 256 ^ (4 * ac) ∧ r.2 < 256 ^ (4 * sc)) :
    number (encode ac sc pairs) (i * (ac + sc)) ac = .ok r.1 ∧
    number (encode ac sc pairs) (i * (ac + sc) + ac) sc = .ok r.2 := by
  obtain ⟨hi, hr'⟩ := List.getElem?_eq_some_iff.mp h
  have hle : 4 * ((i + 1) * (ac + sc)) ≤ (encode ac sc pairs).length := by
    rw [length_encode, Nat.mul_assoc, Nat.mul_comm (ac + sc)]
    exact Nat.mul_le_mul_left _ (Nat.mul_le_mul_right _ hi)
  have hone : (i + 1) * (ac + sc) = i * (ac + sc) + ac + sc := by ring
  have hd : (encode ac sc pairs).drop (4 * (i * (ac + sc))) =
      beBytes (4 * ac) r.1 ++ beBytes (4 * sc) r.2 ++ encode ac sc (pairs.drop (i + 1)) := by
    rw [drop_encode, List.drop_eq_getElem_cons hi, hr', encode, List.flatMap_cons, ← encode]
  constructor
  · rw [number, if_pos (by omega), hd, List.append_assoc, List.take_left' (length_beBytes _ _),
      ofBytes_beBytes, Nat.mod_eq_of_lt hr.1]
  · rw [number, if_pos (by omega), Nat.mul_add 4, ← List.drop_drop, hd, List.append_assoc,
      List.drop_left' (length_beBytes _ _), List.take_left' (length_beBytes _ _), ofBytes_beBytes,
      Nat.mod_eq_of_lt hr.2]

/-- **What is copied.**  The arrays have the pairs from the number on, and what they had before
where nothing was copied. -/
theorem copy_spec (hsc : sc ≠ 0) (hfits : ∀ r ∈ pairs, r.1 < 256 ^ (4 * ac) ∧ r.2 < 256 ^ (4 * sc))
    (n i k : ℕ)
    (addr size : List ℕ) (ha : k + n ≤ addr.length) (hs : k + n ≤ size.length)
    (hi : i + n ≤ pairs.length) :
    ∃ addr' size', copy (encode ac sc pairs) ac sc n (i * (ac + sc)) k addr (some size) =
        .ok (addr', some size') ∧
      addr'.length = addr.length ∧ (∀ j < k, addr'[j]? = addr[j]? ∧ size'[j]? = size[j]?) ∧
      ∀ j < n, addr'[k + j]? = pairs[i + j]?.map (·.1) ∧
      size'[k + j]? = pairs[i + j]?.map (·.2) := by
  induction n generalizing i k addr size with
  | zero =>
      exact ⟨addr, size, rfl, rfl, fun _ _ => ⟨rfl, rfl⟩, fun j hj => absurd hj (Nat.not_lt_zero j)⟩
  | succ n ih =>
    have hr : pairs[i]? = some pairs[i] := List.getElem?_eq_getElem (by omega)
    obtain ⟨hna, hns⟩ := @number_encode ac sc pairs i _ hr (hfits _ (List.getElem_mem _))
    obtain ⟨addr', size', he, hlen, hlow, hhigh⟩ :=
      ih (i + 1) (k + 1) (addr.set k pairs[i].1) (size.set k pairs[i].2)
      (by rw [List.length_set]; omega) (by rw [List.length_set]; omega) (by omega)
    have hpos : (i + 1) * (ac + sc) = i * (ac + sc) + ac + sc := by ring
    refine ⟨addr', size', ?_, by rw [hlen, List.length_set], ?_, ?_⟩
    · rw [copy, hna, ok_bind, put, if_pos (by omega), ok_bind]
      simp only [hsc, if_false, hns, ok_bind, put]
      rw [if_pos (by omega), ok_bind, ← hpos, he]
    · intro j hj
      have h := hlow j (by omega)
      rw [List.getElem?_set_ne (by omega), List.getElem?_set_ne (by omega)] at h
      exact h
    · intro j hj
      cases j with
      | zero =>
        have h := hlow k (by omega)
        rw [List.getElem?_set_self (by omega), List.getElem?_set_self (by omega)] at h
        simpa [hr] using h
      | succ j =>
        have h := hhigh j (by omega)
        rwa [Nat.add_assoc k, Nat.add_comm 1, Nat.add_assoc i, Nat.add_comm 1] at h

/-! ### A chunk -/

variable {node : Node}

theorem Encodes.length (h : Encodes node pairs ac sc) :
    ((encode ac sc pairs).length : ℤ) % (((ac : ℤ) + sc) * 4) = 0 ∧
    ((encode ac sc pairs).length : ℤ) / (((ac : ℤ) + sc) * 4) = pairs.length := by
  have he : ((encode ac sc pairs).length : ℤ) = (((ac : ℤ) + sc) * 4) * pairs.length := by
    rw [length_encode]
    push_cast
    ring
  have h₀ : ((ac : ℤ) + sc) * 4 ≠ 0 := by
    rcases h.addr_cells with rfl | rfl <;> omega
  rw [he]
  exact ⟨Int.mul_emod_right _ _, Int.mul_ediv_cancel_left _ h₀⟩

/-- After the last pair there is none. -/
theorem Encodes.get_end (h : Encodes node pairs ac sc) {i : ℕ} (hi : pairs.length ≤ i) (num : ℤ)
    (addr size : Option (List ℕ)) :
    fdt_get_reg64_cells node i num addr size (-1) (-1) = .ok (-FDT_ERR_NOTFOUND, addr, size) := by
  obtain ⟨hmod, hdiv⟩ := h.length
  have hac : ¬ ((ac : ℤ) < 1 ∨ (ac : ℤ) > 2) := by rcases h.addr_cells with rfl | rfl <;> decide
  have hsc : ¬ ((sc : ℤ) < 0 ∨ (sc : ℤ) > 2) := by rcases h.size_cells with rfl | rfl <;> decide
  have hidx : (i : ℤ) < 0 ∨ (i : ℤ) ≥ pairs.length := .inr (by omega)
  simp only [fdt_get_reg64_cells, h.reg, h.parent, if_true, if_neg hac, if_neg hsc, hmod, hdiv,
    ne_eq, not_true, if_false, if_pos hidx]

/-- **A chunk.**  As many pairs are copied as there is room for, but all that are left are
counted. -/
theorem Encodes.get (h : Encodes node pairs ac sc) {i : ℕ} (num : ℕ) (hi : i < pairs.length)
    (addr size : List ℕ) :
    fdt_get_reg64_cells node i num (some addr) (some size) (-1) (-1) =
      (copy (encode ac sc pairs) ac sc (min num (pairs.length - i)) (i * (ac + sc)) 0 addr
          (some size)).map
        fun r => (((pairs.length - i : ℕ) : ℤ), some r.1, r.2) := by
  obtain ⟨hmod, hdiv⟩ := h.length
  have hac : ¬ ((ac : ℤ) < 1 ∨ (ac : ℤ) > 2) := by rcases h.addr_cells with rfl | rfl <;> decide
  have hsc : ¬ ((sc : ℤ) < 0 ∨ (sc : ℤ) > 2) := by rcases h.size_cells with rfl | rfl <;> decide
  have hsc₀ : ((sc : ℤ) = 0) = (some size = none) := by rcases h.size_cells with rfl | rfl <;> simp
  have hidx : ¬ ((i : ℤ) < 0 ∨ (i : ℤ) ≥ pairs.length) := by omega
  have hnum : (if (num : ℤ) > (pairs.length : ℤ) - i then (pairs.length : ℤ) - i else num).toNat =
      min num (pairs.length - i) := by
    split <;> omega
  have hpos : ((i : ℤ) * ((ac : ℤ) + sc)).toNat = i * (ac + sc) := by
    exact_mod_cast Int.toNat_natCast (i * (ac + sc))
  have hlen : (pairs.length : ℤ) - i = ((pairs.length - i : ℕ) : ℤ) := by omega
  simp only [fdt_get_reg64_cells, h.reg, h.parent, if_true, if_neg hac, if_neg hsc, hmod, hdiv,
    ne_eq, not_true, if_false, if_neg hidx, hsc₀, hnum, hpos, Int.toNat_natCast]
  rw [← hlen]
  cases copy (encode ac sc pairs) ac sc (min num (pairs.length - i)) (i * (ac + sc)) 0 addr
    (some size) with
  | error e => rfl
  | ok r => rfl

/-! ### A node -/

theorem adds_eq {addr size : List ℕ} (l : List (ℕ × ℕ)) (i : ℕ)
    (h : ∀ j < l.length, addr[i + j]? = l[j]?.map (·.1) ∧ size[i + j]? = l[j]?.map (·.2)) :
    adds (some addr) (some size) l.length i = .ok l := by
  induction l generalizing i with
  | nil => rfl
  | cons r l ih =>
    have h₀ := h 0 (by simp)
    have hl := ih (i + 1) fun j hj => by
      have h := h (j + 1) (by simpa using hj)
      rwa [List.getElem?_cons_succ, ← Nat.add_assoc, Nat.add_right_comm] at h
    simp only [Nat.add_zero, List.getElem?_cons_zero, Option.map_some] at h₀
    simp only [List.length_cons, adds, at_, Option.bind_some, h₀.1, h₀.2, ok_bind, hl]
    rfl

/-- Elements are read from within the array only. -/
theorem le_of_adds_eq_ok {addr : List ℕ} {size : Option (List ℕ)} (n i : ℕ) {l : List (ℕ × ℕ)}
    (hi : i ≤ addr.length) (h : adds (some addr) size n i = .ok l) : i + n ≤ addr.length := by
  induction n generalizing i l with
  | zero => exact hi
  | succ n ih =>
    obtain ⟨a, ha, h⟩ := bind_eq_ok.mp h
    obtain ⟨s, -, h⟩ := bind_eq_ok.mp h
    obtain ⟨rest, hr, -⟩ := bind_eq_ok.mp h
    have hlt : i < addr.length := by
      by_contra hc
      simp [at_, List.getElem?_eq_none (Nat.le_of_not_lt hc)] at ha
    have := ih (i + 1) hlt hr
    omega

/-- No pairs, no calls. -/
theorem addRams_end (h : Encodes node pairs ac sc) {fuel i : ℕ} (hi : pairs.length ≤ i) :
    addRams node (fuel + 1) i = .ok [] := by
  rw [addRams, h.get_end hi]
  rfl

theorem Encodes.sc_ne (h : Encodes node pairs ac sc) : sc ≠ 0 := by
  rcases h.size_cells with rfl | rfl <;> decide

/-- **A node with up to a chunk of pairs.**  Each is added once. -/
theorem addRams_of_le (h : Encodes node pairs ac sc) (hle : pairs.length ≤ REG_CHUNK) :
    addRams node node.rounds 0 = .ok pairs := by
  have hrounds : node.rounds = 4 * (ac + sc) * pairs.length + 1 := by
    simp [Node.rounds, h.reg, length_encode]
  rcases Nat.eq_zero_or_pos pairs.length with h₀ | h₀
  · rw [hrounds, show (0 : ℤ) = ((0 : ℕ) : ℤ) from rfl, addRams_end h (Nat.le_of_eq h₀),
      List.eq_nil_of_length_eq_zero h₀]
  · obtain ⟨fuel, hfuel⟩ : ∃ fuel, 4 * (ac + sc) * pairs.length = fuel + 1 := by
      refine Nat.exists_eq_succ_of_ne_zero (Nat.mul_pos ?_ h₀).ne'
      rcases h.addr_cells with rfl | rfl <;> omega
    have hlen : (List.replicate REG_CHUNK 0).length = REG_CHUNK := List.length_replicate
    obtain ⟨addr, size, hc, -, -, hall⟩ :=
      copy_spec h.sc_ne h.fits pairs.length 0 0 (List.replicate REG_CHUNK 0)
      (List.replicate REG_CHUNK 0) (by omega) (by omega) (by omega)
    have hget := h.get REG_CHUNK h₀ (List.replicate REG_CHUNK 0) (List.replicate REG_CHUNK 0)
    rw [Nat.sub_zero, Nat.min_eq_right hle, hc] at hget
    have hadds : adds (some addr) (some size) pairs.length 0 = .ok pairs := by
      apply adds_eq
      simpa using hall
    have hpos : ¬ ((pairs.length : ℤ) ≤ 0) := by omega
    rw [hrounds, hfuel, addRams]
    simp only [Nat.cast_zero] at hget
    simp only [hget, Except.map, ok_bind, if_neg hpos, Int.toNat_natCast, hadds, Int.zero_add,
      addRams_end h (Nat.le_refl _)]
    simp [pure, Except.pure]

/-- A node with more: the arrays are read past their end. -/
theorem addRams_of_gt (h : Encodes node pairs ac sc) (hgt : REG_CHUNK < pairs.length)
    (l : List (ℕ × ℕ)) :
    addRams node node.rounds 0 ≠ .ok l := by
  intro ha
  have hlen : (List.replicate REG_CHUNK 0).length = REG_CHUNK := List.length_replicate
  obtain ⟨addr, size, hc, hl, -, -⟩ :=
    copy_spec h.sc_ne h.fits REG_CHUNK 0 0 (List.replicate REG_CHUNK 0)
    (List.replicate REG_CHUNK 0) (by omega) (by omega) (by omega)
  have hget := h.get (i := 0) REG_CHUNK (by omega) (List.replicate REG_CHUNK 0)
    (List.replicate REG_CHUNK 0)
  rw [Nat.sub_zero, Nat.min_eq_left hgt.le, hc] at hget
  simp only [Nat.cast_zero] at hget
  have hrounds : node.rounds = (encode ac sc pairs).length + 1 := by simp [Node.rounds, h.reg]
  rw [hrounds, addRams] at ha
  have hpos : ¬ ((pairs.length : ℤ) ≤ 0) := by omega
  simp only [hget, Except.map, ok_bind, if_neg hpos, Int.toNat_natCast] at ha
  obtain ⟨calls, hcalls, -⟩ := bind_eq_ok.mp ha
  have := le_of_adds_eq_ok _ _ (Nat.zero_le _) hcalls
  omega

/-! ### The tree -/

/-- The pairs a memory node has: those that its property encodes, or none if `fdt_get_reg64_cells`
rejects it. -/
inductive Lists (node : Node) : List (ℕ × ℕ) → Prop where
  | encoded {pairs : List (ℕ × ℕ)} {ac sc : ℕ} (h : Encodes node pairs ac sc) : Lists node pairs
  | rejected {e : ℤ} (he : e ≤ 0)
      (h : ∀ addr size, fdt_get_reg64_cells node 0 REG_CHUNK addr size (-1) (-1) =
        .ok (e, addr, size)) : Lists node []

theorem Lists.addRams_eq (h : Lists node pairs) (hle : pairs.length ≤ REG_CHUNK) :
    addRams node node.rounds 0 = .ok pairs := by
  cases h with
  | encoded h => exact addRams_of_le h hle
  | rejected he h =>
    have hrounds : ∃ fuel, node.rounds = fuel + 1 := by
      rw [Node.rounds]
      split
      · exact ⟨0, rfl⟩
      · exact ⟨_, rfl⟩
    obtain ⟨fuel, hf⟩ := hrounds
    rw [hf, addRams, h, ok_bind]
    simp only [if_pos he]
    rfl

theorem Lists.le_of_addRams (h : Lists node pairs) {l : List (ℕ × ℕ)}
    (hl : addRams node node.rounds 0 = .ok l) :
    pairs.length ≤ REG_CHUNK := by
  cases h with
  | encoded h =>
    by_contra hc
    exact addRams_of_gt h (Nat.lt_of_not_le hc) l hl
  | rejected he h => exact Nat.zero_le _

/-- The loop over the nodes comes back just if no node has more than a chunk of pairs, and then with
all of them. -/
theorem mapM_addRams {nodes : List Node} {lists : List (List (ℕ × ℕ))}
    (h : List.Forall₂ Lists nodes lists) :
    (∀ l ∈ lists, l.length ≤ REG_CHUNK) ∧ nodes.mapM (fun node => addRams node node.rounds 0) =
      .ok lists ∨
    (¬ ∀ l ∈ lists, l.length ≤ REG_CHUNK) ∧
    ∀ r, nodes.mapM (fun node => addRams node node.rounds 0) ≠ .ok r := by
  induction h with
  | nil => exact .inl ⟨by simp, rfl⟩
  | @cons node pairs nodes lists h _ ih =>
    rw [List.mapM_cons, List.forall_mem_cons]
    by_cases hle : pairs.length ≤ REG_CHUNK
    · rw [h.addRams_eq hle, ok_bind]
      rcases ih with ⟨hall, he⟩ | ⟨hall, he⟩
      · exact .inl ⟨⟨hle, hall⟩, by rw [he]; rfl⟩
      · refine .inr ⟨fun hc => hall hc.2, fun r hr => ?_⟩
        obtain ⟨rest, hrest, -⟩ := bind_eq_ok.mp hr
        exact he rest hrest
    · refine .inr ⟨fun hc => hle hc.1, fun r hr => ?_⟩
      obtain ⟨l, hl, -⟩ := bind_eq_ok.mp hr
      exact hle (h.le_of_addRams hl)

/-- The arguments of a call of `add_ram`. -/
def Call.added : Call → Option (ℕ × ℕ)
  | .add_ram addr size => some (addr, size)
  | _ => none

/-- **The pairs are added.**  For every tree, `init_raminfo_fdt` calls `add_ram` once for each pair
of each memory node, in order, and stays within its arrays, just if no node has more than a chunk of
pairs. -/
theorem adds_iff (fdt : Tree) (lists : List (List (ℕ × ℕ)))
    (h : List.Forall₂ Lists fdt.memory lists) :
    (∃ calls, init_raminfo_fdt (some fdt) = .ok (calls, 1) ∧
      calls.filterMap Call.added = lists.flatten) ↔
      ∀ l ∈ lists, l.length ≤ REG_CHUNK := by
  rcases mapM_addRams h with ⟨hall, he⟩ | ⟨hall, he⟩
  · refine iff_of_true ⟨_, by rw [init_raminfo_fdt, he]; rfl, ?_⟩ hall
    have hnone : ∀ (f : ℕ × ℕ → Call) (l : List (ℕ × ℕ)), (∀ r, (f r).added = none) →
        (l.map f).filterMap Call.added = [] := by
      intro f l hf
      simp [List.filterMap_map, hf]
    have hsome : ∀ l : List (ℕ × ℕ),
        (l.map fun r => Call.add_ram r.1 r.2).filterMap Call.added = l := by
      intro l
      simp [List.filterMap_map, Function.comp_def, Call.added]
    rw [List.filterMap_append, List.filterMap_append, hnone (fun r => .avoid_ram r.1 r.2) _ fun _ =>
      rfl,
      hnone (fun r => .alloc_ram r.1 r.2 1) _ fun _ => rfl, hsome, List.nil_append, List.append_nil]
  · refine iff_of_false ?_ hall
    rintro ⟨calls, hc, -⟩
    obtain ⟨rams, hr, -⟩ := bind_eq_ok.mp hc
    exact he rams hr

/-- A node with two banks, and one without the property. -/
def twoBanks : Tree where
  rsv := [some (0, 0x80000)]
  memory := [⟨.ok (encode 2 2 [(0, 0x3fc00000), (0x40000000, 0xc0000000)]), .ok (2, 2)⟩,
    ⟨.error (-1), .ok (2, 2)⟩]

/-- Both banks are added, and the node that cannot be read is passed over. -/
theorem adds_twoBanks : ∃ calls, init_raminfo_fdt (some twoBanks) = .ok (calls, 1) ∧
    calls.filterMap Call.added = [(0, 0x3fc00000), (0x40000000, 0xc0000000)] := by
  have hlists : List.Forall₂ Lists twoBanks.memory
      [[(0, 0x3fc00000), (0x40000000, 0xc0000000)], []] :=
    .cons (.encoded ⟨rfl, rfl, .inr rfl, .inr rfl, by decide⟩)
      (.cons (.rejected (e := -1) (by decide) fun _ _ => rfl) .nil)
  exact (adds_iff twoBanks _ hlists).mpr (by decide)

/-- A node with nine banks. -/
def nineBanks : Tree where
  rsv := []
  memory := [⟨.ok (encode 1 1 (List.replicate 9 (0x1000, 0x1000))), .ok (1, 1)⟩]

/-- The ninth pair is read from behind the arrays. -/
theorem adds_nineBanks : ¬ ∃ calls, init_raminfo_fdt (some nineBanks) = .ok (calls, 1) ∧
    calls.filterMap Call.added = List.replicate 9 (0x1000, 0x1000) := by
  rintro ⟨calls, hc, -⟩
  have he : (init_raminfo_fdt (some nineBanks)).toOption = none := by decide +kernel
  rw [hc] at he
  cases he

end Startup.Fdt
