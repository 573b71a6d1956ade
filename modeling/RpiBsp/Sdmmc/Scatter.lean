import Mathlib.Data.List.Induction
import RpiBsp.Sdmmc.Sdhci

/-!
# Sdmmc — Scatter — the walk over a scatter list

`sdio_sg_nxt` (`base.c`) hands out a scatter list piece by piece, and `sdhci_pio_xfer`
(`hc/sdhci.c`) moves the pieces of a block without DMA, word by word.

* `Stood.step` — a call splits its piece off what is left of the list;
* `pioBlock_spec` — a block is cut at its end and at the ends of the entries in it;
* `sg_walk_iff` — the walk is right exactly if no call is made when nothing is left, and the
  blocks are moved exactly if the list holds them and every cut falls between two words.

The walk counts the entry it stands on as one that is still to come, so at the end it goes on to an
entry too many.
-/

namespace Sdmmc.Sdhci

/-! ### What is asked of the walk -/

/-- The bytes of a piece. -/
def pieceBytes (p : ℕ × ℕ) : List ℕ := List.range' p.1 p.2

/-- The bytes of an entry. -/
def Sge.bytes (sg : Sge) : List ℕ := List.range' sg.sg_address sg.sg_count

/-- The bytes of the list. -/
def Request.bytes (cmd : Request) : List ℕ :=
  (List.range cmd.sgc).flatMap fun i => (cmd.sgl i).bytes

/-- Calls of `sdio_sg_nxt`, one for each block size: the pieces that are returned. -/
def sgNxts : List ℕ → Wspc → List (ℕ × ℕ) × Wspc
  | [], w => ([], w)
  | blksz :: bs, w =>
      match sdio_sg_nxt w blksz with
      | none => sgNxts bs w
      | some (addr, len, w') =>
          let r := sgNxts bs w'
          ((addr, len) :: r.1, r.2)

/-- What is asked of calls after `sdio_sg_start` left `w`. -/
structure Walked (cmd : Request) (w : Wspc) (bs : List ℕ) : Prop where
  bytes : (sgNxts bs w).1.flatMap pieceBytes <+: cmd.bytes
  within : ∀ p ∈ (sgNxts bs w).1, ∃ i < cmd.sgc,
    (cmd.sgl i).sg_address ≤ p.1 ∧ p.1 + p.2 ≤ (cmd.sgl i).sg_address + (cmd.sgl i).sg_count
  /-- The entry that was read last. -/
  entry : ∀ cs ds, bs = cs ++ ds → (sgNxts cs w).2.sge < cmd.sgc
  ends : ∀ cs b ds, bs = cs ++ b :: ds → (sgNxts cs w).1.flatMap pieceBytes = cmd.bytes →
    sdio_sg_nxt (sgNxts cs w).2 b = none

/-- The bytes that are moved, for words at an address. -/
def movedBytes (ws : List (ℕ × ℕ)) : List ℕ := ws.flatMap fun p => List.range' p.1 (4 * p.2)

/-- Every byte of every block is moved once, and in order. -/
structure Moves (cmd : Request) (w : Wspc) (ready : ℕ) : Prop where
  bytes : movedBytes (sdhci_pio_xfer cmd ready w).1 = cmd.bytes.take (ready * cmd.blksz)
  all : (movedBytes (sdhci_pio_xfer cmd ready w).1).length = ready * cmd.blksz

/-- The bytes in front of an entry. -/
def Request.upto (cmd : Request) (i : ℕ) : ℕ :=
  ((List.range i).map fun j => (cmd.sgl j).sg_count).sum

/-- What is left of the list, if the walk stands on an entry of it. -/
def Wspc.rest (w : Wspc) : List ℕ :=
  List.range' w.sga w.sgc ++ (List.range' (w.sge + 1) (w.nsg - 1)).flatMap fun i => (w.sgl i).bytes

/-! ### One call -/

variable {cmd : Request} {w w' : Wspc}

/-- The walk stands on an entry of the list. -/
structure Standing (cmd : Request) (w : Wspc) : Prop where
  sgl : w.sgl = cmd.sgl
  nsg : w.sge + w.nsg = cmd.sgc
  entry : w.sge < cmd.sgc
  low : (cmd.sgl w.sge).sg_address ≤ w.sga
  high : w.sga + w.sgc = (cmd.sgl w.sge).sg_address + (cmd.sgl w.sge).sg_count

theorem flatMap_bytes_cons (sgl : ℕ → Sge) {i n : ℕ} (hn : n ≠ 0) :
    (List.range' i n).flatMap (fun j => (sgl j).bytes) =
      (sgl i).bytes ++ (List.range' (i + 1) (n - 1)).flatMap fun j => (sgl j).bytes := by
  obtain ⟨m, rfl⟩ := Nat.exists_eq_succ_of_ne_zero hn
  rw [List.range'_succ, List.flatMap_cons]
  rfl

/-- `sdio_sg_start` stands on the first entry, and the whole list is left. -/
theorem sg_start_standing (w₀ : Wspc) (hn : 0 < cmd.sgc) :
    Standing cmd (sdio_sg_start w₀ cmd).2 ∧ (sdio_sg_start w₀ cmd).2.rest = cmd.bytes := by
  rw [sdio_sg_start, if_neg fun h => hn.ne' h.1]
  refine ⟨⟨rfl, Nat.zero_add _, hn, Nat.le_refl _, rfl⟩, ?_⟩
  rw [Request.bytes, List.range_eq_range', flatMap_bytes_cons cmd.sgl hn.ne']
  rfl

/-- What is left once the entry the walk stands on is used up. -/
theorem Standing.rest_eq (h : Standing cmd w) (hw : w.sgc = 0) :
    w.rest = (List.range' (w.sge + 1) (w.nsg - 1)).flatMap fun i => (cmd.sgl i).bytes := by
  rw [Wspc.rest, hw, h.sgl]
  rfl

/-- The walk does not end on an entry of the list. -/
theorem Standing.nxt_ne_none (h : Standing cmd w) (blksz : ℕ) : sdio_sg_nxt w blksz ≠ none := by
  have hnsg : w.nsg ≠ 0 := by
    have := h.nsg
    have := h.entry
    omega
  rw [sdio_sg_nxt, if_neg fun hend => hnsg hend.1]
  exact Option.some_ne_none _

/-- What a call does while something is left. -/
structure Split (cmd : Request) (w : Wspc) (blksz addr len : ℕ) (w' : Wspc) : Prop where
  next : sdio_sg_nxt w blksz = some (addr, len, w')
  standing : Standing cmd w'
  rest : pieceBytes (addr, len) ++ w'.rest = w.rest
  le : len ≤ blksz
  within : (cmd.sgl w'.sge).sg_address ≤ addr ∧
    addr + len ≤ (cmd.sgl w'.sge).sg_address + (cmd.sgl w'.sge).sg_count
  sga : w'.sga = addr + len
  /-- A piece is short only at the end of an entry. -/
  cut : len < blksz → w'.sgc = 0

/-- The piece is cut from the entry `w` stands on. -/
theorem Standing.take (h : Standing cmd w) (blksz : ℕ) {w₀ : Wspc}
    (hnext : sdio_sg_nxt w₀ blksz = some (w.sga, min w.sgc blksz,
      { w with sga := w.sga + min w.sgc blksz, sgc := w.sgc - min w.sgc blksz }))
      (hrest : w₀.rest = w.rest) :
    Split cmd w₀ blksz w.sga (min w.sgc blksz)
      { w with sga := w.sga + min w.sgc blksz, sgc := w.sgc - min w.sgc blksz } := by
  have hle : min w.sgc blksz ≤ w.sgc := Nat.min_le_left _ _
  have hhigh := h.high
  refine ⟨hnext, ⟨h.sgl, h.nsg, h.entry, Nat.le_add_right_of_le h.low, ?_⟩, ?_,
    Nat.min_le_right _ _, ⟨h.low, ?_⟩, rfl, ?_⟩
  · show w.sga + min w.sgc blksz + (w.sgc - min w.sgc blksz) = _
    rw [Nat.add_assoc, Nat.add_sub_cancel' hle]
    exact hhigh
  · have hcut : List.range' w.sga (min w.sgc blksz) ++ List.range' (w.sga + min w.sgc blksz)
        (w.sgc - min w.sgc blksz) = List.range' w.sga w.sgc := by
      rw [List.range'_append_1, Nat.add_sub_cancel' hle]
    show List.range' _ _ ++ (List.range' _ _ ++ _) = _
    rw [hrest, ← List.append_assoc, hcut]
    rfl
  · show w.sga + min w.sgc blksz ≤ _
    rw [← hhigh]
    exact Nat.add_le_add_left hle _
  · intro hshort
    show w.sgc - min w.sgc blksz = 0
    rcases Nat.le_total w.sgc blksz with hsmall | hbig
    · rw [Nat.min_eq_left hsmall, Nat.sub_self]
    · rw [Nat.min_eq_right hbig] at hshort
      exact absurd hshort (Nat.lt_irrefl _)

/-- **One call** while something is left: its piece is split off, and the walk still stands on an
entry. -/
theorem Standing.split (h : Standing cmd w) (hrest : w.rest ≠ []) (blksz : ℕ) :
    ∃ addr len w', Split cmd w blksz addr len w' := by
  have hnsg := h.nsg
  have hentry := h.entry
  by_cases hsgc : w.sgc = 0
  · -- the entry is used up, and another one follows
    have hmore : w.nsg - 1 ≠ 0 := by
      intro hlast
      rw [h.rest_eq hsgc, hlast] at hrest
      exact hrest rfl
    have hnext : Standing cmd { w with
        sge := w.sge + 1, nsg := w.nsg - 1, sgc := (w.sgl (w.sge + 1)).sg_count, sga :=
          (w.sgl (w.sge + 1)).sg_address } := by
      refine ⟨h.sgl, ?_, ?_, ?_, ?_⟩
      · show w.sge + 1 + (w.nsg - 1) = _
        omega
      · show w.sge + 1 < _
        omega
      · show _ ≤ (w.sgl (w.sge + 1)).sg_address
        rw [h.sgl]
      · show (w.sgl (w.sge + 1)).sg_address + (w.sgl (w.sge + 1)).sg_count = _
        rw [h.sgl]
    refine ⟨_, _, _, hnext.take blksz ?_ ?_⟩
    · rw [sdio_sg_nxt, if_neg (by omega), if_pos hsgc]
    · rw [h.rest_eq hsgc, flatMap_bytes_cons cmd.sgl hmore, ← h.sgl]
      rfl
  · refine ⟨_, _, _, h.take blksz ?_ rfl⟩
    rw [sdio_sg_nxt, if_neg fun hend => hsgc hend.2, if_neg hsgc]

/-! ### Calls in a row -/

theorem sgNxts_append (bs cs : List ℕ) : ∀ w, sgNxts (bs ++ cs) w =
    ((sgNxts bs w).1 ++ (sgNxts cs (sgNxts bs w).2).1, (sgNxts cs (sgNxts bs w).2).2) := by
  induction bs with
  | nil => exact fun w => rfl
  | cons b bs ih =>
      intro w
      rw [List.cons_append, sgNxts, sgNxts]
      cases sdio_sg_nxt w b with
      | none => exact ih w
      | some r =>
          dsimp only
          rw [ih]
          rfl

/-- The walk is right so far. -/
structure Stood (cmd : Request) (w : Wspc) (cs : List ℕ) : Prop where
  standing : Standing cmd (sgNxts cs w).2
  bytes : (sgNxts cs w).1.flatMap pieceBytes ++ (sgNxts cs w).2.rest = cmd.bytes
  within : ∀ p ∈ (sgNxts cs w).1, ∃ i < cmd.sgc,
    (cmd.sgl i).sg_address ≤ p.1 ∧ p.1 + p.2 ≤ (cmd.sgl i).sg_address + (cmd.sgl i).sg_count

/-- One more call, while something is left. -/
theorem Stood.step {cs : List ℕ} (h : Stood cmd w cs) (hrest : (sgNxts cs w).2.rest ≠ []) (b : ℕ) :
    Stood cmd w (cs ++ [b]) := by
  obtain ⟨addr, len, w', hs⟩ := h.standing.split hrest b
  have hcalls : sgNxts (cs ++ [b]) w = ((sgNxts cs w).1 ++ [(addr, len)], w') := by
    rw [sgNxts_append, sgNxts, hs.next]
    rfl
  refine ⟨by rw [hcalls]; exact hs.standing, ?_, fun p hp => ?_⟩
  · rw [hcalls, List.flatMap_append, List.append_assoc, ← h.bytes, ← hs.rest]
    simp
  · rw [hcalls, List.mem_append, List.mem_singleton] at hp
    rcases hp with hp | rfl
    · exact h.within p hp
    · exact ⟨w'.sge, hs.standing.entry, hs.within⟩

/-- When every byte was returned, nothing is left. -/
theorem Stood.rest_nil_iff {cs : List ℕ} (h : Stood cmd w cs) :
    (sgNxts cs w).1.flatMap pieceBytes = cmd.bytes ↔ (sgNxts cs w).2.rest = [] := by
  rw [← h.bytes]
  exact List.self_eq_append_right

/-- The walk is right as long as something was left before each call. -/
theorem stood_run (h : Stood cmd w []) (bs : List ℕ)
    (hrest : ∀ cs b ds, bs = cs ++ b :: ds → (sgNxts cs w).2.rest ≠ []) : Stood cmd w bs := by
  induction bs using List.reverseRecOn with
  | nil => exact h
  | append_singleton bs b ih =>
      refine (ih fun cs c ds hbs => hrest cs c (ds ++ [b]) (by rw [hbs]; simp)).step
        (hrest bs b [] rfl) b

theorem walked_iff (h : Stood cmd w []) (bs : List ℕ) :
    Walked cmd w bs ↔ ∀ cs b ds, bs = cs ++ b :: ds → (sgNxts cs w).2.rest ≠ [] := by
  constructor
  · intro hw
    -- a call too many is the first one that does not end the walk
    have hstop : ∀ cs b ds, bs = cs ++ b :: ds → Stood cmd w cs → (sgNxts cs w).2.rest ≠ [] := by
      intro cs b ds hbs hcs hnil
      exact hcs.standing.nxt_ne_none b (hw.ends cs b ds hbs (hcs.rest_nil_iff.mpr hnil))
    have hstood : ∀ cs ds, bs = cs ++ ds → Stood cmd w cs := by
      intro cs
      induction cs using List.reverseRecOn with
      | nil => exact fun _ _ => h
      | append_singleton cs c ih =>
          intro ds hbs
          have hcons : bs = cs ++ c :: ds := by rw [hbs, List.append_assoc, List.singleton_append]
          exact (ih _ hcons).step (hstop cs c ds hcons (ih _ hcons)) c
    exact fun cs b ds hbs => hstop cs b ds hbs (hstood cs _ hbs)
  · intro hrest
    have hstood : ∀ cs ds, bs = cs ++ ds → Stood cmd w cs := fun cs ds hbs =>
      stood_run h cs fun cs' b ds' hcs => hrest cs' b (ds' ++ ds) (by rw [hbs, hcs]; simp)
    have hall := hstood bs [] (List.append_nil bs).symm
    refine ⟨⟨_, hall.bytes⟩, hall.within, fun cs ds hbs =>
      (hstood cs ds hbs).standing.entry, fun cs b ds hbs hcs => ?_⟩
    exact absurd ((hstood cs _ hbs).rest_nil_iff.mp hcs) (hrest cs b ds hbs)

/-! ### A block -/

/-- How far the walk has come. -/
def Request.pos (cmd : Request) (w : Wspc) : ℕ :=
  cmd.upto w.sge + (w.sga - (cmd.sgl w.sge).sg_address)

theorem upto_succ (cmd : Request) (i : ℕ) :
    cmd.upto (i + 1) = cmd.upto i + (cmd.sgl i).sg_count := by
  rw [Request.upto, List.range_succ, List.map_append, List.sum_append]
  simp [Request.upto]

theorem upto_mono (cmd : Request) {i j : ℕ} (hij : i ≤ j) : cmd.upto i ≤ cmd.upto j := by
  induction hij with
  | refl => exact Nat.le_refl _
  | step _ ih =>
      rw [upto_succ]
      exact Nat.le_add_right_of_le ih

theorem upto_add (cmd : Request) (i n : ℕ) :
    cmd.upto i + ((List.range' i n).flatMap fun j => (cmd.sgl j).bytes).length =
      cmd.upto (i + n) := by
  induction n generalizing i with
  | zero => rfl
  | succ n ih =>
      rw [flatMap_bytes_cons cmd.sgl (Nat.succ_ne_zero n), List.length_append, ← Nat.add_assoc,
        Sge.bytes,
        List.length_range', ← upto_succ, Nat.succ_sub_one, ih, Nat.add_right_comm, Nat.add_assoc]

theorem length_bytes (cmd : Request) : cmd.bytes.length = cmd.upto cmd.sgc := by
  have h := upto_add cmd 0 cmd.sgc
  rw [Nat.zero_add, ← List.range_eq_range'] at h
  rw [← h]
  exact (Nat.zero_add _).symm

theorem Standing.pos_sgc (h : Standing cmd w) : cmd.pos w + w.sgc = cmd.upto (w.sge + 1) := by
  have hlow := h.low
  have hhigh := h.high
  rw [Request.pos, upto_succ]
  omega

theorem Standing.pos_rest (h : Standing cmd w) : cmd.pos w + w.rest.length = cmd.upto cmd.sgc := by
  have hnsg := h.nsg
  have hentry := h.entry
  have hlen : w.rest.length = w.sgc + ((List.range' (w.sge + 1) (w.nsg - 1)).flatMap fun i =>
      (cmd.sgl i).bytes).length := by
    rw [Wspc.rest, List.length_append, List.length_range', h.sgl]
  rw [hlen, ← Nat.add_assoc, h.pos_sgc, upto_add]
  congr 1
  omega

theorem Split.pos {b addr len : ℕ} (hs : Split cmd w b addr len w') (h : Standing cmd w) :
    cmd.pos w' = cmd.pos w + len := by
  have hw := h.pos_rest
  have hw' := hs.standing.pos_rest
  have hlen := congrArg List.length hs.rest
  rw [List.length_append, pieceBytes, List.length_range'] at hlen
  dsimp only at hlen
  omega

/-- No entry ends inside a piece. -/
theorem Split.apart {b addr len : ℕ} (hs : Split cmd w b addr len w') (h : Standing cmd w) (i : ℕ) :
    cmd.upto i ≤ cmd.pos w ∨ cmd.pos w + len ≤ cmd.upto i := by
  have hpos := hs.pos h
  have hsga := hs.sga
  have hlow := hs.within.1
  rcases Nat.lt_or_ge w'.sge i with hlt | hge
  · have hmono := upto_mono cmd (Nat.succ_le_of_lt hlt)
    have hend := hs.standing.pos_sgc
    refine .inr ?_
    rw [← hpos]
    exact (Nat.le_add_right _ _).trans (hend.le.trans hmono)
  · have hmono := upto_mono cmd hge
    rw [Request.pos, hsga] at hpos
    omega

/-- The cuts between two places of the list are a whole number of words from the first one. -/
def Request.Words (cmd : Request) (lo hi : ℕ) : Prop :=
  ∀ i ≤ cmd.sgc, lo < cmd.upto i → cmd.upto i < hi → 4 ∣ cmd.upto i - lo

/-- Whole words in front leave the cuts behind them where they are. -/
theorem words_append {lo mid hi : ℕ} (hlo : lo ≤ mid) (hhi : mid ≤ hi) (hmid : 4 ∣ mid - lo) :
    cmd.Words lo mid ∧ cmd.Words mid hi ↔ cmd.Words lo hi := by
  have hshift : ∀ i, mid ≤ cmd.upto i → (4 ∣ cmd.upto i - lo ↔ 4 ∣ cmd.upto i - mid) := by
    intro i hi
    rw [← Nat.sub_add_sub_cancel hi hlo]
    exact Nat.dvd_add_left hmid
  constructor
  · rintro ⟨hleft, hright⟩ i hi hlow hhigh
    rcases Nat.lt_trichotomy (cmd.upto i) mid with hlt | heq | hgt
    · exact hleft i hi hlow hlt
    · exact heq ▸ hmid
    · exact (hshift i hgt.le).mpr (hright i hi hgt hhigh)
  · intro hall
    refine ⟨fun i hi hlow hhigh => hall i hi hlow (hhigh.trans_le hhi), fun i hi hlow hhigh => ?_⟩
    exact (hshift i hlow.le).mp (hall i hi (hlo.trans_lt hlow) hhigh)

/-- A piece is of whole words if the block and its other cuts are. -/
theorem Split.words_iff {b addr len : ℕ} (hs : Split cmd w b addr len w') (h : Standing cmd w) :
    (4 ∣ len ∧ 4 ∣ b - len ∧ cmd.Words (cmd.pos w') (cmd.pos w' + (b - len))) ↔
      4 ∣ b ∧ cmd.Words (cmd.pos w) (cmd.pos w + b) := by
  have hpos := hs.pos h
  have hle := hs.le
  have hend : cmd.pos w' + (b - len) = cmd.pos w + b := by omega
  have hpiece : cmd.Words (cmd.pos w) (cmd.pos w') := fun i _ hlow hhigh =>
    absurd hlow (Nat.not_lt.mpr ((hs.apart h i).resolve_right (Nat.not_le.mpr (hpos ▸ hhigh))))
  have happend : 4 ∣ len →
      (cmd.Words (cmd.pos w') (cmd.pos w + b) ↔ cmd.Words (cmd.pos w) (cmd.pos w + b)) := by
    intro hlen
    rw [← @words_append cmd (cmd.pos w) (cmd.pos w') (cmd.pos w + b) (by omega) (by omega)
      (by rwa [hpos, Nat.add_sub_cancel_left]), and_iff_right hpiece]
  rw [hend]
  constructor
  · rintro ⟨hlen, hb, hwords⟩
    exact ⟨(Nat.dvd_sub_iff_left hle hlen).mp hb, (happend hlen).mp hwords⟩
  · rintro ⟨hb, hwords⟩
    have hlen : 4 ∣ len := by
      rcases Nat.eq_or_lt_of_le hle with heq | hlt
      · exact heq ▸ hb
      rcases Nat.eq_zero_or_pos len with hzero | hpositive
      · exact hzero ▸ Nat.dvd_zero 4
      · -- the piece ends with its entry
        have hat : cmd.upto (w'.sge + 1) = cmd.pos w + len := by
          rw [← hs.standing.pos_sgc, hs.cut hlt, Nat.add_zero, hpos]
        have hcut := hwords (w'.sge + 1) hs.standing.entry (by omega) (by omega)
        rwa [hat, Nat.add_sub_cancel_left] at hcut
    exact ⟨hlen, (Nat.dvd_sub_iff_left hle hlen).mpr hb, (happend hlen).mpr hwords⟩

/-- The pieces that are moved as the words `r.1` are the next `n` bytes of the list, with `whole`
for pieces of whole words. -/
structure Pieces (cmd : Request) (w : Wspc) (n : ℕ) (r : List (ℕ × ℕ) × Wspc) (whole : Prop)
    (ps : List (ℕ × ℕ)) : Prop where
  words : r.1 = ps.map fun p => (p.1, p.2 / 4)
  standing : Standing cmd r.2
  rest : ps.flatMap pieceBytes ++ r.2.rest = w.rest
  length : (ps.flatMap pieceBytes).length = n
  whole : (∀ p ∈ ps, 4 ∣ p.2) ↔ whole

/-- How far the walk has come after some pieces. -/
theorem Pieces.pos {n : ℕ} {r : List (ℕ × ℕ) × Wspc} {whole : Prop} {ps : List (ℕ × ℕ)}
    (hp : Pieces cmd w n r whole ps) (h : Standing cmd w) : cmd.pos r.2 = cmd.pos w + n := by
  have hw := h.pos_rest
  have hr := hp.standing.pos_rest
  have hlen := congrArg List.length hp.rest
  rw [List.length_append, hp.length] at hlen
  omega

theorem pioBlock_zero (w : Wspc) : pioBlock w 0 = ([], w) := by
  rw [pioBlock, dif_pos rfl]

theorem pioBlock_some {b addr len : ℕ} (hb : b ≠ 0) (h : sdio_sg_nxt w b = some (addr, len, w')) :
    pioBlock w b = ((addr, len / 4) :: (pioBlock w' (b - len)).1, (pioBlock w' (b - len)).2) := by
  rw [pioBlock, dif_neg hb]
  split
  case h_1 hnone => exact absurd (hnone.symm.trans h) (Option.some_ne_none _).symm
  case h_2 hsome =>
      cases Option.some.inj (hsome.symm.trans h)
      rfl

/-- **A block** that the list still holds is cut at its end, and where an entry ends. -/
theorem pioBlock_spec (w : Wspc) (b : ℕ) (h : Standing cmd w) (hb : b ≤ w.rest.length) :
    ∃ ps, Pieces cmd w b (pioBlock w b) (4 ∣ b ∧ cmd.Words (cmd.pos w) (cmd.pos w + b)) ps := by
  induction w, b using pioBlock.induct with
  | case1 w =>
      rw [pioBlock_zero]
      refine ⟨[], rfl, h, rfl, rfl, ?_⟩
      simp only [List.not_mem_nil, false_imp_iff, implies_true, true_iff]
      exact ⟨Nat.dvd_zero 4, fun i _ hlow hhigh =>
        absurd hlow (Nat.not_lt.mpr (Nat.le_of_lt_succ (Nat.lt_succ_of_lt hhigh)))⟩
  | case2 w b hne hnone => exact absurd hnone (h.nxt_ne_none b)
  | case3 w b hne addr len w' hsome ih =>
      have hrest : w.rest ≠ [] := by
        rw [← List.length_pos_iff]
        exact (Nat.pos_of_ne_zero hne).trans_le hb
      obtain ⟨addr', len', w'', hs⟩ := h.split hrest b
      cases Option.some.inj (hsome.symm.trans hs.next)
      have hlen := congrArg List.length hs.rest
      rw [List.length_append, pieceBytes, List.length_range'] at hlen
      dsimp only at hlen
      obtain ⟨ps, hp⟩ := ih hs.standing (by omega)
      have hle := hs.le
      rw [pioBlock_some hne hsome]
      refine ⟨(addr, len) :: ps, ?_, hp.standing, ?_, ?_, ?_⟩
      · rw [List.map_cons, ← hp.words]
      · rw [List.flatMap_cons, List.append_assoc, hp.rest]
        exact hs.rest
      · rw [List.flatMap_cons, List.length_append, hp.length, pieceBytes, List.length_range']
        exact Nat.add_sub_cancel' hle
      · rw [List.forall_mem_cons, hp.whole]
        exact hs.words_iff h

/-- Some blocks in a row. -/
theorem pio_xfer_spec (ready : ℕ) (h : Standing cmd w) (hb : ready * cmd.blksz ≤ w.rest.length) :
    ∃ ps, Pieces cmd w (ready * cmd.blksz) (sdhci_pio_xfer cmd ready w)
      ((ready ≠ 0 → 4 ∣ cmd.blksz) ∧ cmd.Words (cmd.pos w) (cmd.pos w + ready * cmd.blksz)) ps := by
  induction ready generalizing w with
  | zero =>
      refine ⟨[], rfl, h, rfl, (Nat.zero_mul _).symm, ?_⟩
      simp only [List.not_mem_nil, false_imp_iff, implies_true, true_iff, Nat.zero_mul]
      exact ⟨fun hne => absurd rfl hne, fun i _ hlow hhigh => absurd hlow (Nat.lt_asymm hhigh)⟩
  | succ ready ih =>
      rw [Nat.succ_mul] at hb
      obtain ⟨ps, hp⟩ := pioBlock_spec w cmd.blksz h (by omega)
      have hlen := congrArg List.length hp.rest
      rw [List.length_append, hp.length] at hlen
      obtain ⟨qs, hq⟩ := ih hp.standing (by omega)
      have hend : cmd.pos w + cmd.blksz + ready * cmd.blksz = cmd.pos w + (ready + 1) *
          cmd.blksz := by
        rw [Nat.succ_mul]
        omega
      refine ⟨ps ++ qs, ?_, hq.standing, ?_, ?_, ?_⟩
      · rw [List.map_append, ← hp.words, ← hq.words]
        rfl
      · rw [List.flatMap_append, List.append_assoc, ← hp.rest, ← hq.rest]
        rfl
      · rw [List.flatMap_append, List.length_append, hp.length, hq.length, Nat.succ_mul,
          Nat.add_comm]
      · have hblock : 4 ∣ cmd.blksz → (cmd.Words (cmd.pos w) (cmd.pos w + cmd.blksz) ∧
            cmd.Words (cmd.pos w + cmd.blksz) (cmd.pos w + (ready + 1) * cmd.blksz) ↔
              cmd.Words (cmd.pos w) (cmd.pos w + (ready + 1) * cmd.blksz)) := fun h4 =>
          words_append (by omega) (by omega) (by rwa [Nat.add_sub_cancel_left])
        rw [List.forall_mem_append, hp.whole, hq.whole, hp.pos h, hend]
        constructor
        · rintro ⟨⟨h4, hfirst⟩, -, hlater⟩
          exact ⟨fun _ => h4, (hblock h4).mp ⟨hfirst, hlater⟩⟩
        · rintro ⟨h4, hall⟩
          obtain ⟨hfirst, hlater⟩ := (hblock (h4 (Nat.succ_ne_zero ready))).mpr hall
          exact ⟨⟨h4 (Nat.succ_ne_zero ready), hfirst⟩, fun _ =>
            h4 (Nat.succ_ne_zero ready), hlater⟩

/-! ### The list -/

/-- A piece is moved whole if it is of whole words, and loses bytes otherwise. -/
theorem movedBytes_iff (ps : List (ℕ × ℕ)) :
    ((movedBytes (ps.map fun p => (p.1, p.2 / 4))).length = (ps.flatMap pieceBytes).length ↔
    ∀ p ∈ ps, 4 ∣ p.2) ∧
    (movedBytes (ps.map fun p => (p.1, p.2 / 4))).length ≤ (ps.flatMap pieceBytes).length ∧
    ((∀ p ∈ ps, 4 ∣ p.2) →
    movedBytes (ps.map fun p => (p.1, p.2 / 4)) = ps.flatMap pieceBytes) := by
  induction ps with
  | nil => exact ⟨by simp [movedBytes], Nat.le_refl _, fun _ => rfl⟩
  | cons p ps ih =>
      obtain ⟨hiff, hle, heq⟩ := ih
      have hcons : movedBytes ((p :: ps).map fun p => (p.1, p.2 / 4)) =
          List.range' p.1 (4 * (p.2 / 4)) ++ movedBytes (ps.map fun p => (p.1, p.2 / 4)) := rfl
      have hpiece : 4 * (p.2 / 4) ≤ p.2 := Nat.mul_div_le p.2 4
      rw [hcons, List.flatMap_cons, List.length_append, List.length_append, List.length_range',
        pieceBytes, List.length_range', List.forall_mem_cons, ← hiff]
      refine ⟨⟨fun hlen => ⟨⟨p.2 / 4, by omega⟩, by omega⟩, ?_⟩, by omega, ?_⟩
      · rintro ⟨h4, hlen⟩
        rw [hlen, Nat.mul_div_cancel' h4]
      · rintro ⟨h4, hlen⟩
        rw [Nat.mul_div_cancel' h4, heq (hiff.mp hlen)]

theorem moves_iff (ready : ℕ) (h : Standing cmd w) (hrest : w.rest = cmd.bytes) :
    Moves cmd w ready ↔ ready * cmd.blksz ≤ cmd.bytes.length ∧ (ready ≠ 0 → 4 ∣ cmd.blksz) ∧
      cmd.Words 0 (ready * cmd.blksz) := by
  have hpos : cmd.pos w = 0 := by
    have hp := h.pos_rest
    rw [hrest, length_bytes] at hp
    omega
  by_cases hfit : ready * cmd.blksz ≤ cmd.bytes.length
  · obtain ⟨ps, hp⟩ := pio_xfer_spec ready h (hrest ▸ hfit)
    obtain ⟨hiff, -, heq⟩ := movedBytes_iff ps
    rw [← hp.words, hp.length, hp.whole, hpos, Nat.zero_add] at hiff
    rw [← hp.words, hp.whole, hpos, Nat.zero_add] at heq
    refine ⟨fun hm => ⟨hfit, hiff.mp hm.all⟩, fun hcut => ⟨?_, hiff.mpr hcut.2⟩⟩
    rw [heq hcut.2, ← hrest, ← hp.rest, ← hp.length, List.take_left]
  · refine ⟨fun hm => absurd ?_ hfit, fun hcut => absurd hcut.1 hfit⟩
    have hlen := hm.all
    rw [hm.bytes, List.length_take] at hlen
    omega

/-- **The walk over a list is right exactly if no call is made when nothing is left, and the blocks
are moved exactly if the list holds them and they are cut between words.** -/
theorem sg_walk_iff (w₀ : Wspc) (cmd : Request) (hn : 0 < cmd.sgc) (bs : List ℕ) (ready : ℕ) :
    Walked cmd (sdio_sg_start w₀ cmd).2 bs ∧ Moves cmd (sdio_sg_start w₀ cmd).2 ready ↔
      (∀ cs b ds, bs = cs ++ b :: ds → (sgNxts cs (sdio_sg_start w₀ cmd).2).2.rest ≠ []) ∧
        ready * cmd.blksz ≤ cmd.bytes.length ∧ (ready ≠ 0 → 4 ∣ cmd.blksz) ∧
        cmd.Words 0 (ready * cmd.blksz) := by
  obtain ⟨hstanding, hrest⟩ := sg_start_standing w₀ hn
  rw [walked_iff ⟨hstanding, hrest, by simp [sgNxts]⟩, moves_iff ready hstanding hrest]

/-- One block into one buffer, with one call of `sdio_sg_nxt`. -/
theorem sg_walk_block : Walked readBlock (sdio_sg_start plainSlot.wspc readBlock).2 [512] ∧
    Moves readBlock (sdio_sg_start plainSlot.wspc readBlock).2 1 := by
  refine (sg_walk_iff plainSlot.wspc readBlock (by decide) [512] 1).mpr
    ⟨fun cs b ds hbs => ?_, ?_, fun _ => by decide, ?_⟩
  · cases cs with
    | nil => exact List.cons_ne_nil _ _
    | cons c cs => simp at hbs
  · rw [length_bytes]
    decide
  · show ∀ i ≤ 1, 0 < readBlock.upto i → readBlock.upto i < 1 * 512 → 4 ∣ readBlock.upto i - 0
    decide

/-- The call after the last byte does not end the walk: it goes on behind the list. -/
theorem sg_walk_past_end :
    ¬ (Walked readBlock (sdio_sg_start plainSlot.wspc readBlock).2 [512, 512] ∧
    Moves readBlock (sdio_sg_start plainSlot.wspc readBlock).2 1) := by
  rintro ⟨hw, -⟩
  have hall : (sgNxts [512] (sdio_sg_start plainSlot.wspc readBlock).2).1.flatMap pieceBytes =
    readBlock.bytes := rfl
  exact absurd (hw.ends [512] 512 [] rfl hall) (Option.some_ne_none _)

end Sdmmc.Sdhci
