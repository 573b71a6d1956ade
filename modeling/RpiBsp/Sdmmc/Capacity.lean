import RpiBsp.Sdmmc.Definitions
import RpiBsp.Support.Bits

/-!
# Sdmmc — the capacity of a card

`sd_parse_csd` and `mmc_parse_csd`: the 128 bits a card sends of itself, taken apart by
`sdio_extract_bits` out of four words, and the capacity they encode as a number of sectors.

* `sdio_extract_bits` reads the window of the number that the words make (`extract_bits`);
* the sector count is a product of 32 bits: `csd_exact_iff` says for which registers it is the
  capacity.

The casts of the fields to their types are left out, as no field is wider than its type; so are the
fields that are commented out in the source.
-/

namespace Sdmmc.Capacity

open Support

/-! ### The register and its fields -/

/-- `uint32_t rsp[4]`, the most significant word first. -/
structure Rsp where
  words : List ℕ
  length : words.length = 4
  lt : ∀ x ∈ words, x < 2 ^ 32

/-- The 128 bits of the register. -/
def Rsp.value (r : Rsp) : ℕ := ofWords 32 r.words

/-- `sdio_extract_bits`. -/
def sdio_extract_bits (data : List ℕ) (bits start size : ℕ) : ℕ :=
  let idx := bits / 32 - start / 32 - 1
  let shift := start &&& 31
  let value := data.getD idx 0 >>> shift
  let value :=
    if size + shift > 32 then value ||| (data.getD (idx - 1) 0 <<< (32 - shift)) % 2 ^ 32 else value
  value &&& (2 ^ size - 1)

/-- A field that lies within the register is its window, also where it crosses from one word into
the next. -/
theorem extract_bits {data : List ℕ} (h : ∀ x ∈ data, x < 2 ^ 32) {start size : ℕ} (hz : 0 < size)
    (hs : size ≤ 32) (hin : start + size ≤ 32 * data.length) :
    sdio_extract_bits data (32 * data.length) start size = window (ofWords 32 data) start size := by
  have hshift : start &&& 31 = start % 32 := Nat.and_two_pow_sub_one_eq_mod start 5
  have hidx : 32 * data.length / 32 - start / 32 - 1 = data.length - 1 - start / 32 := by omega
  have hi : data.length - 1 - start / 32 < data.length := by omega
  have hword : data.getD (data.length - 1 - start / 32) 0 = data[data.length - 1 - start / 32] := by
    simp [hi]
  have hk : data.length - 1 - (data.length - 1 - start / 32) = start / 32 := by omega
  apply Nat.eq_of_testBit_eq
  intro i
  simp only [sdio_extract_bits, hshift, hidx, Nat.and_two_pow_sub_one_eq_mod, testBit_window,
    Nat.testBit_mod_two_pow]
  by_cases hlt : i < size
  case neg => simp [hlt]
  simp only [hlt, decide_true, Bool.true_and]
  by_cases hone : i + start % 32 < 32
  case pos =>
    -- A bit of the lower word, which the word above leaves alone.
    have hlow : (data.getD (data.length - 1 - start / 32) 0 >>> (start % 32)).testBit i =
        (ofWords 32 data).testBit (start + i) := by
      rw [Nat.testBit_shiftRight, hword, testBit_word h hi (by omega), hk]
      congr 1
      omega
    have habove : ∀ x : ℕ, ((x <<< (32 - start % 32)) % 2 ^ 32).testBit i = false := by
      intro x
      have : ¬ 32 - start % 32 ≤ i := by omega
      rw [Nat.testBit_mod_two_pow, Nat.testBit_shiftLeft]
      simp [this]
    split
    case isTrue => rw [Nat.testBit_or, hlow, habove, Bool.or_false]
    case isFalse => exact hlow
  case neg =>
    -- A bit of the word above, which the lower word has no bit at.
    have hj : data.length - 1 - start / 32 - 1 < data.length := by omega
    have hnext : data.getD (data.length - 1 - start / 32 - 1) 0 =
        data[data.length - 1 - start / 32 - 1] := by
      simp [hj]
    have hlow :
        (data.getD (data.length - 1 - start / 32) 0 >>> (start % 32)).testBit i = false := by
      rw [Nat.testBit_shiftRight, hword]
      refine Nat.testBit_lt_two_pow ((h _ (List.getElem_mem hi)).trans_le ?_)
      exact Nat.pow_le_pow_right (by decide) (by omega)
    have hge : 32 - start % 32 ≤ i := by omega
    have hi32 : i < 32 := by omega
    rw [if_pos (by omega), Nat.testBit_or, hlow, Bool.false_or, Nat.testBit_mod_two_pow,
      Nat.testBit_shiftLeft, hnext, testBit_word h hj (by omega)]
    simp only [hi32, hge, decide_true, Bool.true_and]
    congr 1
    omega

/-- The field of the register that `sdio_extract_bits( rsp, 128, start, size )` gives. -/
@[simp] theorem Rsp.extract (r : Rsp) {start size : ℕ} (hz : 0 < size) (hs : size ≤ 32)
    (hin : start + size ≤ 128) :
    sdio_extract_bits r.words 128 start size = window r.value start size := by
  have h := @extract_bits _ r.lt start _ hz hs (by rw [r.length]; exact hin)
  rw [r.length] at h
  exact h

/-! ### The parsers -/

/-- `SDIO_DFLT_BLKSZ`. -/
def SDIO_DFLT_BLKSZ : ℕ := 512

/-- `CSD_VER_20_CSIZE_MAX`, 22 bits. -/
def CSD_VER_20_CSIZE_MAX : ℕ := 0x3fffff

/-- `sdio_csd_t`, as `memset` leaves it by default. -/
structure Csd where
  csd_structure : ℕ := 0
  spec_vers : ℕ := 0
  taac : ℕ := 0
  nsac : ℕ := 0
  tran_speed : ℕ := 0
  ccc : ℕ := 0
  read_bl_len : ℕ := 0
  read_bl_partial : ℕ := 0
  write_blk_misalign : ℕ := 0
  read_blk_misalign : ℕ := 0
  dsr_imp : ℕ := 0
  c_size : ℕ := 0
  vdd_r_curr_min : ℕ := 0
  vdd_r_curr_max : ℕ := 0
  vdd_w_curr_min : ℕ := 0
  vdd_w_curr_max : ℕ := 0
  c_size_mult : ℕ := 0
  erase_blk_en : ℕ := 0
  erase_grp_size : ℕ := 0
  erase_grp_mult : ℕ := 0
  sector_size : ℕ := 0
  wp_grp_size : ℕ := 0
  wp_grp_enable : ℕ := 0
  r2w_factor : ℕ := 0
  write_bl_len : ℕ := 0
  write_bl_partial : ℕ := 0
  write_protect : ℕ := 0
  dtr_max : ℕ := 0
  blksz : ℕ := 0
  sectors : ℕ := 0
deriving DecidableEq, Repr

/-- `DEV_CAP_HC` and `DEV_CAP_UC` of `dev->caps`. -/
structure Caps where
  hc : Bool := false
  uc : Bool := false
deriving DecidableEq, Repr

/-- What a parser gives: its status, the capabilities of the device and the record. -/
structure Parsed where
  status : Errno
  caps : Caps
  csd : Csd
deriving DecidableEq, Repr

/-- `sd_tran_speed_fu` and `mmc_tran_speed_fu`. -/
def tran_speed_fu : List ℕ := [10000, 100000, 1000000, 10000000, 0, 0, 0, 0]

/-- `sd_tran_speed_mf` and `mmc_tran_speed_mf`. -/
def tran_speed_mf : List ℕ := [0, 10, 12, 13, 15, 20, 25, 30, 35, 40, 45, 50, 55, 60, 70, 80]

/-- The highest bus clock that `tran_speed` stands for. -/
def dtr_max (tran_speed : ℕ) : ℕ :=
  tran_speed_fu.getD (tran_speed &&& 0x7) 0 * tran_speed_mf.getD ((tran_speed >>> 3) &&& 0xf)
    0 % 2 ^ 32

/-- The end of either parser: a block length above 512 bytes is folded into the count of sectors. -/
def force (csd : Csd) (blksz csize csizem : ℕ) : Csd :=
  let fold := blksz > SDIO_DFLT_BLKSZ ∧ blksz % SDIO_DFLT_BLKSZ = 0
  { csd with
    blksz := if fold then SDIO_DFLT_BLKSZ else blksz
    sectors := (if fold then csize * (blksz / SDIO_DFLT_BLKSZ) % 2 ^ 32 else csize) *
      csizem % 2 ^ 32
    dtr_max := dtr_max csd.tran_speed }

/-- The fields that `sd_parse_csd` reads after the size, and what is left of it. -/
def sd_finish (rsp : List ℕ) (caps : Caps) (csd : Csd) (blksz csize csizem : ℕ) : Parsed :=
  let csd := { csd with
    erase_blk_en := sdio_extract_bits rsp 128 46 1
    sector_size := sdio_extract_bits rsp 128 39 7
    wp_grp_size := sdio_extract_bits rsp 128 32 7
    wp_grp_enable := sdio_extract_bits rsp 128 31 1
    r2w_factor := sdio_extract_bits rsp 128 26 3
    write_bl_len := sdio_extract_bits rsp 128 22 4
    write_bl_partial := sdio_extract_bits rsp 128 21 1
    write_protect := sdio_extract_bits rsp 128 12 2 }
  { status := .eok, caps := caps, csd := force csd blksz csize csizem }

/-- `sd_parse_csd`. -/
def sd_parse_csd (caps : Caps) (rsp : List ℕ) : Parsed :=
  let csd : Csd := {
    csd_structure := sdio_extract_bits rsp 128 126 2
    taac := sdio_extract_bits rsp 128 112 8
    nsac := sdio_extract_bits rsp 128 104 8
    tran_speed := sdio_extract_bits rsp 128 96 8
    ccc := sdio_extract_bits rsp 128 84 12
    read_bl_len := sdio_extract_bits rsp 128 80 4
    read_bl_partial := sdio_extract_bits rsp 128 79 1
    write_blk_misalign := sdio_extract_bits rsp 128 78 1
    read_blk_misalign := sdio_extract_bits rsp 128 77 1
    dsr_imp := sdio_extract_bits rsp 128 76 1 }
  match csd.csd_structure with
  -- Standard capacity.
  | 0 =>
    let csd := { csd with
      c_size := sdio_extract_bits rsp 128 62 12
      vdd_r_curr_min := sdio_extract_bits rsp 128 59 3
      vdd_r_curr_max := sdio_extract_bits rsp 128 56 3
      vdd_w_curr_min := sdio_extract_bits rsp 128 53 3
      vdd_w_curr_max := sdio_extract_bits rsp 128 50 3
      c_size_mult := sdio_extract_bits rsp 128 47 3 }
    sd_finish rsp caps csd (2 ^ csd.read_bl_len) (csd.c_size + 1) (2 ^ (csd.c_size_mult + 2))
  -- High and extended capacity.
  | 1 =>
    let csd := { csd with c_size := sdio_extract_bits rsp 128 48 22 }
    sd_finish rsp { caps with hc := true } csd SDIO_DFLT_BLKSZ (csd.c_size + 1) 1024
  -- Ultra capacity, limited to 22 bits.
  | 2 =>
    let c_size := sdio_extract_bits rsp 128 48 28
    let csd := { csd with
      c_size := if c_size > CSD_VER_20_CSIZE_MAX then CSD_VER_20_CSIZE_MAX else c_size }
    sd_finish rsp { hc := true, uc := true } csd SDIO_DFLT_BLKSZ (csd.c_size + 1) 1024
  | _ => { status := .einval, caps := caps, csd := csd }

/-- `mmc_parse_csd`. -/
def mmc_parse_csd (caps : Caps) (rsp : List ℕ) : Parsed :=
  let csd : Csd := {
    csd_structure := sdio_extract_bits rsp 128 126 2
    spec_vers := sdio_extract_bits rsp 128 122 4
    taac := sdio_extract_bits rsp 128 112 8
    nsac := sdio_extract_bits rsp 128 104 8
    tran_speed := sdio_extract_bits rsp 128 96 8
    ccc := sdio_extract_bits rsp 128 84 12
    read_bl_len := sdio_extract_bits rsp 128 80 4
    read_bl_partial := sdio_extract_bits rsp 128 79 1
    write_blk_misalign := sdio_extract_bits rsp 128 78 1
    read_blk_misalign := sdio_extract_bits rsp 128 77 1
    dsr_imp := sdio_extract_bits rsp 128 76 1
    c_size := sdio_extract_bits rsp 128 62 12
    vdd_r_curr_min := sdio_extract_bits rsp 128 59 3
    vdd_r_curr_max := sdio_extract_bits rsp 128 56 3
    vdd_w_curr_min := sdio_extract_bits rsp 128 53 3
    vdd_w_curr_max := sdio_extract_bits rsp 128 50 3
    c_size_mult := sdio_extract_bits rsp 128 47 3 }
  let csd :=
    match csd.csd_structure with
    | 0 | 1 => { csd with
        erase_grp_mult := 1
        sector_size := sdio_extract_bits rsp 128 42 5
        erase_grp_size := sdio_extract_bits rsp 128 37 5 }
    | 2 | 3 => { csd with
        erase_grp_mult := sdio_extract_bits rsp 128 37 5
        erase_grp_size := sdio_extract_bits rsp 128 42 5 }
    | _ => csd
  let csd := { csd with
    wp_grp_size := sdio_extract_bits rsp 128 32 5
    wp_grp_enable := sdio_extract_bits rsp 128 31 1
    r2w_factor := sdio_extract_bits rsp 128 26 3
    write_bl_len := sdio_extract_bits rsp 128 22 4
    write_bl_partial := sdio_extract_bits rsp 128 21 1
    write_protect := sdio_extract_bits rsp 128 12 2 }
  { status := .eok, caps := caps
    csd := force csd (2 ^ csd.read_bl_len) (csd.c_size + 1) (2 ^ (csd.c_size_mult + 2)) }

/-! ### The capacity -/

/-- A card whose register is parsed: the two kinds have a parser each. -/
def parse_csd : DevType → Caps → List ℕ → Parsed
  | .sd => sd_parse_csd
  | .mmc => mmc_parse_csd

/-- The structure versions a parser knows. -/
def Supported (kind : DevType) (r : Rsp) : Prop := kind = .sd → window r.value 126 2 ≠ 3

/-- The bytes that the register encodes: `C_SIZE`, `C_SIZE_MULT` and `READ_BL_LEN`, or units of 512
KiB. -/
def capacity (kind : DevType) (r : Rsp) : ℕ :=
  let small := (window r.value 62 12 + 1) * 2 ^ (window r.value 47 3 + 2) * 2 ^ window r.value 80 4
  match kind with
  | .mmc => small
  | .sd =>
    match window r.value 126 2 with
    | 0 => small
    | 1 => (window r.value 48 22 + 1) * (512 * 1024)
    | _ => (min (window r.value 48 28) CSD_VER_20_CSIZE_MAX + 1) * (512 * 1024)

/-- The record says the capacity, in sectors of at most 512 bytes or a power of two. -/
structure Exact (p : Parsed) (bytes : ℕ) : Prop where
  status : p.status = .eok
  capacity : p.csd.sectors * p.csd.blksz = bytes
  blksz : p.csd.blksz ≤ 512 ∨ ∃ k, p.csd.blksz = 2 ^ k
  sectors : 0 < p.csd.sectors

/-- A block length that is a power of two is folded without loss, as long as the product of all
three factors is below the capacity that fits. -/
theorem force_small (csd : Csd) {r c z : ℕ} (hr : r < 16) (hc : 0 < c) (hc' : c ≤ 2 ^ 12)
    (hz : 0 < z) (hz' : z ≤ 2 ^ 9) :
    (force csd (2 ^ r) c z).sectors * (force csd (2 ^ r) c z).blksz = c * z * 2 ^ r ∧
      (force csd (2 ^ r) c z).blksz ≤ 512 ∧ 0 < (force csd (2 ^ r) c z).sectors := by
  have hpow : ∀ m ≤ 64, c * m ≤ 2 ^ 12 * 64 := fun m hm => Nat.mul_le_mul hc' hm
  have hprod : ∀ m ≤ 64, c * m * z ≤ 2 ^ 12 * 64 * 2 ^ 9 :=
    fun m hm => Nat.mul_le_mul (hpow m hm) hz'
  by_cases hlarge : r ≤ 9
  case pos =>
    have hle : 2 ^ r ≤ 512 := Nat.pow_le_pow_right (n := 2) (by decide) hlarge
    have hno : ¬ (2 ^ r > SDIO_DFLT_BLKSZ ∧ 2 ^ r % SDIO_DFLT_BLKSZ = 0) := fun h => absurd h.1 (by
      simpa [SDIO_DFLT_BLKSZ] using hle)
    have hfit : c * z < 2 ^ 32 := by
      have := hprod 1 (by decide)
      rw [Nat.mul_one] at this
      omega
    simp only [force, hno, if_false, Nat.mod_eq_of_lt hfit]
    exact ⟨trivial, hle, Nat.mul_pos hc hz⟩
  case neg =>
    obtain ⟨k, rfl⟩ : ∃ k, r = 9 + (k + 1) := ⟨r - 10, by omega⟩
    have hm : 2 ^ (k + 1) ≤ 64 := Nat.pow_le_pow_right (n := 2) (j := 6) (by decide) (by omega)
    have hpos : 0 < 2 ^ (k + 1) := Nat.two_pow_pos _
    have hsplit : 2 ^ (9 + (k + 1)) = 512 * 2 ^ (k + 1) := pow_add 2 9 (k + 1)
    have hyes : 2 ^ (9 + (k + 1)) > SDIO_DFLT_BLKSZ ∧ 2 ^ (9 + (k + 1)) % SDIO_DFLT_BLKSZ = 0 := by
      have : 2 ^ (k + 1) = 2 * 2 ^ k := by rw [pow_succ, Nat.mul_comm]
      have := Nat.two_pow_pos k
      rw [hsplit, SDIO_DFLT_BLKSZ]
      omega
    have hdiv : 2 ^ (9 + (k + 1)) / SDIO_DFLT_BLKSZ = 2 ^ (k + 1) := by
      rw [hsplit]
      exact Nat.mul_div_cancel_left _ (by decide)
    have hfit : c * 2 ^ (k + 1) < 2 ^ 32 := (hpow _ hm).trans_lt (by decide)
    have hfit' : c * 2 ^ (k + 1) * z < 2 ^ 32 := (hprod _ hm).trans_lt (by decide)
    simp only [force, hyes, and_self, if_true, hdiv, Nat.mod_eq_of_lt hfit, Nat.mod_eq_of_lt hfit']
    refine ⟨?_, le_rfl, Nat.mul_pos (Nat.mul_pos hc hpos) hz⟩
    calc c * 2 ^ (k + 1) * z * SDIO_DFLT_BLKSZ = c * z * (512 * 2 ^ (k + 1)) := by
          rw [SDIO_DFLT_BLKSZ]
          ring
      _ = c * z * 2 ^ (9 + (k + 1)) := by rw [hsplit]

/-- With blocks of 512 bytes and units of 1024 of them, the product wraps from `2 ^ 22` units on. -/
theorem force_high (csd : Csd) (c : ℕ) :
    (force csd SDIO_DFLT_BLKSZ c 1024).sectors = c * 1024 % 2 ^ 32 ∧
      (force csd SDIO_DFLT_BLKSZ c 1024).blksz = 512 := by
  simp [force, SDIO_DFLT_BLKSZ]

/-- The size of a card whose register has `C_SIZE_MULT` and `READ_BL_LEN` is never lost. -/
theorem small_exact (r : Rsp) (p : Parsed) (hstatus : p.status = .eok)
    (hp : ∃ csd, p.csd = force csd (2 ^ window r.value 80 4) (window r.value 62 12 + 1)
      (2 ^ (window r.value 47 3 + 2))) :
    Exact p ((window r.value 62 12 + 1) * 2 ^ (window r.value 47 3 + 2) *
      2 ^ window r.value 80 4) := by
  have hr : window r.value 80 4 < 16 := window_lt _ _ 4
  have hc : window r.value 62 12 < 4096 := window_lt _ _ 12
  have hm : window r.value 47 3 < 8 := window_lt _ _ 3
  have hz : 2 ^ (window r.value 47 3 + 2) ≤ 2 ^ 9 := Nat.pow_le_pow_right (by decide) (by omega)
  obtain ⟨csd, hp⟩ := hp
  obtain ⟨hcap, hblk, hsec⟩ :=
    force_small csd hr (Nat.succ_pos _) hc (Nat.two_pow_pos (window r.value 47 3 + 2)) hz
  rw [← hp] at hcap hblk hsec
  exact ⟨hstatus, hcap, .inl hblk, hsec⟩

/-- The size in units of 512 KiB is lost exactly at `2 ^ 22` of them, which is what 22 bits
reach. -/
theorem high_exact_iff (c : ℕ) (p : Parsed) (hstatus : p.status = .eok)
    (hc : c ≤ CSD_VER_20_CSIZE_MAX) (hp : ∃ csd, p.csd = force csd SDIO_DFLT_BLKSZ (c + 1) 1024) :
    Exact p ((c + 1) * (512 * 1024)) ↔ c ≠ CSD_VER_20_CSIZE_MAX := by
  obtain ⟨csd, hp⟩ := hp
  obtain ⟨hsec, hblk⟩ := force_high csd (c + 1)
  rw [← hp] at hsec hblk
  constructor
  · intro h hmax
    have hpos := h.sectors
    rw [hsec, hmax] at hpos
    exact absurd hpos (by decide)
  · intro hne
    have hlt : c < CSD_VER_20_CSIZE_MAX := lt_of_le_of_ne hc hne
    have hfit : (c + 1) * 1024 < 2 ^ 32 := by
      rw [CSD_VER_20_CSIZE_MAX] at hlt
      omega
    rw [Nat.mod_eq_of_lt hfit] at hsec
    refine ⟨hstatus, ?_, .inl hblk.le, ?_⟩
    · rw [hsec, hblk]
      ring
    · rw [hsec]
      exact Nat.mul_pos (Nat.succ_pos c) (by decide)

/-- The registers whose sector count wraps to zero: the largest size of 22 bits, or what is cut to
it. -/
def Wraps (kind : DevType) (r : Rsp) : Prop :=
  kind = .sd ∧
    (window r.value 126 2 = 1 ∧ window r.value 48 22 = CSD_VER_20_CSIZE_MAX ∨
      window r.value 126 2 = 2 ∧ CSD_VER_20_CSIZE_MAX ≤ window r.value 48 28)

theorem sd_structure_cases {r : Rsp} (h : window r.value 126 2 ≠ 3) :
    window r.value 126 2 = 0 ∨ window r.value 126 2 = 1 ∨ window r.value 126 2 = 2 := by
  have := window_lt r.value 126 2
  omega

theorem sd_exact_iff (caps : Caps) (r : Rsp) (h : window r.value 126 2 ≠ 3) :
    Exact (sd_parse_csd caps r.words) (capacity .sd r) ↔ ¬ Wraps .sd r := by
  obtain hv | hv | hv := sd_structure_cases h
  case inl =>
    have hno : ¬ Wraps .sd r := by simp [Wraps, hv]
    refine iff_of_true ?_ hno
    simp only [capacity, hv]
    have hstatus : (sd_parse_csd caps r.words).status = .eok := by
      simp [sd_parse_csd, sd_finish, hv]
    refine small_exact r _ hstatus ?_
    simp [sd_parse_csd, sd_finish, hv]
    exact ⟨_, rfl⟩
  case inr.inl =>
    have hmax : window r.value 48 22 ≤ CSD_VER_20_CSIZE_MAX := Nat.le_pred_of_lt (window_lt _ _ 22)
    have hw : Wraps .sd r ↔ window r.value 48 22 = CSD_VER_20_CSIZE_MAX := by simp [Wraps, hv]
    rw [hw]
    simp only [capacity, hv]
    have hstatus : (sd_parse_csd caps r.words).status = .eok := by
      simp [sd_parse_csd, sd_finish, hv]
    refine high_exact_iff _ _ hstatus hmax ?_
    simp [sd_parse_csd, sd_finish, hv]
    exact ⟨_, rfl⟩
  case inr.inr =>
    have hcut : (if CSD_VER_20_CSIZE_MAX < window r.value 48 28 then CSD_VER_20_CSIZE_MAX
        else window r.value 48 28) = min (window r.value 48 28) CSD_VER_20_CSIZE_MAX := by
      split <;> omega
    have hw : ¬ Wraps .sd r ↔
        min (window r.value 48 28) CSD_VER_20_CSIZE_MAX ≠ CSD_VER_20_CSIZE_MAX := by
      simp [Wraps, hv]
    rw [hw]
    simp only [capacity, hv]
    have hstatus : (sd_parse_csd caps r.words).status = .eok := by
      simp [sd_parse_csd, sd_finish, hv]
    refine high_exact_iff _ _ hstatus (min_le_right _ _) ?_
    simp [sd_parse_csd, sd_finish, hv, hcut]
    exact ⟨_, rfl⟩

theorem mmc_exact (caps : Caps) (r : Rsp) :
    Exact (mmc_parse_csd caps r.words) (capacity .mmc r) := by
  refine small_exact r _ rfl ?_
  obtain hv | hv | hv | hv : window r.value 126 2 = 0 ∨ window r.value 126 2 = 1 ∨
      window r.value 126 2 = 2 ∨ window r.value 126 2 = 3 := by
    have := window_lt r.value 126 2
    omega
  all_goals
    simp [mmc_parse_csd, hv]
    exact ⟨_, rfl⟩

/-- **Capacity.**  Of every register of a structure that its parser knows, the record holds the
capacity the register encodes, except where the 32 bits of the sector count are too few: an SD card
whose size in units of 512 KiB has all 22 bits set, or is cut to that. -/
theorem csd_exact_iff (kind : DevType) (caps : Caps) (r : Rsp) (h : Supported kind r) :
    Exact (parse_csd kind caps r.words) (capacity kind r) ↔ ¬ Wraps kind r := by
  cases kind with
  | mmc =>
      refine iff_of_true (mmc_exact caps r) ?_
      simp [Wraps]
  | sd => exact sd_exact_iff caps r (h rfl)

/-- The register of an SD card of version 2.0 and the given size of 22 bits. -/
def highCapacity (c_size : ℕ) (h : c_size < 2 ^ 22) : Rsp where
  words := [0x40000000, c_size / 2 ^ 16, c_size % 2 ^ 16 * 2 ^ 16, 0]
  length := rfl
  lt := by
    simp only [List.forall_mem_cons, List.not_mem_nil, false_implies, implies_true, and_true]
    omega

theorem csd_exact_half :
    Exact (parse_csd .sd {} (highCapacity 0x1fffff (by decide)).words)
      (capacity .sd (highCapacity 0x1fffff (by decide))) :=
  (csd_exact_iff .sd {} (highCapacity 0x1fffff (by decide)) (by intro _; decide)).mpr
    (by simp only [Wraps]; decide)

theorem csd_exact_full :
    ¬ ∀ (kind : DevType) (caps : Caps) (r : Rsp), Supported kind r →
      Exact (parse_csd kind caps r.words) (capacity kind r) := by
  intro h
  have hfull := h .sd {} (highCapacity 0x3fffff (by decide)) (by intro _; decide)
  have hpos := hfull.sectors
  exact absurd hpos (by decide)

end Sdmmc.Capacity
