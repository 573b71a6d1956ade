import RpiBsp.Sdmmc.Sdhci
import RpiBsp.Support.Memory
import RpiBsp.Support.Word

/-!
# Sdmmc — Adma — the descriptor table

`sdhci_adma_setup` (`hc/sdhci.c`) writes the scatter list of a command as a table of descriptors,
which the controller reads from memory.  A descriptor is 8, 12 or 16 bytes long, and an entry of the
list takes one for every 60 KiB.

* `putAll_spec` — the loops write one descriptor after the other, and stop behind the one at
`ADMA_DESC_MAX`;
* `Table.flatMap_bytes` — what the controller reads back names the bytes of the list, up to the
width of an address;
* `sdhci_adma_setup_iff` — the setup is right exactly if there are descriptors to write, and not too
many.

The number of descriptors is looked at when one was written, and the last one is marked even if
there is none.
-/

namespace Sdmmc.Sdhci

open Support

/-! ### The code -/

def SDHCI_ADMA2_VALID : ℕ := 1 <<< 0
def SDHCI_ADMA2_END : ℕ := 1 <<< 1
def SDHCI_ADMA2_TRAN : ℕ := 2 <<< 4

/-- `SF_USE_ADMA64` and `SF_V4_MODE`. -/
structure Format where
  adma64 : Bool
  v4 : Bool

/-- The size of `sdhci_adma32_t`, `sdhci_adma64_t` or `sdhci_v4_adma64_t`. -/
def Format.desc_sz (h : Format) : ℕ := if h.adma64 then if h.v4 then 16 else 12 else 8

/-- What `sdhci_adma_setup` finds in `sdhci_hc_t` and `sdio_hc_cfg_t`. -/
structure Adma extends Format where
  /-- The table, as `sdhci_init` allocated it. -/
  adma : ℕ
  admap : ℕ
  bmstr_xlat : ℕ
  room : adma + ADMA_DESC_MAX * toFormat.desc_sz ≤ 2 ^ 64

/-- The loops between two descriptors.  `written` is not part of the code: where descriptors were
written. -/
structure Filling where
  adma : ℕ
  acnt : ℕ
  mem : ℕ → UInt8
  written : List ℕ

/-- One descriptor. -/
def Format.putDesc (h : Format) (p paddr alen : ℕ) (m : ℕ → UInt8) : ℕ → UInt8 :=
  let m := store 2 p (SDHCI_ADMA2_VALID ||| SDHCI_ADMA2_TRAN) m
  let m := store 4 (p + 4) paddr m
  let m := store 2 (p + 2) alen m
  if h.adma64 then
    let m := store 4 (p + 8) (paddr / 2 ^ 32) m
    if h.v4 then store 4 (p + 12) 0 m else m
  else m

def Format.put (h : Format) (paddr alen : ℕ) (f : Filling) : Filling where
  adma := f.adma + h.desc_sz
  acnt := f.acnt + 1
  mem := h.putDesc f.adma paddr alen f.mem
  written := f.written ++ [f.adma]

/-- The `while` loop, for at most as many descriptors as the first number says.  An error is the
return of `ENOTSUP`. -/
def Format.fillSge (h : Format) : ℕ → ℕ → ℕ → Filling → Except Filling Filling
  | 0, _, _, f => .ok f
  | fuel + 1, paddr, sg_count, f =>
      if sg_count = 0 then .ok f
      else
        let alen := min sg_count SDHCI_ADMA2_MAX_XFER
        let f := h.put paddr alen f
        if ADMA_DESC_MAX < f.acnt then .error f
        else h.fillSge fuel (addW 64 paddr alen) (sg_count - alen) f

/-- The `for` loop over entries of the list. -/
def Adma.fill (h : Adma) : List Sge → Filling → Except Filling Filling
  | [], f => .ok f
  | sg :: sgl, f =>
      match h.fillSge sg.sg_count (addW 64 sg.sg_address h.bmstr_xlat) sg.sg_count f with
      | .ok f => h.fill sgl f
      | .error f => .error f

/-- The return value, memory, and the registers that were written, if they were. -/
structure Setup where
  status : Errno
  mem : ℕ → UInt8
  written : List ℕ
  addrl : Option ℕ
  addrh : Option ℕ

/-- The command with the list that is looked at: its own, or the translation in `sgl` of
`sdhci_hc_t`. -/
def Request.translated (cmd : Request) (vtop : Sge → Sge) : Request :=
  { cmd with sgl := fun i => if Has cmd.flags SCF_DATA_PHYS then cmd.sgl i else vtop (cmd.sgl i) }

def Request.entries (cmd : Request) (vtop : Sge → Sge) : List Sge :=
  (List.range cmd.sgc).map (cmd.translated vtop).sgl

/-- `sdhci_adma_setup`; nothing if the translation runs over the end of `sgl`. -/
def sdhci_adma_setup (h : Adma) (vtop : Sge → Sge) (cmd : Request) (m : ℕ → UInt8) : Option Setup :=
  if ¬ Has cmd.flags SCF_DATA_PHYS ∧ ADMA_DESC_MAX < cmd.sgc then none
  else
    match h.fill (cmd.entries vtop) ⟨h.adma, 0, m, []⟩ with
    | .error f => some ⟨.enotsup, f.mem, f.written, none, none⟩
    | .ok f =>
        let adma := subW 64 f.adma h.desc_sz
        some {
          status := .eok
          mem := store 2 adma (load 2 adma f.mem ||| SDHCI_ADMA2_END) f.mem
          written := f.written ++ [adma]
          addrl := some (addW 64 h.admap h.bmstr_xlat % 2 ^ 32)
          addrh := if h.adma64 then some (addW 64 h.admap h.bmstr_xlat / 2 ^ 32) else none }

/-! ### What the controller reads -/

structure Desc where
  attr : ℕ
  len : ℕ
  addr : ℕ
deriving DecidableEq

/-- The bits of an address in a descriptor. -/
def Format.width (h : Format) : ℕ := if h.adma64 then 64 else 32

/-- The descriptor at `p`. -/
def Format.read (h : Format) (m : ℕ → UInt8) (p : ℕ) : Desc where
  attr := load 2 p m
  len := load 2 (p + 2) m
  addr := load 4 (p + 4) m + if h.adma64 then 2 ^ 32 * load 4 (p + 8) m else 0

/-- The addresses of `n` bytes from `a` on, in `w` bits. -/
def span (w a n : ℕ) : List ℕ := (List.range n).map fun j => (a + j) % 2 ^ w

/-- What an entry of the list names, as the controller sees it. -/
def Adma.bytes (h : Adma) (sg : Sge) : List ℕ := span 64 (sg.sg_address + h.bmstr_xlat) sg.sg_count

/-- The first `n` descriptors of the table. -/
def Adma.table (h : Adma) (m : ℕ → UInt8) (n : ℕ) : List Desc :=
  (List.range n).map fun i => h.read m (h.adma + i * h.desc_sz)

/-- The table has `n` descriptors: they are valid transfers with a length, only the last one is
marked, and they name the bytes of the list. -/
structure Adma.Describes (h : Adma) (m : ℕ → UInt8) (sgl : List Sge) (n : ℕ) : Prop where
  ended : n ≠ 0
  attr : ∀ i < n, (h.read m (h.adma + i * h.desc_sz)).attr =
    SDHCI_ADMA2_VALID ||| SDHCI_ADMA2_TRAN ||| if i + 1 = n then SDHCI_ADMA2_END else 0
  len : ∀ d ∈ h.table m n, d.len ≠ 0
  bytes : (h.table m n).flatMap (fun d => span h.width d.addr d.len) = sgl.flatMap h.bytes

/-- What is asked of the setup: it returns `ENOTSUP` or describes the list, and it writes to no
descriptor that is not in the table. -/
structure Adma.Right (h : Adma) (sgl : List Sge) (r : Setup) : Prop where
  result : r.status = .enotsup ∨ r.status = .eok ∧ ∃ n, h.Describes r.mem sgl n
  inside : ∀ p ∈ r.written, ∃ i < ADMA_DESC_MAX, p = h.adma + i * h.desc_sz

/-! ### The descriptors of a list -/

/-- The transfers of one entry, as an address and a length. -/
def chunks : ℕ → ℕ → ℕ → List (ℕ × ℕ)
  | 0, _, _ => []
  | fuel + 1, paddr, sg_count =>
      if sg_count = 0 then []
      else
        let alen := min sg_count SDHCI_ADMA2_MAX_XFER
        (paddr, alen) :: chunks fuel (addW 64 paddr alen) (sg_count - alen)

def Adma.transfers (h : Adma) (sgl : List Sge) : List (ℕ × ℕ) :=
  sgl.flatMap fun sg => chunks sg.sg_count (addW 64 sg.sg_address h.bmstr_xlat) sg.sg_count

/-- The loops on a list of transfers. -/
def Format.putAll (h : Format) : List (ℕ × ℕ) → Filling → Except Filling Filling
  | [], f => .ok f
  | c :: cs, f =>
      let f := h.put c.1 c.2 f
      if ADMA_DESC_MAX < f.acnt then .error f else h.putAll cs f

theorem Format.putAll_append (h : Format) (cs ds : List (ℕ × ℕ)) (f : Filling) :
    h.putAll (cs ++ ds) f =
      match h.putAll cs f with | .ok f => h.putAll ds f | .error f => .error f := by
  induction cs generalizing f with
  | nil => rfl
  | cons c cs ih =>
    simp only [List.cons_append, Format.putAll]
    split
    case isTrue => rfl
    case isFalse => exact ih _

theorem Format.fillSge_eq (h : Format) (fuel paddr sg_count : ℕ) (f : Filling) :
    h.fillSge fuel paddr sg_count f = h.putAll (chunks fuel paddr sg_count) f := by
  induction fuel generalizing paddr sg_count f with
  | zero => rfl
  | succ fuel ih =>
    simp only [Format.fillSge, chunks]
    split
    case isTrue => rfl
    case isFalse =>
      simp only [Format.putAll]
      split
      case isTrue => rfl
      case isFalse => exact ih _ _ _

theorem Adma.fill_eq (h : Adma) (sgl : List Sge) (f : Filling) :
    h.fill sgl f = h.putAll (h.transfers sgl) f := by
  induction sgl generalizing f with
  | nil => rfl
  | cons sg sgl ih =>
    rw [Adma.fill, Adma.transfers, List.flatMap_cons, Format.putAll_append, Format.fillSge_eq]
    cases h.putAll (chunks sg.sg_count (addW 64 sg.sg_address h.bmstr_xlat) sg.sg_count) f with
    | ok f => exact ih f
    | error f => rfl

/-! ### Bytes -/

theorem span_mod (w a n : ℕ) : span w (a % 2 ^ w) n = span w a n := by
  simp [span, Nat.add_mod]

theorem span_add (w a n k : ℕ) : span w a (n + k) = span w a n ++ span w (a + n) k := by
  simp [span, List.range_add, Function.comp_def, Nat.add_assoc]

/-- A narrower address is the low part of a wider one. -/
theorem span_narrow {w v : ℕ} (hwv : w ≤ v) (a n : ℕ) :
    span w a n = (span v a n).map (· % 2 ^ w) := by
  simp [span, Function.comp_def, Nat.mod_mod_of_dvd _ (Nat.pow_dvd_pow 2 hwv)]

/-- The transfers of an entry name its bytes. -/
theorem chunks_bytes (fuel paddr sg_count : ℕ) (hf : sg_count ≤ fuel) :
    (chunks fuel paddr sg_count).flatMap (fun c => span 64 c.1 c.2) = span 64 paddr sg_count := by
  induction fuel generalizing paddr sg_count with
  | zero =>
    obtain rfl := Nat.le_zero.mp hf
    rfl
  | succ fuel ih =>
    rw [chunks]
    split
    case isTrue h0 =>
      subst h0
      rfl
    case isFalse h0 =>
      have hmax : 0 < SDHCI_ADMA2_MAX_XFER := by decide
      have hle : min sg_count SDHCI_ADMA2_MAX_XFER ≤ sg_count := Nat.min_le_left _ _
      have hpos : 0 < min sg_count SDHCI_ADMA2_MAX_XFER := by omega
      generalize min sg_count SDHCI_ADMA2_MAX_XFER = alen at hle hpos
      simp only [List.flatMap_cons]
      rw [ih _ _ (by omega), addW, span_mod, ← span_add, Nat.add_sub_cancel' hle]

theorem transfers_bytes (h : Adma) (sgl : List Sge) :
    (h.transfers sgl).flatMap (fun c => span 64 c.1 c.2) = sgl.flatMap h.bytes := by
  rw [Adma.transfers, List.flatMap_assoc]
  refine congrArg (List.flatMap · sgl) (funext fun sg => ?_)
  rw [chunks_bytes _ _ _ (Nat.le_refl _), addW, span_mod]
  rfl

/-- What fits the fields of a descriptor. -/
def Transfer (c : ℕ × ℕ) : Prop := c.1 < 2 ^ 64 ∧ 0 < c.2 ∧ c.2 < 2 ^ 16

theorem chunks_transfer (fuel : ℕ) {paddr sg_count : ℕ} (hp : paddr < 2 ^ 64) :
    ∀ c ∈ chunks fuel paddr sg_count, Transfer c := by
  induction fuel generalizing paddr sg_count with
  | zero => exact fun c hc => nomatch hc
  | succ fuel ih =>
    rw [chunks]
    split
    case isTrue => exact fun c hc => nomatch hc
    case isFalse h0 =>
      have hmax : 0 < SDHCI_ADMA2_MAX_XFER ∧ SDHCI_ADMA2_MAX_XFER < 2 ^ 16 := by decide
      intro c hc
      rcases List.mem_cons.mp hc with rfl | hc
      · exact ⟨hp, by omega, by omega⟩
      · exact ih (addW_lt ..) c hc

theorem transfers_transfer (h : Adma) (sgl : List Sge) : ∀ c ∈ h.transfers sgl, Transfer c := by
  intro c hc
  obtain ⟨sg, -, hc⟩ := List.mem_flatMap.mp hc
  exact chunks_transfer _ (addW_lt ..) c hc

/-- The number of transfers of an entry, rounded up. -/
theorem length_chunks (fuel paddr sg_count : ℕ) (hf : sg_count ≤ fuel) :
    (chunks fuel paddr sg_count).length = (sg_count + SDHCI_ADMA2_MAX_XFER - 1) /
      SDHCI_ADMA2_MAX_XFER := by
  have hmax : 0 < SDHCI_ADMA2_MAX_XFER := by decide
  generalize hM : SDHCI_ADMA2_MAX_XFER = M at hmax
  induction fuel generalizing paddr sg_count with
  | zero =>
    obtain rfl := Nat.le_zero.mp hf
    rw [chunks, List.length_nil, Nat.zero_add, Nat.div_eq_of_lt (by omega)]
  | succ fuel ih =>
    rw [chunks]
    split
    case isTrue h0 =>
      rw [h0, List.length_nil, Nat.zero_add, Nat.div_eq_of_lt (by omega)]
    case isFalse h0 =>
      rw [hM, List.length_cons, ih _ _ (by omega)]
      by_cases hle : sg_count ≤ M
      · rw [Nat.min_eq_left hle, Nat.sub_self, Nat.zero_add, Nat.div_eq_of_lt (by omega),
          show sg_count + M - 1 = sg_count - 1 + M by omega, Nat.add_div_right _ hmax,
          Nat.div_eq_of_lt (by omega)]
      · rw [Nat.min_eq_right (by omega), show sg_count + M - 1 = sg_count - M + M - 1 + M by omega,
          Nat.add_div_right _ hmax]

/-! ### Writing -/

/-- What a transfer is in the table. -/
def Format.desc (h : Format) (c : ℕ × ℕ) : Desc where
  attr := SDHCI_ADMA2_VALID ||| SDHCI_ADMA2_TRAN
  len := c.2
  addr := c.1 % 2 ^ h.width

theorem Format.read_eq {h : Format} {m m' : ℕ → UInt8} {p : ℕ}
    (hm : ∀ j < h.desc_sz, m (p + j) = m' (p + j)) :
    h.read m p = h.read m' p := by
  have hsz : 8 ≤ h.desc_sz := by
    unfold Format.desc_sz
    split_ifs <;> decide
  have hload : ∀ k w, k + w ≤ h.desc_sz → load w (p + k) m = load w (p + k) m' := fun k w hk =>
    load_eq fun j hj => by simpa [Nat.add_assoc] using hm (k + j) (by omega)
  unfold Format.read
  rw [hload 2 2 (by omega), hload 4 4 (by omega),
    show load 2 p m = load 2 p m' from hload 0 2 (by omega)]
  cases h64 : h.adma64 with
  | false => rfl
  | true =>
    have hsz : 12 ≤ h.desc_sz := by
      simp only [Format.desc_sz, h64, if_true]
      split <;> decide
    simp only [if_true]
    rw [hload 8 4 hsz]

/-- A descriptor is written where it is. -/
theorem Format.putDesc_outside {h : Format} {p paddr alen j : ℕ} {m : ℕ → UInt8}
    (hj : j < p ∨ p + h.desc_sz ≤ j) :
    h.putDesc p paddr alen m j = m j := by
  unfold Format.desc_sz at hj
  unfold Format.putDesc
  cases h64 : h.adma64 with
  | false =>
    simp only [h64, Bool.false_eq_true, if_false] at hj ⊢
    rw [store_outside (by omega), store_outside (by omega), store_outside (by omega)]
  | true =>
    cases hv4 : h.v4 with
    | false =>
      simp only [h64, hv4, Bool.false_eq_true, if_true, if_false] at hj ⊢
      rw [store_outside (by omega), store_outside (by omega), store_outside (by omega),
        store_outside (by omega)]
    | true =>
      simp only [h64, hv4, if_true] at hj ⊢
      rw [store_outside (by omega), store_outside (by omega), store_outside (by omega),
        store_outside (by omega), store_outside (by omega)]

/-- What was written is read back. -/
theorem Format.read_putDesc {h : Format} {c : ℕ × ℕ} (hc : Transfer c) (p : ℕ) (m : ℕ → UInt8) :
    h.read (h.putDesc p c.1 c.2 m) p = h.desc c := by
  obtain ⟨ha, -, hl⟩ := hc
  unfold Format.read Format.putDesc Format.desc Format.width
  have hattr : (SDHCI_ADMA2_VALID ||| SDHCI_ADMA2_TRAN) % 256 ^ 2 = SDHCI_ADMA2_VALID |||
    SDHCI_ADMA2_TRAN := by decide
  have hlen : c.2 % 256 ^ 2 = c.2 := Nat.mod_eq_of_lt hl
  have haddr : c.1 % 256 ^ 4 + 2 ^ 32 * (c.1 / 2 ^ 32 % 256 ^ 4) = c.1 % 2 ^ 64 := by omega
  cases h64 : h.adma64 with
  | false =>
    simp only [Bool.false_eq_true, if_false, Nat.add_zero]
    rw [load_store, load_store_apart (by omega), load_store_apart (by omega), load_store,
      load_store_apart (by omega), load_store, hattr, hlen]
    rfl
  | true =>
    cases hv4 : h.v4 with
    | false =>
      simp only [Bool.false_eq_true, if_true, if_false]
      rw [load_store, load_store_apart (by omega), load_store_apart (by omega),
        load_store_apart (by omega), load_store,
        load_store_apart (by omega), load_store, load_store_apart (by omega),
        load_store_apart (by omega), load_store,
        hattr, hlen, haddr]
    | true =>
      simp only [if_true]
      rw [load_store_apart (by omega), load_store_apart (by omega), load_store_apart (by omega),
        load_store_apart (by omega), load_store, load_store_apart (by omega),
        load_store_apart (by omega), load_store,
        load_store_apart (by omega), load_store_apart (by omega), load_store_apart (by omega),
        load_store,
        load_store_apart (by omega), load_store, hattr, hlen, haddr]

/-- What is in the table when the transfers `cs` were written. -/
structure Adma.Filled (h : Adma) (cs : List (ℕ × ℕ)) (f : Filling) : Prop where
  adma : f.adma = h.adma + cs.length * h.desc_sz
  acnt : f.acnt = cs.length
  read : ∀ i c, cs[i]? = some c → h.read f.mem (h.adma + i * h.desc_sz) = h.desc c
  written : f.written = (List.range cs.length).map fun i => h.adma + i * h.desc_sz

/-- Descriptors have their places one after the other. -/
theorem Adma.place_le (h : Adma) {i j : ℕ} (hij : i < j) :
    h.adma + i * h.desc_sz + h.desc_sz ≤ h.adma + j * h.desc_sz := by
  have hle := Nat.mul_le_mul_right h.desc_sz (Nat.succ_le_of_lt hij)
  rw [Nat.succ_mul] at hle
  omega

theorem Adma.Filled.put {h : Adma} {cs : List (ℕ × ℕ)} {f : Filling} (hf : h.Filled cs f)
    {c : ℕ × ℕ} (hc : Transfer c) :
    h.Filled (cs ++ [c]) (h.put c.1 c.2 f) := by
  refine ⟨?_, ?_, fun i d hd => ?_, ?_⟩
  · simp only [Format.put, hf.adma, List.length_append, List.length_singleton, Nat.succ_mul]
    omega
  · simp [Format.put, hf.acnt]
  · simp only [Format.put, hf.adma]
    rcases Nat.lt_trichotomy i cs.length with hlt | rfl | hgt
    · -- An earlier descriptor keeps its place.
      rw [List.getElem?_append_left hlt] at hd
      refine (Format.read_eq fun j hj => Format.putDesc_outside (.inl ?_)).trans (hf.read i d hd)
      have hle := h.place_le hlt
      omega
    · obtain rfl : c = d := by simpa using hd
      exact Format.read_putDesc hc _ _
    · rw [List.getElem?_eq_none (by simp; omega)] at hd
      cases hd
  · simp [Format.put, hf.adma, hf.written, List.range_succ]

/-- **The loops** write one descriptor after the other, and one too many if they do not fit. -/
theorem putAll_spec (h : Adma) (cs : List (ℕ × ℕ)) {ds : List (ℕ × ℕ)} {f : Filling}
    (hcs : ∀ c ∈ cs, Transfer c) (hf : h.Filled ds f) (hds : ds.length ≤ ADMA_DESC_MAX) :
    (ds.length + cs.length ≤ ADMA_DESC_MAX → ∃ f', h.putAll cs f = .ok f' ∧
    h.Filled (ds ++ cs) f') ∧
    (ADMA_DESC_MAX < ds.length + cs.length →
      ∃ f', h.putAll cs f = .error f' ∧ h.adma + ADMA_DESC_MAX * h.desc_sz ∈ f'.written) := by
  induction cs generalizing ds f with
  | nil =>
    refine ⟨fun _ => ⟨f, rfl, by rwa [List.append_nil]⟩, fun hlt => ?_⟩
    rw [List.length_nil, Nat.add_zero] at hlt
    exact absurd hds (Nat.not_le.mpr hlt)
  | cons c cs ih =>
    have hput := hf.put (hcs c List.mem_cons_self)
    have hcount := hput.acnt
    rw [List.length_append, List.length_singleton] at hcount
    simp only [Format.putAll, hcount, List.length_cons]
    by_cases hfull : ADMA_DESC_MAX < ds.length + 1
    · rw [if_pos hfull]
      refine ⟨fun hle => by omega, fun _ => ⟨_, rfl, ?_⟩⟩
      rw [hput.written, List.mem_map]
      exact ⟨ADMA_DESC_MAX, List.mem_range.mpr (by simpa using hfull), rfl⟩
    · rw [if_neg hfull]
      obtain ⟨hfits, hover⟩ :=
        ih (fun d hd => hcs d (List.mem_cons_of_mem c hd)) hput (by simpa using hfull)
      rw [List.length_append, List.length_singleton] at hfits hover
      rw [List.append_assoc, List.singleton_append] at hfits
      exact ⟨fun hle => hfits (by omega), fun hlt => hover (by omega)⟩

/-! ### The last descriptor -/

/-- The mark of the end. -/
def mark (p : ℕ) (m : ℕ → UInt8) : ℕ → UInt8 := store 2 p (load 2 p m ||| SDHCI_ADMA2_END) m

/-- What a transfer is in the table of `n` that is marked. -/
def Format.marked (h : Format) (n i : ℕ) (c : ℕ × ℕ) : Desc :=
  { h.desc c with attr := SDHCI_ADMA2_VALID ||| SDHCI_ADMA2_TRAN ||| if i + 1 = n then
    SDHCI_ADMA2_END else 0 }

theorem Format.read_mark (h : Format) {p : ℕ} {m : ℕ → UInt8} {c : ℕ × ℕ}
    (hr : h.read m p = h.desc c) :
    h.read (mark p m) p =
      { h.desc c with attr := SDHCI_ADMA2_VALID ||| SDHCI_ADMA2_TRAN ||| SDHCI_ADMA2_END } := by
  have hattr : load 2 p m = SDHCI_ADMA2_VALID ||| SDHCI_ADMA2_TRAN := congrArg Desc.attr hr
  rw [← hr]
  unfold Format.read mark
  rw [load_store, load_store_apart (by omega), load_store_apart (by omega),
    load_store_apart (by omega), hattr]
  rfl

namespace Adma.Filled

variable {h : Adma} {cs : List (ℕ × ℕ)} {c : ℕ × ℕ} {f : Filling}

/-- The last descriptor that was written is marked, and no other. -/
theorem read_marked (hf : h.Filled (cs ++ [c]) f) {i : ℕ} {d : ℕ × ℕ}
    (hd : (cs ++ [c])[i]? = some d) :
    h.read (mark (h.adma + cs.length * h.desc_sz) f.mem) (h.adma + i * h.desc_sz) =
      h.marked (cs.length + 1) i d := by
  have hr := hf.read i d hd
  rcases Nat.lt_trichotomy i cs.length with hlt | rfl | hgt
  · have hle := h.place_le hlt
    have hne : i + 1 ≠ cs.length + 1 := by omega
    rw [Format.marked, if_neg hne]
    refine (Format.read_eq fun j hj => ?_).trans hr
    exact store_outside (.inl (by omega))
  · rw [Format.marked, if_pos rfl]
    exact h.read_mark hr
  · rw [List.getElem?_eq_none (by simp; omega)] at hd
    cases hd

/-- The addresses and the lengths in the table. -/
theorem table_marked (hf : h.Filled (cs ++ [c]) f) :
    (h.table (mark (h.adma + cs.length * h.desc_sz) f.mem) (cs.length + 1)).map
        (fun d => (d.addr, d.len)) =
      (cs ++ [c]).map fun c => (c.1 % 2 ^ h.width, c.2) := by
  refine List.ext_getElem (by simp [Adma.table]) fun i h₁ h₂ => ?_
  have hi : i < (cs ++ [c]).length := by simpa using h₂
  have hread := hf.read_marked (List.getElem?_eq_getElem hi)
  simp only [Adma.table, List.map_map, List.getElem_map, List.getElem_range,
    Function.comp_apply, hread]
  rfl

/-- **What the controller reads** names the bytes of the transfers, as far as an address is wide
enough. -/
theorem flatMap_bytes (hf : h.Filled (cs ++ [c]) f) :
    (h.table (mark (h.adma + cs.length * h.desc_sz) f.mem) (cs.length + 1)).flatMap
        (fun d => span h.width d.addr d.len) =
      ((cs ++ [c]).flatMap fun c => span 64 c.1 c.2).map (· % 2 ^ h.width) := by
  have hwidth : h.width ≤ 64 := by
    unfold Format.width
    split <;> decide
  have htable := congrArg (List.flatMap fun p : ℕ × ℕ => span h.width p.1 p.2) hf.table_marked
  rw [List.flatMap_map, List.flatMap_map] at htable
  refine htable.trans ?_
  rw [List.map_flatMap]
  refine congrArg (List.flatMap · (cs ++ [c])) (funext fun c => ?_)
  rw [span_mod, span_narrow hwidth]

/-- The number of descriptors is the one that was written. -/
theorem eq_of_describes (hf : h.Filled (cs ++ [c]) f) {sgl : List Sge} {n : ℕ}
    (hd : h.Describes (mark (h.adma + cs.length * h.desc_sz) f.mem) sgl n) : n = cs.length + 1 := by
  have hattr : ∀ i (hi : i < cs.length + 1),
      (h.read (mark (h.adma + cs.length * h.desc_sz) f.mem) (h.adma + i * h.desc_sz)).attr =
        SDHCI_ADMA2_VALID ||| SDHCI_ADMA2_TRAN ||| if i + 1 = cs.length + 1 then SDHCI_ADMA2_END
          else 0 := fun i hi =>
    congrArg Desc.attr (hf.read_marked (List.getElem?_eq_getElem (by simpa using hi)))
  have hend : SDHCI_ADMA2_VALID ||| SDHCI_ADMA2_TRAN ||| 0 ≠ SDHCI_ADMA2_VALID |||
      SDHCI_ADMA2_TRAN ||| SDHCI_ADMA2_END := by
    decide
  have hn := hd.ended
  rcases Nat.lt_trichotomy n (cs.length + 1) with hlt | heq | hgt
  · -- The last one of fewer descriptors is not marked.
    have h₁ := hd.attr (n - 1) (by omega)
    have h₂ := hattr (n - 1) (by omega)
    rw [if_pos (by omega)] at h₁
    rw [if_neg (by omega), h₁] at h₂
    exact absurd h₂.symm hend
  · exact heq
  · have h₁ := hd.attr cs.length (by omega)
    have h₂ := hattr cs.length (Nat.lt_succ_self _)
    rw [if_neg (by omega)] at h₁
    rw [if_pos rfl, h₁] at h₂
    exact absurd h₂ hend

end Adma.Filled

/-- An address has room for the bytes of the list. -/
def Adma.Wide (h : Adma) (sgl : List Sge) : Prop :=
  h.adma64 = true ∨ ∀ x ∈ sgl.flatMap h.bytes, x < 2 ^ 32

theorem Adma.bytes_lt (h : Adma) {sgl : List Sge} {x : ℕ} (hx : x ∈ sgl.flatMap h.bytes) :
    x < 2 ^ 64 := by
  obtain ⟨sg, -, hx⟩ := List.mem_flatMap.mp hx
  obtain ⟨j, -, rfl⟩ := List.mem_map.mp hx
  exact Nat.mod_lt _ (Nat.two_pow_pos 64)

theorem Adma.wide_iff (h : Adma) (sgl : List Sge) :
    (sgl.flatMap h.bytes).map (· % 2 ^ h.width) = sgl.flatMap h.bytes ↔ h.Wide sgl := by
  have hself : (sgl.flatMap h.bytes).map (· % 2 ^ h.width) = sgl.flatMap h.bytes ↔
      ∀ x ∈ sgl.flatMap h.bytes, x % 2 ^ h.width = x := by
    conv_lhs => rhs; rw [← List.map_id (sgl.flatMap h.bytes)]
    exact List.map_inj_left
  rw [hself]
  unfold Adma.Wide Format.width
  cases h64 : h.adma64 with
  | true =>
    refine iff_of_true (fun x hx => Nat.mod_eq_of_lt ?_) (.inl rfl)
    exact h.bytes_lt hx
  | false =>
    simp only [Bool.false_eq_true, if_false, false_or]
    refine forall₂_congr fun x hx => ⟨fun hm => ?_, Nat.mod_eq_of_lt⟩
    rw [← hm]
    exact Nat.mod_lt _ (Nat.two_pow_pos 32)

/-! ### The setup -/

/-- The number of transfers of a command is the number of descriptors it needs. -/
theorem length_transfers (h : Adma) (vtop : Sge → Sge) (cmd : Request) :
    (h.transfers (cmd.entries vtop)).length = descriptors (cmd.translated vtop) := by
  rw [Adma.transfers, List.length_flatMap, Request.entries, List.map_map, descriptors]
  refine congrArg List.sum (List.map_congr_left fun i _ => ?_)
  rw [Function.comp_apply, length_chunks _ _ _ (Nat.le_refl _)]

theorem filled_nil (h : Adma) (m : ℕ → UInt8) : h.Filled [] ⟨h.adma, 0, m, []⟩ :=
  ⟨by simp, rfl, fun _ _ hd => (nomatch hd), rfl⟩

theorem Format.desc_sz_bounds (h : Format) : 0 < h.desc_sz ∧ h.desc_sz ≤ 16 := by
  unfold Format.desc_sz
  split_ifs <;> decide

/-- The place before the one after the last. -/
theorem Adma.last_eq (h : Adma) {n : ℕ} (hn : n < ADMA_DESC_MAX) :
    subW 64 (h.adma + (n + 1) * h.desc_sz) h.desc_sz = h.adma + n * h.desc_sz := by
  have hroom := h.room
  have hle := h.place_le hn
  obtain ⟨hpos, hsz⟩ := h.desc_sz_bounds
  rw [subW, Nat.succ_mul, ← Nat.add_assoc, Nat.add_assoc _ h.desc_sz,
    Nat.add_sub_cancel' (by omega), Nat.add_mod_right, Nat.mod_eq_of_lt (by omega)]

/-- What comes before the table is not in it, even if it wraps. -/
theorem Adma.before_ne (h : Adma) {i : ℕ} (hi : i < ADMA_DESC_MAX) :
    subW 64 h.adma h.desc_sz ≠ h.adma + i * h.desc_sz := by
  have hroom := h.room
  obtain ⟨hpos, hsz⟩ := h.desc_sz_bounds
  have hmul : i * h.desc_sz ≤ 255 * 16 := Nat.mul_le_mul (Nat.le_of_lt_succ hi) hsz
  have hall : h.desc_sz ≤ ADMA_DESC_MAX * h.desc_sz := Nat.le_mul_of_pos_left _ (by decide)
  intro heq
  by_cases hle : h.desc_sz ≤ h.adma
  · rw [subW_of_le hle (by omega)] at heq
    omega
  · rw [subW, Nat.mod_eq_of_lt (by omega)] at heq
    omega

/-- **The setup**, from what it does for any number of descriptors. -/
theorem right_iff (h : Adma) (sgl : List Sge) {f : Filling} (hf : h.Filled (h.transfers sgl) f)
    (hn : (h.transfers sgl).length ≤ ADMA_DESC_MAX) (addrl addrh : Option ℕ) :
    h.Right sgl ⟨.eok, mark (subW 64 f.adma h.desc_sz) f.mem,
      f.written ++ [subW 64 f.adma h.desc_sz], addrl, addrh⟩ ↔
      h.transfers sgl ≠ [] ∧ h.Wide sgl := by
  rcases List.eq_nil_or_concat (h.transfers sgl) with hnil | ⟨cs, c, hcs⟩
  · -- The end is marked before the table.
    refine iff_of_false (fun hr => ?_) fun hc => hc.1 hnil
    have hadma := hf.adma
    rw [hnil, List.length_nil, Nat.zero_mul, Nat.add_zero] at hadma
    obtain ⟨i, hi, heq⟩ := hr.inside _ (List.mem_append_right _ (List.mem_singleton_self _))
    rw [hadma] at heq
    exact h.before_ne hi heq
  · have hbytes := transfers_bytes h sgl
    have htransfer := transfers_transfer h sgl
    rw [List.concat_eq_append] at hcs
    rw [hcs] at hf hn hbytes htransfer
    rw [List.length_append, List.length_singleton] at hn
    have hlast : subW 64 f.adma h.desc_sz = h.adma + cs.length * h.desc_sz := by
      rw [hf.adma, List.length_append, List.length_singleton]
      exact h.last_eq hn
    have hflat := hf.flatMap_bytes
    rw [hbytes] at hflat
    rw [hlast, and_iff_right (by simp [hcs]), ← h.wide_iff]
    constructor
    · rintro ⟨hres, -⟩
      obtain ⟨-, n, hd⟩ := hres.resolve_left (nomatch ·)
      obtain rfl := hf.eq_of_describes hd
      exact hflat.symm.trans hd.bytes
    · intro hwide
      refine ⟨.inr ⟨rfl, cs.length + 1, Nat.succ_ne_zero _, fun i hi => ?_, fun d hd =>
        ?_, hflat.trans hwide⟩, fun p hp => ?_⟩
      · exact congrArg Desc.attr (hf.read_marked (List.getElem?_eq_getElem (by simpa using hi)))
      · have hmem := List.mem_map_of_mem (f := fun d : Desc => (d.addr, d.len)) hd
        rw [hf.table_marked] at hmem
        obtain ⟨c', hc', heq⟩ := List.mem_map.mp hmem
        have hlen : c'.2 = d.len := congrArg Prod.snd heq
        have hpos := (htransfer c' hc').2.1
        omega
      · rcases List.mem_append.mp hp with hp | hp
        · rw [hf.written, List.mem_map] at hp
          obtain ⟨i, hi, rfl⟩ := hp
          rw [List.mem_range, List.length_append, List.length_singleton] at hi
          exact ⟨i, by omega, rfl⟩
        · exact ⟨cs.length, hn, List.mem_singleton.mp hp⟩

/-- What the setup returns when the translated list has room: the table is filled and marked, or a
descriptor was written behind it. -/
theorem setup_cases (h : Adma) (vtop : Sge → Sge) (cmd : Request) (m : ℕ → UInt8)
    (hroom : Has cmd.flags SCF_DATA_PHYS ∨ cmd.sgc ≤ ADMA_DESC_MAX) :
    (descriptors (cmd.translated vtop) ≤ ADMA_DESC_MAX ∧ ∃ f,
      h.Filled (h.transfers (cmd.entries vtop)) f ∧
      sdhci_adma_setup h vtop cmd m = some ⟨.eok, mark (subW 64 f.adma h.desc_sz) f.mem,
        f.written ++ [subW 64 f.adma h.desc_sz], some (addW 64 h.admap h.bmstr_xlat % 2 ^ 32),
        if h.adma64 then some (addW 64 h.admap h.bmstr_xlat / 2 ^ 32) else none⟩) ∨
    (ADMA_DESC_MAX < descriptors (cmd.translated vtop) ∧ ∃ f : Filling,
      h.adma + ADMA_DESC_MAX * h.desc_sz ∈ f.written ∧
      sdhci_adma_setup h vtop cmd m = some ⟨.enotsup, f.mem, f.written, none, none⟩) := by
  have hlen := length_transfers h vtop cmd
  have hno : ¬ (¬ Has cmd.flags SCF_DATA_PHYS ∧ ADMA_DESC_MAX < cmd.sgc) := fun hc =>
    hroom.elim hc.1 (Nat.not_le.mpr hc.2)
  unfold sdhci_adma_setup
  rw [if_neg hno, Adma.fill_eq]
  obtain ⟨hfits, hover⟩ :=
    putAll_spec h (h.transfers (cmd.entries vtop)) (transfers_transfer h _) (filled_nil h m)
    (Nat.zero_le _)
  rw [List.length_nil, Nat.zero_add, hlen] at hfits hover
  rcases Nat.lt_or_ge ADMA_DESC_MAX (descriptors (cmd.translated vtop)) with hn | hn
  · obtain ⟨f, hf, hmem⟩ := hover hn
    rw [hf]
    exact .inr ⟨hn, f, hmem, rfl⟩
  · obtain ⟨f, hf, hfilled⟩ := hfits hn
    rw [hf]
    exact .inl ⟨hn, f, hfilled, rfl⟩

/-- Of a list of physical addresses, the setup returns what `sdhci_xfer_setup` goes by. -/
theorem setup_status (h : Adma) (vtop : Sge → Sge) {cmd : Request} (m : ℕ → UInt8)
    (hp : Has cmd.flags SCF_DATA_PHYS) {slot : Slot} (hs : slot.use_adma = true) :
    ∃ r, sdhci_adma_setup h vtop cmd m = some r ∧ r.status = dmaSetup slot cmd := by
  have hsame : cmd.translated vtop = cmd := by
    unfold Request.translated
    simp only [if_pos hp]
  have hcases := setup_cases h vtop cmd m (.inl hp)
  rw [hsame] at hcases
  unfold dmaSetup
  rcases hcases with ⟨hn, f, -, hr⟩ | ⟨hn, f, -, hr⟩
  · exact ⟨_, hr, (if_neg fun hc => Nat.not_lt.mpr hn hc.2).symm⟩
  · exact ⟨_, hr, (if_pos ⟨hs, hn⟩).symm⟩

/-- **The descriptor table.**  The setup is right exactly if the translated list has room, there is
a descriptor to write, there are no more than the table has, and the addresses are as wide as the
list needs. -/
theorem sdhci_adma_setup_iff (h : Adma) (vtop : Sge → Sge) (cmd : Request) (m : ℕ → UInt8) :
    (∃ r, sdhci_adma_setup h vtop cmd m = some r ∧ h.Right (cmd.entries vtop) r) ↔
      (Has cmd.flags SCF_DATA_PHYS ∨ cmd.sgc ≤ ADMA_DESC_MAX) ∧
        (descriptors (cmd.translated vtop) ≠ 0 ∧
        descriptors (cmd.translated vtop) ≤ ADMA_DESC_MAX) ∧
        h.Wide (cmd.entries vtop) := by
  have hlen := length_transfers h vtop cmd
  by_cases hroom : Has cmd.flags SCF_DATA_PHYS ∨ cmd.sgc ≤ ADMA_DESC_MAX
  · rw [and_iff_right hroom]
    rcases setup_cases h vtop cmd m hroom with ⟨hn, f, hfilled, hsetup⟩ | ⟨hn, f, hmem, hsetup⟩
    · rw [hsetup]
      refine Iff.trans ⟨?_, fun hr => ⟨_, rfl, hr⟩⟩
        ((right_iff h _ hfilled (hlen ▸ hn) _ _).trans ?_)
      · rintro ⟨r, hr, hright⟩
        cases hr
        exact hright
      · rw [and_iff_left hn, ← hlen, ne_eq, ne_eq, List.length_eq_zero_iff]
    · rw [hsetup]
      refine iff_of_false ?_ fun hc => Nat.not_le.mpr hn hc.1.2
      rintro ⟨r, hr, hright⟩
      cases hr
      obtain ⟨i, hi, heq⟩ := hright.inside _ hmem
      have hle := h.place_le hi
      have hpos := h.desc_sz_bounds.1
      omega
  · refine iff_of_false ?_ fun hc => hroom hc.1
    rintro ⟨r, hr, -⟩
    rw [not_or, Nat.not_le] at hroom
    rw [sdhci_adma_setup, if_pos hroom] at hr
    cases hr

/-- A table of 32-bit descriptors. -/
def table32 : Adma := ⟨⟨false, false⟩, 0x1000, 0x1000, 0, by decide⟩

/-- A read into `n` entries of `count` bytes each. -/
def readInto (n count : ℕ) : Request :=
  ⟨18, SCF_DIR_IN ||| SCF_DATA_PHYS, 512, true, fun _ => ⟨0x100000, count⟩, n, []⟩

/-- One entry of no bytes, and a list that needs a descriptor more than the table has. -/
theorem adma_setup_outside :
    (¬ ∃ r, sdhci_adma_setup table32 id (readInto 1 0) (fun _ => 0) = some r ∧
      table32.Right ((readInto 1 0).entries id) r) ∧
    ¬ ∃ r, sdhci_adma_setup table32 id (readInto 257 512) (fun _ => 0) = some r ∧
      table32.Right ((readInto 257 512).entries id) r := by
  have hzero : (sdhci_adma_setup table32 id (readInto 1 0) fun _ => 0).map
      (fun r => r.written[0]?) = some (some 0xff8) := by
    decide +kernel
  have hmany : (sdhci_adma_setup table32 id (readInto 257 512) fun _ => 0).map
      (fun r => r.written[256]?) = some (some 0x1800) := by
    decide +kernel
  have hout : ∀ {s : Option Setup} {sgl : List Sge} {k p : ℕ}, s.map (fun r => r.written[k]?) =
      some (some p) →
      (∀ i < ADMA_DESC_MAX, p ≠ table32.adma + i * table32.desc_sz) → ¬ ∃ r, s = some r ∧
      table32.Right sgl r := by
    rintro s sgl k p hs hp ⟨r, rfl, hr⟩
    obtain ⟨i, hi, heq⟩ := hr.inside p (List.mem_of_getElem? (Option.some.inj hs))
    exact hp i hi heq
  exact ⟨hout hzero (by decide +kernel), hout hmany (by decide +kernel)⟩

end Sdmmc.Sdhci
