import RpiBsp.Sdmmc.Sdhci
import RpiBsp.Sdmmc.Sim.Requests

/-!
# Sdmmc — Sim — reliable writes

The legacy reliable writes of `sdmmc_read_write`: the calls of `sdmmc_rw` that the loop makes while
all of them succeed.

* `writeReliable_calls` — the loop of the model makes these calls, and stops at the first one that
fails;
* `entry_of_fit`, `fit_of_entry` — an entry of the scatter list, in both directions;
* `reliable_iff` — exactly when the list is written as it should be;
* `straight_of_two_pow` — it is if the size of a reliable write is a power of two.

The size of a reliable write is what the card says, and it is zero where the card says nothing.  The
test for the alignment of a sector takes it for a power of two.
-/

namespace Sdmmc.Reliable

open Support
open Sdmmc.Sdhci (Sge)

/-! ### The calls of the loop -/

/-- `SDMMC_ADDR_ALIGNED` for a sector. -/
def Aligned (lba align : ℕ) : Prop := lba &&& (align + 2 ^ 64 - 1) % 2 ^ 64 = 0

instance (lba align : ℕ) : Decidable (Aligned lba align) := inferInstanceAs (Decidable (_ = _))

/-- `rel_wr_count`. -/
def relWrCount (rel_wr_sec_c : ℕ) : ℕ := rel_wr_sec_c * 512 % 2 ^ 32

/-- The length of the next write. -/
def chunk (rel_wr_sec_c lba sg_count : ℕ) : ℕ :=
  let count := if Aligned lba rel_wr_sec_c then sg_count else 512
  if count > relWrCount rel_wr_sec_c then relWrCount rel_wr_sec_c else 512

/-- A call of `sdmmc_rw`: the sector, the length and the memory. -/
structure Call where
  lba : ℕ
  count : ℕ
  sg_address : ℕ

/-- The loop over an entry: the calls, and the sector that comes next; nothing if it needs more
rounds. -/
def writeEntry (rel_wr_sec_c : ℕ) : ℕ → ℕ → ℕ → ℕ → Option (List Call × ℕ)
  | 0, _, _, _ => none
  | fuel + 1, lba, sg_addr, sg_count =>
      if sg_count = 0 then some ([], lba)
      else
        let count := chunk rel_wr_sec_c lba sg_count
        (writeEntry rel_wr_sec_c fuel ((lba + count / 512) % 2 ^ 64) (sg_addr + count)
          ((sg_count + 2 ^ 32 - count) % 2 ^ 32)).map fun r => (⟨lba, count, sg_addr⟩ :: r.1, r.2)

/-- The loop over the scatter list. -/
def writeList (rel_wr_sec_c fuel : ℕ) : ℕ → List Sge → Option (List Call)
  | _, [] => some []
  | lba, sg :: sgl =>
      (writeEntry rel_wr_sec_c fuel lba sg.sg_address sg.sg_count).bind fun r =>
        (writeList rel_wr_sec_c fuel r.2 sgl).map fun cs => r.1 ++ cs

/-- The calls one by one, up to the first one that fails; `lba` comes after the last one. -/
def perform (t l : ℕ) : List Call → ℕ → SimM (Errno × ℕ)
  | [], lba => return (.eok, lba)
  | c :: cs, lba => do
      let status ← sdmmc_rw t l true true c.lba c.count
      if status ≠ .eok then return (status, c.lba) else perform t l cs lba

theorem writeReliable_calls (t l rel_wr_sec_c fuel : ℕ) :
    ∀ {lba sg_addr sg_count : ℕ} {r : List Call × ℕ},
    writeEntry rel_wr_sec_c fuel lba sg_addr sg_count = some r →
      writeReliable t l rel_wr_sec_c fuel lba sg_count = perform t l r.1 r.2 := by
  induction fuel with
  | zero =>
      intro lba sg_addr sg_count r h
      cases h
  | succ fuel ih =>
      intro lba sg_addr sg_count r h
      rw [writeEntry] at h
      rw [writeReliable]
      by_cases hzero : sg_count = 0
      · rw [if_pos hzero] at h
        cases h
        rw [if_pos hzero]
        rfl
      · rw [if_neg hzero, Option.map_eq_some_iff] at h
        obtain ⟨q, hq, rfl⟩ := h
        have hnext := ih hq
        rw [if_neg hzero, perform]
        exact congrArg (sdmmc_rw t l true true lba (chunk rel_wr_sec_c lba sg_count) >>= ·)
          (funext fun s => by
          show (if s ≠ .eok then _ else writeReliable _ _ _ _ _ _) = if s ≠ .eok then _
            else perform _ _ _ _
          rw [← hnext]
          rfl)

/-! ### What is asked of the calls -/

/-- Where bytes go: from which address to which sector, and to which byte of it. -/
def written (lba sg_addr n : ℕ) : List (ℕ × ℕ × ℕ) :=
  (List.range n).map fun k => (sg_addr + k, (lba + k / 512) % 2 ^ 64, k % 512)

/-- The list in order, in consecutive sectors. -/
def placed : ℕ → List Sge → List (ℕ × ℕ × ℕ)
  | _, [] => []
  | lba, sg :: sgl =>
      written lba sg.sg_address sg.sg_count ++ placed ((lba + sg.sg_count / 512) % 2 ^ 64) sgl

/-- What a reliable write may be. -/
structure Call.Legal (rel_wr_sec_c : ℕ) (c : Call) : Prop where
  length : c.count = 512 ∨ c.count = rel_wr_sec_c * 512
  aligned : c.count / 512 ∣ c.lba

/-- The loop ends, and its calls are legal and write the list. -/
def Right (rel_wr_sec_c lba : ℕ) (sgl : List Sge) : Prop :=
  ∃ fuel calls, writeList rel_wr_sec_c fuel lba sgl = some calls ∧
    (calls.flatMap fun c => written c.lba c.sg_address c.count) = placed lba sgl ∧
    ∀ c ∈ calls, c.Legal rel_wr_sec_c

/-! ### The condition -/

/-- The sector and the bytes that are left of an entry, a round later. -/
def next (rel_wr_sec_c : ℕ) (s : ℕ × ℕ) : ℕ × ℕ :=
  if s.2 = 0 then s
  else ((s.1 + chunk rel_wr_sec_c s.1 s.2 / 512) % 2 ^ 64, s.2 - chunk rel_wr_sec_c s.1 s.2)

/-- With bytes left, the size of a reliable write is not zero, and where the mask lets one through
that is longer than a sector, the sector is a multiple of it. -/
def Fit (rel_wr_sec_c : ℕ) (s : ℕ × ℕ) : Prop :=
  s.2 ≠ 0 → relWrCount rel_wr_sec_c ≠ 0 ∧
    (Aligned s.1 rel_wr_sec_c → relWrCount rel_wr_sec_c < s.2 →
    relWrCount rel_wr_sec_c = 512 ∨ relWrCount rel_wr_sec_c = rel_wr_sec_c * 512 ∧
    rel_wr_sec_c ∣ s.1)

/-- This is so in every round. -/
def Straight (rel_wr_sec_c : ℕ) : ℕ → List Sge → Prop
  | _, [] => True
  | lba, sg :: sgl => (∀ k, Fit rel_wr_sec_c ((next rel_wr_sec_c)^[k] (lba, sg.sg_count))) ∧
      Straight rel_wr_sec_c ((lba + sg.sg_count / 512) % 2 ^ 64) sgl

/-! ### One round -/

variable {rel lba sg_addr n : ℕ}

theorem relWrCount_dvd (rel : ℕ) : 512 ∣ relWrCount rel :=
  (Nat.dvd_mod_iff (by decide)).mpr (Nat.dvd_mul_left 512 rel)

/-- A write is one sector, or it is as long as a reliable write. -/
theorem chunk_cases (lba n : ℕ) (hrel : relWrCount rel ≠ 0) :
    chunk rel lba n = 512 ∨ Aligned lba rel ∧ relWrCount rel < n ∧
    chunk rel lba n = relWrCount rel := by
  have hle : 512 ≤ relWrCount rel := Nat.le_of_dvd (Nat.pos_of_ne_zero hrel) (relWrCount_dvd rel)
  unfold chunk
  dsimp only
  by_cases ha : Aligned lba rel
  · rw [if_pos ha]
    by_cases hlt : n > relWrCount rel
    · exact .inr ⟨ha, hlt, if_pos hlt⟩
    · exact .inl (if_neg hlt)
  · rw [if_neg ha]
    exact .inl (if_neg (Nat.not_lt.mpr hle))

theorem chunk_bounds (hn : n ≠ 0) (h512 : 512 ∣ n) (hrel : relWrCount rel ≠ 0) :
    512 ∣ chunk rel lba n ∧ 0 < chunk rel lba n ∧ chunk rel lba n ≤ n := by
  rcases chunk_cases lba n hrel with heq | ⟨-, hlt, heq⟩
  · rw [heq]
    exact ⟨Nat.dvd_refl 512, by decide, Nat.le_of_dvd (Nat.pos_of_ne_zero hn) h512⟩
  · rw [heq]
    exact ⟨relWrCount_dvd rel, Nat.pos_of_ne_zero hrel, hlt.le⟩

theorem legal_sector : (⟨lba, 512, sg_addr⟩ : Call).Legal rel := by
  refine ⟨.inl rfl, ?_⟩
  show 512 / 512 ∣ lba
  rw [Nat.div_self (by decide)]
  exact Nat.one_dvd lba

/-- A round that is fit is a legal write, and one that is a legal write is fit. -/
theorem fit_iff_legal (hn : n ≠ 0) (hrel : relWrCount rel ≠ 0) :
    Fit rel (lba, n) ↔ (⟨lba, chunk rel lba n, sg_addr⟩ : Call).Legal rel := by
  constructor
  · intro hfit
    rcases chunk_cases lba n hrel with heq | ⟨ha, hlt, heq⟩
    · rw [heq]
      exact legal_sector
    · rw [heq]
      rcases (hfit hn).2 ha hlt with hone | ⟨hmany, hdvd⟩
      · rw [hone]
        exact legal_sector
      · rw [hmany]
        refine ⟨.inr rfl, ?_⟩
        show rel * 512 / 512 ∣ lba
        rwa [Nat.mul_div_cancel _ (by decide)]
  · rintro ⟨hlen, hdvd⟩ -
    refine ⟨hrel, fun ha hlt => ?_⟩
    have heq : chunk rel lba n = relWrCount rel := by
      unfold chunk
      dsimp only
      rw [if_pos ha, if_pos hlt]
    dsimp only at hlen hdvd
    rw [heq] at hlen hdvd
    rcases hlen with hone | hmany
    · exact .inl hone
    · refine .inr ⟨hmany, ?_⟩
      rwa [hmany, Nat.mul_div_cancel _ (by decide)] at hdvd

theorem next_of_ne (hn : n ≠ 0) :
    next rel (lba, n) = ((lba + chunk rel lba n / 512) % 2 ^ 64, n - chunk rel lba n) :=
  if_neg hn

theorem next_zero (k : ℕ) : (next rel)^[k] (lba, 0) = (lba, 0) :=
  Function.iterate_fixed (show next rel (lba, 0) = (lba, 0) from if_pos rfl) k

theorem sub_chunk (hlt : n < 2 ^ 32) (hle : chunk rel lba n ≤ n) :
    (n + 2 ^ 32 - chunk rel lba n) % 2 ^ 32 = n - chunk rel lba n := by
  omega

/-- Bytes in two parts, the first one of whole sectors. -/
theorem written_add {a : ℕ} (b : ℕ) (ha : 512 ∣ a) :
    written lba sg_addr (a + b) = written lba sg_addr a ++ written ((lba + a / 512) % 2 ^ 64)
      (sg_addr + a) b := by
  obtain ⟨m, rfl⟩ := ha
  rw [written, written, written, List.range_add, List.map_append, List.map_map]
  refine congrArg _ (List.map_congr_left fun k _ => ?_)
  rw [Function.comp_apply, Nat.add_assoc, Nat.mul_add_mod, Nat.mul_add_div (by decide),
    Nat.mul_div_cancel_left _ (by decide), Nat.mod_add_mod, Nat.add_assoc]

/-! ### One entry -/

theorem writeEntry_zero (rel fuel lba sg_addr : ℕ) :
    writeEntry rel (fuel + 1) lba sg_addr 0 = some ([], lba) := if_pos rfl

theorem writeEntry_of_ne (hn : n ≠ 0) (hlt : n < 2 ^ 32) (hle : chunk rel lba n ≤ n) (fuel : ℕ) :
    writeEntry rel (fuel + 1) lba sg_addr n =
        (writeEntry rel fuel ((lba + chunk rel lba n / 512) % 2 ^ 64)
      (sg_addr + chunk rel lba n) (n - chunk rel lba n)).map fun r =>
        (⟨lba, chunk rel lba n, sg_addr⟩ :: r.1, r.2) := by
  rw [writeEntry, if_neg hn, ← sub_chunk hlt hle]

/-- More rounds do not matter. -/
theorem writeEntry_mono {fuel fuel' : ℕ} (hle : fuel ≤ fuel') :
    ∀ {lba sg_addr n : ℕ} {r : List Call × ℕ},
    writeEntry rel fuel lba sg_addr n = some r → writeEntry rel fuel' lba sg_addr n = some r := by
  induction fuel generalizing fuel' with
  | zero =>
      intro lba sg_addr n r h
      cases h
  | succ fuel ih =>
      intro lba sg_addr n r h
      obtain ⟨fuel', rfl⟩ := Nat.exists_eq_add_of_le' hle
      rw [← Nat.add_assoc, writeEntry]
      rw [writeEntry] at h
      by_cases hn : n = 0
      · rw [if_pos hn] at h ⊢
        exact h
      · rw [if_neg hn, Option.map_eq_some_iff] at h
        rw [if_neg hn]
        obtain ⟨q, hq, rfl⟩ := h
        dsimp only
        rw [ih (Nat.le_add_left fuel fuel') hq]
        rfl

/-- An entry that is fit in every round is written as it should be. -/
theorem entry_of_fit (n : ℕ) : ∀ {lba sg_addr : ℕ}, lba < 2 ^ 64 → 512 ∣ n → n < 2 ^ 32 →
    (∀ k, Fit rel ((next rel)^[k] (lba, n))) → ∃ fuel calls,
      writeEntry rel fuel lba sg_addr n = some (calls, (lba + n / 512) % 2 ^ 64) ∧
      (calls.flatMap fun c => written c.lba c.sg_address c.count) = written lba sg_addr n ∧
      ∀ c ∈ calls, c.Legal rel := by
  induction n using Nat.strong_induction_on with
  | _ n ih =>
      intro lba sg_addr hlba h512 hlt hfit
      by_cases hn : n = 0
      · refine ⟨1, [], ?_, by rw [hn]; rfl, fun c hc => absurd hc List.not_mem_nil⟩
        rw [hn, writeEntry_zero, Nat.zero_div, Nat.add_zero, Nat.mod_eq_of_lt hlba]
      · have hrel := (hfit 0 hn).1
        obtain ⟨hdvd, hpos, hle⟩ := @chunk_bounds rel lba n hn h512 hrel
        have hlegal := (@fit_iff_legal rel lba sg_addr n hn hrel).mp (hfit 0)
        have hrest : ∀ k, Fit rel
            ((next rel)^[k] ((lba + chunk rel lba n / 512) % 2 ^ 64, n - chunk rel lba n)) := by
          intro k
          have hk := hfit (k + 1)
          rwa [Function.iterate_succ_apply, next_of_ne hn] at hk
        obtain ⟨fuel, calls, hcalls, hbytes, hall⟩ :=
          @ih (n - chunk rel lba n) (by omega) _ (sg_addr + chunk rel lba n)
          (Nat.mod_lt _ (by decide)) (Nat.dvd_sub h512 hdvd) (by omega) hrest
        refine ⟨fuel + 1, ⟨lba, chunk rel lba n, sg_addr⟩ :: calls, ?_, ?_,
          List.forall_mem_cons.mpr ⟨hlegal, hall⟩⟩
        · rw [writeEntry_of_ne hn hlt hle, hcalls]
          have hend : ((lba + chunk rel lba n / 512) % 2 ^ 64 + (n - chunk rel lba n) / 512) %
              2 ^ 64 = (lba + n / 512) % 2 ^ 64 := by
            obtain ⟨m, hm⟩ := h512
            obtain ⟨d, hd⟩ := hdvd
            omega
          rw [hend]
          rfl
        · rw [List.flatMap_cons, hbytes, ← written_add _ hdvd, Nat.add_sub_cancel' hle]

/-- A reliable write of no bytes makes no progress. -/
theorem writeEntry_stuck (hn : n ≠ 0) (hlt : n < 2 ^ 32) (hlba : lba < 2 ^ 64)
    (hrel : relWrCount rel = 0) (fuel : ℕ) :
    writeEntry rel fuel lba sg_addr n = none := by
  have hchunk : chunk rel lba n = 0 := by
    unfold chunk
    dsimp only
    rw [hrel, if_pos]
    split
    · exact Nat.pos_of_ne_zero hn
    · decide
  induction fuel with
  | zero => rfl
  | succ fuel ih =>
      rw [writeEntry_of_ne hn hlt (by rw [hchunk]; exact Nat.zero_le n), hchunk, Nat.zero_div,
        Nat.add_zero, Nat.add_zero, Nat.mod_eq_of_lt hlba, Nat.sub_zero, ih]
      rfl

/-- An entry that is written with legal calls is fit in every round. -/
theorem fit_of_entry (fuel : ℕ) :
    ∀ {lba sg_addr n : ℕ} {r : List Call × ℕ}, lba < 2 ^ 64 → 512 ∣ n → n < 2 ^ 32 →
    writeEntry rel fuel lba sg_addr n = some r → (∀ c ∈ r.1, c.Legal rel) →
    ∀ k, Fit rel ((next rel)^[k] (lba, n)) := by
  induction fuel with
  | zero =>
      intro lba sg_addr n r _ _ _ h
      cases h
  | succ fuel ih =>
      intro lba sg_addr n r hlba h512 hlt h hlegal k
      by_cases hn : n = 0
      · rw [hn, next_zero]
        exact fun hne => absurd rfl hne
      · have hrel : relWrCount rel ≠ 0 := by
          intro hzero
          rw [writeEntry_stuck hn hlt hlba hzero] at h
          cases h
        obtain ⟨hdvd, hpos, hle⟩ := @chunk_bounds rel lba n hn h512 hrel
        rw [writeEntry_of_ne hn hlt hle, Option.map_eq_some_iff] at h
        obtain ⟨q, hq, rfl⟩ := h
        obtain ⟨hfirst, hlater⟩ := List.forall_mem_cons.mp hlegal
        cases k with
        | zero => exact (fit_iff_legal hn hrel).mpr hfirst
        | succ k =>
            rw [Function.iterate_succ_apply, next_of_ne hn]
            exact ih (Nat.mod_lt _ (by decide)) (Nat.dvd_sub h512 hdvd) (by omega) hq hlater k

/-! ### The list -/

/-- More rounds do not matter. -/
theorem writeList_mono {fuel fuel' : ℕ} (hle : fuel ≤ fuel') (sgl : List Sge) :
    ∀ {lba : ℕ} {calls : List Call},
    writeList rel fuel lba sgl = some calls → writeList rel fuel' lba sgl = some calls := by
  induction sgl with
  | nil => exact fun h => h
  | cons sg sgl ih =>
      intro lba calls h
      rw [writeList, Option.bind_eq_some_iff] at h
      obtain ⟨r, hr, h⟩ := h
      rw [Option.map_eq_some_iff] at h
      obtain ⟨cs, hcs, rfl⟩ := h
      rw [writeList, writeEntry_mono hle hr, Option.bind_some, ih hcs]
      rfl

/-- The entries of a list: whole sectors, and a length of 32 bits. -/
def Sectors (sgl : List Sge) : Prop := ∀ sg ∈ sgl, 512 ∣ sg.sg_count ∧ sg.sg_count < 2 ^ 32

theorem right_of_straight (sgl : List Sge) (hsgl : Sectors sgl) :
    ∀ {lba : ℕ}, lba < 2 ^ 64 → Straight rel lba sgl →
    Right rel lba sgl := by
  induction sgl with
  | nil => exact fun _ _ => ⟨0, [], rfl, rfl, fun c hc => absurd hc List.not_mem_nil⟩
  | cons sg sgl ih =>
      intro lba hlba h
      obtain ⟨hsg, hrest⟩ := List.forall_mem_cons.mp hsgl
      obtain ⟨fuel, calls, hcalls, hbytes, hlegal⟩ :=
        @entry_of_fit rel sg.sg_count lba sg.sg_address hlba hsg.1 hsg.2 h.1
      obtain ⟨fuel', calls', hcalls', hbytes', hlegal'⟩ := ih hrest (Nat.mod_lt _ (by decide)) h.2
      refine ⟨max fuel fuel', calls ++ calls', ?_, ?_, List.forall_mem_append.mpr ⟨hlegal, hlegal'⟩⟩
      · rw [writeList, writeEntry_mono (Nat.le_max_left _ _) hcalls, Option.bind_some,
          writeList_mono (Nat.le_max_right _ _) sgl hcalls']
        rfl
      · rw [List.flatMap_append, hbytes, hbytes']
        rfl

theorem straight_of_legal (fuel : ℕ) (sgl : List Sge) (hsgl : Sectors sgl) :
    ∀ {lba : ℕ} {calls : List Call},
    lba < 2 ^ 64 → writeList rel fuel lba sgl = some calls → (∀ c ∈ calls, c.Legal rel) →
    Straight rel lba sgl := by
  induction sgl with
  | nil => exact fun _ _ _ => trivial
  | cons sg sgl ih =>
      intro lba calls hlba h hlegal
      obtain ⟨hsg, hrest⟩ := List.forall_mem_cons.mp hsgl
      rw [writeList, Option.bind_eq_some_iff] at h
      obtain ⟨r, hr, h⟩ := h
      rw [Option.map_eq_some_iff] at h
      obtain ⟨cs, hcs, rfl⟩ := h
      obtain ⟨hfirst, hlater⟩ := List.forall_mem_append.mp hlegal
      have hfit := fit_of_entry fuel hlba hsg.1 hsg.2 hr hfirst
      -- the entry ends where it should
      obtain ⟨fuel', calls', hcalls', -, -⟩ :=
        @entry_of_fit rel sg.sg_count lba sg.sg_address hlba hsg.1 hsg.2 hfit
      have hend : r.2 = (lba + sg.sg_count / 512) % 2 ^ 64 := by
        have hr' := writeEntry_mono (Nat.le_max_left fuel fuel') hr
        rw [writeEntry_mono (Nat.le_max_right fuel fuel') hcalls'] at hr'
        cases hr'
        rfl
      rw [hend] at hcs
      exact ⟨hfit, ih hrest (Nat.mod_lt _ (by decide)) hcs hlater⟩

/-- **The list is written as it should be exactly if every round is fit**: the size of a reliable
write is not zero, and the mask lets none through at a sector that is no multiple of it. -/
theorem reliable_iff (rel_wr_sec_c : ℕ) {lba : ℕ} (hlba : lba < 2 ^ 64) {sgl : List Sge}
    (hsgl : Sectors sgl) :
    Right rel_wr_sec_c lba sgl ↔ Straight rel_wr_sec_c lba sgl := by
  constructor
  · rintro ⟨fuel, calls, hcalls, -, hlegal⟩
    exact straight_of_legal fuel sgl hsgl hlba hcalls hlegal
  · exact right_of_straight sgl hsgl hlba

/-- Every round is fit if the size of a reliable write is a power of two. -/
theorem straight_of_two_pow {j : ℕ} (hj : j < 23) (sgl : List Sge) :
    ∀ lba, Straight (2 ^ j) lba sgl := by
  have hcount : relWrCount (2 ^ j) = 2 ^ j * 512 := by
    refine Nat.mod_eq_of_lt ?_
    calc 2 ^ j * 512 = 2 ^ (j + 9) := (Nat.pow_add 2 j 9).symm
      _ < 2 ^ 32 := Nat.pow_lt_pow_right (by decide) (by omega)
  have hfit : ∀ s, Fit (2 ^ j) s := by
    rintro s -
    rw [hcount]
    refine ⟨(Nat.mul_pos (Nat.two_pow_pos j) (by decide)).ne', fun ha _ => .inr ⟨rfl, ?_⟩⟩
    have hmask : (2 ^ j + 2 ^ 64 - 1) % 2 ^ 64 = 2 ^ j - 1 := by
      have hlt : 2 ^ j < 2 ^ 64 := Nat.pow_lt_pow_right (by decide) (by omega)
      have hpos := Nat.two_pow_pos j
      omega
    rw [Aligned, hmask, Nat.and_two_pow_sub_one_eq_mod] at ha
    exact Nat.dvd_of_mod_eq_zero ha
  induction sgl with
  | nil => exact fun _ => trivial
  | cons sg sgl ih => exact fun lba => ⟨fun k => hfit _, ih _⟩

/-- Reliable writes of four sectors: two entries from sector 2 on. -/
theorem reliable_four : Right (2 ^ 2) 2 [⟨0x1000, 4096⟩, ⟨0x8000, 512⟩] :=
  (reliable_iff (2 ^ 2) (by decide) (by unfold Sectors; decide)).mpr
    (straight_of_two_pow (by decide) _ 2)

/-- An SD card says nothing about reliable writes: not even a sector is written. -/
theorem reliable_zero : ¬ Right 0 0 [⟨0x1000, 512⟩] := by
  rintro ⟨fuel, calls, hcalls, -⟩
  rw [writeList, writeEntry_stuck (by decide) (by decide) (by decide) rfl] at hcalls
  cases hcalls

end Sdmmc.Reliable
