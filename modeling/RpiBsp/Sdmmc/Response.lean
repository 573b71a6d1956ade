import RpiBsp.Sdmmc.Capacity
import RpiBsp.Sdmmc.Sdhci

/-!
# Sdmmc — a long response

A card sends a register of 128 bits, and the controller holds it in four words without its last
byte, the check sum: eight bits lower than the register has them.  `sdhci_intr_event` shifts the
words back, the lowest one into the last word of the response, and `sdio_extract_bits` takes a field
out, the first word being the highest.

* `longResponse_bit` — the words of the response make the register again, from bit 8 on.
* `response_fields` — a field of a response that came by an interrupt is the field of the register.
-/

namespace Sdmmc.Sdhci

open Support Capacity

/-! ### The words that are read -/

/-- The values of `idx` and of `idx - 1`, if that is read as well: they are of type `int`. -/
def indexes (bits start size : ℕ) : List ℤ :=
  let idx : ℤ := (bits / 32 : ℕ) - (start / 32 : ℕ) - 1
  if size + (start &&& 31) > 32 then [idx, idx - 1] else [idx]

/-- Nothing else is read: with indexes that are none below zero, two lists that agree at them give
one value. -/
theorem extract_congr {data data' : List ℕ} {bits start size : ℕ}
    (hnonneg : ∀ i ∈ indexes bits start size, 0 ≤ i)
    (h : ∀ i ∈ indexes bits start size, data.getD i.toNat 0 = data'.getD i.toNat 0) :
    sdio_extract_bits data bits start size = sdio_extract_bits data' bits start size := by
  unfold indexes at hnonneg h
  unfold sdio_extract_bits
  dsimp only at hnonneg h ⊢
  by_cases hcross : size + (start &&& 31) > 32
  · rw [if_pos hcross] at hnonneg h
    simp only [List.mem_cons, List.not_mem_nil, or_false, forall_eq_or_imp, forall_eq] at hnonneg h
    have hidx : ((bits / 32 : ℕ) - (start / 32 : ℕ) - 1 : ℤ).toNat = bits / 32 - start / 32 -
      1 := by omega
    have hnext : ((bits / 32 : ℕ) - (start / 32 : ℕ) - 1 - 1 : ℤ).toNat = bits / 32 - start / 32 -
      1 - 1 := by omega
    rw [hidx, hnext] at h
    rw [if_pos hcross, if_pos hcross, h.1, h.2]
  · rw [if_neg hcross] at hnonneg h
    simp only [List.mem_cons, List.not_mem_nil, or_false, forall_eq] at hnonneg h
    have hidx : ((bits / 32 : ℕ) - (start / 32 : ℕ) - 1 : ℤ).toNat = bits / 32 - start / 32 -
      1 := by omega
    rw [hidx] at h
    rw [if_neg hcross, if_neg hcross, h]

/-- A field within 128 bits is read from the four words. -/
theorem indexes_bound {start size : ℕ} (hsize : size ≤ 32) (hin : start + size ≤ 128)
    (hpos : 1 ≤ size) :
    ∀ i ∈ indexes 128 start size, 0 ≤ i ∧ i < 4 := by
  have hshift : start &&& 31 = start % 32 := Nat.and_two_pow_sub_one_eq_mod start 5
  intro i hi
  unfold indexes at hi
  dsimp only at hi
  rw [hshift] at hi
  split at hi <;> simp at hi <;> omega

/-! ### The words that come -/

/-- What the controller holds of a register: the bits 127 to 8 in its bits 119 to 0. -/
structure HoldsRegister (resp : List (BitVec 32)) (v : BitVec 128) : Prop where
  length : resp.length = 4
  bits : ∀ i < 120, (resp.getD (i / 32) 0).getLsbD (i % 32) = v.getLsbD (i + 8)

/-- A word that takes a byte of another one. -/
theorem getLsbD_join (a b : BitVec 32) {j : ℕ} (hj : j < 32) :
    ((a <<< 8) + (b >>> 24)).getLsbD j = if j < 8 then b.getLsbD (j + 24)
      else a.getLsbD (j - 8) := by
  have hapart : (a <<< 8) &&& (b >>> 24) = 0#32 := by
    apply BitVec.eq_of_getLsbD_eq
    intro i hi
    simp only [BitVec.getLsbD_and, BitVec.getLsbD_shiftLeft, BitVec.getLsbD_ushiftRight,
      BitVec.getLsbD_zero]
    by_cases hlow : i < 8
    · simp [hlow]
    · rw [BitVec.getLsbD_of_ge b (24 + i) (by omega), Bool.and_false]
  rw [BitVec.add_eq_or_of_and_eq_zero _ _ hapart]
  simp only [BitVec.getLsbD_or, BitVec.getLsbD_shiftLeft, BitVec.getLsbD_ushiftRight]
  by_cases hlow : j < 8
  · simp [hlow, Nat.add_comm]
  · rw [BitVec.getLsbD_of_ge b (24 + j) (by omega)]
    simp [hlow, hj]

/-- The word below one, and nothing below the lowest. -/
def below (resp : List (BitVec 32)) (k : ℕ) : BitVec 32 := if k = 0 then 0 else resp.getD (k - 1) 0

theorem longResponse_getD {resp : List (BitVec 32)} {k : ℕ} (hk : k < 4) :
    (longResponse resp).getD (3 - k) 0 = (resp.getD k 0 <<< 8) + (below resp k >>> 24) := by
  have hcases : k = 0 ∨ k = 1 ∨ k = 2 ∨ k = 3 := by omega
  rcases hcases with rfl | rfl | rfl | rfl <;> simp [longResponse, below]

@[simp] theorem length_longResponse (resp : List (BitVec 32)) : (longResponse resp).length = 4 :=
  rfl

/-- The words of the response, as `sdio_extract_bits` gets them. -/
def words (resp : List (BitVec 32)) : Rsp where
  words := (longResponse resp).map BitVec.toNat
  length := by simp
  lt := by
    intro x hx
    obtain ⟨w, -, rfl⟩ := List.mem_map.mp hx
    exact w.isLt

theorem words_getElem (resp : List (BitVec 32)) {k : ℕ} (hk : k < (words resp).words.length) :
    (words resp).words[k] = ((longResponse resp).getD k 0).toNat := by
  have hlt : k < (longResponse resp).length := by
    rw [length_longResponse]
    exact hk
  rw [List.getD_eq_getElem _ _ hlt]
  exact List.getElem_map BitVec.toNat

/-- **The response is the register again.** -/
theorem longResponse_bit {resp : List (BitVec 32)} {v : BitVec 128} (hv : HoldsRegister resp v)
    {i : ℕ} (hlow : 8 ≤ i) (hhigh : i < 128) : (words resp).value.testBit i = v.getLsbD i := by
  have hlen := (words resp).length
  have hmod : i % 32 < 32 := Nat.mod_lt i (by decide)
  have hk : 3 - i / 32 < (words resp).words.length := by omega
  have hplace : 32 * ((words resp).words.length - 1 - (3 - i / 32)) + i % 32 = i := by omega
  have hbit := testBit_word (words resp).lt hk hmod
  rw [hplace, words_getElem resp hk, BitVec.testBit_toNat, longResponse_getD (by omega),
    getLsbD_join _ _ hmod] at hbit
  have hsrc := hv.bits (i - 8) (by omega)
  rw [Nat.sub_add_cancel hlow] at hsrc
  rw [Rsp.value, ← hbit, ← hsrc]
  by_cases hbyte : i % 32 < 8
  · -- The byte that the register below hands on.
    have hne : i / 32 ≠ 0 := by omega
    have hword : (i - 8) / 32 = i / 32 - 1 := by omega
    have hpos : (i - 8) % 32 = i % 32 + 24 := by omega
    rw [if_pos hbyte, below, if_neg hne, hword, hpos]
  · have hword : (i - 8) / 32 = i / 32 := by omega
    have hpos : (i - 8) % 32 = i % 32 - 8 := by omega
    rw [if_neg hbyte, hword, hpos]

/-- A field of the response is the field of the register. -/
theorem longResponse_field {resp : List (BitVec 32)} {v : BitVec 128} (hv : HoldsRegister resp v)
    {start size : ℕ}
    (hlow : 8 ≤ start) (hpos : 1 ≤ size) (hsize : size ≤ 32) (hin : start + size ≤ 128) :
    sdio_extract_bits ((longResponse resp).map BitVec.toNat) 128 start size =
      (v.extractLsb' start size).toNat := by
  have hfield := (words resp).extract hpos hsize hin
  refine hfield.trans (Nat.eq_of_testBit_eq fun i => ?_)
  rw [testBit_window, BitVec.testBit_toNat, BitVec.getLsbD_extractLsb']
  by_cases hi : i < size
  · rw [longResponse_bit hv (by omega) (by omega)]
  · simp [hi]

/-! ### The interrupt -/

/-- A command whose response is waited for has no other end enabled: it has no data. -/
theorem cmdSetup_cc {slot : Slot} {cmd : Request} (h : Has (cmdSetup slot cmd).2.1 SDHCI_INTR_CC) :
    ¬ Has (cmdSetup slot cmd).2.1 SDHCI_INTR_TC ∧
    ¬ Has (cmdSetup slot cmd).2.1 (SDHCI_INTR_BWR ||| SDHCI_INTR_BRR) := by
  unfold cmdSetup at h ⊢
  by_cases hdata : cmd.Data
  · rw [if_pos hdata] at h
    refine absurd h ?_
    unfold sdhci_xfer_setup always
    dsimp only
    generalize (if cmd.sgc ≠ 0 ∧ Has slot.caps HC_CAP_DMA then _ else _ : Errno) = status
    split_ifs <;> (dsimp only; decide)
  · rw [if_neg hdata]
    unfold always
    split_ifs <;> (dsimp only; decide)

theorem issue_ie {idle : Bool} {slot₀ slot : Slot} {cmd : Request}
    (h : issue idle slot₀ cmd = (.eok, slot)) :
    slot.ie = (cmdSetup { slot₀ with wspc := { slot₀.wspc with cmd := some cmd } } cmd).2.1 := by
  unfold issue sdhci_cmd at h
  dsimp only at h
  split_ifs at h with hsetup hidle
  · exact absurd (congrArg Prod.fst h) hsetup
  · exact absurd (congrArg Prod.fst h) (show ¬ Errno.etimedout = Errno.eok by decide)
  · rw [← (Prod.mk.inj h).2]

theorem Has.enabled {n : ℕ} {w ie m : BitVec n} (h : Has (w &&& ie) m) : Has ie m := by
  intro hzero
  rw [Has, BitVec.and_assoc, hzero] at h
  exact h BitVec.and_zero

/-- A word with the response, for a command with a long one, completes it with the words of the
response. -/
theorem intr_response {e : Interrupt} {slot : Slot} {cmd : Request}
    (hcmd : slot.wspc.cmd = some cmd)
    (hlong : Has cmd.flags SCF_RSP_136) (hcc : Has (e.is &&& slot.ie) SDHCI_INTR_CC)
    (htc : ¬ Has slot.ie SDHCI_INTR_TC)
    (hbuf : ¬ Has slot.ie (SDHCI_INTR_BWR ||| SDHCI_INTR_BRR))
    (hplain : ¬ Has e.is SDHCI_INTR_ERRI) :
    ∃ st, (sdhci_intr_event e slot).completed = slot.completed ++
      [({ cmd with rsp := longResponse e.resp }, st)] := by
  have hword : e.is ≠ 0 := fun hzero => hcc (by simp [hzero])
  have herr : ¬ Has (e.is &&& (slot.ie ||| SDHCI_INTR_ERRI)) SDHCI_INTR_ERRI :=
    mt (has_error _ _).mp hplain
  have hcc' : Has (e.is &&& (slot.ie ||| SDHCI_INTR_ERRI)) SDHCI_INTR_CC :=
    (has_status (by decide)).mpr hcc
  have htc' : ¬ Has (e.is &&& (slot.ie ||| SDHCI_INTR_ERRI)) SDHCI_INTR_TC :=
    fun h => htc ((has_status (by decide)).mp h).enabled
  have hbuf' : ¬ Has (e.is &&& (slot.ie ||| SDHCI_INTR_ERRI)) (SDHCI_INTR_BWR ||| SDHCI_INTR_BRR) :=
    fun h => hbuf ((has_status (by decide)).mp h).enabled
  have hanswer : ∀ sts, Has sts SDHCI_INTR_CC → ¬ Has sts SDHCI_INTR_TC →
      answerOf cmd sts e.resp = { cmd with rsp := longResponse e.resp } := by
    intro sts h₁ h₂
    rw [answerOf, if_neg h₂, if_pos h₁, ccResponse, if_pos hlong]
  unfold sdhci_intr_event
  rw [if_neg hword]
  dsimp only
  rw [hcmd]
  dsimp only
  generalize e.is &&& (slot.ie ||| SDHCI_INTR_ERRI) = sts at herr hcc' htc' hbuf'
  have hst : plainStatus cmd sts = .cmd_cmp := by
    simp [plainStatus, hcc', hbuf']
  rw [if_neg herr, hanswer sts hcc' htc', hst, if_neg (fun h => hbuf' h.1)]
  unfold conclude
  dsimp only
  split
  · rw [if_pos (by decide)]
    exact ⟨.card_removed, rfl⟩
  · rw [if_pos (by decide)]
    exact ⟨.cmd_cmp, rfl⟩

/-- **A field of the response is the field of the card register**, whatever came before the word
that brought it. -/
theorem response_fields {idle : Bool} {slot₀ slot : Slot} {cmd : Request}
    (hissue : issue idle slot₀ cmd = (.eok, slot))
    (hlong : Has cmd.flags SCF_RSP_136) (before : List Interrupt)
    (hout : (intrs before slot).wspc.cmd ≠ none)
    {e : Interrupt} (hcc : Has (e.is &&& slot.ie) SDHCI_INTR_CC)
    (hplain : ¬ Has e.is SDHCI_INTR_ERRI)
    {v : BitVec 128} (hv : HoldsRegister e.resp v) :
    ∃ c st, (sdhci_intr_event e (intrs before slot)).completed = (intrs before slot).completed ++
        [(c, st)] ∧
      c.rsp.length = 4 ∧ ∀ start size, 8 ≤ start → 1 ≤ size → size ≤ 32 → start + size ≤ 128 →
        (∀ i ∈ indexes 128 start size, 0 ≤ i ∧ i < 4) ∧
        sdio_extract_bits (c.rsp.map BitVec.toNat) 128 start size =
          (v.extractLsb' start size).toNat := by
  have hheld := (issue_held hissue).1.run before
  have hie : (intrs before slot).ie = slot.ie := hheld.mask
  have hends : ¬ Has slot.ie SDHCI_INTR_TC ∧ ¬ Has slot.ie (SDHCI_INTR_BWR ||| SDHCI_INTR_BRR) := by
    have h := hcc.enabled
    rw [issue_ie hissue] at h ⊢
    exact cmdSetup_cc h
  obtain ⟨c, hc⟩ := Option.ne_none_iff_exists'.mp hout
  obtain ⟨rsp, rfl⟩ := hheld.cmd c hc
  rw [← hie] at hcc hends
  obtain ⟨st, hst⟩ := intr_response hc hlong hcc hends.1 hends.2 hplain
  refine ⟨_, st, hst, rfl, fun start size hlow hpos hsize hin => ?_⟩
  exact ⟨indexes_bound hsize hin hpos, longResponse_field hv hlow hpos hsize hin⟩

def SCF_RSP_R2 : BitVec 32 := SCF_RSP_PRESENT ||| SCF_RSP_136 ||| SCF_RSP_CRC

/-- `MMC_SEND_CSD`. -/
def sendCsd : Request where
  opcode := 9
  flags := SCF_CTYPE_AC ||| SCF_RSP_R2
  blksz := 0
  has_sgl := false
  sgl := fun _ => ⟨0, 0⟩
  sgc := 0
  rsp := [0, 0, 0, 0]

/-- What the controller holds of the register of a card of 32 GB. -/
def csdRegs : List (BitVec 32) := [0x800a4040, 0x00edc87f, 0x325b5900, 0x00400e00]

/-- The register itself, with its check sum. -/
def csd : BitVec 128 := 0x400e00325b590000edc87f800a404095

theorem response_fields_csd :
    ∃ c st, (sdhci_intr_event { is := SDHCI_INTR_CC, resp := csdRegs }
        (intrs [{ is := 0 }] (issue true plainSlot sendCsd).2)).completed =
        (intrs [{ is := 0 }] (issue true plainSlot sendCsd).2).completed ++ [(c, st)] ∧
      c.rsp.length = 4 ∧ ∀ start size, 8 ≤ start → 1 ≤ size → size ≤ 32 → start + size ≤ 128 →
        (∀ i ∈ indexes 128 start size, 0 ≤ i ∧ i < 4) ∧
        sdio_extract_bits (c.rsp.map BitVec.toNat) 128 start size =
          (csd.extractLsb' start size).toNat :=
  have hissue : issue true plainSlot sendCsd = (.eok, (issue true plainSlot sendCsd).2) := rfl
  response_fields hissue (by decide) [{ is := 0 }]
    (fun h => absurd (congrArg Option.isSome h) (by decide)) (by decide)
    (by decide) ⟨rfl, by decide⟩

end Sdmmc.Sdhci
