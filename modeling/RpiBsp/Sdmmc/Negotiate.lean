import RpiBsp.Sdmmc.Definitions
import RpiBsp.Support.Rounds

/-!
# Sdmmc — the voltage negotiation

The start of `sd_init_device`: what is asked of the card, and the loop that repeats the request
without
1.8 V signalling when the switch to it fails.  What the card says comes as a sequence of answers,
one for each command; a command that cannot be sent is answered with an error.

* `Refused` — the answers of one round in which the card accepts 1.8 V and then fails the switch;
* `sd_init_device_ends_iff` — the loop ends unless such rounds follow each other for ever.
-/

namespace Sdmmc.Negotiate

open Support

/-! ### Definitions -/

def OCR_S18R : BitVec 32 := 0x01000000
def OCR_S18A : BitVec 32 := 0x01000000
def OCR_XPC : BitVec 32 := 0x10000000
def OCR_HCS : BitVec 32 := 0x40000000
def OCR_PWRUP_CMP : BitVec 32 := 0x80000000
def OCR_BUSY_RETRIES : ℕ := 500
def SD_SIC_TEST_PATTERN : BitVec 32 := 0xaa

/-- The answer to a command: its status and `rsp[0]`. -/
structure Answer where
  status : Errno
  rsp : BitVec 32
deriving DecidableEq, Repr

/-- What is read of the host and the device: `DEV_FLAG_SIG_ERR`, `HC_CAP_UHS`, `HC_CAP_SV_1_8V`,
`HC_CAP_XPC`, and whether the device has bus modes. -/
structure Host where
  sig_err : Bool
  cap_uhs : Bool
  cap_sv_1_8v : Bool
  cap_xpc : Bool
  bus_mode : Bool

/-- `sd_send_if_cond`, by its answer. -/
def sd_send_if_cond (a : Answer) : Errno :=
  if a.status = .eok then if a.rsp &&& 0xff#32 ≠ SD_SIC_TEST_PATTERN then .eio else .eok
  else if a.status = .etimedout then .etimedout
  else .eio

/-- The operating conditions that are asked for, by the answer that tells the version of the
card. -/
def request (hc : Host) (ocr : BitVec 32) (flgs : Bool) (a : Answer) : Except Errno (BitVec 32) :=
  let status := sd_send_if_cond a
  if status ≠ .eok ∧ status ≠ .etimedout then .error .eio
  else
    let ocr := if status = .eok then ocr ||| OCR_HCS else ocr
    let ocr :=
      if hc.sig_err = false ∧ hc.cap_uhs ∧ hc.cap_sv_1_8v ∧ (flgs = false ∨ hc.bus_mode) then
        ocr ||| OCR_S18R
      else ocr
    .ok (if hc.cap_xpc then ocr ||| OCR_XPC else ocr)

variable (r : ℕ → Answer)

/-- `sd_app_send_op_cond`, from the `n`-th answer on: the status, `rocr` and the number of the next
answer. -/
def sd_app_send_op_cond (ocr : BitVec 32) : ℕ → ℕ → Errno × BitVec 32 × ℕ
  | 0, n => (.etimedout, 0, n)
  | retry + 1, n =>
    let a := r n
    if a.status ≠ .eok then (a.status, a.rsp, n + 1)
    else if ocr = 0#32 then (.eok, a.rsp, n + 1)
    else if a.rsp &&& OCR_PWRUP_CMP ≠ 0#32 then (.eok, a.rsp, n + 1)
    else sd_app_send_op_cond ocr retry (n + 1)

/-- The loop between two rounds: the request, the number of the next answer, and how often the
voltage switch was tried. -/
structure State where
  ocr : BitVec 32
  next : ℕ
  switches : ℕ
deriving DecidableEq, Repr

/-- How the loop is left: the status, and `DEV_FLAG_SIG_ERR` where the host cannot switch. -/
structure Left where
  status : Errno
  sig_err : Bool
  switches : ℕ
deriving DecidableEq, Repr

/-- A round of the loop. -/
def round (s : State) : Left ⊕ State :=
  let (status, rocr, n) := sd_app_send_op_cond r s.ocr OCR_BUSY_RETRIES s.next
  if status ≠ .eok then .inl { status := status, sig_err := false, switches := s.switches }
  else if rocr &&& (OCR_HCS ||| OCR_S18A) = OCR_HCS ||| OCR_S18A then
    -- `sd_voltage_switch`
    if (r n).status ≠ .eok then
      .inr { ocr := s.ocr &&& ~~~OCR_S18R, next := n + 1, switches := s.switches + 1 }
    -- `sdio_signal_voltage`
    else if (r (n + 1)).status ≠ .eok then
      .inl { status := (r (n + 1)).status, sig_err := true, switches := s.switches + 1 }
    else .inl { status := .eok, sig_err := false, switches := s.switches + 1 }
  else .inl { status := .eok, sig_err := false, switches := s.switches }

/-- `sd_init_device` up to the end of the loop.  The first three answers are to `sd_send_if_cond`,
`sdio_go_idle` and `sd_send_if_cond` again. -/
def sd_init_device (hc : Host) (ocr : BitVec 32) (flgs : Bool) (fuel : ℕ) : Option Left :=
  match request hc ocr flgs (r 2) with
  | .error e => some { status := e, sig_err := false, switches := 0 }
  | .ok ocr => rounds (round r) fuel { ocr := ocr, next := 3, switches := 0 }

/-! ### Rounds that go on -/

/-- The answer ends the wait for the card: it is powered up, or nothing was asked of it. -/
def Ready (ocr : BitVec 32) (a : Answer) : Prop := ocr = 0#32 ∨ a.rsp &&& OCR_PWRUP_CMP ≠ 0#32

/-- From the answer `n` to before the answer `n'`: the card is busy for fewer than 500 answers, then
it is ready, of high capacity and accepts 1.8 V, and then the voltage switch fails. -/
def Refused (ocr : BitVec 32) (n n' : ℕ) : Prop :=
  ∃ j < OCR_BUSY_RETRIES, n' = n + j + 2 ∧
    (∀ m < j, (r (n + m)).status = .eok ∧ ¬ Ready ocr (r (n + m))) ∧
    (r (n + j)).status = .eok ∧ Ready ocr (r (n + j)) ∧
    (r (n + j)).rsp &&& (OCR_HCS ||| OCR_S18A) = OCR_HCS ||| OCR_S18A ∧
    (r (n + j + 1)).status ≠ .eok

variable {r}

/-- A request that is answered: busy answers, then one that is ready. -/
theorem sd_app_send_op_cond_eok {ocr rocr : BitVec 32} {retry n n' : ℕ} :
    sd_app_send_op_cond r ocr retry n = (.eok, rocr, n') ↔
      ∃ j < retry, n' = n + j + 1 ∧ (∀ m < j, (r (n + m)).status = .eok ∧ ¬ Ready ocr (r (n + m))) ∧
        (r (n + j)).status = .eok ∧ Ready ocr (r (n + j)) ∧ (r (n + j)).rsp = rocr := by
  induction retry generalizing n with
  | zero => simp [sd_app_send_op_cond]
  | succ retry ih =>
      by_cases hstatus : (r n).status = .eok
      case neg =>
        have hrun : sd_app_send_op_cond r ocr (retry + 1) n = ((r n).status, (r n).rsp, n + 1) := by
          simp [sd_app_send_op_cond, hstatus]
        refine iff_of_false ?_ ?_
        · rw [hrun]
          exact fun h => hstatus (Prod.mk.inj h).1
        · rintro ⟨j, -, -, hbusy, hj, -⟩
          cases j with
          | zero => exact hstatus hj
          | succ j => exact hstatus (hbusy 0 (Nat.succ_pos j)).1
      case pos =>
        by_cases hready : Ready ocr (r n)
        case pos =>
          have hrun : sd_app_send_op_cond r ocr (retry + 1) n = (.eok, (r n).rsp, n + 1) := by
            by_cases hocr : ocr = 0#32
            · simp [sd_app_send_op_cond, hstatus, hocr]
            · have hup := hready.resolve_left hocr
              simp [sd_app_send_op_cond, hstatus, hocr, hup]
          rw [hrun]
          constructor
          · intro h
            obtain ⟨hrocr, hn⟩ := Prod.mk.inj (Prod.mk.inj h).2
            exact ⟨0, Nat.succ_pos retry, hn.symm, fun m hm =>
              absurd hm (Nat.not_lt_zero m), hstatus, hready, hrocr⟩
          · rintro ⟨j, -, hn, hbusy, -, -, hrocr⟩
            cases j with
            | zero => rw [hn, ← hrocr]; rfl
            | succ j => exact absurd hready (hbusy 0 (Nat.succ_pos j)).2
        case neg =>
          have hrun : sd_app_send_op_cond r ocr (retry + 1) n = sd_app_send_op_cond r ocr retry
              (n + 1) := by
            obtain ⟨hocr, hup⟩ := not_or.mp hready
            simp [sd_app_send_op_cond, hstatus, hocr, not_not.mp hup]
          rw [hrun, ih]
          constructor
          · rintro ⟨j, hj, hn, hbusy, hlast⟩
            have hshift : n + 1 + j = n + (j + 1) := by omega
            refine ⟨j + 1, Nat.succ_lt_succ hj, by omega, fun m hm => ?_, by rwa [hshift] at hlast⟩
            cases m with
            | zero => exact ⟨hstatus, hready⟩
            | succ m =>
                have := hbusy m (Nat.lt_of_succ_lt_succ hm)
                rwa [show n + 1 + m = n + (m + 1) by omega] at this
          · rintro ⟨j, hj, hn, hbusy, hlast⟩
            cases j with
            | zero => exact absurd hlast.2.1 hready
            | succ j =>
                have hshift : n + (j + 1) = n + 1 + j := by omega
                refine ⟨j, Nat.lt_of_succ_lt_succ hj, by omega, fun m hm =>
                  ?_, by rwa [hshift] at hlast⟩
                have := hbusy (m + 1) (Nat.succ_lt_succ hm)
                rwa [show n + (m + 1) = n + 1 + m by omega] at this

/-- A round goes on exactly where the card refuses the switch it accepted, and then without asking
for it. -/
theorem round_inr_iff {s s' : State} : round r s = .inr s' ↔
    Refused r s.ocr s.next s'.next ∧ s'.ocr = s.ocr &&& ~~~OCR_S18R ∧
    s'.switches = s.switches + 1 := by
  rcases hop : sd_app_send_op_cond r s.ocr OCR_BUSY_RETRIES s.next with ⟨status, rocr, n⟩
  have hround : round r s = .inr s' ↔ status = .eok ∧
      rocr &&& (OCR_HCS ||| OCR_S18A) = OCR_HCS ||| OCR_S18A ∧ (r n).status ≠ .eok ∧
      s' = { ocr := s.ocr &&& ~~~OCR_S18R, next := n + 1, switches := s.switches + 1 } := by
    simp only [round, hop]
    by_cases hstatus : status = .eok
    case neg => simp [hstatus]
    by_cases hocr : rocr &&& (OCR_HCS ||| OCR_S18A) = OCR_HCS ||| OCR_S18A
    case neg => simp [hstatus, hocr]
    by_cases hfail : (r n).status = .eok
    case neg => simp [hstatus, hocr, hfail, eq_comm]
    by_cases hsignal : (r (n + 1)).status = .eok
    all_goals simp [hstatus, hocr, hfail, hsignal]
  rw [hround]
  constructor
  · rintro ⟨rfl, hrocr, hfail, rfl⟩
    obtain ⟨j, hj, rfl, hbusy, hstatus, hready, rfl⟩ := sd_app_send_op_cond_eok.mp hop
    exact ⟨⟨j, hj, rfl, hbusy, hstatus, hready, hrocr, hfail⟩, rfl, rfl⟩
  · rintro ⟨⟨j, hj, hnext, hbusy, hstatus, hready, hrocr, hfail⟩, hocr, hswitches⟩
    have heok := sd_app_send_op_cond_eok.mpr ⟨j, hj, rfl, hbusy, hstatus, hready, rfl⟩
    rw [hop] at heok
    obtain ⟨rfl, hrest⟩ := Prod.mk.inj heok
    obtain ⟨rfl, rfl⟩ := Prod.mk.inj hrest
    refine ⟨rfl, hrocr, hfail, ?_⟩
    cases s'
    simp_all

/-- The request of the `k`-th round. -/
def ocrAt (ocr : BitVec 32) (k : ℕ) : BitVec 32 := if k = 0 then ocr else ocr &&& ~~~OCR_S18R

theorem ocrAt_succ (ocr : BitVec 32) (k : ℕ) : ocrAt ocr (k + 1) = ocrAt ocr k &&& ~~~OCR_S18R := by
  cases k with
  | zero => rfl
  | succ k => simp [ocrAt, BitVec.and_assoc]

/-- The card accepts 1.8 V and fails the switch in every round, from the answer `n` on. -/
def Refuses (r : ℕ → Answer) (ocr : BitVec 32) (n : ℕ) : Prop :=
  ∃ p : ℕ → ℕ, p 0 = n ∧ ∀ k, Refused r (ocrAt ocr k) (p k) (p (k + 1))

theorem endless_iff {s : State} : Endless (round r) s ↔ Refuses r s.ocr s.next := by
  constructor
  · rintro ⟨p, rfl, hp⟩
    have hround := fun k => round_inr_iff.mp (hp k)
    have hocr : ∀ k, (p k).ocr = ocrAt (p 0).ocr k := by
      intro k
      induction k with
      | zero => rfl
      | succ k ih =>
          rw [(hround k).2.1, ih, ocrAt_succ]
    refine ⟨fun k => (p k).next, rfl, fun k => ?_⟩
    rw [← hocr k]
    exact (hround k).1
  · rintro ⟨p, hp₀, hp⟩
    refine ⟨fun k => { ocr := ocrAt s.ocr k, next := p k, switches := s.switches + k }, ?_,
      fun k => ?_⟩
    · simp [ocrAt, hp₀]
    · exact round_inr_iff.mpr ⟨hp k, ocrAt_succ s.ocr k, rfl⟩

/-- **When the negotiation ends.**  The loop is left, with an error or without, for every sequence
of answers but those in which the card accepts 1.8 V and fails the switch again and again: the loop
stops asking for it, and looks only at what the card accepts. -/
theorem sd_init_device_ends_iff (r : ℕ → Answer) (hc : Host) (ocr : BitVec 32) (flgs : Bool) :
    (∃ fuel, sd_init_device r hc ocr flgs fuel ≠ none) ↔
      ¬ ∃ ocr', request hc ocr flgs (r 2) = .ok ocr' ∧ Refuses r ocr' 3 := by
  rcases hreq : request hc ocr flgs (r 2) with e | ocr'
  case error => simp [sd_init_device, hreq]
  case ok =>
    simp only [sd_init_device, hreq, rounds_ends_iff, endless_iff, Except.ok.injEq, exists_eq_left']

/-- A card of version 2.0 that answers every request with 1.8 V and fails every switch to it. -/
def faultyCard (n : ℕ) : Answer :=
  if n = 2 then { status := .eok, rsp := SD_SIC_TEST_PATTERN }
  else if n % 2 = 1 then { status := .eok, rsp := OCR_PWRUP_CMP ||| OCR_HCS ||| OCR_S18A }
  else { status := .eio, rsp := 0 }

theorem faultyCard_refuses (ocr : BitVec 32) : Refuses faultyCard ocr 3 := by
  refine ⟨fun k => 3 + 2 * k, rfl, fun k => ?_⟩
  have hodd : faultyCard (3 + 2 * k) =
      { status := .eok, rsp := OCR_PWRUP_CMP ||| OCR_HCS ||| OCR_S18A } := by
    rw [faultyCard, if_neg (by omega), if_pos (by omega)]
  have heven : faultyCard (3 + 2 * k + 1) = { status := .eio, rsp := 0 } := by
    rw [faultyCard, if_neg (by omega), if_neg (by omega)]
  refine ⟨0, by decide, rfl, fun m hm => absurd hm (Nat.not_lt_zero m), ?_⟩
  simp only [Nat.add_zero, hodd, heven]
  exact ⟨trivial, .inr (by decide), by decide, by decide⟩

theorem sd_init_device_endless :
    ¬ ∀ (r : ℕ → Answer) (hc : Host) (ocr : BitVec 32) (flgs : Bool),
      ∃ fuel, sd_init_device r hc ocr flgs fuel ≠ none := by
  intro h
  obtain ⟨fuel, hfuel⟩ := h faultyCard
    { sig_err := false, cap_uhs := true, cap_sv_1_8v := true, cap_xpc := false, bus_mode := false }
    0x00ff8000 false
  have hendless : ∀ s : State, s.next = 3 → Endless (round faultyCard) s := by
    intro s hs
    rw [endless_iff, hs]
    exact faultyCard_refuses s.ocr
  exact hfuel ((hendless _ rfl).rounds fuel)

end Sdmmc.Negotiate
