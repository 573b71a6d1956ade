import RpiBsp.Spi.Definitions

/-!
# Spi — an exchange

A transfer on a controller with two FIFOs, each of `fifo_len` entries.  Before every access the
controller makes any number of steps; each shifts one word out of one FIFO and one into the other.

* `Moving` — what the controller has of a transfer of which `w` words were written and `p` were
read.
* `Waiting` — what holds whenever the driver waits for an interrupt.
* `process_interrupts_spec` — one call of the handler.
* `exchange_run` — a transfer, with any number of interrupts.
-/

namespace Spi

open Support Driver

/-! ### The controller -/

/-- The registers that the driver sets, and the highest threshold that was set. -/
structure Setup where
  imr : BitVec 32
  txftlr : ℕ
  rxftlr : ℕ
  highest : ℕ
deriving DecidableEq, Repr

/-- What is in the controller.  The last three fields are about the time since it was enabled. -/
structure Ctl where
  enabled : Bool
  tx : List (BitVec 32)
  rx : List (BitVec 32)
  setup : Setup
  /-- The words that were shifted out. -/
  shifted : List (BitVec 32)
  /-- The words that were shifted in. -/
  arrived : List (BitVec 32)
  /-- How often there was no room in a FIFO. -/
  overflows : ℕ
deriving DecidableEq, Repr

/-- What goes on before an access: the words that are shifted in, and what the other registers
read. -/
structure Event where
  inputs : List (BitVec 32) := []
  other : Reg → BitVec 32 := fun _ => 0

namespace Ctl

/-- A word is shifted out, and `v` in. -/
def step (F : ℕ) (h : Ctl) (v : BitVec 32) : Ctl :=
  match h.enabled, h.tx with
  | true, c :: rest => { h with
      tx := rest
      shifted := h.shifted ++ [c]
      arrived := h.arrived ++ [v]
      rx := if h.rx.length < F then h.rx ++ [v] else h.rx
      overflows := if h.rx.length < F then h.overflows else h.overflows + 1 }
  | _, _ => h

def run (F : ℕ) (h : Ctl) (inputs : List (BitVec 32)) : Ctl := inputs.foldl (step F) h

def read (F : ℕ) (e : Event) (r : Reg) (h₀ : Ctl) : BitVec 32 × Ctl :=
  let h := h₀.run F e.inputs
  match r with
  | .rxflr => (BitVec.ofNat 32 h.rx.length, h)
  | .imr => (h.setup.imr, h)
  | .dr =>
      match h.rx with
      | [] => (e.other .dr, h)
      | v :: rest => (v, { h with rx := rest })
  | r => (e.other r, h)

/-- A threshold that is not below the depth of the FIFO is not taken. -/
def write (F : ℕ) (e : Event) (r : Reg) (v : BitVec 32) (h₀ : Ctl) : Ctl :=
  let h := h₀.run F e.inputs
  match r with
  | .ssienr =>
      if v = DW_SPI_DISABLE then { h with enabled := false, tx := [], rx := [] }
      else { h with
        enabled := true, shifted := [], arrived := [], overflows := 0, setup :=
          { h.setup with highest := 0 } }
  | .imr => { h with setup := { h.setup with imr := v } }
  | .txftlr =>
      { h with setup := { h.setup with txftlr := if v.toNat < F then v.toNat else h.setup.txftlr } }
  | .rxftlr => { h with
      setup := { h.setup with
        rxftlr := if v.toNat < F then v.toNat else h.setup.rxftlr, highest :=
          max h.setup.highest v.toNat } }
  | .dr =>
      if h.tx.length < F then { h with tx := h.tx ++ [v] }
      else { h with overflows := h.overflows + 1 }
  | _ => h

/-- An interrupt that is not masked: few words to shift out, or many that were shifted in. -/
def Pending (h : Ctl) : Prop :=
  Has h.setup.imr DW_SPI_INT_TXEI ∧ h.tx.length ≤ h.setup.txftlr ∨
  Has h.setup.imr DW_SPI_INT_RXFI ∧ h.setup.rxftlr < h.rx.length

end Ctl

/-- The controller, with FIFOs of `F` entries. -/
def controller (F : ℕ) : Device Event Reg Ctl := ⟨Ctl.read F, Ctl.write F⟩

/-! ### Words under way -/

/-- The words of the original buffer `b`. -/
def words (d : ℕ) (b : ℕ → UInt8) (n : ℕ) : List (BitVec 32) :=
  (List.range n).map fun k => BitVec.ofNat 32 (word d b k)

theorem words_succ (d : ℕ) (b : ℕ → UInt8) (n : ℕ) :
    words d b (n + 1) = words d b n ++ [BitVec.ofNat 32 (word d b n)] := by
  simp [words, List.range_succ]

theorem length_words (d : ℕ) (b : ℕ → UInt8) (n : ℕ) : (words d b n).length = n := by
  simp [words]

/-- The first `w` words of the transfer were written, and `p` words that arrived were read. -/
structure Moving (F d : ℕ) (b : ℕ → UInt8) (w p : ℕ) (h : Ctl) : Prop where
  enabled : h.enabled = true
  sent : h.shifted ++ h.tx = words d b w
  paired : h.arrived.length = h.shifted.length
  rx : h.rx = h.arrived.drop p
  read : p ≤ h.arrived.length
  room : w ≤ p + F / 2
  kept : h.overflows = 0

section Moving

variable {F d : ℕ} {b : ℕ → UInt8} {w p : ℕ} {h : Ctl}

theorem Moving.written (hm : Moving F d b w p h) : h.shifted.length + h.tx.length = w := by
  rw [← List.length_append, hm.sent, length_words]

theorem Moving.waiting (hm : Moving F d b w p h) : h.rx.length = h.arrived.length - p := by
  rw [hm.rx, List.length_drop]

/-- There is always room for a word that is shifted in. -/
theorem Moving.step (hm : Moving F d b w p h) (v : BitVec 32) : Moving F d b w p (h.step F v) := by
  have hwritten := hm.written
  have hwaiting := hm.waiting
  have hpaired := hm.paired
  have hroom := hm.room
  have hread := hm.read
  rw [Ctl.step, hm.enabled]
  split
  · rename_i c rest _ htx
    rw [htx, List.length_cons] at hwritten
    have hfree : h.rx.length < F := by omega
    have hsent := hm.sent
    rw [htx] at hsent
    refine ⟨rfl, ?_, ?_, ?_, ?_, hroom, ?_⟩
    · rw [← hsent, List.append_assoc]
      rfl
    · simp only [List.length_append, List.length_singleton, hpaired]
    · simp only [hfree, if_true]
      rw [List.drop_append_of_le_length hread, hm.rx]
    · simp only [List.length_append, List.length_singleton]
      omega
    · simp only [hfree, if_true]
      exact hm.kept
  · exact hm

theorem Moving.run (inputs : List (BitVec 32)) :
    ∀ {h : Ctl}, Moving F d b w p h → Moving F d b w p (h.run F inputs) := by
  induction inputs with
  | nil => exact fun hm => hm
  | cons v inputs ih => exact fun hm => ih (hm.step v)

theorem step_setup (h : Ctl) (v : BitVec 32) : (h.step F v).setup = h.setup := by
  rw [Ctl.step]
  split <;> rfl

theorem run_setup (inputs : List (BitVec 32)) : ∀ h : Ctl, (h.run F inputs).setup = h.setup := by
  induction inputs with
  | nil => exact fun h => rfl
  | cons v inputs ih => exact fun h => (ih (h.step F v)).trans (step_setup h v)

theorem step_arrived (h : Ctl) (v : BitVec 32) : h.arrived <+: (h.step F v).arrived := by
  rw [Ctl.step]
  split
  · exact List.prefix_append _ _
  · exact List.prefix_refl _

theorem run_arrived (inputs : List (BitVec 32)) : ∀ h :
    Ctl, h.arrived <+: (h.run F inputs).arrived := by
  induction inputs with
  | nil => exact fun h => List.prefix_refl _
  | cons v inputs ih => exact fun h => (step_arrived h v).trans (ih (h.step F v))

end Moving

/-! ### The buffer -/

/-- Of the words `l` that arrived the first `p` are stored in `buf`; behind them it is still the
original `b`. -/
structure Stored (d : ℕ) (b : ℕ → UInt8) (p : ℕ) (l : List (BitVec 32))
    (buf : ℕ → UInt8) : Prop where
  new : ∀ k < p, ∃ v, l[k]? = some v ∧ word d buf k = v.toNat % 256 ^ 2 ^ d
  old : ∀ k, p ≤ k → word d buf k = word d b k

theorem Stored.start (d : ℕ) (b : ℕ → UInt8) (l : List (BitVec 32)) : Stored d b 0 l b :=
  ⟨fun k hk => absurd hk (Nat.not_lt_zero k), fun _ _ => rfl⟩

theorem Stored.mono {d : ℕ} {b : ℕ → UInt8} {p : ℕ} {l l' : List (BitVec 32)} {buf : ℕ → UInt8}
    (h : Stored d b p l buf) (hl : l <+: l') : Stored d b p l' buf := by
  refine ⟨fun k hk => ?_, h.old⟩
  obtain ⟨v, hv, hw⟩ := h.new k hk
  obtain ⟨t, rfl⟩ := hl
  refine ⟨v, ?_, hw⟩
  rw [List.getElem?_append_left (List.getElem?_eq_some_iff.mp hv).1]
  exact hv

theorem word_putWord (d i v : ℕ) (buf : ℕ → UInt8) :
    word d (putWord d i v buf) i = v % 256 ^ 2 ^ d :=
  load_store _ _ _ _

theorem word_putWord_ne {d i j v : ℕ} {buf : ℕ → UInt8} (h : j ≠ i) :
    word d (putWord d i v buf) j = word d buf j := by
  refine load_eq fun k hk => store_outside ?_
  rcases Nat.lt_or_gt_of_ne h with hlt | hgt
  · have hmul : (j + 1) * 2 ^ d ≤ i * 2 ^ d := Nat.mul_le_mul_right _ hlt
    rw [Nat.succ_mul] at hmul
    omega
  · have hmul : (i + 1) * 2 ^ d ≤ j * 2 ^ d := Nat.mul_le_mul_right _ hgt
    rw [Nat.succ_mul] at hmul
    omega

/-- The next word is stored. -/
theorem Stored.put {d : ℕ} {b : ℕ → UInt8} {p : ℕ} {l : List (BitVec 32)} {buf : ℕ → UInt8}
    (h : Stored d b p l buf)
    {v : BitVec 32} (hv : l[p]? = some v) : Stored d b (p + 1) l (putWord d p v.toNat buf) := by
  refine ⟨fun k hk => ?_, fun k hk => ?_⟩
  · by_cases hkp : k = p
    · rw [hkp]
      exact ⟨v, hv, word_putWord d p v.toNat buf⟩
    · rw [word_putWord_ne hkp]
      exact h.new k (by omega)
  · rw [word_putWord_ne (by omega)]
    exact h.old k (by omega)

/-! ### Accesses during a transfer -/

/-- The driver's data are `s` but for the buffer; `l` arrived, and the first `p` words of it are
stored. -/
structure Going (F : ℕ) (b : ℕ → UInt8) (w p : ℕ) (s : DwSpi) (c : Setup) (l : List (BitVec 32))
    (g : Rig DwSpi Ctl) : Prop where
  soft : g.soft = { s with pbuf := g.soft.pbuf }
  moving : Moving F s.dscale b w p g.hard
  setup : g.hard.setup = c
  seen : l <+: g.hard.arrived
  stored : Stored s.dscale b p l g.soft.pbuf

section Going

open Prog (Triple)

variable {F : ℕ} {b : ℕ → UInt8} {w p : ℕ} {s : DwSpi} {c : Setup} {l : List (BitVec 32)}

/-- Every answer. -/
abbrev Any : Event → Prop := fun _ => True

theorem Going.run {g : Rig DwSpi Ctl} (hg : Going F b w p s c l g) (inputs : List (BitVec 32)) :
    Going F b w p s c l ⟨g.soft, g.hard.run F inputs⟩ :=
  ⟨hg.soft, hg.moving.run inputs, (run_setup inputs _).trans hg.setup,
    hg.seen.trans (run_arrived inputs _), hg.stored⟩

theorem read_going {r : Reg} (hr : r ≠ .dr) :
    Triple Any (Going F b w p s c l) (read32 (controller F) r) fun _ => Going F b w p s c l := by
  refine triple_read32 fun e g _ hg => ?_
  have hrun := hg.run e.inputs
  cases r with
  | dr => exact absurd rfl hr
  | _ => exact hrun

/-- As many words are read as have arrived. -/
theorem read_rxflr_going (hF : F < 2 ^ 32) :
    Triple Any (Going F b w p s c l) (read32 (controller F) .rxflr) fun v g =>
      ∃ l', l'.length = p + v.toNat ∧ Going F b w p s c l' g := by
  refine triple_read32 fun e g _ hg => ?_
  have hrun := hg.run e.inputs
  have hwaiting := hrun.moving.waiting
  have hwritten := hrun.moving.written
  have hpaired := hrun.moving.paired
  have hroom := hrun.moving.room
  have hread := hrun.moving.read
  refine ⟨(g.hard.run F e.inputs).arrived, ?_, hrun.soft, hrun.moving, hrun.setup,
    List.prefix_refl _, hrun.stored.mono hrun.seen⟩
  change _ = p + (BitVec.ofNat 32 (g.hard.run F e.inputs).rx.length).toNat
  rw [BitVec.toNat_ofNat, Nat.mod_eq_of_lt (by dsimp only at *; omega)]
  dsimp only at *
  omega

/-- The next word that arrived is read. -/
theorem read_dr_going (hp : p < l.length) :
    Triple Any (Going F b w p s c l) (read32 (controller F) .dr) fun v g =>
      l[p]? = some v ∧ g.soft = { s with pbuf := g.soft.pbuf } ∧
        Moving F s.dscale b w (p + 1) g.hard ∧
      g.hard.setup = c ∧ l <+: g.hard.arrived ∧ Stored s.dscale b p l g.soft.pbuf := by
  refine triple_read32 fun e g _ hg => ?_
  have hrun := hg.run e.inputs
  have hseen := hrun.seen
  have hlen := hseen.length_le
  have hrx := hrun.moving.rx
  dsimp only at hseen hlen hrx
  have hnext : p < (g.hard.run F e.inputs).arrived.length := by omega
  rw [List.drop_eq_getElem_cons hnext] at hrx
  have hval : l[p]? = some ((g.hard.run F e.inputs).arrived[p]) := by
    obtain ⟨t, ht⟩ := hseen
    have happ : (l ++ t)[p]? = l[p]? := List.getElem?_append_left hp
    rw [ht] at happ
    rw [← happ]
    exact List.getElem?_eq_getElem hnext
  change l[p]? = some (Ctl.read F e .dr g.hard).1 ∧ _ ∧
    Moving F s.dscale b w (p + 1) (Ctl.read F e .dr g.hard).2 ∧
    (Ctl.read F e .dr g.hard).2.setup = c ∧ l <+: (Ctl.read F e .dr g.hard).2.arrived ∧ _
  simp only [Ctl.read, hrx]
  have hm := hrun.moving
  refine ⟨hval, hrun.soft, ⟨hm.enabled, hm.sent, hm.paired, rfl, hnext, ?_, hm.kept⟩, hrun.setup,
    hseen, hrun.stored⟩
  have hroom := hm.room
  omega

/-- The next word of the transfer is written. -/
theorem write_dr_going (hroom : w < p + F / 2) :
    Triple Any (Going F b w p s c l)
      (write32 (controller F) .dr (BitVec.ofNat 32 (word s.dscale b w))) fun _ =>
        Going F b (w + 1) p s c l := by
  refine triple_write32 fun e g _ hg => ?_
  have hrun := hg.run e.inputs
  have hm := hrun.moving
  have hwritten := hm.written
  have hread := hm.read
  have hpaired := hm.paired
  dsimp only at hm hwritten hread hpaired
  have hfree : (g.hard.run F e.inputs).tx.length < F := by omega
  change Going F b (w + 1) p s c l ⟨g.soft, Ctl.write F e .dr _ g.hard⟩
  simp only [Ctl.write, hfree, if_true]
  refine ⟨hrun.soft, ⟨hm.enabled, ?_, hpaired, hm.rx, hread, hroom, hm.kept⟩, hrun.setup, hrun.seen,
    hrun.stored⟩
  rw [words_succ, ← hm.sent, List.append_assoc]

/-- A register for interrupts is set. -/
theorem Going.set {g : Rig DwSpi Ctl} (hg : Going F b w p s c l g) {k : Setup} :
    Going F b w p s k l ⟨g.soft, { g.hard with setup := k }⟩ :=
  ⟨hg.soft, ⟨hg.moving.enabled, hg.moving.sent, hg.moving.paired, hg.moving.rx, hg.moving.read,
    hg.moving.room, hg.moving.kept⟩, rfl, hg.seen, hg.stored⟩

theorem write_imr_going (v : BitVec 32) :
    Triple Any (Going F b w p s c l) (write32 (controller F) .imr v) fun _ =>
      Going F b w p s { c with imr := v } l := by
  refine triple_write32 fun e g _ hg => ?_
  have hrun := hg.run e.inputs
  rw [← hrun.setup]
  exact hrun.set

theorem write_txftlr_going {v : BitVec 32} (hv : v.toNat < F) :
    Triple Any (Going F b w p s c l) (write32 (controller F) .txftlr v) fun _ =>
      Going F b w p s { c with txftlr := v.toNat } l := by
  refine triple_write32 fun e g _ hg => ?_
  have hrun := hg.run e.inputs
  change Going F b w p s _ l ⟨g.soft, { g.hard.run F e.inputs with
    setup := { (g.hard.run F e.inputs).setup with txftlr := if v.toNat < F then v.toNat else _ } }⟩
  rw [← hrun.setup, if_pos hv]
  exact hrun.set

theorem write_rxftlr_going {v : BitVec 32} (hv : v.toNat < F) :
    Triple Any (Going F b w p s c l) (write32 (controller F) .rxftlr v) fun _ =>
      Going F b w p s { c with rxftlr := v.toNat, highest := max c.highest v.toNat } l := by
  refine triple_write32 fun e g _ hg => ?_
  have hrun := hg.run e.inputs
  change Going F b w p s _ l ⟨g.soft, { g.hard.run F e.inputs with
    setup := { (g.hard.run F e.inputs).setup with
      rxftlr := if v.toNat < F then v.toNat else _, highest := max _ v.toNat } }⟩
  rw [← hrun.setup, if_pos hv]
  exact hrun.set

/-! ### The FIFOs -/

theorem readWords_going (len : ℕ) : ∀ {p : ℕ}, p + len ≤ l.length →
    Triple Any (Going F b w p s c l) (readWords (controller F) len p) fun _ =>
      Going F b w (p + len) s c l := by
  induction len with
  | zero => exact fun _ => Triple.pure fun g hg => hg
  | succ len ih =>
      intro p hle
      refine Triple.bind (read_dr_going (by omega)) fun v => ?_
      refine Triple.bind (Q := fun _ => Going F b w (p + 1) s c l) (triple_update ?_) fun _ => ?_
      · rintro g ⟨hv, hsoft, hm, hset, hseen, hst⟩
        have hd : g.soft.dscale = s.dscale := by rw [hsoft]
        refine ⟨?_, hm, hset, hseen, ?_⟩
        · rw [hsoft]
        · change Stored s.dscale b (p + 1) l (putWord g.soft.dscale p v.toNat g.soft.pbuf)
          rw [hd]
          exact hst.put hv
      · have hih := ih (p := p + 1) (by omega)
        rw [show p + 1 + len = p + (len + 1) by omega] at hih
        exact hih

theorem writeWords_going (len : ℕ) : ∀ {w : ℕ}, p ≤ w → w + len ≤ p + F / 2 →
    Triple Any (Going F b w p s c l) (writeWords (controller F) len w) fun _ =>
      Going F b (w + len) p s c l := by
  induction len with
  | zero => exact fun _ _ => Triple.pure fun g hg => hg
  | succ len ih =>
      intro w hpw hle
      refine triple_soft_bind fun spi => ?_
      refine Triple.bind (Q := fun _ => Going F b (w + 1) p s c l) ?_ fun _ => ?_
      · refine Triple.at fun g hg => ?_
        obtain ⟨hg, rfl⟩ := hg
        have hd : g.soft.dscale = s.dscale := by rw [hg.soft]
        rw [hd, hg.stored.old w hpw]
        exact (write_dr_going (by omega)).pre fun g' hg' => hg' ▸ hg
      · have hih := ih (w := w + 1) (by omega) (by omega)
        rw [show w + 1 + len = w + (len + 1) by omega] at hih
        exact hih

theorem dw_read_fifo_going (hd : s.dscale ≤ 2) (hp : s.rlen = p) {len : ℕ}
    (hle : p + len ≤ l.length) :
    Triple Any (Going F b w p s c l) (dw_read_fifo (controller F) len) fun _ =>
      Going F b w (p + len) s c l := by
  refine triple_soft_bind fun spi => Triple.at fun g hg => ?_
  obtain ⟨hg, rfl⟩ := hg
  have hdg : g.soft.dscale = s.dscale := by rw [hg.soft]
  have hrg : g.soft.rlen = p := by rw [hg.soft]; exact hp
  refine triple_doIf (fun _ => ?_) fun hbad => absurd (hdg.trans_le hd) hbad
  rw [hrg]
  exact (readWords_going len hle).pre fun g' hg' => hg' ▸ hg

theorem dw_write_fifo_going (hd : s.dscale ≤ 2) (hw : s.tlen = w) (hpw : p ≤ w) {len : ℕ}
    (hle : w + len ≤ p + F / 2) :
    Triple Any (Going F b w p s c l) (dw_write_fifo (controller F) len) fun _ =>
      Going F b (w + len) p s c l := by
  refine triple_soft_bind fun spi => Triple.at fun g hg => ?_
  obtain ⟨hg, rfl⟩ := hg
  have hdg : g.soft.dscale = s.dscale := by rw [hg.soft]
  have htg : g.soft.tlen = w := by rw [hg.soft]; exact hw
  refine triple_doIf (fun _ => ?_) fun hbad => absurd (hdg.trans_le hd) hbad
  rw [htg]
  exact (writeWords_going len hpw hle).pre fun g' hg' => hg' ▸ hg

/-- The driver's data change, but for the buffer and the width. -/
theorem Going.change {g : Rig DwSpi Ctl} (hg : Going F b w p s c l g) (s' : DwSpi)
    (hd : s'.dscale = s.dscale)
    {t : DwSpi} (ht : t = { s' with pbuf := g.soft.pbuf }) : Going F b w p s' c l ⟨t, g.hard⟩ := by
  subst ht
  refine ⟨rfl, ?_, hg.setup, hg.seen, ?_⟩
  · rw [hd]
    exact hg.moving
  · rw [hd]
    exact hg.stored

end Going

/-! ### Waiting for an interrupt -/

/-- The counts were always in order, and never more words under way than half the FIFO has
entries. -/
def Counted (F X : ℕ) (counts : List (ℕ × ℕ)) : Prop :=
  ∀ n ∈ counts, n.2 ≤ n.1 ∧ n.1 ≤ X ∧ n.1 - n.2 ≤ F / 2

/-- How the interrupts are set: with words left to write, for a FIFO that is not full; with none,
for the last words to arrive. -/
structure Armed (F X tlen rlen : ℕ) (c : Setup) : Prop where
  highest : c.highest < F / 2
  filling : tlen < X → c.imr = DW_SPI_INT_MASK ∧ c.txftlr = F / 2
  last : X ≤ tlen → Has c.imr DW_SPI_INT_RXFI ∧ c.rxftlr + 1 = X - rlen

/-- What holds whenever the driver waits. -/
structure Waiting (F X d : ℕ) (b : ℕ → UInt8) (g : Rig DwSpi Ctl) : Prop where
  going : Going F b g.soft.tlen g.soft.rlen g.soft g.hard.setup g.hard.arrived g
  xlen : g.soft.xlen = X
  dscale : g.soft.dscale = d
  fifo_len : g.soft.fifo_len = F
  order : g.soft.rlen ≤ g.soft.tlen
  tlen_le : g.soft.tlen ≤ X
  left : g.soft.rlen < X
  counts : Counted F X g.soft.counts
  armed : Armed F X g.soft.tlen g.soft.rlen g.hard.setup

/-- What holds when a call of the handler ended with `ret`, or the driver still waits. -/
structure Ended (F X d : ℕ) (b : ℕ → UInt8) (ret : Intr) (g : Rig DwSpi Ctl) : Prop where
  counts : Counted F X g.soft.counts
  overflows : g.hard.overflows = 0
  transmitted : ∃ n ≤ X, g.hard.shifted = words d b n
  stored : Stored d b g.soft.rlen g.hard.arrived g.soft.pbuf
  done : ret = .done ↔ g.soft.rlen = X
  highest : g.hard.setup.highest < F / 2

section Call

open Prog (Triple)

variable {F X d : ℕ} {b : ℕ → UInt8}

theorem Moving.transmitted {w p : ℕ} {h : Ctl} (hm : Moving F d b w p h) :
    h.shifted.length ≤ w ∧ h.shifted = words d b h.shifted.length := by
  have hwritten := hm.written
  refine ⟨by omega, ?_⟩
  have htake : (h.shifted ++ h.tx).take h.shifted.length = h.shifted := List.take_left
  rw [hm.sent] at htake
  rw [← htake, words, ← List.map_take, List.take_range, Nat.min_eq_left (by omega), ← words,
    length_words]

theorem Waiting.ended {g : Rig DwSpi Ctl} (h : Waiting F X d b g) : Ended F X d b .continue g where
  counts := h.counts
  overflows := h.going.moving.kept
  transmitted := by
    have hm := h.going.moving
    rw [h.dscale] at hm
    exact ⟨_, hm.transmitted.1.trans h.tlen_le, hm.transmitted.2⟩
  stored := by
    have hst := h.going.stored
    rw [h.dscale] at hst
    exact hst
  done := ⟨fun hret => (nomatch hret), fun heq => absurd heq (Nat.ne_of_lt h.left)⟩
  highest := h.armed.highest

/-- A controller that is switched off. -/
structure Off (F : ℕ) (b : ℕ → UInt8) (w p : ℕ) (s : DwSpi) (c : Setup) (l : List (BitVec 32))
    (g : Rig DwSpi Ctl) : Prop where
  soft : g.soft = { s with pbuf := g.soft.pbuf }
  disabled : g.hard.enabled = false
  overflows : g.hard.overflows = 0
  transmitted : ∃ n ≤ w, g.hard.shifted = words s.dscale b n
  highest : g.hard.setup.highest = c.highest
  seen : l <+: g.hard.arrived
  stored : Stored s.dscale b p l g.soft.pbuf

theorem run_disabled (inputs : List (BitVec 32)) :
    ∀ {h : Ctl}, h.enabled = false → h.run F inputs = h := by
  induction inputs with
  | nil => exact fun _ => rfl
  | cons v inputs ih =>
      intro h hoff
      have hstep : h.step F v = h := by
        rw [Ctl.step, hoff]
      rw [Ctl.run, List.foldl_cons, hstep]
      exact ih hoff

theorem shutDown_off {w p : ℕ} {s : DwSpi} {c : Setup} {l : List (BitVec 32)} :
    Triple Any (Going F b w p s c l) (shutDown (controller F)) fun _ => Off F b w p s c l := by
  refine Triple.bind (Q := fun _ => Off F b w p s c l) (triple_write32 fun e g _ hg => ?_) fun _ =>
    triple_write32 fun e g _ hg => ?_
  · have hrun := hg.run e.inputs
    have hset := hrun.setup
    have hm := hrun.moving
    refine ⟨hrun.soft, rfl, hm.kept, ⟨_, hm.transmitted.1, hm.transmitted.2⟩, ?_, hrun.seen,
      hrun.stored⟩
    exact congrArg Setup.highest hset
  · have hsame : g.hard.run F e.inputs = g.hard := run_disabled _ hg.disabled
    change Off F b w p s c l
      ⟨g.soft, { g.hard.run F
        e.inputs with setup := { (g.hard.run F e.inputs).setup with imr := 0 } }⟩
    rw [hsame]
    exact ⟨hg.soft, hg.disabled, hg.overflows, hg.transmitted, hg.highest, hg.seen, hg.stored⟩

theorem Off.ended {w : ℕ} {s : DwSpi} {c : Setup} {l : List (BitVec 32)} {g : Rig DwSpi Ctl}
    {ret : Intr}
    (h : Off F b w s.rlen s c l g) (hd : s.dscale = d) (hw : w ≤ X) (hcounts : Counted F X s.counts)
    (hdone : ret = .done ↔ s.rlen = X) (hhigh : c.highest < F / 2) : Ended F X d b ret g := by
  subst hd
  have hrlen : g.soft.rlen = s.rlen := by rw [h.soft]
  have hcnt : g.soft.counts = s.counts := by rw [h.soft]
  obtain ⟨n, hn, hsh⟩ := h.transmitted
  refine ⟨by rw [hcnt]; exact hcounts, h.overflows, ⟨n, hn.trans hw, hsh⟩,
    ?_, by rw [hrlen]; exact hdone, ?_⟩
  · rw [hrlen]
    exact h.stored.mono h.seen
  · rw [h.highest]
    exact hhigh

/-- The state behind the words that were read: the interrupts are still set as they were. -/
structure Drained (F X d : ℕ) (b : ℕ → UInt8) (s : DwSpi) (c : Setup) : Prop where
  xlen : s.xlen = X
  dscale : s.dscale = d
  small : d ≤ 2
  fifo_len : s.fifo_len = F
  order : s.rlen ≤ s.tlen
  tlen_le : s.tlen ≤ X
  left : s.rlen < X
  counts : Counted F X s.counts
  highest : c.highest < F / 2
  filling : s.tlen < X → c.imr = DW_SPI_INT_MASK ∧ c.txftlr = F / 2
  imr : Has c.imr DW_SPI_INT_RXFI

theorem read_imr_going {w p : ℕ} {s : DwSpi} {c : Setup} {l : List (BitVec 32)} :
    Triple Any (Going F b w p s c l) (read32 (controller F) .imr) fun v g =>
      v = c.imr ∧ Going F b w p s c l g := by
  refine triple_read32 fun e g _ hg => ?_
  have hrun := hg.run e.inputs
  exact ⟨congrArg Setup.imr hrun.setup, hrun⟩

theorem has_rxfi_masked {im : BitVec 32} (h : Has im DW_SPI_INT_RXFI) :
    Has (im &&& ~~~DW_SPI_INT_TXEI &&& ~~~DW_SPI_INT_TXOI) DW_SPI_INT_RXFI := by
  rw [Has, BitVec.and_assoc, BitVec.and_assoc,
    show ~~~DW_SPI_INT_TXEI &&& (~~~DW_SPI_INT_TXOI &&& DW_SPI_INT_RXFI) =
      DW_SPI_INT_RXFI by decide]
  exact h

theorem Drained.waiting {s : DwSpi} {c c' : Setup} {l : List (BitVec 32)} {g : Rig DwSpi Ctl}
    (hs : Drained F X d b s c)
    (hg : Going F b s.tlen s.rlen s c' l g) (harmed : Armed F X s.tlen s.rlen c') :
      Waiting F X d b g := by
  have ht : g.soft.tlen = s.tlen := by rw [hg.soft]
  have hr : g.soft.rlen = s.rlen := by rw [hg.soft]
  have hdg : g.soft.dscale = s.dscale := by rw [hg.soft]
  refine ⟨?_, ?_, hdg.trans hs.dscale, ?_, ?_, ?_, ?_, ?_, ?_⟩
  · refine ⟨rfl, ?_, rfl, List.prefix_refl _, ?_⟩
    · rw [ht, hr, hdg]
      exact hg.moving
    · rw [hr, hdg]
      exact hg.stored.mono hg.seen
  · rw [hg.soft]
    exact hs.xlen
  · rw [hg.soft]
    exact hs.fifo_len
  · rw [ht, hr]
    exact hs.order
  · rw [ht]
    exact hs.tlen_le
  · rw [hr]
    exact hs.left
  · rw [hg.soft]
    exact hs.counts
  · rw [ht, hr, hg.setup]
    exact harmed

/-- The interrupts are set for the last words. -/
theorem lastWords_waiting (hX : X < 2 ^ 32) {s : DwSpi} {c : Setup} {l : List (BitVec 32)}
    (hs : Drained F X d b s c) :
    Triple Any (Going F b s.tlen s.rlen s c l) (lastWords (controller F)) fun _ =>
      Waiting F X d b := by
  refine triple_soft_bind fun spi => Triple.at fun g hg => ?_
  obtain ⟨hg, rfl⟩ := hg
  have hx : g.soft.xlen = X := by rw [hg.soft]; exact hs.xlen
  have ht : g.soft.tlen = s.tlen := by rw [hg.soft]
  have hr : g.soft.rlen = s.rlen := by rw [hg.soft]
  have hfifo : g.soft.fifo_len = F := by rw [hg.soft]; exact hs.fifo_len
  have hroom := hg.moving.room
  have hleft := hs.left
  have htx := hs.tlen_le
  rw [hx, ht, hr, hfifo]
  refine triple_doIf (fun hall => ?_) fun hmore g' hg' => ?_
  · have hmin : min (subW 32 X s.rlen) (F / SPI_FIFO_LEN_DIV) = X - s.rlen := by
      rw [subW_of_le (Nat.le_of_lt hleft) hX, show F / SPI_FIFO_LEN_DIV = F / 2 from rfl]
      omega
    have hval : (BitVec.ofNat 32
        (subW 32 (min (subW 32 X s.rlen) (F / SPI_FIFO_LEN_DIV)) 1)).toNat = X - s.rlen - 1 := by
      rw [hmin, subW_of_le (by omega) (by omega), BitVec.toNat_ofNat, Nat.mod_eq_of_lt (by omega)]
    refine Triple.bind ((read_imr_going).pre fun g' hg' => hg' ▸ hg) fun im => ?_
    refine Triple.at fun g₁ hg₁ => ?_
    obtain ⟨rfl, hg₁⟩ := hg₁
    refine Triple.pre (P := Going F b s.tlen s.rlen s c l) ?_ fun g' hg' => hg' ▸ hg₁
    refine Triple.bind (write_imr_going _) fun _ => ?_
    refine (write_rxftlr_going (by rw [hval]; omega)).post fun _ g' hg' => hs.waiting hg' ?_
    rw [hval]
    refine ⟨?_, fun hlt => absurd hall (Nat.not_le.mpr hlt), fun _ => ⟨has_rxfi_masked hs.imr, ?_⟩⟩
    · have hhigh := hs.highest
      dsimp only
      omega
    · dsimp only
      omega
  · rw [hg']
    exact hs.waiting hg ⟨hs.highest, hs.filling, fun hall => absurd hall hmore⟩

theorem Counted.snoc {counts : List (ℕ × ℕ)} (h : Counted F X counts) {t r : ℕ} (hrt : r ≤ t)
    (ht : t ≤ X) (hroom : t ≤ r + F / 2) : Counted F X (counts ++ [(t, r)]) := by
  intro n hn
  rcases List.mem_append.mp hn with hn | hn
  · exact h n hn
  · rw [List.mem_singleton.mp hn]
    refine ⟨hrt, ht, ?_⟩
    dsimp only
    omega

/-- No more words are written than were read. -/
theorem refill_drained (hX : X < 2 ^ 32) {s : DwSpi} {c : Setup} {l : List (BitVec 32)} {len : ℕ}
    (hs : Drained F X d b s c) (hroom : s.tlen + len ≤ s.rlen + F / 2) :
    Triple Any (Going F b s.tlen s.rlen s c l) (refill (controller F) len) fun _ g =>
      ∃ s', Drained F X d b s' c ∧ Going F b s'.tlen s'.rlen s' c l g := by
  refine triple_soft_bind fun spi => Triple.at fun g hg => ?_
  obtain ⟨hg, rfl⟩ := hg
  have hx : g.soft.xlen = X := by rw [hg.soft]; exact hs.xlen
  have ht : g.soft.tlen = s.tlen := by rw [hg.soft]
  rw [hx, ht]
  refine triple_doIf (fun hmore => ?_) fun _ g' hg' => ⟨s, hs, hg' ▸ hg⟩
  rw [subW_of_le (Nat.le_of_lt hmore) hX]
  have hsum : s.tlen + min len (X - s.tlen) ≤ X := by omega
  have hadd : addW 32 s.tlen (min len (X - s.tlen)) = s.tlen + min len (X - s.tlen) :=
    addW_of_lt (by omega)
  have horder := hs.order
  have hd : s.dscale ≤ 2 := hs.dscale.trans_le hs.small
  have hfit : s.tlen + min len (X - s.tlen) ≤ s.rlen + F / 2 := by omega
  refine Triple.bind ((dw_write_fifo_going hd rfl horder hfit).pre fun g' hg' => hg' ▸ hg) fun _ =>
    triple_update fun g' hg' => ?_
  refine ⟨s.sent (min len (X - s.tlen)),
    ⟨hs.xlen, hs.dscale, hs.small, hs.fifo_len, ?_, ?_, hs.left, ?_, hs.highest,
    fun _ => hs.filling hmore, hs.imr⟩, ?_⟩
  · change s.rlen ≤ addW 32 s.tlen _
    omega
  · change addW 32 s.tlen _ ≤ X
    omega
  · change Counted F X (s.counts ++ [(addW 32 s.tlen _, s.rlen)])
    rw [hadd]
    exact hs.counts.snoc (by omega) hsum (by omega)
  · change Going F b (addW 32 s.tlen _) s.rlen _ c l _
    rw [hadd]
    refine hg'.change (s.sent (min len (X - s.tlen))) rfl ?_
    rw [hg'.soft]
    rfl

/-- The words that were read are counted. -/
theorem received_going {s : DwSpi} {c : Setup} {l : List (BitVec 32)} {len : ℕ}
    (hfits : s.rlen + len < 2 ^ 32) :
    Triple Any (Going F b s.tlen (s.rlen + len) s c l) (update fun spi => spi.received len) fun _ =>
      Going F b (s.received len).tlen (s.received len).rlen (s.received len) c l := by
  have hadd : addW 32 s.rlen len = s.rlen + len := addW_of_lt hfits
  refine triple_update fun g hg => ?_
  change Going F b s.tlen (addW 32 s.rlen len) (s.received len) c l ⟨g.soft.received len, g.hard⟩
  rw [hadd]
  refine hg.change (s.received len) rfl ?_
  rw [hg.soft]
  rfl

theorem Armed.rxfi {tlen rlen : ℕ} {c : Setup} (h : Armed F X tlen rlen c) :
    Has c.imr DW_SPI_INT_RXFI := by
  by_cases hlt : tlen < X
  · rw [(h.filling hlt).1]
    decide
  · exact (h.last (Nat.le_of_not_lt hlt)).1

/-- What follows the words that were read. -/
theorem rest_spec (hX : X < 2 ^ 32) {s : DwSpi} {c : Setup} {l : List (BitVec 32)} {len : ℕ}
    (hd : s.dscale = d)
    (hsmall : d ≤ 2) (hx : s.xlen = X) (hfifo : s.fifo_len = F) (horder : s.rlen ≤ s.tlen)
    (htlen : s.tlen ≤ X)
    (hcounts : Counted F X s.counts) {r : ℕ} (harmed : Armed F X s.tlen r c)
    (hroom : s.tlen + len ≤ s.rlen + F / 2) :
    Triple Any (Going F b s.tlen s.rlen s c l) (do
      let spi ← soft
      if spi.rlen = spi.xlen then
        shutDown (controller F)
        return Intr.done
      else
        refill (controller F) len
        lastWords (controller F)
        return Intr.continue) fun ret g => Ended F X d b ret g ∧
        (ret = .continue → Waiting F X d b g) := by
  refine triple_soft_bind fun spi => Triple.at fun g hg => ?_
  obtain ⟨hg, rfl⟩ := hg
  have hxg : g.soft.xlen = X := by rw [hg.soft]; exact hx
  have hrg : g.soft.rlen = s.rlen := by rw [hg.soft]
  rw [hxg, hrg]
  refine Triple.pre (P := Going F b s.tlen s.rlen s c l) ?_ fun g' hg' => hg' ▸ hg
  refine Triple.ite (fun hall => ?_) fun hmore => ?_
  · refine Triple.bind shutDown_off fun _ => Triple.pure fun g hg => ⟨?_, fun h => (nomatch h)⟩
    exact hg.ended hd htlen hcounts ⟨fun _ => hall, fun _ => rfl⟩ harmed.highest
  · have hs : Drained F X d b s c :=
      ⟨hx, hd, hsmall, hfifo, horder, htlen, by omega, hcounts, harmed.highest,
      harmed.filling, harmed.rxfi⟩
    refine Triple.bind (refill_drained hX hs hroom) fun _ => Triple.at fun g₂ hg₂ => ?_
    obtain ⟨s', hs', hg₂⟩ := hg₂
    refine Triple.pre (P := Going F b s'.tlen s'.rlen s' c l) ?_ fun g' hg' => hg' ▸ hg₂
    exact Triple.bind (lastWords_waiting hX hs') fun _ => Triple.pure fun g hg =>
      ⟨hg.ended, fun _ => hg⟩

/-- **The handler**: it goes on waiting, or ends the transfer. -/
theorem process_interrupts_spec (hF : F < 2 ^ 32) (hX : X < 2 ^ 32) (hsmall : d ≤ 2) :
    Triple Any (Waiting F X d b) (dw_process_interrupts (controller F)) fun ret g =>
      Ended F X d b ret g ∧ (ret = .continue → Waiting F X d b g) := by
  refine Triple.at fun g₀ hw => ?_
  have hstart : ∀ g, g = g₀ →
      Going F b g₀.soft.tlen g₀.soft.rlen g₀.soft g₀.hard.setup g₀.hard.arrived g :=
    fun g hg => hg ▸ hw.going
  have herr : Triple Any (Going F b g₀.soft.tlen g₀.soft.rlen g₀.soft g₀.hard.setup g₀.hard.arrived)
    (do
      shutDown (controller F)
      return Intr.err) fun ret g => Ended F X d b ret g ∧
      (ret = .continue → Waiting F X d b g) := by
    refine Triple.bind shutDown_off fun _ => Triple.pure fun g hg => ⟨?_, fun h => (nomatch h)⟩
    refine hg.ended hw.dscale hw.tlen_le hw.counts ?_ hw.armed.highest
    exact ⟨fun h => (nomatch h), fun h => absurd h (Nat.ne_of_lt hw.left)⟩
  refine Triple.bind ((read_going (by decide)).pre hstart) fun value => ?_
  refine Triple.ite (fun _ => herr) fun _ => Triple.ite (fun _ => herr) fun _ => ?_
  refine Triple.bind (read_rxflr_going hF) fun len => Triple.at fun g₁ hg₁ => ?_
  obtain ⟨l, hlen, hg₁⟩ := hg₁
  -- no more words arrive than were written
  have hle : g₀.soft.rlen + len.toNat ≤ g₀.soft.tlen := by
    have hseen := hg₁.seen.length_le
    have hpaired := hg₁.moving.paired
    have hwritten := hg₁.moving.written
    omega
  have htlen := hw.tlen_le
  have hroom := hw.going.moving.room
  have hadd : addW 32 g₀.soft.rlen len.toNat = g₀.soft.rlen + len.toNat := addW_of_lt (by omega)
  refine Triple.pre (P := Going F b g₀.soft.tlen g₀.soft.rlen g₀.soft g₀.hard.setup l) ?_
    fun g' hg' => hg' ▸ hg₁
  refine Triple.bind (dw_read_fifo_going (hw.dscale.trans_le hsmall) rfl
    (show g₀.soft.rlen + len.toNat ≤ l.length by omega)) fun _ => ?_
  refine Triple.bind (received_going (by omega)) fun _ => ?_
  have hrlen : (g₀.soft.received len.toNat).rlen = g₀.soft.rlen + len.toNat := hadd
  refine rest_spec hX hw.dscale hsmall hw.xlen hw.fifo_len ?_ htlen ?_ hw.armed ?_
  · rw [hrlen]
    exact hle
  · change Counted F X (g₀.soft.counts ++ [(g₀.soft.tlen, addW 32 g₀.soft.rlen len.toNat)])
    rw [hadd]
    exact hw.counts.snoc hle htlen (by omega)
  · rw [hrlen]
    change g₀.soft.tlen + _ ≤ _
    omega

/-- **The wait**: after any number of interrupts. -/
theorem calls_spec (hF : F < 2 ^ 32) (hX : X < 2 ^ 32) (hsmall : d ≤ 2) (rounds : ℕ) :
    Triple Any (Waiting F X d b) (calls (controller F) rounds) fun ret g =>
      Ended F X d b ret g ∧ (ret = .continue → Waiting F X d b g) := by
  induction rounds with
  | zero => exact Triple.pure fun g hg => ⟨hg.ended, fun _ => hg⟩
  | succ rounds ih =>
      refine Triple.bind (process_interrupts_spec hF hX hsmall) fun status => ?_
      refine Triple.ite (fun hstatus => ih.pre fun g hg => hg.2 hstatus) fun _ =>
        Triple.pure fun g hg => hg

/-! ### An interrupt to come -/

/-- All words are shifted out. -/
theorem Moving.flushed (n : ℕ) : ∀ {w p : ℕ} {h : Ctl}, Moving F d b w p h → h.tx.length = n →
    (h.run F (List.replicate n 0)).tx = [] := by
  induction n with
  | zero => exact fun _ hn => List.length_eq_zero_iff.mp hn
  | succ n ih =>
      intro w p h hm hn
      refine ih (hm.step 0) ?_
      rw [Ctl.step, hm.enabled]
      split
      · rename_i c rest _ htx
        rw [htx, List.length_cons] at hn
        exact Nat.succ.inj hn
      · rename_i hnone
        cases htx : h.tx with
        | nil =>
            rw [htx] at hn
            exact absurd hn (Nat.zero_ne_add_one n)
        | cons c rest => exact absurd htx (hnone c rest rfl)

/-- While the driver waits, the controller comes to an interrupt by itself. -/
theorem Waiting.live {g : Rig DwSpi Ctl} (h : Waiting F X d b g) :
    ∃ inputs, (g.hard.run F inputs).Pending := by
  have hm := h.going.moving
  have hwritten := hm.written
  have hpaired := hm.paired
  have hread := hm.read
  have hroom := hm.room
  by_cases hlt : g.soft.tlen < X
  · obtain ⟨himr, htxf⟩ := h.armed.filling hlt
    refine ⟨[], Or.inl ⟨?_, ?_⟩⟩
    · change Has g.hard.setup.imr DW_SPI_INT_TXEI
      rw [himr]
      decide
    · change g.hard.tx.length ≤ g.hard.setup.txftlr
      omega
  · obtain ⟨himr, hrxf⟩ := h.armed.last (Nat.le_of_not_lt hlt)
    have hle := h.tlen_le
    have hempty := hm.flushed g.hard.tx.length rfl
    have hm' := hm.run (List.replicate g.hard.tx.length 0)
    have hset : (g.hard.run F (List.replicate g.hard.tx.length 0)).setup = g.hard.setup :=
      run_setup _ _
    have hwritten' := hm'.written
    have hwaiting' := hm'.waiting
    have hpaired' := hm'.paired
    refine ⟨List.replicate g.hard.tx.length 0, Or.inr ⟨?_, ?_⟩⟩
    · rw [hset]
      exact himr
    · rw [hempty, List.length_nil] at hwritten'
      rw [hset]
      omega

/-! ### The start -/

/-- What the driver has of a transfer that is prepared. -/
structure Prepared (F X d : ℕ) (b : ℕ → UInt8) (s : DwSpi) : Prop where
  pbuf : s.pbuf = b
  xlen : s.xlen = X
  dscale : s.dscale = d
  fifo_len : s.fifo_len = F
  tlen : s.tlen = 0
  rlen : s.rlen = 0
  counts : s.counts = [(0, 0)]

theorem write_ser_going {w p : ℕ} {s : DwSpi} {c : Setup} {l : List (BitVec 32)} (v : BitVec 32) :
    Triple Any (Going F b w p s c l) (write32 (controller F) .ser v) fun _ => Going F b w p s c l :=
  triple_write32 fun e _ _ hg => hg.run e.inputs

theorem select_slave_going {w p : ℕ} {s : DwSpi} {c : Setup} {l : List (BitVec 32)} (slv : ℕ) :
    Triple Any (Going F b w p s c l) (dw_spi_select_slave (controller F) slv) fun _ =>
      Going F b w p s c l := by
  refine Triple.bind (Q := fun _ => Going F b w p s c l) ?_ fun busy =>
    triple_doIf (fun _ => write_ser_going _) fun _ g hg => hg
  exact Triple.bind (read_going (by decide)) fun value => Triple.pure fun g hg => hg

/-- After the reset the FIFOs are empty. -/
theorem reset_going {s : DwSpi} :
    Triple Any (fun g => g.soft = s) (dw_device_reset (controller F)) fun _ g =>
      ∃ c : Setup, c.highest = 0 ∧ Going F s.pbuf 0 0 s c [] g := by
  refine Triple.bind (Q := fun _ g => g.soft = s ∧ g.hard.enabled = false ∧ g.hard.tx = [] ∧
    g.hard.rx = [])
    (triple_write32 fun e g _ hg => ⟨hg, rfl, rfl, rfl⟩) fun _ => triple_write32 fun e g _ hg => ?_
  obtain ⟨hsoft, hoff, htx, hrx⟩ := hg
  have hsame : g.hard.run F e.inputs = g.hard := run_disabled _ hoff
  refine ⟨{ g.hard.setup with highest := 0 }, rfl, ?_⟩
  change Going F s.pbuf 0 0 s _ [] ⟨g.soft, { g.hard.run F e.inputs with
    enabled := true, shifted := [], arrived := [], overflows := 0,
    setup := { (g.hard.run F e.inputs).setup with highest := 0 } }⟩
  rw [hsame, hsoft]
  refine ⟨rfl, ⟨rfl, ?_, rfl, ?_, Nat.le_refl 0, Nat.zero_le _, rfl⟩, rfl, List.prefix_refl _,
    Stored.start _ _ _⟩
  · change [] ++ g.hard.tx = words s.dscale s.pbuf 0
    rw [htx]
    rfl
  · exact hrx

/-- What the driver has once `len` words were written. -/
structure Filled (F X d len : ℕ) (s : DwSpi) : Prop where
  xlen : s.xlen = X
  dscale : s.dscale = d
  fifo_len : s.fifo_len = F
  tlen : s.tlen = len
  rlen : s.rlen = 0
  counts : Counted F X s.counts

theorem Prepared.filled {s : DwSpi} (hp : Prepared F X d b s) {len : ℕ} (hX : X < 2 ^ 32)
    (hlen : len ≤ X) (hroom : len ≤ F / 2) : Filled F X d len (s.sent len) := by
  have htlen : (s.sent len).tlen = len := by
    change addW 32 s.tlen len = len
    rw [hp.tlen, addW_of_lt (by omega)]
    exact Nat.zero_add len
  refine ⟨hp.xlen, hp.dscale, hp.fifo_len, htlen, hp.rlen, ?_⟩
  have hstart : Counted F X [(0, 0)] := by
    intro n hn
    rw [List.mem_singleton.mp hn]
    exact ⟨Nat.le_refl 0, Nat.zero_le X, Nat.zero_le _⟩
  change Counted F X (s.counts ++ [((s.sent len).tlen, s.rlen)])
  rw [hp.counts, hp.rlen, htlen]
  exact hstart.snoc (Nat.zero_le len) hlen (by omega)

/-- With the interrupts set, the driver can wait. -/
theorem Filled.waiting {s : DwSpi} {c : Setup} {len : ℕ} {g : Rig DwSpi Ctl}
    (hf : Filled F X d len s) (hsmall : d ≤ 2)
    (hX : 1 ≤ X) (hlen : len ≤ X) (harmed : Armed F X len 0 c) (hg : Going F b len 0 s c [] g) :
      Waiting F X d b g := by
  rw [← hf.tlen, ← hf.rlen] at harmed hg
  have horder : s.rlen ≤ s.tlen := hf.rlen.trans_le (Nat.zero_le _)
  exact Drained.waiting ⟨hf.xlen, hf.dscale, hsmall, hf.fifo_len, horder, hf.tlen.trans_le hlen,
    hf.rlen.trans_lt hX, hf.counts, harmed.highest, harmed.filling, harmed.rxfi⟩ hg harmed

/-- The thresholds are set, and the slave is selected. -/
theorem arm_waiting (hF : 2 ≤ F) (hF32 : F < 2 ^ 32) (hX : 1 ≤ X) (hsmall : d ≤ 2) {s : DwSpi}
    {c : Setup} {len : ℕ}
    (devno : ℕ) (hlen : min X (F / 2) = len) (hf : Filled F X d len s) (hc : c.highest = 0) :
    Triple Any (Going F b len 0 s c []) (do
      let spi ← soft
      if spi.tlen < spi.xlen then
        write32 (controller F) .imr DW_SPI_INT_MASK
        write32 (controller F) .rxftlr (BitVec.ofNat 32 (subW 32 len 1))
        write32 (controller F) .txftlr (BitVec.ofNat 32 len)
        dw_spi_select_slave (controller F) devno
      else
        write32 (controller F) .imr (DW_SPI_INT_RXUI ||| DW_SPI_INT_RXOI ||| DW_SPI_INT_RXFI)
        write32 (controller F) .rxftlr (BitVec.ofNat 32 (subW 32 len 1))
        dw_spi_select_slave (controller F) devno) fun _ => Waiting F X d b := by
  have hle : len ≤ X := by omega
  have hone : (BitVec.ofNat 32 (subW 32 len 1)).toNat = len - 1 := by
    rw [subW_of_le (by omega) (by omega), BitVec.toNat_ofNat, Nat.mod_eq_of_lt (by omega)]
  have hall : (BitVec.ofNat 32 len).toNat = len := by
    rw [BitVec.toNat_ofNat, Nat.mod_eq_of_lt (by omega)]
  refine triple_soft_bind fun spi => Triple.at fun g hg => ?_
  obtain ⟨hg, rfl⟩ := hg
  have hx : g.soft.xlen = X := by rw [hg.soft]; exact hf.xlen
  have ht : g.soft.tlen = len := by rw [hg.soft]; exact hf.tlen
  rw [hx, ht]
  refine Triple.pre (P := Going F b len 0 s c []) ?_ fun g' hg' => hg' ▸ hg
  refine Triple.ite (fun hmore => ?_) fun hnone => ?_
  · refine Triple.bind (write_imr_going _) fun _ => ?_
    refine Triple.bind (write_rxftlr_going (by rw [hone]; omega)) fun _ => ?_
    refine Triple.bind (write_txftlr_going (by rw [hall]; omega)) fun _ => ?_
    refine (select_slave_going devno).post fun _ g' hg' => hf.waiting hsmall hX hle ?_ hg'
    rw [hone, hall, hc]
    refine ⟨?_, fun _ => ⟨rfl, ?_⟩, fun hbad => absurd hmore (Nat.not_lt.mpr hbad)⟩
    · change max 0 (len - 1) < F / 2
      omega
    · change len = F / 2
      omega
  · refine Triple.bind (write_imr_going _) fun _ => ?_
    refine Triple.bind (write_rxftlr_going (by rw [hone]; omega)) fun _ => ?_
    refine (select_slave_going devno).post fun _ g' hg' => hf.waiting hsmall hX hle ?_ hg'
    have hrxfi : Has (DW_SPI_INT_RXUI ||| DW_SPI_INT_RXOI ||| DW_SPI_INT_RXFI) DW_SPI_INT_RXFI := by
      decide
    rw [hone, hc]
    refine ⟨?_, fun hbad => absurd hbad hnone, fun _ => ⟨hrxfi, ?_⟩⟩
    · change max 0 (len - 1) < F / 2
      omega
    · change len - 1 + 1 = X - 0
      omega

/-- The first words are written. -/
theorem prefill_waiting (hF : 2 ≤ F) (hF32 : F < 2 ^ 32) (hX : 1 ≤ X) (hX32 : X < 2 ^ 32)
    (hsmall : d ≤ 2) (devno : ℕ) :
    Triple Any (fun g => Prepared F X d b g.soft) (prefill (controller F) devno) fun _ =>
      Waiting F X d b := by
  refine Triple.bind (Q := fun _ g => Prepared F X d b g.soft) (triple_write32 fun e g _ hg => hg)
    fun _ => ?_
  refine Triple.at fun g₀ hp => ?_
  obtain ⟨s, h₀⟩ := g₀
  dsimp only at hp
  refine Triple.bind ((reset_going (s := s)).pre fun g hg => congrArg Rig.soft hg) fun _ =>
    Triple.at fun g₁ hg₁ => ?_
  obtain ⟨c, hc, hg₁⟩ := hg₁
  rw [hp.pbuf] at hg₁
  refine Triple.pre (P := Going F b 0 0 s c []) ?_ fun g hg => hg ▸ hg₁
  refine triple_soft_bind fun spi => Triple.at fun g₂ hg₂ => ?_
  obtain ⟨hg₂, rfl⟩ := hg₂
  have hx : g₂.soft.xlen = X := by rw [hg₂.soft]; exact hp.xlen
  have hfifo : g₂.soft.fifo_len = F := by rw [hg₂.soft]; exact hp.fifo_len
  rw [hx, hfifo, show SPI_FIFO_LEN_DIV = 2 from rfl]
  generalize hlen : min X (F / 2) = len
  refine Triple.bind ((dw_write_fifo_going (hp.dscale.trans_le hsmall) hp.tlen (Nat.le_refl 0)
    (show 0 + len ≤ 0 + F / 2 by omega)).pre fun g hg => hg ▸ hg₂) fun _ => ?_
  refine Triple.bind (Q := fun _ => Going F b len 0 (s.sent len) c []) (triple_update fun g hg =>
    ?_) fun _ => ?_
  · rw [Nat.zero_add] at hg
    refine hg.change (s.sent len) rfl ?_
    rw [hg.soft]
    rfl
  · exact arm_waiting hF hF32 hX hsmall devno hlen (hp.filled hX32 (by omega) (by omega)) hc

/-- The length in words of a transfer. -/
def Cfg.wordsIn (cfg : Cfg) (tnbytes rnbytes : ℕ) : ℕ := max tnbytes rnbytes / 2 ^ dscales cfg.bytes

theorem dscales_le : ∀ n, dscales n ≤ 2
  | 0 => by decide
  | 1 => by decide
  | 2 => by decide
  | _ + 3 => Nat.le_refl 2

/-- If the transfer can be made, it is prepared. -/
theorem prepare_prepared (cfg : Cfg) (tnbytes rnbytes : ℕ) :
    Triple Any (fun g => g.soft.fifo_len = F ∧ g.soft.pbuf = b)
        (dw_prepare_for_transfer (controller F) cfg tnbytes rnbytes)
      fun ok g => ok = true → 1 ≤ cfg.wordsIn tnbytes rnbytes ∧
        Prepared F (cfg.wordsIn tnbytes rnbytes) (dscales cfg.bytes) b g.soft := by
  have hfail : ∀ P : Rig DwSpi Ctl →
      Prop, Triple Any P (pure false : SpiM Event Ctl Bool) fun ok g => ok = true →
      1 ≤ cfg.wordsIn tnbytes rnbytes ∧
      Prepared F (cfg.wordsIn tnbytes rnbytes) (dscales cfg.bytes) b g.soft :=
    fun P => Triple.pure fun g _ h => (nomatch h)
  -- what is set by the time the length is known
  let Sized : Rig DwSpi Ctl → Prop := fun g => g.soft.fifo_len = F ∧ g.soft.pbuf = b ∧
    g.soft.xlen = cfg.wordsIn tnbytes rnbytes ∧ g.soft.dscale = dscales cfg.bytes
  refine Triple.ite (fun _ => hfail _) fun _ => ?_
  refine Triple.bind (Q := fun _ g => g.soft.fifo_len = F ∧ g.soft.pbuf = b)
    (triple_write32 fun e g _ hg => hg) fun _ => ?_
  refine Triple.bind (Q := fun _ => Sized) (triple_update fun g hg => ⟨hg.1, hg.2, rfl, rfl⟩)
    fun _ => ?_
  refine triple_soft_bind fun spi => Triple.ite (fun _ => hfail _) fun hsize =>
    Triple.ite (fun _ => hfail _) fun _ => ?_
  refine Triple.at fun g hg => ?_
  obtain ⟨hg, rfl⟩ := hg
  have hpos : 1 ≤ cfg.wordsIn tnbytes rnbytes := by
    have hx := hg.2.2.1
    omega
  refine Triple.pre (P := Sized) ?_ fun g' hg' => hg' ▸ hg
  refine Triple.bind (Q := fun _ => Sized) (triple_update fun g hg => hg) fun _ => ?_
  refine Triple.bind (Q := fun _ => Sized) (triple_read32 fun e g _ hg => hg) fun _ => ?_
  refine Triple.bind (Q := fun _ => Sized) (triple_update fun g hg => hg) fun _ => ?_
  refine triple_soft_bind fun _ => Triple.pre (P := Sized) ?_ fun g hg => hg.1
  refine Triple.bind (Q := fun _ => Sized) (triple_write32 fun e g _ hg => hg) fun _ => ?_
  refine Triple.bind (Q := fun _ => Sized) (triple_write32 fun e g _ hg => hg) fun _ => ?_
  refine Triple.bind (Q := fun _ => Sized) (triple_write32 fun e g _ hg => hg) fun _ => ?_
  refine Triple.bind
    (Q := fun _ g => Prepared F (cfg.wordsIn tnbytes rnbytes) (dscales cfg.bytes) b g.soft)
    (triple_update fun g hg => ⟨hg.2.1, hg.2.2.1, hg.2.2.2, hg.1, rfl, rfl, rfl⟩) fun _ => ?_
  exact Triple.pure fun g hg _ => ⟨hpos, hg⟩

/-- **The start**: a transfer that comes to the wait is one of at least one word, and it waits as it
should. -/
theorem begin_waiting (hF : 2 ≤ F) (hF32 : F < 2 ^ 32) {cfg : Cfg} {tnbytes rnbytes : ℕ}
    (ht : tnbytes < 2 ^ 32) (hr : rnbytes < 2 ^ 32) (devno : ℕ) :
    Triple Any (fun g => g.soft.fifo_len = F) (begin (controller F) cfg devno b tnbytes rnbytes)
      fun ret g =>
        ret = none → Waiting F (cfg.wordsIn tnbytes rnbytes) (dscales cfg.bytes) b g := by
  have hX32 : cfg.wordsIn tnbytes rnbytes < 2 ^ 32 := by
    have hdiv : cfg.wordsIn tnbytes rnbytes ≤ max tnbytes rnbytes := Nat.div_le_self _ _
    omega
  refine Triple.bind (Q := fun _ g => g.soft.fifo_len = F) ?_ fun busy => ?_
  · exact Triple.bind (Q := fun _ g => g.soft.fifo_len = F) (triple_read32 fun e g _ hg => hg)
      fun _ => Triple.pure fun g hg => hg
  refine Triple.ite (fun _ => Triple.pure fun g _ h => (nomatch h)) fun _ => ?_
  refine Triple.bind (Q := fun _ g => g.soft.fifo_len = F ∧ g.soft.pbuf = b)
    (triple_update fun g hg => ⟨hg, rfl⟩) fun _ => ?_
  refine Triple.bind (prepare_prepared cfg tnbytes rnbytes) fun ok => ?_
  refine Triple.ite (fun _ => Triple.pure fun g _ h => (nomatch h)) fun hok =>
    Triple.at fun g hg => ?_
  obtain ⟨hX, hp⟩ := hg (Bool.eq_true_of_not_eq_false hok)
  refine Triple.bind ((prefill_waiting hF hF32 hX hX32 (dscales_le _) devno).pre fun g' hg' =>
    hg' ▸ hp) fun _ => ?_
  exact Triple.pure fun g hg _ => hg

/-! ### A transfer -/

/-- A supported word width, a clock, and bytes that are a whole number of words. -/
structure Cfg.Valid (cfg : Cfg) (tnbytes rnbytes : ℕ) : Prop where
  width : SPI_MIN_WORD_WIDTH < cfg.nbits ∧ cfg.nbits ≤ SPI_MAX_WORD_WIDTH
  clock : cfg.clock_rate ≠ 0
  nonempty : 1 ≤ cfg.wordsIn tnbytes rnbytes
  whole : max tnbytes rnbytes = cfg.wordsIn tnbytes rnbytes * 2 ^ dscales cfg.bytes

theorem prepare_valid {cfg : Cfg} {tnbytes rnbytes : ℕ} (hv : cfg.Valid tnbytes rnbytes) :
    Soft (fun _ => True) (dw_prepare_for_transfer (controller F) cfg tnbytes rnbytes) fun ok _ =>
      ok = true := by
  refine Soft.ite (fun hbad => absurd hv.width (by omega)) fun _ => ?_
  refine Soft.bind (Q := fun _ _ => True) (Soft.write32 fun _ h => h) fun _ => ?_
  refine Soft.bind (Q := fun _ s => s.xlen = cfg.wordsIn tnbytes rnbytes ∧
    s.dscale = dscales cfg.bytes) (Soft.update fun _ _ => ⟨rfl, rfl⟩) fun _ => ?_
  refine Soft.soft_bind fun s hs => Soft.ite (fun hbad => ?_) fun _ =>
    Soft.ite (fun hbad => absurd hbad hv.clock) fun _ => ?_
  · rw [hs.1, hs.2] at hbad
    rcases hbad with hzero | hpart
    · exact absurd hzero (Nat.one_le_iff_ne_zero.mp hv.nonempty)
    · exact absurd hv.whole hpart
  · refine Soft.bind (Q := fun _ _ => True) (Soft.update fun _ _ => trivial) fun _ => ?_
    refine Soft.bind (Q := fun _ _ => True) (Soft.read32 fun _ _ h => h) fun _ => ?_
    refine Soft.bind (Q := fun _ _ => True) (Soft.update fun _ h => h) fun _ =>
      Soft.soft_bind fun _ _ => ?_
    refine Soft.bind (Q := fun _ _ => True) (Soft.write32 fun _ _ => trivial) fun _ => ?_
    refine Soft.bind (Q := fun _ _ => True) (Soft.write32 fun _ h => h) fun _ => ?_
    refine Soft.bind (Q := fun _ _ => True) (Soft.write32 fun _ h => h) fun _ => ?_
    refine Soft.bind (Q := fun _ _ => True) (Soft.update fun _ h => h) fun _ => ?_
    exact Soft.pure fun _ _ => rfl

/-- A valid transfer comes to the wait, unless the controller is busy. -/
theorem begin_valid {cfg : Cfg} {tnbytes rnbytes : ℕ} (hv : cfg.Valid tnbytes rnbytes) (devno : ℕ)
    {a : ℕ → Event} {g : Rig DwSpi Ctl} (hidle : ¬ Has ((a 0).other .sr) DW_SPI_SR_BUSY) :
    (begin (controller F) cfg devno b tnbytes rnbytes a (g, 0)).1 = none := by
  have hbusy : (dw_spi_busy (controller F) a (g, 0)).1 = false := decide_eq_false hidle
  rw [begin, Prog.bind_apply, hbusy]
  have hok := prepare_valid (F := F) hv a
    ⟨{ g.soft with pbuf := b }, (dw_spi_busy (controller F) a (g, 0)).2.1.hard⟩ 1 trivial
  rw [if_neg (by decide), Prog.bind_apply, Prog.bind_apply, if_neg]
  · rfl
  · intro hno
    exact absurd (hok.symm.trans hno) (by decide)

/-- **A transfer, with any number of interrupts, and any steps of the controller before each
access**: the counts are in order and at most half a FIFO of words is under way; no FIFO overflows;
the words of the original buffer are shifted out in their order, and the words that are shifted in
are stored in theirs; the handler says that the transfer is done when all words were received; the
thresholds are in range; and while the driver waits, an interrupt comes. -/
theorem exchange_run (hF : 2 ≤ F) (hF32 : F < 2 ^ 32) {cfg : Cfg} {tnbytes rnbytes : ℕ}
    (hv : cfg.Valid tnbytes rnbytes)
    (ht : tnbytes < 2 ^ 32) (hr : rnbytes < 2 ^ 32) (devno : ℕ) (a : ℕ → Event) {g : Rig DwSpi Ctl}
    (hfifo : g.soft.fifo_len = F) (hidle : ¬ Has ((a 0).other .sr) DW_SPI_SR_BUSY) (rounds : ℕ) :
    let r := begin (controller F) cfg devno b tnbytes rnbytes a (g, 0)
    let w := calls (controller F) rounds a r.2
    r.1 = none ∧ Ended F (cfg.wordsIn tnbytes rnbytes) (dscales cfg.bytes) b w.1 w.2.1 ∧
      (w.1 = .continue → ∃ inputs, (w.2.1.hard.run F inputs).Pending) := by
  have hX32 : cfg.wordsIn tnbytes rnbytes < 2 ^ 32 := by
    have hdiv : cfg.wordsIn tnbytes rnbytes ≤ max tnbytes rnbytes := Nat.div_le_self _ _
    omega
  have hnone : (begin (controller F) cfg devno b tnbytes rnbytes a (g, 0)).1 = none :=
    begin_valid hv devno hidle
  have hwait := begin_waiting hF hF32 ht hr devno a (fun _ => trivial) g 0 hfifo hnone
  have hcalls := calls_spec hF32 hX32 (dscales_le _) rounds a (fun _ => trivial) _
    (begin (controller F) cfg devno b tnbytes rnbytes a (g, 0)).2.2 hwait
  exact ⟨hnone, hcalls.1, fun hret => (hcalls.2 hret).live⟩

/-- A controller whose FIFOs have two entries, before a transfer. -/
def idle : Rig DwSpi Ctl where
  soft :=
    { pbuf := fun _ => 0, xlen := 0, tlen := 0, rlen := 0, dlen := 1, dscale := 0,
      cr0 := 0, loopback := false
      sste := false, input_clk := 50000000, fifo_len := 2, counts := [] }
  hard := ⟨false, [], [], ⟨0, 0, 0, 0⟩, [], [], 0⟩

/-- Before each access one word is shifted in. -/
def ticks (k : ℕ) : Event := { inputs := [BitVec.ofNat 32 (0xA0 + k)] }

/-- Words of eight bits. -/
def bytewise : Cfg := ⟨8, false, false, 1000000⟩

/-- A buffer of different words. -/
def ramp (k : ℕ) : UInt8 := UInt8.ofNat k

/-- Three words are received within five interrupts. -/
theorem exchange_run_three :
    (calls (controller 2) 5 ticks (begin (controller 2) bytewise 0 ramp 3 3 ticks (idle, 0)).2).1 =
      .done ∧
    let r := begin (controller 2) bytewise 0 ramp 3 3 ticks (idle, 0)
    let w := calls (controller 2) 5 ticks r.2
    r.1 = none ∧ Ended 2 (bytewise.wordsIn 3 3) (dscales bytewise.bytes) ramp w.1 w.2.1 ∧
      (w.1 = .continue → ∃ inputs, (w.2.1.hard.run 2 inputs).Pending) :=
  ⟨by decide +kernel,
    exchange_run (F := 2) (g := idle) (by decide) (by decide)
        ⟨by decide, by decide, by decide, by decide⟩ (by decide)
      (by decide) 0 ticks rfl (by decide) 5⟩

end Call

end Spi
