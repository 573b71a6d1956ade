import RpiBsp.Devc.Definitions
import RpiBsp.Support.Memory

/-!
# Devc — output by DMA

`tto` (`tto.c`) and `tx_interrupt` (`intr.c`) in the build with DMA, for any number of devices.  A
call collects characters in the device's DMA buffer and hands them to its channel; how many it has
collected is a static variable of `tto`, so all devices share it.

A channel has what it was handed until its transfer ends; a transfer that ends early is started
again with the rest. Output may become paged, or cease to be, between any two checks of a call.

`taken`, `sent`, `flight` and `owner` are not part of the code.

* `Inv` — where the characters are that were taken from an output buffer.
* `Inv.step` — one call, library change or completion.
* `dma_run` — every interleaving.
-/

namespace Devc

open Support

/-! ### Rings -/

/-- `TTYBUF` as the library keeps it. -/
structure Ring extends Ttybuf where
  tail_lt : tail < size
  cnt_le : cnt ≤ size

/-- The next `n` characters of a ring. -/
def Ring.next (r : Ring) (n : ℕ) : List UInt8 :=
  (List.range n).map fun i => r.buff ((r.tail + i) % r.size)

@[simp] theorem Ring.length_next (r : Ring) (n : ℕ) : (r.next n).length = n := by
  simp [Ring.next]

/-- What the two branches of the copy take: up to the end of the ring, and then from its start. -/
def Ring.copied (r : Ring) (n : ℕ) : List UInt8 :=
  if n ≤ r.size - r.tail then bytes r.buff r.tail n
  else bytes r.buff r.tail (r.size - r.tail) ++ bytes r.buff 0 (n - (r.size - r.tail))

/-- Where they leave `tail`. -/
def Ring.newTail (r : Ring) (n : ℕ) : ℕ :=
  if n ≤ r.size - r.tail then if r.tail + n = r.size then 0 else r.tail + n
  else n - (r.size - r.tail)

theorem Ring.newTail_lt (r : Ring) {n : ℕ} (hn : n ≤ r.cnt) : r.newTail n < r.size := by
  have ht := r.tail_lt
  have hc := r.cnt_le
  unfold Ring.newTail
  split
  · split
    · omega
    · omega
  · omega

/-- The ring without its next `n` characters. -/
def Ring.drop (r : Ring) (n : ℕ) (hn : n ≤ r.cnt) : Ring where
  buff := r.buff
  size := r.size
  tail := r.newTail n
  cnt := r.cnt - n
  tail_lt := r.newTail_lt hn
  cnt_le := Nat.le_trans (Nat.sub_le _ _) r.cnt_le

/-- **The copy takes the next characters in their order.** -/
theorem Ring.copied_eq_next (r : Ring) {n : ℕ} (hn : n ≤ r.cnt) : r.copied n = r.next n := by
  have ht := r.tail_lt
  have hc := r.cnt_le
  unfold Ring.copied Ring.next bytes
  split
  · refine List.map_congr_left fun k hk => ?_
    rw [Nat.mod_eq_of_lt (by have := List.mem_range.mp hk; omega)]
  · have hsplit : n = (r.size - r.tail) + (n - (r.size - r.tail)) := by omega
    conv_rhs => rw [hsplit, List.range_add, List.map_append, List.map_map]
    congr 1
    · refine List.map_congr_left fun k hk => ?_
      rw [Nat.mod_eq_of_lt (by have := List.mem_range.mp hk; omega)]
    · refine List.map_congr_left fun k hk => ?_
      have hlt := List.mem_range.mp hk
      have hwrap : r.tail + (r.size - r.tail + k) = r.size + k := by omega
      rw [Function.comp_apply, hwrap, Nat.add_mod_left, Nat.mod_eq_of_lt (by omega), Nat.zero_add]

/-! ### The code -/

/-- A device.  The last three fields are not part of the code: what was taken from the output
buffer, what the channel has transmitted, and what it has yet to transmit. -/
structure Port where
  obuf : Ring
  /-- `OPOST` in `c_oflag`. -/
  opost : Bool
  /-- `OSW_PAGED_OVERRIDE` in `xflags`. -/
  override : Bool
  /-- What is at `buf_tx.vaddr`. -/
  buf : ℕ → UInt8
  /-- `buf_tx.len`. -/
  len : ℕ
  dma_xfer_size : ℕ
  /-- `DMA_TX_ACTIVE` in `dma_state`. -/
  active : Bool
  taken : List UInt8
  sent : List UInt8
  flight : List UInt8

section Code

variable (tto_getchar : Ring → UInt8 × Ring) (paged : ℕ → Bool)

/-- The loop of `tto`, with `room` bytes left in the buffer and `n` in it, at check `k` of the flow
control: the device, `byte_cnt` and the next check. -/
def Port.collect : ℕ → ℕ → ℕ → Port → Port × ℕ × ℕ
  | 0, n, k, p => (p, n, k)
  | room + 1, n, k, p =>
      if p.obuf.cnt = 0 then (p, n, k)
      else if paged k ∧ p.override = false then (p, n, k + 1)
      else if p.opost ∨ p.override then
        let c := tto_getchar p.obuf
        Port.collect room (n + 1) (k + 1)
          { p with obuf := c.2, buf := write n [c.1] p.buf, override := false, taken := p.taken ++
            [c.1] }
      else
        -- nothing is left in the output buffer then, or no room
        let m := min p.obuf.cnt (room + 1)
        ({ p with
            obuf := p.obuf.drop m (Nat.min_le_left _ _)
            buf := write n (p.obuf.copied m) p.buf
            taken := p.taken ++ p.obuf.next m }, n + m, k + 1)

/-- What a channel reports: that it is done, or how many bytes it has transmitted. -/
inductive Completion where
  | all
  | part (k : ℕ)

/-- `tx_interrupt` up to its call of `tto`. -/
def Port.finish (p : Port) : Completion → Port
  | .all =>
      if p.active then { p with active := false, sent := p.sent ++ p.flight, flight := [] } else p
  | .part k =>
      if p.active then
        let nbytes := p.flight.length - k
        if 0 < nbytes then
          let buf := memmove 0 (p.len - nbytes) nbytes p.buf
          { p with
            buf := buf, len := nbytes, sent := p.sent ++ p.flight.take k
            flight := bytes buf 0 nbytes }
        else { p with active := false, sent := p.sent ++
          p.flight.take k, flight := p.flight.drop k }
      else p

/-- The devices and the static variable.  `owner` is not part of the code: whose characters are
collected and not yet handed over. -/
structure Ports (ι : Type) where
  port : ι → Port
  byte_cnt : ℕ
  owner : Option ι

variable {ι : Type} [DecidableEq ι]

def Ports.set (s : Ports ι) (d : ι) (p : Port) : Ports ι :=
  { s with port := Function.update s.port d p }

/-- `tto` for `TTO_DATA` and `TTO_EVENT`. -/
def Ports.tto (d : ι) (s : Ports ι) : Ports ι :=
  if (s.port d).active then s
  else
    let r := (s.port d).collect tto_getchar paged ((s.port d).dma_xfer_size - s.byte_cnt)
      s.byte_cnt 0
    if r.2.1 ≠ 0 ∧ paged r.2.2 = false then
      { s.set d { r.1 with active := true, len := r.2.1, flight := bytes r.1.buf 0 r.2.1 } with
        byte_cnt := 0, owner := none }
    else { s.set d r.1 with byte_cnt := r.2.1, owner := if r.2.1 = 0 then none else some d }

/-- `tx_interrupt`. -/
def Ports.tx_interrupt (d : ι) (c : Completion) (s : Ports ι) : Ports ι :=
  (s.set d ((s.port d).finish c)).tto tto_getchar paged d

end Code

/-- What happens next; a call comes with what its checks of the flow control find. -/
inductive DmaOp (ι : Type) where
  | library (d : ι) (obuf : Ring) (opost override : Bool)
  | tto (d : ι) (paged : ℕ → Bool)
  | tx_interrupt (d : ι) (c : Completion) (paged : ℕ → Bool)

section Runs

variable {ι : Type} [DecidableEq ι] (tto_getchar : Ring → UInt8 × Ring)

def Ports.step (s : Ports ι) : DmaOp ι → Ports ι
  | .library d obuf opost override =>
      s.set d { s.port d with obuf := obuf, opost := opost, override := override }
  | .tto d paged => s.tto tto_getchar paged d
  | .tx_interrupt d c paged => s.tx_interrupt tto_getchar paged d c

def Ports.run (s : Ports ι) (ops : List (DmaOp ι)) : Ports ι := ops.foldl (Ports.step tto_getchar) s

end Runs

/-! ### Where the characters are -/

section Whereabouts

variable {ι : Type} [DecidableEq ι]

/-- The characters of a device that are collected and not yet handed over. -/
def Ports.held (s : Ports ι) (d : ι) : List UInt8 :=
  if s.owner = some d then bytes (s.port d).buf 0 s.byte_cnt else []

/-- Every character that was taken was transmitted, is in the channel, or is held, in this order. -/
structure DmaInv (s : Ports ι) : Prop where
  flow : ∀ d, (s.port d).taken = (s.port d).sent ++ (s.port d).flight ++ s.held d
  idle : ∀ d, (s.port d).active = false → (s.port d).flight = []
  busy : ∀ d, (s.port d).active = true → (s.port d).flight = bytes (s.port d).buf 0 (s.port d).len ∧
    s.owner ≠ some d
  owned : s.owner = none → s.byte_cnt = 0

/-- What is held is the device's own, or the call does not come to it. -/
def Own (s : Ports ι) (d : ι) : Prop := (s.port d).active = true ∨ s.byte_cnt = 0 ∨ s.owner = some d

/-- The calls of `tto` find nothing that another device has left. -/
def Separate (s : Ports ι) : DmaOp ι → Prop
  | .library .. => True
  | .tto d _ => Own s d
  | .tx_interrupt d c _ => Own (s.set d ((s.port d).finish c)) d

variable {tto_getchar : Ring → UInt8 × Ring} {paged : ℕ → Bool}

@[simp] theorem set_port_self (s : Ports ι) (d : ι) (p : Port) : (s.set d p).port d = p := by
  simp [Ports.set]

@[simp] theorem set_port_of_ne (s : Ports ι) {d d' : ι} (h : d' ≠ d) (p : Port) :
    (s.set d p).port d' = s.port d' := by
  simp [Ports.set, h]

@[simp] theorem set_byte_cnt (s : Ports ι) (d : ι) (p : Port) : (s.set d p).byte_cnt = s.byte_cnt :=
  rfl

@[simp] theorem set_owner (s : Ports ι) (d : ι) (p : Port) : (s.set d p).owner = s.owner := rfl

/-- **The loop**: what it takes is behind what was there, in the buffer and in the record. -/
theorem collect_spec (room : ℕ) : ∀ (n k : ℕ) (p : Port), ∃ l,
    let r := p.collect tto_getchar paged room n k
    r.1.taken = p.taken ++ l ∧ bytes r.1.buf 0 r.2.1 = bytes p.buf 0 n ++ l ∧
      r.1.sent = p.sent ∧ r.1.flight = p.flight ∧ r.1.active = p.active := by
  induction room with
  | zero => exact fun n k p => ⟨[], by simp [Port.collect]⟩
  | succ room ih =>
      intro n k p
      rw [Port.collect]
      split
      · exact ⟨[], by simp⟩
      · split
        · exact ⟨[], by simp⟩
        · split
          · obtain ⟨l, htaken, hbuf, hrest⟩ := ih (n + 1) (k + 1)
              { p with
                obuf := (tto_getchar p.obuf).2, buf :=
                  write n [(tto_getchar p.obuf).1] p.buf, override := false
                taken := p.taken ++ [(tto_getchar p.obuf).1] }
            refine ⟨(tto_getchar p.obuf).1 :: l, ?_, ?_, hrest⟩
            · exact htaken.trans (by simp)
            · have hone := bytes_write p.buf n [(tto_getchar p.obuf).1]
              exact hbuf.trans (by simp only [List.length_singleton] at hone; simp [hone])
          · have hm : min p.obuf.cnt (room + 1) ≤ p.obuf.cnt := Nat.min_le_left _ _
            refine ⟨p.obuf.next (min p.obuf.cnt (room + 1)), rfl, ?_, rfl, rfl, rfl⟩
            have hwrite := bytes_write p.buf n (p.obuf.next (min p.obuf.cnt (room + 1)))
            rw [Ring.length_next] at hwrite
            dsimp only
            rw [p.obuf.copied_eq_next hm, hwrite]

variable {s : Ports ι} {d : ι}

/-- A change to one device, to the count and to the owner. -/
theorem DmaInv.put {q : Port} {n : ℕ} {o : Option ι} (h : DmaInv s)
    (hother : ∀ d', d' ≠ d → (if o = some d' then bytes (s.port d').buf 0 n else []) = s.held d' ∧
      (o = some d' → s.owner = some d'))
    (hzero : o = none → n = 0) (hflow : q.taken = q.sent ++ q.flight ++ if o = some d then
      bytes q.buf 0 n else [])
    (hidle : q.active = false → q.flight = [])
    (hbusy : q.active = true → q.flight = bytes q.buf 0 q.len ∧ o ≠ some d) :
    DmaInv { s.set d q with byte_cnt := n, owner := o } := by
  refine ⟨fun d' => ?_, fun d' => ?_, fun d' => ?_, hzero⟩
  · by_cases hd : d' = d
    · subst hd
      simpa [Ports.held] using hflow
    · have hflow' := h.flow d'
      rw [← (hother d' hd).1] at hflow'
      simpa [Ports.held, hd] using hflow'
  · by_cases hd : d' = d
    · subst hd
      simpa using hidle
    · simpa [hd] using h.idle d'
  · by_cases hd : d' = d
    · subst hd
      simpa using hbusy
    · intro hact
      have hact' : (s.port d').active = true := by simpa [hd] using hact
      obtain ⟨hflight, hno⟩ := h.busy d' hact'
      exact ⟨by simpa [hd] using hflight, fun ho => hno ((hother d' hd).2 ho)⟩

/-- A change to one device only. -/
theorem DmaInv.set {q : Port} (h : DmaInv s)
    (hflow : q.taken = q.sent ++ q.flight ++ if s.owner = some d then bytes q.buf 0 s.byte_cnt
      else [])
    (hidle : q.active = false → q.flight = [])
    (hbusy : q.active = true → q.flight = bytes q.buf 0 q.len ∧ s.owner ≠ some d) :
      DmaInv (s.set d q) :=
  h.put (fun _ _ => ⟨rfl, fun ho => ho⟩) h.owned hflow hidle hbusy

/-- The other devices hold nothing. -/
theorem held_of_ne (hown : s.byte_cnt = 0 ∨ s.owner = some d) {d' : ι} (hne : d' ≠ d) :
    s.held d' = [] := by
  unfold Ports.held
  split
  · rcases hown with hzero | howner
    · rw [hzero, bytes_zero]
    · exact absurd (Option.some.inj (‹s.owner = some d'›.symm.trans howner)) hne
  · rfl

/-- And the device holds what is collected. -/
theorem held_self (hown : s.byte_cnt = 0 ∨ s.owner = some d) :
    s.held d = bytes (s.port d).buf 0 s.byte_cnt := by
  unfold Ports.held
  split
  · rfl
  · rw [hown.resolve_right ‹_›, bytes_zero]

/-- **A call of `tto`.** -/
theorem DmaInv.tto (h : DmaInv s) (hown : Own s d) : DmaInv (s.tto tto_getchar paged d) := by
  unfold Ports.tto
  split
  · exact h
  · rename_i hact
    have hidle : (s.port d).active = false := Bool.eq_false_iff.mpr hact
    replace hown := hown.resolve_left hact
    have hflow := h.flow d
    rw [h.idle d hidle, held_self hown, List.append_nil] at hflow
    obtain ⟨l, htaken, hbuf, hsent, hflight, hactive⟩ := @collect_spec tto_getchar paged
      ((s.port d).dma_xfer_size - s.byte_cnt) s.byte_cnt 0 (s.port d)
    dsimp only
    generalize (s.port d).collect tto_getchar paged _ s.byte_cnt 0 = r at *
    -- what was taken is what was sent and what is in the buffer
    have hall : r.1.taken = r.1.sent ++ bytes r.1.buf 0 r.2.1 := by
      rw [htaken, hflow, hbuf, hsent, List.append_assoc]
    split
    · refine h.put (fun d' hne => ⟨?_, fun ho => nomatch ho⟩) (fun _ => rfl) ?_
        (fun ho => nomatch ho) fun _ => ⟨rfl, nofun⟩
      · simp [held_of_ne hown hne]
      · simpa using hall
    · have hnot : ∀ {d'}, d' ≠ d → (if r.2.1 = 0 then none else some d) ≠ some d' := by
        intro d' hne ho
        split at ho
        · cases ho
        · exact hne (Option.some.inj ho).symm
      refine h.put (fun d' hne => ⟨?_, fun ho => absurd ho (hnot hne)⟩) (fun ho => ?_) ?_
        (fun _ => ?_) fun hon => ?_
      · rw [held_of_ne hown hne, if_neg (hnot hne)]
      · split at ho
        · assumption
        · cases ho
      · rw [hflight, h.idle d hidle, List.append_nil, hall]
        split
        · rw [‹r.2.1 = 0›]
          simp
        · simp
      · rw [hflight, h.idle d hidle]
      · exact absurd (hactive.symm.trans hon) hact

/-- **A completion**, up to the call of `tto`. -/
theorem DmaInv.finish (h : DmaInv s) (c : Completion) : DmaInv (s.set d ((s.port d).finish c)) := by
  by_cases hact : (s.port d).active = true
  · obtain ⟨hflight, hno⟩ := h.busy d hact
    have hflow := h.flow d
    simp only [Ports.held, if_neg hno, List.append_nil] at hflow
    cases c with
    | all =>
        rw [Port.finish, if_pos hact]
        refine h.set ?_ (fun _ => rfl) fun hon => nomatch hon
        simpa [hno] using hflow
    | part k =>
        rw [Port.finish, if_pos hact]
        have hparts : (s.port d).taken = (s.port d).sent ++ (s.port d).flight.take k ++
            (s.port d).flight.drop k := by
          rw [List.append_assoc, List.take_append_drop, hflow]
        dsimp only
        split
        · have hlen : (s.port d).flight.length = (s.port d).len := by rw [hflight, length_bytes]
          have hrest : bytes
              (memmove 0 ((s.port d).len - ((s.port d).flight.length - k))
                ((s.port d).flight.length - k)
              (s.port d).buf) 0 ((s.port d).flight.length - k) = (s.port d).flight.drop k := by
            rw [bytes_memmove, hlen]
            have hsum : (s.port d).len - ((s.port d).len - k) + ((s.port d).len - k) =
              (s.port d).len := by omega
            have hk : (s.port d).len - ((s.port d).len - k) = k := by omega
            rw [hsum, hk, hflight]
          refine h.set ?_ (fun hoff => absurd hact (by simpa using hoff)) fun _ => ⟨rfl, hno⟩
          simp only [if_neg hno, List.append_nil]
          rw [hrest, hparts]
        · have hnil : (s.port d).flight.drop k = [] := List.drop_eq_nil_of_le (by omega)
          refine h.set ?_ (fun _ => hnil) fun hon => nomatch hon
          simpa [hno] using hparts
  · have hsame : (s.port d).finish c = s.port d := by
      cases c with
      | all => exact if_neg hact
      | part k => exact if_neg hact
    rw [hsame]
    exact h.set (h.flow d) (h.idle d) (h.busy d)

theorem DmaInv.step (h : DmaInv s) (op : DmaOp ι) (hsep : Separate s op) :
    DmaInv (s.step tto_getchar op) := by
  cases op with
  | library d obuf opost override => exact h.set (h.flow d) (h.idle d) (h.busy d)
  | tto d paged => exact h.tto hsep
  | tx_interrupt d c paged => exact (h.finish c).tto hsep

/-! ### A character that is sent while output is paged -/

/-- The channel is idle, the next character is to be sent although output is paged, and there is
room for it. -/
structure Injected (s : Ports ι) (d : ι) : Prop where
  idle : (s.port d).active = false
  override : (s.port d).override = true
  waiting : (s.port d).obuf.cnt ≠ 0
  room : s.byte_cnt < (s.port d).dma_xfer_size

/-- The device after the character was taken. -/
def Port.took (tto_getchar : Ring → UInt8 × Ring) (p : Port) (n : ℕ) : Port :=
  { p with
    obuf := (tto_getchar p.obuf).2, buf := write n [(tto_getchar p.obuf).1] p.buf, override := false
    taken := p.taken ++ [(tto_getchar p.obuf).1] }

omit [DecidableEq ι] in
theorem Injected.collect (h : Injected s d) :
    (s.port d).collect tto_getchar paged ((s.port d).dma_xfer_size - s.byte_cnt) s.byte_cnt 0 =
      ((s.port d).took tto_getchar s.byte_cnt).collect tto_getchar paged
          ((s.port d).dma_xfer_size - s.byte_cnt - 1)
        (s.byte_cnt + 1) 1 := by
  have hroom := h.room
  obtain ⟨room, hr⟩ : ∃ room, (s.port d).dma_xfer_size - s.byte_cnt = room + 1 :=
    ⟨(s.port d).dma_xfer_size - s.byte_cnt - 1, by omega⟩
  rw [hr, Port.collect, if_neg h.waiting, if_neg (by simp [h.override]), if_pos (.inr h.override),
    Nat.add_sub_cancel]
  rfl

/-- The loop does not go back: the bytes only grow, and so do the checks. -/
theorem collect_grows (room : ℕ) : ∀ (n k : ℕ) (p : Port),
    n ≤ (p.collect tto_getchar paged room n k).2.1 ∧
    k ≤ (p.collect tto_getchar paged room n k).2.2 := by
  induction room with
  | zero => exact fun n k p => ⟨Nat.le_refl n, Nat.le_refl k⟩
  | succ room ih =>
      intro n k p
      rw [Port.collect]
      split
      · exact ⟨Nat.le_refl n, Nat.le_refl k⟩
      · split
        · exact ⟨Nat.le_refl n, Nat.le_succ k⟩
        · split
          · obtain ⟨hn, hk⟩ := ih (n + 1) (k + 1) _
            exact ⟨Nat.le_of_succ_le hn, Nat.le_of_succ_le hk⟩
          · exact ⟨Nat.le_add_right n _, Nat.le_succ k⟩

/-- Nothing more is taken while output is paged. -/
theorem collect_paged (hpaged : ∀ j, 1 ≤ j → paged j = true) {p : Port} (hover : p.override = false)
    (room n : ℕ) :
    (p.collect tto_getchar paged room n 1).1 = p ∧
    (p.collect tto_getchar paged room n 1).2.1 = n := by
  cases room with
  | zero => exact ⟨rfl, rfl⟩
  | succ room =>
      rw [Port.collect]
      split
      · exact ⟨rfl, rfl⟩
      · rw [if_pos ⟨hpaged 1 (Nat.le_refl 1), hover⟩]
        exact ⟨rfl, rfl⟩

/-- If output stays paged, the character is taken and not handed over. -/
theorem Injected.kept (h : Injected s d) (hpaged : ∀ j, 1 ≤ j → paged j = true) :
    ((s.tto tto_getchar paged d).port d).active = false ∧
      ((s.tto tto_getchar paged d).port d).taken = (s.port d).taken ++
        [(tto_getchar (s.port d).obuf).1] := by
  unfold Ports.tto
  rw [if_neg (by simp [h.idle]), h.collect]
  have hgrow := @collect_grows tto_getchar paged ((s.port d).dma_xfer_size - s.byte_cnt - 1)
    (s.byte_cnt + 1) 1 ((s.port d).took tto_getchar s.byte_cnt)
  obtain ⟨hport, -⟩ :=
    @collect_paged tto_getchar paged hpaged ((s.port d).took tto_getchar s.byte_cnt) rfl
    ((s.port d).dma_xfer_size - s.byte_cnt - 1) (s.byte_cnt + 1)
  dsimp only
  rw [if_neg (by simp [hpaged _ hgrow.2])]
  dsimp only
  rw [set_port_self, hport]
  exact ⟨h.idle, rfl⟩

/-- If output is no longer paged after the first check, the character is handed over. -/
theorem Injected.handed (h : Injected s d) (hpaged : ∀ j, 1 ≤ j → paged j = false) :
    ((s.tto tto_getchar paged d).port d).active = true ∧
    (s.tto tto_getchar paged d).byte_cnt = 0 := by
  unfold Ports.tto
  rw [if_neg (by simp [h.idle]), h.collect]
  have hgrow := @collect_grows tto_getchar paged ((s.port d).dma_xfer_size - s.byte_cnt - 1)
    (s.byte_cnt + 1) 1 ((s.port d).took tto_getchar s.byte_cnt)
  dsimp only
  rw [if_pos ⟨by omega, hpaged _ hgrow.2⟩]
  exact ⟨by simp, rfl⟩

/-! ### Runs -/

/-- Every step of a run meets `P`. -/
def Ports.Each (tto_getchar : Ring → UInt8 × Ring) (P : Ports ι → DmaOp ι → Prop) :
    Ports ι → List (DmaOp ι) → Prop
  | _, [] => True
  | s, op :: ops => P s op ∧ (s.step tto_getchar op).Each tto_getchar P ops

/-- Nothing was taken yet. -/
structure Fresh (s : Ports ι) : Prop where
  port : ∀ d, (s.port d).active = false ∧ (s.port d).taken = [] ∧ (s.port d).sent = [] ∧
    (s.port d).flight = []
  byte_cnt : s.byte_cnt = 0

theorem Fresh.inv (h : Fresh s) : DmaInv s := by
  refine ⟨fun d => ?_, fun d _ => (h.port d).2.2.2, fun d hon => ?_, fun _ => h.byte_cnt⟩
  · obtain ⟨-, ht, hs, hf⟩ := h.port d
    rw [ht, hs, hf]
    unfold Ports.held
    split
    · rw [h.byte_cnt, bytes_zero]
      rfl
    · rfl
  · exact absurd hon (by simp [(h.port d).1])

theorem DmaInv.run (ops : List (DmaOp ι)) :
    ∀ {s : Ports ι}, DmaInv s → s.Each tto_getchar Separate ops →
    DmaInv (s.run tto_getchar ops) := by
  induction ops with
  | nil => exact fun h _ => h
  | cons op ops ih => exact fun h heach => ih (h.step op heach.1) heach.2

/-- **Every interleaving, for any number of devices**: if no call finds characters that another
device has left, what was taken from a device's output buffer is what its channel has transmitted,
then what the channel still has, then what the device holds.  In any state, a character that is to
be sent while output is paged is handed over in the call that takes it if output is no longer paged
at the later checks, and is not if it still is. -/
theorem dma_run (hs : Fresh s) (ops : List (DmaOp ι)) :
    (s.Each tto_getchar Separate ops → ∀ d, ((s.run tto_getchar ops).port d).taken =
      ((s.run tto_getchar ops).port d).sent ++ ((s.run tto_getchar ops).port d).flight ++
        (s.run tto_getchar ops).held d) ∧
    ∀ d, Injected (s.run tto_getchar ops) d → ∀ paged : ℕ → Bool,
      ((∀ j, 1 ≤ j → paged j = true) →
      (((s.run tto_getchar ops).tto tto_getchar paged d).port d).active = false) ∧
      ((∀ j, 1 ≤ j → paged j = false) →
      (((s.run tto_getchar ops).tto tto_getchar paged d).port d).active = true) :=
  ⟨fun heach => (hs.inv.run ops heach).flow, fun _ h _ =>
    ⟨fun hp => (h.kept hp).1, fun hp => (h.handed hp).1⟩⟩

end Whereabouts

/-! ### Two devices -/

/-- The next character, unchanged. -/
def nextGetchar (r : Ring) : UInt8 × Ring :=
  if h : 1 ≤ r.cnt then (r.buff r.tail, r.drop 1 h) else (0, r)

/-- Two characters, `D` at the end of the ring and `A` at its start. -/
def wrapped : Ring where
  buff := fun k => UInt8.ofNat (65 + k)
  size := 4
  tail := 3
  cnt := 2
  tail_lt := by decide
  cnt_le := by decide

/-- Two devices with the same two characters to send. -/
def twoPorts : Ports Bool where
  port := fun _ => ⟨wrapped, false, false, fun _ => 0, 0, 8, false, [], [], []⟩
  byte_cnt := 0
  owner := none

/-- A transfer that ends early, and then one on the other device. -/
def inTurn : List (DmaOp Bool) :=
  [.tto true fun _ => false, .tx_interrupt true (.part 1) fun _ => false, .tto false fun _ => false]

theorem dma_run_inTurn :
    ((twoPorts.run nextGetchar inTurn).port true).taken = [68, 65] ∧
    ((twoPorts.run nextGetchar inTurn).port true).sent = [68] ∧
    (∀ d, ((twoPorts.run nextGetchar inTurn).port d).taken =
      ((twoPorts.run nextGetchar inTurn).port d).sent ++
          ((twoPorts.run nextGetchar inTurn).port d).flight ++
        (twoPorts.run nextGetchar inTurn).held d) := by
  have hfresh : Fresh twoPorts := ⟨fun _ => ⟨rfl, rfl, rfl, rfl⟩, rfl⟩
  refine ⟨by decide +kernel, by decide +kernel, (dma_run hfresh inTurn).1 ?_⟩
  exact ⟨.inr (.inl rfl), .inl rfl, .inr (.inl rfl), trivial⟩

/-- A character of one device is sent while its output is paged, and then the other device sends. -/
def crossed : List (DmaOp Bool) :=
  [.library false wrapped false true, .tto false fun _ => true, .tto true fun _ => false,
    .tx_interrupt true .all fun _ => false]

/-- The character is not handed over in the call that takes it, and never after it; the other device
transmits a byte that it never took. -/
theorem crossed_mixes :
    ((twoPorts.run nextGetchar (crossed.take 2)).port false).active = false ∧
    ((twoPorts.run nextGetchar crossed).port false).taken = [68] ∧
    ((twoPorts.run nextGetchar crossed).port false).sent = [] ∧
    ((twoPorts.run nextGetchar crossed).port false).flight = [] ∧
    (twoPorts.run nextGetchar crossed).byte_cnt = 0 ∧
    ((twoPorts.run nextGetchar crossed).port true).taken = [68, 65] ∧
    ((twoPorts.run nextGetchar crossed).port true).sent = [0, 68, 65] := by
  decide +kernel

end Devc
