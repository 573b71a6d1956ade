import RpiBsp.Gpio.Definitions
import RpiBsp.Support.Ranges

/-!
# Gpio — The list of pins

What `gpio-rp1` and `gpio-bcm` take for a list of pins, against what one is: numbers below
`GPIO_MAX` and ranges of them, with commas between.

* `Names`, `Spans` — the numbers of a list, and the pins of a range;
* `Reading`, `Rp1.Reads`, `Bcm.Reads` — what the programs take for a number: one that is written
  out, and besides it one that is missing or that wraps;
* `pinLoop_iff`, `Explains` — the loop finds the lists of what it takes for numbers, and marks their
pins;
* `Meets`, `Explains.meets_iff` — a text is taken as it should just when no number of it is missing
or wraps;
* `Meets.touches` — and then no pin is touched but those that it names.

`strtoul` leaves `errno` alone where it sees no digits, so that the test for `EINVAL` in `gpio-bcm`
never holds; the count that `sscanf` gives tells `gpio-rp1` that a number is missing.
-/

namespace Gpio

open Support

/-! ### The pins that are marked -/

/-- `pin` is in the range, whichever end comes first. -/
def Spans (item : ℕ × ℕ) (pin : ℕ) : Prop := min item.1 item.2 ≤ pin ∧ pin ≤ max item.1 item.2

/-- The smaller end first. -/
def ordered (item : ℕ × ℕ) : ℕ × ℕ := if item.2 < item.1 then (item.2, item.1) else item

theorem markPins_getLsbD {rounds first : ℕ} (pin_mask : BitVec 64) (hroom : first + rounds ≤ 64)
    (pin : ℕ) :
    (markPins rounds first pin_mask).getLsbD pin = true ↔
      pin_mask.getLsbD pin = true ∨ first ≤ pin ∧ pin < first + rounds := by
  induction rounds generalizing first pin_mask with
  | zero =>
      rw [markPins]
      constructor
      · intro h
        exact .inl h
      · rintro (h | ⟨hle, hlt⟩)
        · exact h
        · omega
  | succ rounds ih =>
      have hbit : (1#64 <<< first).getLsbD pin = true ↔ pin = first := by
        simp only [BitVec.getLsbD_shiftLeft, BitVec.getLsbD_one, Bool.and_eq_true,
          decide_eq_true_eq, Bool.not_eq_true', decide_eq_false_iff_not]
        omega
      rw [markPins, ih _ (by omega), BitVec.getLsbD_or, Bool.or_eq_true, hbit, or_assoc]
      refine or_congr_right ?_
      omega

/-- A range marks its own pins, and no other one. -/
theorem mark_getLsbD {item : ℕ × ℕ} (hroom : item.1 < 64 ∧ item.2 < 64) (pin_mask : BitVec 64)
    (pin : ℕ) :
    (mark pin_mask (ordered item)).getLsbD pin = true ↔ pin_mask.getLsbD pin = true ∨
    Spans item pin := by
  unfold mark ordered Spans
  split
  · rw [markPins_getLsbD _ (by dsimp only; omega)]
    refine or_congr_right ?_
    dsimp only
    omega
  · rw [markPins_getLsbD _ (by omega)]
    refine or_congr_right ?_
    omega

theorem foldl_mark_getLsbD {items : List (ℕ × ℕ)}
    (hroom : ∀ item ∈ items, item.1 < 64 ∧ item.2 < 64) (pin_mask : BitVec 64) (pin : ℕ) :
    (items.foldl (fun pin_mask item => mark pin_mask (ordered item)) pin_mask).getLsbD pin = true ↔
      pin_mask.getLsbD pin = true ∨ ∃ item ∈ items, Spans item pin := by
  induction items generalizing pin_mask with
  | nil => simp
  | cons item items ih =>
      rw [List.forall_mem_cons] at hroom
      rw [List.foldl_cons, ih hroom.2, mark_getLsbD hroom.1, or_assoc]
      simp only [List.mem_cons, exists_eq_or_imp]

/-! ### The loop -/

section Loop

variable {number : Text → Except Failure (ℕ × Text)} {pin_opt rest : Text} {pin_mask : BitVec 64}

/-- What is taken for a number. -/
def Takes (number : Text → Except Failure (ℕ × Text)) (pin_opt : Text) (pin : ℕ)
    (rest : Text) : Prop :=
  number pin_opt = .ok (pin, rest)

theorem pinItem_one {pin : ℕ} (h : Takes number pin_opt pin rest) (hrest : '-' ∉ rest.head?) :
    pinItem number number pin_opt pin_mask = .ok (rest, mark pin_mask (ordered (pin, pin))) := by
  have hordered : ordered (pin, pin) = (pin, pin) := if_neg (Nat.lt_irrefl pin)
  rw [pinItem, h, hordered]
  cases rest with
  | nil => rfl
  | cons c rest =>
      have hc : c ≠ '-' := fun hc => hrest (by rw [hc]; rfl)
      simp only [bind, Except.bind]
      split
      · rename_i heq
        exact absurd (List.cons.inj heq).1 hc
      · rfl

theorem pinItem_range {pin : ℕ} {mid : Text} (h : Takes number pin_opt pin ('-' :: mid)) :
    pinItem number number pin_opt pin_mask =
      (number mid).map fun second => (second.2, mark pin_mask (ordered (pin, second.1))) := by
  rw [pinItem, h]
  cases hsecond : number mid with
  | error f => simp only [bind, Except.bind, hsecond, Except.map]
  | ok second =>
      simp only [bind, Except.bind, hsecond, Except.map, ordered]
      rfl

/-- A round that goes well has seen an item, and marks its pins. -/
theorem pinItem_ok {pin_mask' : BitVec 64}
    (h : pinItem number number pin_opt pin_mask = .ok (rest, pin_mask')) :
    ∃ item, Item (Takes number) pin_opt item rest ∧ pin_mask' = mark pin_mask (ordered item) := by
  cases hnumber : number pin_opt with
  | error f =>
      rw [pinItem, hnumber] at h
      cases h
  | ok first =>
      have hfirst : Takes number pin_opt first.1 first.2 := hnumber
      by_cases hdash : '-' ∈ first.2.head?
      case neg =>
          rw [pinItem_one hfirst hdash] at h
          obtain ⟨hrest, hmask⟩ := Prod.mk.inj (Except.ok.inj h)
          exact ⟨(first.1, first.1), .one (hrest ▸ hfirst), hmask.symm⟩
      case pos =>
          obtain ⟨mid, hmid⟩ := List.head?_eq_some_iff.mp hdash
          rw [hmid] at hfirst
          rw [pinItem_range hfirst] at h
          cases hsecond : number mid with
          | error f =>
              rw [hsecond] at h
              cases h
          | ok second =>
              rw [hsecond] at h
              obtain ⟨hrest, hmask⟩ := Prod.mk.inj (Except.ok.inj h)
              have htakes : Takes number mid second.1 second.2 := hsecond
              exact ⟨(first.1, second.1), .range hfirst (hrest ▸ htakes), hmask.symm⟩

/-- An item that no `-` follows is seen. -/
theorem pinItem_of_item {item : ℕ × ℕ} (h : Item (Takes number) pin_opt item rest)
    (hrest : '-' ∉ rest.head?) :
    pinItem number number pin_opt pin_mask = .ok (rest, mark pin_mask (ordered item)) := by
  cases h with
  | one h => exact pinItem_one h hrest
  | range ha hb =>
      rw [pinItem_range ha, hb]
      rfl

theorem pinLoop_ok {rounds : ℕ} {pin_mask' : BitVec 64}
    (h : pinLoop number number rounds pin_opt pin_mask = .ok pin_mask') :
    ∃ items, Ranges (Takes number) pin_opt items ∧
      pin_mask' = items.foldl (fun pin_mask item => mark pin_mask (ordered item)) pin_mask := by
  induction rounds generalizing pin_opt pin_mask with
  | zero => cases h
  | succ rounds ih =>
      cases hround : pinItem number number pin_opt pin_mask with
      | error f =>
          rw [pinLoop, hround] at h
          cases h
      | ok r =>
          have hr : pinItem number number pin_opt pin_mask = .ok (r.1, r.2) := hround
          obtain ⟨item, hitem, hmask⟩ := pinItem_ok hr
          rw [pinLoop, hround] at h
          simp only [bind, Except.bind] at h
          split at h
          · rename_i hnil
            rw [hnil] at hitem
            rw [← Except.ok.inj h, hmask]
            exact ⟨[item], .last hitem, rfl⟩
          · rename_i hcomma
            rw [hcomma] at hitem
            obtain ⟨items, hitems, hmask'⟩ := ih h
            refine ⟨item :: items, .more hitem hitems, ?_⟩
            rw [hmask', hmask, List.foldl_cons]
          · cases h

theorem pinLoop_of_ranges (hlength : ∀ s pin rest, Takes number s pin rest → rest.length ≤ s.length)
    {items : List (ℕ × ℕ)} (h : Ranges (Takes number) pin_opt items) {rounds : ℕ}
    (hrounds : pin_opt.length < rounds) :
    pinLoop number number rounds pin_opt pin_mask =
      .ok (items.foldl (fun pin_mask item => mark pin_mask (ordered item)) pin_mask) := by
  induction h generalizing rounds pin_mask with
  | last h =>
      obtain ⟨rounds, rfl⟩ := Nat.exists_eq_add_one_of_ne_zero (Nat.ne_zero_of_lt hrounds)
      rw [pinLoop, pinItem_of_item h (by simp)]
      rfl
  | more h _ ih =>
      obtain ⟨rounds, rfl⟩ := Nat.exists_eq_add_one_of_ne_zero (Nat.ne_zero_of_lt hrounds)
      have hshort := h.length_le hlength
      rw [List.length_cons] at hshort
      rw [pinLoop, pinItem_of_item h (by simp)]
      exact ih (by omega)

/-- **The loop finds the lists of what it takes for numbers.** -/
theorem pinLoop_iff (hlength : ∀ s pin rest, Takes number s pin rest → rest.length ≤ s.length)
    {rounds : ℕ} (hrounds : pin_opt.length < rounds) {pin_mask' : BitVec 64} :
    pinLoop number number rounds pin_opt pin_mask = .ok pin_mask' ↔
      ∃ items, Ranges (Takes number) pin_opt items ∧
      pin_mask' = items.foldl (fun pin_mask item => mark pin_mask (ordered item)) pin_mask := by
  constructor
  · exact pinLoop_ok
  · rintro ⟨items, hitems, rfl⟩
    exact pinLoop_of_ranges hlength hitems hrounds

end Loop

/-! ### What is taken for a number -/

/-- A number below `limit`, written out. -/
def Names (limit : ℕ) (pin_opt : Text) (pin : ℕ) (rest : Text) : Prop :=
  pin < limit ∧ ∃ neg n, Stands pin_opt neg n rest ∧ signed neg n = pin

/-- What a program makes of a place where a number is due: one that is written out, none at all, or
one that is out of range and wraps to a pin. -/
inductive Reading where
  | written (pin : ℕ)
  | missing
  | wrapped (pin : ℕ)

def Reading.pin : Reading → ℕ
  | written pin => pin
  | missing => 0
  | wrapped pin => pin

def Reading.IsWritten : Reading → Prop
  | written _ => True
  | missing => False
  | wrapped _ => False

/-- No number of the list is missing, and none wraps. -/
def AllWritten (items : List (Reading × Reading)) : Prop :=
  ∀ item ∈ items, item.1.IsWritten ∧ item.2.IsWritten

/-- What `gpio-rp1` takes for a number. -/
inductive Rp1.Reads (stored : Bool → ℕ → ℕ) (pin_opt : Text) : Reading → Text → Prop where
  | written {pin rest} (h : Names GPIO_MAX pin_opt pin rest) :
      Rp1.Reads stored pin_opt (.written pin) rest
  | wrapped {neg n rest} (h : Stands pin_opt neg n rest) (hn : 2 ^ 32 ≤ n ∨ neg = true ∧ 0 < n)
      (hlt : stored neg n < GPIO_MAX) : Rp1.Reads stored pin_opt (.wrapped (stored neg n)) rest

/-- What `gpio-bcm` takes for a number. -/
inductive Bcm.Reads (pin_opt : Text) : Reading → Text → Prop where
  | written {pin rest} (h : Names GPIO_MAX pin_opt pin rest) : Bcm.Reads pin_opt (.written pin) rest
  | missing (h : ∀ neg n rest, ¬ Stands pin_opt neg n rest) : Bcm.Reads pin_opt .missing pin_opt
  | wrapped {n rest} (h : Stands pin_opt true n rest) (hlt : n < 2 ^ 64)
      (hgt : 2 ^ 64 - GPIO_MAX < n) :
      Bcm.Reads pin_opt (.wrapped (2 ^ 64 - n)) rest

/-- A number that stands for a pin has no minus, except `-0`. -/
theorem eq_of_signed {neg : Bool} {n pin : ℕ} (h : signed neg n = pin) :
    n = pin ∧ (neg = true → n = 0) := by
  unfold signed at h
  split at h
  case isTrue hneg => exact ⟨by omega, fun _ => by omega⟩
  case isFalse hneg => exact ⟨by omega, fun htrue => absurd htrue hneg⟩

theorem signed_of_zero {neg : Bool} {n : ℕ} (h : neg = true → n = 0) : signed neg n = n := by
  cases neg with
  | false => rfl
  | true =>
      rw [h rfl]
      rfl

theorem Names.length_le {limit pin : ℕ} {pin_opt rest : Text} (h : Names limit pin_opt pin rest) :
    rest.length ≤ pin_opt.length := by
  obtain ⟨-, neg, n, hstands, -⟩ := h
  exact hstands.length_lt.le

theorem Names.of_stands {limit pin n : ℕ} {pin_opt rest rest' : Text} {neg : Bool}
    (h : Names limit pin_opt pin rest)
    (hstands : Stands pin_opt neg n rest') : n = pin ∧ (neg = true → n = 0) ∧ rest = rest' := by
  obtain ⟨-, neg', n', hstands', hpin⟩ := h
  obtain ⟨rfl, rfl, rfl⟩ := hstands.unique hstands'
  exact ⟨(eq_of_signed hpin).1, (eq_of_signed hpin).2, rfl⟩

/-- What is written out is read in one way. -/
theorem names_definite (limit : ℕ) : Definite (Names limit) := by
  intro s pin pin' rest rest' h h'
  obtain ⟨-, neg, n, hstands, -⟩ := id h'
  obtain ⟨hpin, -, hrest⟩ := h.of_stands hstands
  obtain ⟨hpin', -, hrest'⟩ := h'.of_stands hstands
  exact ⟨hpin.symm.trans hpin', hrest.trans hrest'.symm⟩

namespace Rp1

variable {stored : Bool → ℕ → ℕ} {pin_opt rest : Text} {neg : Bool} {n pin : ℕ}

theorem number_of_stands (h : Stands pin_opt neg n rest) : number stored pin_opt =
    if stored neg n ≥ GPIO_MAX then .error (.unknown pin_opt) else .ok (stored neg n, rest) := by
  rw [number, sscanf, scan_ten_iff.mpr h]
  rfl

/-- What an `unsigned` has room for is stored as it is. -/
theorem stored_eq (hpos : ∀ n < 2 ^ 32, stored false n = n) (hzero : stored true 0 = 0)
    (hn : n < 2 ^ 32) (hneg : neg = true → n = 0) : stored neg n = n := by
  cases neg with
  | false => exact hpos n hn
  | true => rw [hneg rfl, hzero]

theorem takes_iff (hpos : ∀ n < 2 ^ 32, stored false n = n) (hzero : stored true 0 = 0) :
    Takes (number stored) pin_opt pin rest ↔ ∃ x :
      Reading, x.pin = pin ∧ Reads stored pin_opt x rest := by
  constructor
  · intro h
    cases hscan : scan 10 pin_opt with
    | none =>
        rw [Takes, number, sscanf, hscan] at h
        cases h
    | some r =>
        have hstands : Stands pin_opt r.1 r.2.1 r.2.2 := scan_ten_iff.mp hscan
        rw [Takes, number_of_stands hstands] at h
        split at h
        case isTrue => cases h
        case isFalse hlt =>
            obtain ⟨rfl, rfl⟩ := Prod.mk.inj (Except.ok.inj h)
            rw [Nat.not_le] at hlt
            by_cases hwrap : 2 ^ 32 ≤ r.2.1 ∨ r.1 = true ∧ 0 < r.2.1
            · exact ⟨.wrapped _, rfl, .wrapped hstands hwrap hlt⟩
            · rw [not_or, Nat.not_le, not_and, Nat.not_lt] at hwrap
              have hneg : r.1 = true → r.2.1 = 0 := fun htrue => Nat.le_zero.mp (hwrap.2 htrue)
              have heq := stored_eq hpos hzero hwrap.1 hneg
              rw [heq] at hlt ⊢
              exact ⟨.written _, rfl, .written ⟨hlt, _, _, hstands, signed_of_zero hneg⟩⟩
  · rintro ⟨x, rfl, h⟩
    cases h with
    | written h =>
        obtain ⟨hlt, neg, n, hstands, hsigned⟩ := h
        obtain ⟨rfl, hneg⟩ := eq_of_signed hsigned
        have heq := stored_eq hpos hzero (hlt.trans (by decide)) hneg
        rw [Takes, number_of_stands hstands, heq, if_neg (Nat.not_le.mpr hlt)]
        rfl
    | wrapped hstands hn hlt =>
        rw [Takes, number_of_stands hstands, if_neg (Nat.not_le.mpr hlt)]
        rfl

/-- A number that is written out does not wrap. -/
theorem not_wraps (h : Names GPIO_MAX pin_opt pin rest) {rest' : Text}
    (hstands : Stands pin_opt neg n rest') :
    ¬ (2 ^ 32 ≤ n ∨ neg = true ∧ 0 < n) := by
  obtain ⟨rfl, hneg, -⟩ := h.of_stands hstands
  rintro (hn | ⟨htrue, hn⟩)
  · exact absurd (h.1.trans (by decide)) (Nat.not_lt.mpr hn)
  · exact absurd (hneg htrue) (Nat.ne_of_gt hn)

theorem reads_definite (stored : Bool → ℕ → ℕ) : Definite (Reads stored) := by
  intro s x x' rest rest' h h'
  cases h with
  | written h =>
      cases h' with
      | written h' =>
          obtain ⟨rfl, rfl⟩ := names_definite GPIO_MAX h h'
          exact ⟨rfl, rfl⟩
      | wrapped hstands hn _ => exact absurd hn (not_wraps h hstands)
  | wrapped hstands hn _ =>
      cases h' with
      | written h' => exact absurd hn (not_wraps h' hstands)
      | wrapped hstands' _ _ =>
          obtain ⟨rfl, rfl, rfl⟩ := hstands.unique hstands'
          exact ⟨rfl, rfl⟩

theorem reads_length_le {x : Reading} (h : Reads stored pin_opt x rest) :
    rest.length ≤ pin_opt.length := by
  cases h with
  | written h => exact h.length_le
  | wrapped hstands _ _ => exact hstands.length_lt.le

end Rp1

namespace Bcm

variable {pin_opt rest : Text} {neg : Bool} {n pin : ℕ}

/-- Nothing that `strtoul` does leaves `EINVAL`. -/
theorem errno_ne_einval (p : Parsed) : errno p ≠ .einval := by
  unfold errno
  split <;> decide

/-- Both numbers of a range are looked at in the same way. -/
theorem number_eq (pin_opt : Text) : number pin_opt =
    if (strtoul 10 pin_opt).val ≥ GPIO_MAX then .error .range
    else .ok ((strtoul 10 pin_opt).val, (strtoul 10 pin_opt).rest) := by
  unfold number
  dsimp only
  refine if_congr ?_ rfl rfl
  constructor
  · rintro (⟨-, h⟩ | ⟨h, -⟩ | h)
    · exact absurd h (errno_ne_einval _)
    · rw [h]
      decide
    · exact h
  · intro h
    exact .inr (.inr h)

theorem strtoul_val_of_erange {base : ℕ} {s : Text} (h : (strtoul base s).erange = true) :
    (strtoul base s).val = ULONG_MAX := by
  unfold strtoul at h ⊢
  split at h
  · cases h
  · split at h
    case isTrue hbig =>
        rw [if_pos hbig]
        rfl
    case isFalse => cases h

theorem number2_eq : number2 = number := by
  funext pin_opt
  rw [number_eq]
  unfold number2
  dsimp only
  refine if_congr ?_ rfl rfl
  constructor
  · rintro (⟨-, h⟩ | ⟨-, h⟩ | h)
    · exact absurd h (errno_ne_einval _)
    · have herange : (strtoul 10 pin_opt).erange = true := by
        unfold errno at h
        split at h
        case isTrue herange => exact herange
        case isFalse => cases h
      rw [strtoul_val_of_erange herange]
      decide
    · exact h
  · intro h
    exact .inr (.inr h)

theorem number_of_none (h : ∀ neg n rest, ¬ Stands pin_opt neg n rest) :
    number pin_opt = .ok (0, pin_opt) := by
  rw [number_eq, strtoul, scan_ten_none.mpr h]
  rfl

/-- The value of a number for `strtoul`. -/
def value (neg : Bool) (n : ℕ) : ℕ :=
  if n ≥ 2 ^ 64 then ULONG_MAX else if neg then (2 ^ 64 - n) % 2 ^ 64 else n

theorem number_of_stands (h : Stands pin_opt neg n rest) : number pin_opt =
    if value neg n ≥ GPIO_MAX then .error .range else .ok (value neg n, rest) := by
  rw [number_eq, strtoul, scan_ten_iff.mpr h]
  unfold value
  dsimp only
  split <;> rfl

theorem value_of_zero (hn : n < 2 ^ 64) (hneg : neg = true → n = 0) : value neg n = n := by
  unfold value
  rw [if_neg (Nat.not_le.mpr hn)]
  cases neg with
  | false => rfl
  | true =>
      rw [hneg rfl]
      rfl

theorem value_true (hn : n < 2 ^ 64) (hpos : 0 < n) : value true n = 2 ^ 64 - n := by
  unfold value
  rw [if_neg (Nat.not_le.mpr hn), if_pos rfl, Nat.mod_eq_of_lt (Nat.sub_lt (by decide) hpos)]

theorem takes_iff : Takes number pin_opt pin rest ↔ ∃ x :
    Reading, x.pin = pin ∧ Reads pin_opt x rest := by
  constructor
  · intro h
    cases hscan : scan 10 pin_opt with
    | none =>
        have hnone := scan_ten_none.mp hscan
        rw [Takes, number_of_none hnone] at h
        obtain ⟨rfl, rfl⟩ := Prod.mk.inj (Except.ok.inj h)
        exact ⟨.missing, rfl, .missing hnone⟩
    | some r =>
        have hstands : Stands pin_opt r.1 r.2.1 r.2.2 := scan_ten_iff.mp hscan
        rw [Takes, number_of_stands hstands] at h
        split at h
        case isTrue => cases h
        case isFalse hlt =>
            obtain ⟨rfl, rfl⟩ := Prod.mk.inj (Except.ok.inj h)
            rw [Nat.not_le] at hlt
            have hn : r.2.1 < 2 ^ 64 := by
              by_contra hbig
              rw [value, if_pos (Nat.not_lt.mp hbig)] at hlt
              exact absurd hlt (by decide)
            by_cases hwrap : r.1 = true ∧ 0 < r.2.1
            · rw [hwrap.1] at hstands hlt ⊢
              rw [value_true hn hwrap.2] at hlt ⊢
              exact ⟨.wrapped _, rfl, .wrapped hstands hn (by omega)⟩
            · rw [not_and, Nat.not_lt] at hwrap
              have hneg : r.1 = true → r.2.1 = 0 := fun htrue => Nat.le_zero.mp (hwrap htrue)
              rw [value_of_zero hn hneg] at hlt ⊢
              exact ⟨.written _, rfl, .written ⟨hlt, _, _, hstands, signed_of_zero hneg⟩⟩
  · rintro ⟨x, rfl, h⟩
    cases h with
    | written h =>
        obtain ⟨hlt, neg, n, hstands, hsigned⟩ := h
        obtain ⟨rfl, hneg⟩ := eq_of_signed hsigned
        rw [Takes, number_of_stands hstands, value_of_zero (hlt.trans (by decide)) hneg,
          if_neg (Nat.not_le.mpr hlt)]
        rfl
    | missing h => exact number_of_none h
    | wrapped hstands hn hgt =>
        rw [Takes, number_of_stands hstands, value_true hn (Nat.zero_lt_of_lt hgt),
          if_neg (by unfold GPIO_MAX at *; omega)]
        rfl

/-- A number that is written out does not wrap. -/
theorem not_wraps (h : Names GPIO_MAX pin_opt pin rest) {rest' : Text}
    (hstands : Stands pin_opt true n rest') :
    ¬ 2 ^ 64 - GPIO_MAX < n := by
  obtain ⟨rfl, hzero, -⟩ := h.of_stands hstands
  rw [hzero rfl]
  exact Nat.not_lt_zero _

/-- A number that is written out is not missing. -/
theorem not_missing (h : Names GPIO_MAX pin_opt pin rest) :
    ¬ ∀ neg n rest, ¬ Stands pin_opt neg n rest := by
  obtain ⟨-, neg, n, hstands, -⟩ := h
  intro hmissing
  exact hmissing neg n rest hstands

theorem reads_definite : Definite Reads := by
  intro s x x' rest rest' h h'
  cases h with
  | written h =>
      cases h' with
      | written h' =>
          obtain ⟨rfl, rfl⟩ := names_definite GPIO_MAX h h'
          exact ⟨rfl, rfl⟩
      | missing hmissing => exact absurd hmissing (not_missing h)
      | wrapped hstands _ hgt => exact absurd hgt (not_wraps h hstands)
  | missing hmissing =>
      cases h' with
      | written h' => exact absurd hmissing (not_missing h')
      | missing _ => exact ⟨rfl, rfl⟩
      | wrapped hstands _ _ => exact absurd hstands (hmissing _ _ _)
  | wrapped hstands _ hgt =>
      cases h' with
      | written h' => exact absurd hgt (not_wraps h' hstands)
      | missing hmissing => exact absurd hstands (hmissing _ _ _)
      | wrapped hstands' _ _ =>
          obtain ⟨-, rfl, rfl⟩ := hstands.unique hstands'
          exact ⟨rfl, rfl⟩

theorem reads_length_le {x : Reading} (h : Reads pin_opt x rest) :
    rest.length ≤ pin_opt.length := by
  cases h with
  | written h => exact h.length_le
  | missing _ => exact Nat.le_refl _
  | wrapped hstands _ _ => exact hstands.length_lt.le

end Bcm

/-! ### What a list of pins is -/

/-- What is expected of a program at `pin_opt`. -/
structure Meets (limit : ℕ) (pins : Text → Except Failure (BitVec 64))
    (main : Bool → List Text → Exit × List Call) (pin_opt : Text) : Prop where
  /-- Lists of pins are taken, and nothing else is. -/
  accepts : (∃ pin_mask, pins pin_opt = .ok pin_mask) ↔ ∃ items, Ranges (Names limit) pin_opt items
  /-- The pins of the ranges are marked. -/
  marks : ∀ pin_mask, pins pin_opt = .ok pin_mask → ∃ items, Ranges (Names limit) pin_opt items ∧
    ∀ pin, pin_mask.getLsbD pin = true ↔ ∃ item ∈ items, Spans item pin
  /-- A text that is refused touches no pin. -/
  untouched : ∀ mapped argv failure, argv[2]? = some pin_opt → pins pin_opt = .error failure →
    (main mapped argv).2 = []

theorem run_untouched {pins : Text → Except Failure (BitVec 64)} {pin_opt : Text}
    {failure : Failure}
    {argv : List Text} (hpins : pins pin_opt = .error failure) (hargv : argv[2]? = some pin_opt)
    (first last : ℕ) (mapped : Bool) : run pins first last mapped argv = (.EXIT_FAILURE, []) := by
  unfold run
  dsimp only
  rw [hargv, Option.elim_some, hpins]
  split_ifs <;> rfl

theorem mem_touched {pin_mask : BitVec 64} (hmask : pin_mask ≠ 0) {f : ℕ → Call}
    (hf : ∀ pin, (f pin).pinnum = pin)
    {pins : List ℕ} {c : Call}
    (hc : c ∈ (pins.filter fun pin => pin_mask = 0 ∨ pin_mask.getLsbD pin).map f) :
    pin_mask.getLsbD c.pinnum = true := by
  obtain ⟨pin, hpin, rfl⟩ := List.mem_map.mp hc
  rcases of_decide_eq_true (List.mem_filter.mp hpin).2 with h | h
  · exact absurd h hmask
  · rwa [hf]

/-- A list that marks a pin has no pin touched but those that it marks. -/
theorem run_touches {pins : Text → Except Failure (BitVec 64)} {pin_opt : Text}
    {pin_mask : BitVec 64}
    {argv : List Text} (hpins : pins pin_opt = .ok pin_mask) (hargv : argv[2]? = some pin_opt)
    (hmask : pin_mask ≠ 0)
    (first last : ℕ) (mapped : Bool) :
      ∀ c ∈ (run pins first last mapped argv).2, pin_mask.getLsbD c.pinnum = true := by
  intro c hc
  unfold run at hc
  dsimp only at hc
  rw [hargv, Option.elim_some, hpins] at hc
  dsimp only at hc
  generalize (if argv[1]? = some "set".toList then setOptions (argv.drop 3) {} else some {}) =
    options at hc
  cases options with
  | none => split_ifs at hc <;> exact absurd hc List.not_mem_nil
  | some o =>
      dsimp only at hc
      -- Only the last two branches touch anything.
      split_ifs at hc
      all_goals first
        | exact absurd hc List.not_mem_nil
        | exact mem_touched hmask (fun _ => rfl) hc

/-- A list that is taken as it should has no pin touched but those of its ranges. -/
theorem Meets.touches {limit first last : ℕ} {pins : Text → Except Failure (BitVec 64)}
    {pin_opt : Text}
    {pin_mask : BitVec 64} {argv : List Text} (h : Meets limit pins (run pins first last) pin_opt)
    (hpins : pins pin_opt = .ok pin_mask) (hargv : argv[2]? = some pin_opt) (mapped : Bool) :
    ∃ items, Ranges (Names limit) pin_opt items ∧
      ∀ c ∈ (run pins first last mapped argv).2, ∃ item ∈ items, Spans item c.pinnum := by
  obtain ⟨items, hitems, hmarks⟩ := h.marks pin_mask hpins
  obtain ⟨item, hitem⟩ := List.exists_mem_of_ne_nil items hitems.ne_nil
  have hmask : pin_mask ≠ 0 := by
    intro hzero
    have hbit := (hmarks item.1).mpr ⟨item, hitem, min_le_left _ _, le_max_left _ _⟩
    rw [hzero] at hbit
    simp at hbit
  refine ⟨items, hitems, fun c hc => ?_⟩
  exact (hmarks c.pinnum).mp (run_touches hpins hargv hmask first last mapped c hc)

/-- What a program takes for numbers, in terms of what is written. -/
structure Explains (limit : ℕ) (number : Text → Except Failure (ℕ × Text))
    (reads : Text → Reading → Text → Prop) : Prop where
  takes_iff : ∀ {s pin rest}, Takes number s pin rest ↔ ∃ x : Reading, x.pin = pin ∧ reads s x rest
  written_iff : ∀ {s pin rest}, reads s (.written pin) rest ↔ Names limit s pin rest
  definite : Definite reads
  length_le : ∀ {s x rest}, reads s x rest → rest.length ≤ s.length

namespace Explains

variable {limit : ℕ} {number : Text → Except Failure (ℕ × Text)}
    {reads : Text → Reading → Text → Prop}
  {pin_opt : Text}

/-- The loop goes by what is taken for a number. -/
theorem pinLoop_iff (h : Explains limit number reads) {pin_mask : BitVec 64} :
    pinLoop number number (pin_opt.length + 1) pin_opt 0 = .ok pin_mask ↔
      ∃ items, Ranges reads pin_opt items ∧
      pin_mask = (items.map (Prod.map Reading.pin Reading.pin)).foldl
        (fun pin_mask item => mark pin_mask (ordered item)) 0 := by
  have hlength : ∀ s pin rest, Takes number s pin rest → rest.length ≤ s.length := by
    intro s pin rest htakes
    obtain ⟨x, -, hx⟩ := h.takes_iff.mp htakes
    exact h.length_le hx
  rw [Gpio.pinLoop_iff hlength (Nat.lt_succ_self _)]
  constructor
  · rintro ⟨items, hitems, hmask⟩
    obtain ⟨readings, rfl, hreadings⟩ := hitems.lift fun s pin rest htakes => h.takes_iff.mp htakes
    exact ⟨readings, hreadings, hmask⟩
  · rintro ⟨items, hitems, hmask⟩
    exact ⟨_, hitems.map fun s x rest hx => h.takes_iff.mpr ⟨x, rfl, hx⟩, hmask⟩

/-- A list of pins is a list of what is taken for numbers. -/
theorem ranges_reads (h : Explains limit number reads) {items : List (ℕ × ℕ)}
    (hitems : Ranges (Names limit) pin_opt items) :
    Ranges reads pin_opt (items.map (Prod.map Reading.written Reading.written)) :=
  hitems.map fun _ _ _ hnames => h.written_iff.mpr hnames

/-- Where all of its numbers are written out, it is a list of pins. -/
theorem ranges_names (h : Explains limit number reads) {items : List (Reading × Reading)}
    (hitems : Ranges reads pin_opt items) (hall : AllWritten items) :
    Ranges (Names limit) pin_opt (items.map (Prod.map Reading.pin Reading.pin)) := by
  refine (hitems.restrict hall).map ?_
  rintro s x rest ⟨hx, hwritten⟩
  cases x with
  | written pin => exact h.written_iff.mp hx
  | missing => exact hwritten.elim
  | wrapped pin => exact hwritten.elim

theorem allWritten_map (items : List (ℕ × ℕ)) :
    AllWritten (items.map (Prod.map Reading.written Reading.written)) := by
  intro item hitem
  obtain ⟨pins, -, rfl⟩ := List.mem_map.mp hitem
  exact ⟨trivial, trivial⟩

/-- The pins of the ranges are marked, where all of the numbers are written out. -/
theorem marks (h : Explains limit number reads) (hlimit : limit ≤ 64) {pin_mask : BitVec 64}
    (hall : ∀ items, Ranges reads pin_opt items → AllWritten items)
    (hmask : pinLoop number number (pin_opt.length + 1) pin_opt 0 = .ok pin_mask) :
    ∃ items, Ranges (Names limit) pin_opt items ∧
      ∀ pin, pin_mask.getLsbD pin = true ↔ ∃ item ∈ items, Spans item pin := by
  obtain ⟨items, hitems, rfl⟩ := h.pinLoop_iff.mp hmask
  have hnames := h.ranges_names hitems (hall items hitems)
  have hroom := hnames.forall_mem (p := fun pin => pin < 64) fun _ _ _ hpin =>
    hpin.1.trans_le hlimit
  refine ⟨_, hnames, fun pin => ?_⟩
  rw [foldl_mark_getLsbD hroom]
  simp

/-- **A text is taken as it should just when no number of it is missing or wraps.** -/
theorem meets_iff (h : Explains limit number reads) (hlimit : limit ≤ 64)
    {pins : Text → Except Failure (BitVec 64)} {first last : ℕ}
    (hpins : ∀ s, pins s = pinLoop number number (s.length + 1) s 0) :
    Meets limit pins (run pins first last) pin_opt ↔ ∀ items, Ranges reads pin_opt items →
    AllWritten items := by
  constructor
  · intro hmeets items hitems
    have htaken : ∃ pin_mask, pins pin_opt = .ok pin_mask := by
      rw [hpins]
      exact ⟨_, h.pinLoop_iff.mpr ⟨items, hitems, rfl⟩⟩
    obtain ⟨names, hnames⟩ := hmeets.accepts.mp htaken
    rw [hitems.unique h.definite (h.ranges_reads hnames)]
    exact allWritten_map names
  · intro hall
    constructor
    case accepts =>
        constructor
        · rintro ⟨pin_mask, hmask⟩
          rw [hpins] at hmask
          obtain ⟨items, hitems, -⟩ := h.marks hlimit hall hmask
          exact ⟨items, hitems⟩
        · rintro ⟨items, hitems⟩
          rw [hpins]
          exact ⟨_, h.pinLoop_iff.mpr ⟨_, h.ranges_reads hitems, rfl⟩⟩
    case marks =>
        intro pin_mask hmask
        rw [hpins] at hmask
        exact h.marks hlimit hall hmask
    case untouched =>
        intro mapped argv failure hargv hfailure
        rw [run_untouched hfailure hargv]

end Explains

theorem Rp1.explains {stored : Bool → ℕ → ℕ} (hpos : ∀ n < 2 ^ 32, stored false n = n)
    (hzero : stored true 0 = 0) :
    Explains GPIO_MAX (number stored) (Reads stored) where
  takes_iff := takes_iff hpos hzero
  written_iff := by
    intro s pin rest
    constructor
    · intro h
      cases h with
      | written h => exact h
    · exact .written
  definite := reads_definite stored
  length_le := reads_length_le

theorem Bcm.explains : Explains GPIO_MAX number Reads where
  takes_iff := takes_iff
  written_iff := by
    intro s pin rest
    constructor
    · intro h
      cases h with
      | written h => exact h
    · exact .written
  definite := reads_definite
  length_le := reads_length_le

theorem Rp1.meets_iff {stored : Bool → ℕ → ℕ} (hpos : ∀ n < 2 ^ 32, stored false n = n)
    (hzero : stored true 0 = 0)
    {pin_opt : Text} : Meets GPIO_MAX (pins stored) (main stored) pin_opt ↔
      ∀ items, Ranges (Reads stored) pin_opt items → AllWritten items :=
  (explains hpos hzero).meets_iff (by decide) fun _ => rfl

theorem Bcm.meets_iff {pin_opt : Text} :
    Meets GPIO_MAX pins main pin_opt ↔ ∀ items, Ranges Reads pin_opt items → AllWritten items := by
  refine explains.meets_iff (by decide) fun s => ?_
  rw [pins, number2_eq]

/-- **The lists of pins that the programs take.**  Both do as expected at `pin_opt` just when, read
as either of them reads it, no number of it is missing, and none wraps to a pin. -/
theorem pins_iff (stored : Bool → ℕ → ℕ) (hpos : ∀ n < 2 ^ 32, stored false n = n)
    (hzero : stored true 0 = 0) (pin_opt : Text) :
    Meets Rp1.GPIO_MAX (Rp1.pins stored) (Rp1.main stored) pin_opt ∧
        Meets Bcm.GPIO_MAX Bcm.pins Bcm.main pin_opt ↔
      (∀ items, Ranges (Rp1.Reads stored) pin_opt items → AllWritten items) ∧
        ∀ items, Ranges Bcm.Reads pin_opt items → AllWritten items :=
  and_congr (Rp1.meets_iff hpos hzero) Bcm.meets_iff

/-- What is stored where `%u` is read like `strtoul` reads, and cut down to 32 bits. -/
def Rp1.truncated (neg : Bool) (n : ℕ) : ℕ := Bcm.value neg n % 2 ^ 32

/-- A range and a pin, written out, are taken as they should. -/
theorem pins_iff_range :
    Meets Rp1.GPIO_MAX (Rp1.pins Rp1.truncated) (Rp1.main Rp1.truncated) "3-1,35".toList ∧
      Meets Bcm.GPIO_MAX Bcm.pins Bcm.main "3-1,35".toList := by
  have hpos : ∀ n < 2 ^ 32, Rp1.truncated false n = n := by
    intro n hn
    unfold Rp1.truncated
    rw [Bcm.value_of_zero (hn.trans (by decide)) (by simp), Nat.mod_eq_of_lt hn]
  have hthree : Stands "3-1,35".toList false 3 "-1,35".toList := scan_ten_iff.mp (by decide)
  have hone : Stands "1,35".toList false 1 ",35".toList := scan_ten_iff.mp (by decide)
  have hlast : Stands "35".toList false 35 [] := scan_ten_iff.mp (by decide)
  have hlist : ∀ limit, 36 ≤ limit → Ranges (Names limit) "3-1,35".toList [(3, 1), (35, 35)] := by
    intro limit hlimit
    exact .more (.range ⟨by omega, false, 3, hthree, rfl⟩ ⟨by omega, false, 1, hone, rfl⟩)
      (.last (.one ⟨by omega, false, 35, hlast, rfl⟩))
  refine (pins_iff Rp1.truncated hpos (by decide) _).mpr
    ⟨fun items hitems => ?_, fun items hitems => ?_⟩
  · have hexplains := Rp1.explains hpos (by decide)
    rw [hitems.unique hexplains.definite (hexplains.ranges_reads (hlist _ (by decide)))]
    exact Explains.allWritten_map _
  · rw [hitems.unique Bcm.explains.definite (Bcm.explains.ranges_reads (hlist _ (by decide)))]
    exact Explains.allWritten_map _

/-- `3-` names no second pin; `gpio-bcm` takes it for `3-0`. -/
theorem bcm_pins_open_range :
    Bcm.pins "3-".toList = .ok 0b1111 ∧ ¬ Meets Bcm.GPIO_MAX Bcm.pins Bcm.main "3-".toList := by
  have hfirst : Stands "3-".toList false 3 ['-'] := scan_ten_iff.mp (by decide)
  have hsecond : ∀ neg n rest, ¬ Stands [] neg n rest := scan_ten_none.mp (by decide)
  have hlist : Ranges Bcm.Reads "3-".toList [(.written 3, .missing)] :=
    .last (.range (.written ⟨by decide, false, 3, hfirst, rfl⟩) (.missing hsecond))
  refine ⟨by decide, fun hmeets => ?_⟩
  exact (Bcm.meets_iff.mp hmeets _ hlist _ List.mem_cons_self).2

end Gpio
