import Mathlib.Data.List.Nodup
import Mathlib.Data.Nat.Log
import Mathlib.Tactic.Ring
import RpiBsp.Support.Registers
import RpiBsp.Support.Rounds

/-!
# Startup — the cache flush

`aarch64_cache_flush` cleans and invalidates the data caches by level, way and set.  It finds what
levels there are and how large they are in two registers, and packs the three numbers in one operand
for `dc cisw`.

* `Line`, `operand` — what an operand means to the processor, whose words for it come from the
sizes;
* `loop3_eq`, `loop2_eq`, `flush_eq` — what the loops give;
* `levelWords`, `levelLines` — what a level gives, and what the processor takes it for;
* `flush_once` — **main**: each line of each data cache up to the level of coherency is named once,
inner levels first.
-/

namespace Startup.CacheFlush

open Support

/-! ### The program -/

/-- `ubfx`. -/
def ubfx (w : BitVec 32) (lsb width : ℕ) : BitVec 32 := (w >>> lsb) &&& lowMask width

/-- `lsl` by a register. -/
def lsl (w n : BitVec 32) : BitVec 32 := w <<< (n.toNat % 32)

section Program

variable (clidr_el1 : BitVec 64) (ccsidr_el1 : BitVec 64 → BitVec 64) (fuel : ℕ)

def loop3 (w10 w9 w2 w7 : BitVec 32) : Option (List (BitVec 64)) :=
  let w17 := lsl 1 w2
  doWhile (fun w7 => some [(w10 ||| w9 ||| w7).setWidth 64]) (fun w7 => w7 - w17)
    (fun w7 => w17.sle w7) fuel w7

def loop2 (w10 w1 w2 : BitVec 32) (x9 x16 : BitVec 64) : Option (List (BitVec 64)) :=
  doWhile (fun x9 => loop3 fuel w10 (x9.setWidth 32) w2 (lsl (ubfx w1 13 15) w2))
    (fun x9 => x9 - x16) (fun x9 => x16.sle x9) fuel x9

/-- What `loop1` does at the level that `w10` names. -/
def level (w10 : BitVec 32) : Option (List (BitVec 64)) :=
  let w2 := w10 + (w10 >>> 1)
  let w1 := (clidr_el1.setWidth 32 >>> (w2.toNat % 32)) &&& 7
  if w1.slt 2 then some []
  else
    let w1 := (ccsidr_el1 (w10.setWidth 64)).setWidth 32
    let w2 := (w1 &&& 7) + 4
    let w4 := ubfx w1 3 10
    let w5 := w4.clz
    loop2 fuel w10 w1 w2 ((lsl w4 w5).setWidth 64) ((lsl 1 w5).setWidth 64)

/-- The operands of `dc cisw`. -/
def aarch64_cache_flush : Option (List (BitVec 64)) :=
  let w3 := (clidr_el1.setWidth 32 &&& 0x07000000) >>> 23
  if w3 = 0 then some []
  else doWhile (level clidr_el1 ccsidr_el1 fuel) (fun w10 => w10 + 2)
    (fun w10 => (w10 + 2).slt w3) fuel 0

end Program

/-! ### What the registers say -/

section Sizes

/-- The number of levels up to that of coherency. -/
def loc (clidr : BitVec 64) : ℕ := clidr.toNat / 2 ^ 24 % 8

/-- What kind of cache there is at a level: from 2 on there is one for data. -/
def ctype (clidr : BitVec 64) (level : ℕ) : ℕ := clidr.toNat / 2 ^ (3 * level) % 8

variable (c : BitVec 64)

/-- A line of a cache has `2 ^ lineBits` bytes. -/
def lineBits : ℕ := c.toNat % 8 + 4

def lastWay : ℕ := c.toNat / 2 ^ 3 % 2 ^ 10

def lastSet : ℕ := c.toNat / 2 ^ 13 % 2 ^ 15

def wayBits : ℕ := Nat.clog 2 (lastWay c + 1)

def setBits : ℕ := Nat.clog 2 (lastSet c + 1)

end Sizes

/-- A line of a cache. -/
structure Line where
  level : ℕ
  way : ℕ
  set : ℕ
  deriving DecidableEq

/-- What `dc cisw` takes its operand for. -/
def operand (ccsidr : BitVec 64 → BitVec 64) (x : BitVec 64) : Line :=
  let level := x.toNat / 2 % 8
  let c := ccsidr (BitVec.ofNat 64 (2 * level))
  ⟨level, x.toNat / 2 ^ (32 - wayBits c), x.toNat / 2 ^ lineBits c % 2 ^ setBits c⟩

/-- The line is one of a data cache up to the level of coherency. -/
def Cached (clidr : BitVec 64) (ccsidr : BitVec 64 → BitVec 64) (line : Line) : Prop :=
  line.level < loc clidr ∧ 2 ≤ ctype clidr line.level ∧
    line.way ≤ lastWay (ccsidr (BitVec.ofNat 64 (2 * line.level))) ∧
    line.set ≤ lastSet (ccsidr (BitVec.ofNat 64 (2 * line.level)))

instance (clidr : BitVec 64) (ccsidr : BitVec 64 → BitVec 64) (line : Line) :
    Decidable (Cached clidr ccsidr line) :=
  inferInstanceAs (Decidable (_ ∧ _))

/-- The way, the set and the level of a line do not meet in an operand. -/
def Fits (c : BitVec 64) : Prop := lineBits c + setBits c + wayBits c ≤ 32

instance (c : BitVec 64) : Decidable (Fits c) := inferInstanceAs (Decidable (_ ≤ _))

/-! ### The loops -/

section Loops

variable {fuel : ℕ}

theorem toInt_ofNat_of_lt {w a : ℕ} (h : 2 * a < 2 ^ w) : (BitVec.ofNat w a).toInt = a := by
  have hmod : (BitVec.ofNat w a).toNat = a := by
    rw [BitVec.toNat_ofNat, Nat.mod_eq_of_lt (by omega)]
  rw [BitVec.toInt_eq_toNat_of_lt (by omega), hmod]

theorem slt_ofNat {w a b : ℕ} (ha : 2 * a < 2 ^ w) (hb : 2 * b < 2 ^ w) :
    (BitVec.ofNat w a).slt (BitVec.ofNat w b) = decide (a < b) := by
  rw [BitVec.slt_eq_decide, toInt_ofNat_of_lt ha, toInt_ofNat_of_lt hb]
  exact decide_eq_decide.mpr Int.ofNat_lt

theorem sle_ofNat {w a b : ℕ} (ha : 2 * a < 2 ^ w) (hb : 2 * b < 2 ^ w) :
    (BitVec.ofNat w a).sle (BitVec.ofNat w b) = decide (a ≤ b) := by
  rw [BitVec.sle_eq_decide, toInt_ofNat_of_lt ha, toInt_ofNat_of_lt hb]
  exact decide_eq_decide.mpr Int.ofNat_le

/-- Counting down to nothing in steps of `d`. -/
theorem down_eq {w : ℕ} {α : Type} {d n : ℕ} (hd : 0 < d) (hfits : 2 * (n * d + d) < 2 ^ w)
    {body : BitVec w → Option (List α)} {f : ℕ → List α}
    (hbody : ∀ k ≤ n, body (BitVec.ofNat w (k * d)) = some (f k))
    (hfuel : n < fuel) :
    doWhile body (fun v => v - BitVec.ofNat w d) (fun v => (BitVec.ofNat w d).sle v) fuel
        (BitVec.ofNat w (n * d)) =
      some ((List.range (n + 1)).flatMap fun k => f (n - k)) := by
  have hle : ∀ k, (n - k) * d ≤ n * d := fun k => Nat.mul_le_mul_right d (Nat.sub_le n k)
  refine doWhile_eq (v := fun k => BitVec.ofNat w ((n - k) * d))
    (fun k hk => hbody _ (Nat.sub_le n k)) (fun k hk => ?_) ?_ hfuel
  · have hsub : (n - k) * d = (n - (k + 1)) * d + d := by
      rw [← Nat.succ_mul]
      congr 1
      omega
    have := hle k
    constructor
    · rw [sle_ofNat (by omega) (by omega), decide_eq_true_eq, hsub]
      omega
    · rw [hsub, BitVec.ofNat_add, BitVec.add_sub_cancel]
  · rw [Nat.sub_self, Nat.zero_mul, sle_ofNat (by omega) (by omega), decide_eq_false_iff_not]
    omega

theorem lsl_ofNat (v : ℕ) (n : BitVec 32) :
    lsl (BitVec.ofNat 32 v) n = BitVec.ofNat 32 (v * 2 ^ (n.toNat % 32)) := by
  apply BitVec.eq_of_toNat_eq
  rw [lsl, BitVec.toNat_shiftLeft, BitVec.toNat_ofNat, BitVec.toNat_ofNat, Nat.shiftLeft_eq,
    Nat.mod_mul_mod]

theorem ubfx_eq (w : BitVec 32) {lsb width : ℕ} (hwidth : width < 32) :
    ubfx w lsb width = BitVec.ofNat 32 (w.toNat / 2 ^ lsb % 2 ^ width) := by
  have hmask : (2 ^ width - 1) % 2 ^ 32 = 2 ^ width - 1 :=
    Nat.mod_eq_of_lt ((Nat.sub_le _ _).trans_lt (Nat.pow_lt_pow_right (by decide) hwidth))
  have hlt : w.toNat / 2 ^ lsb % 2 ^ width < 2 ^ 32 :=
    (Nat.mod_lt _ (Nat.two_pow_pos _)).trans (Nat.pow_lt_pow_right (by decide) hwidth)
  apply BitVec.eq_of_toNat_eq
  rw [ubfx, lowMask, BitVec.toNat_and, BitVec.toNat_ushiftRight, BitVec.toNat_ofNat,
    BitVec.toNat_ofNat, hmask,
    Nat.and_two_pow_sub_one_eq_mod, Nat.shiftRight_eq_div_pow, Nat.mod_eq_of_lt hlt]

/-- The operand of which the registers hold the parts. -/
def word (w10 : BitVec 32) (a b way set : ℕ) : BitVec 64 :=
  (w10 ||| BitVec.ofNat 32 (way * 2 ^ a) ||| BitVec.ofNat 32 (set * 2 ^ b)).setWidth 64

theorem loop3_eq {w2 : BitVec 32} (hw2 : w2.toNat ≤ 11) {set : ℕ} (hset : set < 2 ^ 15)
    (hfuel : set < fuel) (w10 : BitVec 32) (a way : ℕ) :
    loop3 fuel w10 (BitVec.ofNat 32 (way * 2 ^ a)) w2 (BitVec.ofNat 32 (set * 2 ^ w2.toNat)) =
      some ((List.range (set + 1)).flatMap fun j => [word w10 a w2.toNat way (set - j)]) := by
  have hfits : (set + 1) * 2 ^ w2.toNat ≤ 2 ^ 15 * 2 ^ 11 :=
    Nat.mul_le_mul hset (Nat.pow_le_pow_right (by decide) hw2)
  rw [Nat.succ_mul] at hfits
  rw [loop3, show (1 : BitVec 32) = BitVec.ofNat 32 1 from rfl, lsl_ofNat, Nat.one_mul,
    Nat.mod_eq_of_lt (by omega)]
  exact down_eq (Nat.two_pow_pos _) (by omega) (f := fun k => [word w10 a w2.toNat way k])
    (fun k _ => rfl) hfuel

theorem loop2_eq {w1 w2 : BitVec 32} (hw2 : w2.toNat ≤ 11) {a way : ℕ}
    (hfits : way * 2 ^ a + 2 ^ a ≤ 2 ^ 32)
    (hway : way < 2 ^ 10) (hfuel : 2 ^ 15 ≤ fuel) (w10 : BitVec 32) :
    loop2 fuel w10 w1 w2 (BitVec.ofNat 64 (way * 2 ^ a)) (BitVec.ofNat 64 (2 ^ a)) =
      some ((List.range (way + 1)).flatMap fun i =>
        (List.range (w1.toNat / 2 ^ 13 % 2 ^ 15 + 1)).flatMap fun j =>
        [word w10 a w2.toNat (way - i) (w1.toNat / 2 ^ 13 % 2 ^ 15 - j)]) := by
  have hset : w1.toNat / 2 ^ 13 % 2 ^ 15 < 2 ^ 15 := Nat.mod_lt _ (Nat.two_pow_pos _)
  have hpos := Nat.two_pow_pos a
  have hshift : w2.toNat < 32 := by omega
  have hbody : ∀ k ≤ way, loop3 fuel w10 ((BitVec.ofNat 64 (k * 2 ^ a)).setWidth 32) w2
      (lsl (ubfx w1 13 15) w2) =
      some ((List.range (w1.toNat / 2 ^ 13 % 2 ^ 15 + 1)).flatMap fun j =>
        [word w10 a w2.toNat k (w1.toNat / 2 ^ 13 % 2 ^ 15 - j)]) := by
    intro k _
    rw [BitVec.setWidth_ofNat_of_le (by decide), ubfx_eq w1 (by decide), lsl_ofNat,
      Nat.mod_eq_of_lt hshift, loop3_eq hw2 hset (by omega)]
  rw [loop2]
  exact down_eq (w := 64) (n := way)
    (f := fun k => (List.range (w1.toNat / 2 ^ 13 % 2 ^ 15 + 1)).flatMap fun j =>
    [word w10 a w2.toNat k (w1.toNat / 2 ^ 13 % 2 ^ 15 - j)]) hpos (by omega) hbody (by omega)

end Loops

/-! ### Operands -/

/-- The numbers are found again where they were put. -/
theorem unpack (way : ℕ) {l set b s k : ℕ} (hl : l < 8) (hb : 4 ≤ b) (hset : set < 2 ^ s)
    (hk : b + s ≤ k) :
    (2 * l ||| way * 2 ^ k ||| set * 2 ^ b) = way * 2 ^ k + (set * 2 ^ b + 2 * l) ∧
    set * 2 ^ b + 2 * l < 2 ^ k := by
  have hlow : 2 * l < 2 ^ b :=
    (show 2 * l < 2 ^ 4 by omega).trans_le (Nat.pow_le_pow_right (by decide) hb)
  have hmid : set * 2 ^ b + 2 * l < 2 ^ k := by
    have hle : (set + 1) * 2 ^ b ≤ 2 ^ s * 2 ^ b := Nat.mul_le_mul_right _ hset
    rw [Nat.succ_mul, ← Nat.pow_add, Nat.add_comm s b] at hle
    exact (show _ < 2 ^ (b + s) by omega).trans_le (Nat.pow_le_pow_right (by decide) hk)
  refine ⟨?_, hmid⟩
  rw [Nat.mul_comm way, Nat.mul_comm set] at *
  rw [Nat.two_pow_add_eq_or_of_lt hmid, Nat.two_pow_add_eq_or_of_lt hlow, Nat.or_comm (2 * l),
    Nat.or_assoc, Nat.or_comm (2 * l)]

theorem unpack_level (set way : ℕ) {l b k : ℕ} (hl : l < 8) (hb : 4 ≤ b) (hk : b ≤ k) :
    (way * 2 ^ k + (set * 2 ^ b + 2 * l)) / 2 % 8 = l := by
  obtain ⟨i, rfl⟩ := Nat.exists_eq_add_of_le hb
  obtain ⟨j, rfl⟩ := Nat.exists_eq_add_of_le hk
  have hset : set * 2 ^ (4 + i) = 16 * (set * 2 ^ i) := by
    rw [Nat.pow_add]
    exact Nat.mul_left_comm set 16 (2 ^ i)
  have hway : way * 2 ^ (4 + i + j) = 16 * (way * 2 ^ (i + j)) := by
    rw [Nat.add_assoc, Nat.pow_add 2 4]
    exact Nat.mul_left_comm way 16 _
  omega

theorem unpack_set {l set way b s k : ℕ} (hlow : 2 * l < 2 ^ b) (hset : set < 2 ^ s)
    (hk : b + s ≤ k) :
    (way * 2 ^ k + (set * 2 ^ b + 2 * l)) / 2 ^ b % 2 ^ s = set := by
  obtain ⟨j, rfl⟩ := Nat.exists_eq_add_of_le hk
  have hway : way * 2 ^ (b + s + j) + (set * 2 ^ b + 2 * l) = 2 * l + 2 ^ b *
      (set + 2 ^ s * (way * 2 ^ j)) := by
    rw [Nat.pow_add, Nat.pow_add]
    ring
  rw [hway, Nat.add_mul_div_left _ _ (Nat.two_pow_pos b), Nat.div_eq_of_lt hlow, Nat.zero_add,
    Nat.add_mul_mod_self_left, Nat.mod_eq_of_lt hset]

section Level

variable {c : BitVec 64}

theorem lineBits_le (c : BitVec 64) : 4 ≤ lineBits c ∧ lineBits c ≤ 11 := by
  unfold lineBits
  omega

theorem lastWay_lt (c : BitVec 64) : lastWay c < 2 ^ wayBits c :=
  Nat.lt_of_succ_le (Nat.le_pow_clog (by decide) _)

theorem lastSet_lt (c : BitVec 64) : lastSet c < 2 ^ setBits c :=
  Nat.lt_of_succ_le (Nat.le_pow_clog (by decide) _)

/-- What `clz` says of the ways is what the processor takes for their place, if there is more than
one. -/
theorem clz_lastWay (h : lastWay c ≠ 0) :
    (BitVec.ofNat 32 (lastWay c)).clz.toNat = 32 - wayBits c ∧ wayBits c ≤ 32 := by
  have hlt : lastWay c < 2 ^ 10 := Nat.mod_lt _ (Nat.two_pow_pos _)
  have hnat : (BitVec.ofNat 32 (lastWay c)).toNat = lastWay c := by
    rw [BitVec.toNat_ofNat, Nat.mod_eq_of_lt (by omega)]
  have hne : BitVec.ofNat 32 (lastWay c) ≠ 0#32 := by
    intro h0
    rw [h0] at hnat
    exact h hnat.symm
  have hlow := BitVec.two_pow_sub_clz_le_toNat_of_ne_zero (by decide) hne
  have hhigh := BitVec.toNat_lt_two_pow_sub_clz (x := BitVec.ofNat 32 (lastWay c))
  rw [hnat] at hlow hhigh
  have hle : wayBits c ≤ 32 - (BitVec.ofNat 32 (lastWay c)).clz.toNat := Nat.clog_le_of_le_pow hhigh
  have hge : 32 - (BitVec.ofNat 32 (lastWay c)).clz.toNat - 1 < wayBits c := by
    refine (Nat.lt_clog_iff_pow_lt (by decide)).mpr ?_
    rw [show 32 - (BitVec.ofNat 32 (lastWay c)).clz.toNat - 1 = 32 - 1 -
      (BitVec.ofNat 32 (lastWay c)).clz.toNat by omega]
    exact Nat.lt_succ_of_le hlow
  have hclz : (BitVec.ofNat 32 (lastWay c)).clz.toNat < 32 := BitVec.clz_lt_iff_ne_zero.mpr hne
  omega

/-- The bit at which the program puts the way. -/
def wayShift (c : BitVec 64) : ℕ := (BitVec.ofNat 32 (lastWay c)).clz.toNat % 32

theorem wayShift_eq (h : lastWay c ≠ 0) : wayShift c = 32 - wayBits c := by
  obtain ⟨hclz, hle⟩ := clz_lastWay h
  have hbits : 0 < wayBits c := Nat.clog_pos (by decide) (by omega)
  rw [wayShift, hclz, Nat.mod_eq_of_lt (by omega)]

theorem way_shift {way : ℕ} (hway : way ≤ lastWay c) :
    way * 2 ^ wayShift c = way * 2 ^ (32 - wayBits c) := by
  by_cases h : lastWay c = 0
  · rw [show way = 0 by omega, Nat.zero_mul, Nat.zero_mul]
  · rw [wayShift_eq h]

theorem way_fits {way : ℕ} (hfits : Fits c) (hway : way ≤ lastWay c) :
    way * 2 ^ (32 - wayBits c) + 2 ^ (32 - wayBits c) ≤ 2 ^ 32 := by
  have hle : (way + 1) * 2 ^ (32 - wayBits c) ≤ 2 ^ wayBits c * 2 ^ (32 - wayBits c) :=
    Nat.mul_le_mul_right _ (hway.trans_lt (lastWay_lt c))
  rwa [← Nat.pow_add, Nat.add_sub_of_le ((Nat.le_add_left _ _).trans hfits), Nat.succ_mul] at hle

theorem lastWay_fits (hfits : Fits c) : lastWay c * 2 ^ wayShift c + 2 ^ wayShift c ≤ 2 ^ 32 := by
  by_cases h : lastWay c = 0
  · rw [h, Nat.zero_mul, Nat.zero_add]
    exact Nat.pow_le_pow_right (by decide) (Nat.mod_lt _ (by decide)).le
  · rw [wayShift_eq h]
    exact way_fits hfits (Nat.le_refl _)

/-- The processor finds in an operand the line that the program put there. -/
theorem operand_word {ccsidr : BitVec 64 → BitVec 64} {l way set : ℕ} (hl : l < 8)
    (hc : ccsidr (BitVec.ofNat 64 (2 * l)) = c)
    (hfits : Fits c) (hway : way ≤ lastWay c) (hset : set ≤ lastSet c) :
    operand ccsidr (word (BitVec.ofNat 32 (2 * l)) (wayShift c) (lineBits c) way set) =
      ⟨l, way, set⟩ := by
  obtain ⟨hfour, heleven⟩ := lineBits_le c
  have hset' : set < 2 ^ setBits c := hset.trans_lt (lastSet_lt c)
  have hk : lineBits c + setBits c ≤ 32 - wayBits c := by
    unfold Fits at hfits
    omega
  have hfit := way_fits hfits hway
  obtain ⟨hor, hlow⟩ := unpack way hl hfour hset' hk
  have hlevel : 2 * l < 2 ^ lineBits c :=
    (show 2 * l < 2 ^ 4 by omega).trans_le (Nat.pow_le_pow_right (by decide) hfour)
  have hnat : (word (BitVec.ofNat 32 (2 * l)) (wayShift c) (lineBits c) way set).toNat =
      way * 2 ^ (32 - wayBits c) + (set * 2 ^ lineBits c + 2 * l) := by
    rw [word, way_shift hway, BitVec.toNat_setWidth_of_le (by decide), BitVec.toNat_or,
      BitVec.toNat_or, BitVec.toNat_ofNat,
      BitVec.toNat_ofNat, BitVec.toNat_ofNat, Nat.mod_eq_of_lt (by omega),
      Nat.mod_eq_of_lt (by omega),
      Nat.mod_eq_of_lt (by omega), hor]
  have hl' := unpack_level set way hl hfour (Nat.le_of_add_right_le hk)
  rw [operand, hnat]
  simp only [hl', hc, unpack_set hlevel hset' hk, Line.mk.injEq, true_and, and_true]
  rw [Nat.add_comm, Nat.add_mul_div_right _ _ (Nat.two_pow_pos _), Nat.div_eq_of_lt hlow,
    Nat.zero_add]

end Level

/-! ### All levels -/

section All

variable {clidr : BitVec 64} {ccsidr : BitVec 64 → BitVec 64} {fuel : ℕ}

/-- The operands of a level, from the last way and the last set on. -/
def levelWords (clidr : BitVec 64) (ccsidr : BitVec 64 → BitVec 64) (l : ℕ) : List (BitVec 64) :=
  let c := ccsidr (BitVec.ofNat 64 (2 * l))
  if ctype clidr l < 2 then []
  else (List.range (lastWay c + 1)).flatMap fun i => (List.range (lastSet c + 1)).flatMap fun j =>
    [word (BitVec.ofNat 32 (2 * l)) (wayShift c) (lineBits c) (lastWay c - i) (lastSet c - j)]

/-- What lies in the low half of a register is read from it. -/
theorem low_half {x k w : ℕ} (h : k + w ≤ 32) : x % 2 ^ 32 / 2 ^ k % 2 ^ w = x / 2 ^ k % 2 ^ w := by
  rw [← Nat.mod_mul_right_div_self, ← Nat.mod_mul_right_div_self, ← Nat.pow_add, Nat.mod_mod_of_dvd]
  exact Nat.pow_dvd_pow 2 h

theorem ctype_eq {l : ℕ} (hl : l < 7) :
    (clidr.setWidth 32 >>>
        ((BitVec.ofNat 32 (2 * l) + (BitVec.ofNat 32 (2 * l) >>> 1)).toNat % 32)) &&& 7 =
      BitVec.ofNat 32 (ctype clidr l) := by
  have hshift : ∀ l < 7, (BitVec.ofNat 32 (2 * l) + (BitVec.ofNat 32 (2 * l) >>> 1)).toNat % 32 =
    3 * l := by decide
  apply BitVec.eq_of_toNat_eq
  rw [hshift l hl, BitVec.toNat_and, BitVec.toNat_ushiftRight, BitVec.toNat_setWidth,
    Nat.shiftRight_eq_div_pow,
    show (7 : BitVec 32).toNat = 2 ^ 3 - 1 from rfl, Nat.and_two_pow_sub_one_eq_mod,
    low_half (by omega), BitVec.toNat_ofNat]
  exact (Nat.mod_eq_of_lt
    (show ctype clidr l < 2 ^ 32 from (Nat.mod_lt _ (by decide)).trans (by decide))).symm

theorem level_eq {l : ℕ} (hl : l < 7)
    (hfits : 2 ≤ ctype clidr l → Fits (ccsidr (BitVec.ofNat 64 (2 * l))))
    (hfuel : 2 ^ 15 ≤ fuel) :
      level clidr ccsidr fuel (BitVec.ofNat 32 (2 * l)) = some (levelWords clidr ccsidr l) := by
  have hctype : ctype clidr l < 8 := Nat.mod_lt _ (by decide)
  rw [level, levelWords]
  simp only [ctype_eq hl, show (2 : BitVec 32) = BitVec.ofNat 32 2 from rfl]
  rw [slt_ofNat (by omega) (by decide)]
  by_cases h : ctype clidr l < 2
  · rw [if_pos (decide_eq_true h), if_pos h]
  · rw [if_neg (by simpa using h), if_neg h]
    have hfits := hfits (by omega)
    rw [BitVec.setWidth_ofNat_of_le_of_lt (by decide) (by omega)]
    generalize ccsidr (BitVec.ofNat 64 (2 * l)) = c at hfits ⊢
    obtain ⟨hfour, heleven⟩ := lineBits_le c
    have hw2 : ((c.setWidth 32 &&& 7) + 4).toNat = lineBits c := by
      have hfield := low_half (x := c.toNat) (k := 0) (w := 3) (by decide)
      rw [Nat.pow_zero, Nat.div_one, Nat.div_one] at hfield
      rw [BitVec.toNat_add, BitVec.toNat_and, BitVec.toNat_setWidth, show (7 : BitVec 32).toNat =
        2 ^ 3 - 1 from rfl,
        Nat.and_two_pow_sub_one_eq_mod, hfield, show (4 : BitVec 32).toNat = 4 from rfl,
        Nat.mod_eq_of_lt (by omega)]
      rfl
    have hw4 : ubfx (c.setWidth 32) 3 10 = BitVec.ofNat 32 (lastWay c) := by
      rw [ubfx_eq _ (by decide), BitVec.toNat_setWidth, low_half (by decide), lastWay]
    have hlastSet : (c.setWidth 32).toNat / 2 ^ 13 % 2 ^ 15 = lastSet c := by
      rw [BitVec.toNat_setWidth, low_half (by decide), lastSet]
    have hfit := lastWay_fits hfits
    have hpos := Nat.two_pow_pos (wayShift c)
    have hways : (lsl (BitVec.ofNat 32 (lastWay c)) (BitVec.ofNat 32 (lastWay c)).clz).setWidth 64 =
        BitVec.ofNat 64 (lastWay c * 2 ^ wayShift c) := by
      rw [lsl_ofNat, ← wayShift, BitVec.setWidth_ofNat_of_le_of_lt (by decide) (by omega)]
    have hway : (lsl (BitVec.ofNat 32 1) (BitVec.ofNat 32 (lastWay c)).clz).setWidth 64 =
        BitVec.ofNat 64 (2 ^ wayShift c) := by
      rw [lsl_ofNat, ← wayShift, Nat.one_mul]
      exact BitVec.setWidth_ofNat_of_le_of_lt (by decide)
        (Nat.pow_lt_pow_right (by decide) (Nat.mod_lt _ (by decide)))
    rw [hw4, hways, show (1 : BitVec 32) = BitVec.ofNat 32 1 from rfl, hway,
      loop2_eq (by omega) hfit (Nat.mod_lt _ (by decide)) hfuel, hlastSet, hw2]

theorem loc_eq (clidr : BitVec 64) :
    (clidr.setWidth 32 &&& 0x07000000) >>> 23 = BitVec.ofNat 32 (2 * loc clidr) := by
  have hmask : ∀ i < 32,
      (0x07000000 : BitVec 32).getLsbD (23 + i) =
        (decide (0 < i) && (7 : BitVec 32).getLsbD (i - 1)) := by decide
  have hfield : ∀ x : BitVec 32, (x &&& 0x07000000) >>> 23 = ((x >>> 24) &&& 7) <<< 1 := by
    intro x
    apply BitVec.eq_of_getLsbD_eq
    intro i hi
    rw [BitVec.getLsbD_ushiftRight, BitVec.getLsbD_and, BitVec.getLsbD_shiftLeft,
      BitVec.getLsbD_and, BitVec.getLsbD_ushiftRight, hmask i hi]
    by_cases h0 : i = 0
    · simp [h0]
    · rw [show 24 + (i - 1) = 23 + i by omega]
      simp [hi, h0, Nat.pos_of_ne_zero h0]
  have hloc : loc clidr < 8 := Nat.mod_lt _ (by decide)
  have hlow : clidr.toNat % 2 ^ 32 / 2 ^ 24 % 2 ^ 3 = loc clidr := low_half (by decide)
  apply BitVec.eq_of_toNat_eq
  rw [hfield, BitVec.toNat_shiftLeft, BitVec.toNat_and, BitVec.toNat_ushiftRight,
    BitVec.toNat_setWidth,
    Nat.shiftRight_eq_div_pow, show (7 : BitVec 32).toNat = 2 ^ 3 - 1 from rfl,
    Nat.and_two_pow_sub_one_eq_mod, hlow,
    Nat.shiftLeft_eq, Nat.pow_one, Nat.mul_comm, BitVec.toNat_ofNat]

theorem flush_eq (hfits : ∀ l < loc clidr, 2 ≤ ctype clidr l →
    Fits (ccsidr (BitVec.ofNat 64 (2 * l)))) (hfuel : 2 ^ 15 ≤ fuel) :
    aarch64_cache_flush clidr ccsidr fuel =
      some ((List.range (loc clidr)).flatMap (levelWords clidr ccsidr)) := by
  have hloc : loc clidr < 8 := Nat.mod_lt _ (by decide)
  rw [aarch64_cache_flush, loc_eq]
  by_cases h : loc clidr = 0
  · rw [h]
    rfl
  · have hne : BitVec.ofNat 32 (2 * loc clidr) ≠ 0 := by
      intro h0
      have := congrArg BitVec.toNat h0
      rw [BitVec.toNat_ofNat, Nat.mod_eq_of_lt (by omega)] at this
      exact h ((Nat.mul_eq_zero.mp this).resolve_left (by decide))
    obtain ⟨n, hn⟩ := Nat.exists_eq_add_one_of_ne_zero h
    have hagain : ∀ l ≤ n, (BitVec.ofNat 32 (2 * l) + 2).slt (BitVec.ofNat 32 (2 * loc clidr)) =
        decide (l < n) := by
      intro l hl
      rw [show (2 : BitVec 32) = BitVec.ofNat 32 2 from rfl, ← BitVec.ofNat_add,
        slt_ofNat (by omega) (by omega)]
      exact decide_eq_decide.mpr (by omega)
    have hn' : n < fuel := by omega
    simp only [if_neg hne]
    rw [hn] at hagain ⊢
    refine doWhile_eq (v := fun l => BitVec.ofNat 32 (2 * l))
      (fun l hl => level_eq (by omega) (hfits l (by omega)) hfuel)
      (fun l hl => ⟨?_, ?_⟩) ?_ hn'
    · rw [hagain l hl.le, decide_eq_true hl]
    · rw [Nat.mul_succ, BitVec.ofNat_add]
      rfl
    · rw [hagain n (Nat.le_refl n), decide_eq_false (Nat.lt_irrefl n)]

end All

/-! ### The lines -/

/-- The lines of a level, from the last way and the last set on. -/
def levelLines (clidr : BitVec 64) (ccsidr : BitVec 64 → BitVec 64) (l : ℕ) : List Line :=
  let c := ccsidr (BitVec.ofNat 64 (2 * l))
  if ctype clidr l < 2 then []
  else (List.range (lastWay c + 1)).flatMap fun i => (List.range (lastSet c + 1)).flatMap fun j =>
    [⟨l, lastWay c - i, lastSet c - j⟩]

section Lines

/-- Lists that are told apart by what `g` says of their members. -/
theorem nodup_flatMap_of_key {α β γ : Type} {f : α → List β} {g : β → γ} {k : α → γ} {l : List α}
    (hl : l.Nodup)
    (hkey : ∀ a ∈ l, ∀ b ∈ f a, g b = k a) (hinj : ∀ a ∈ l, ∀ b ∈ l, k a = k b → a = b)
    (hf : ∀ a ∈ l, (f a).Nodup) :
    (l.flatMap f).Nodup := by
  rw [List.nodup_flatMap]
  refine ⟨hf, hl.imp_of_mem fun {a b} ha hb hne x hx hx' => hne (hinj a ha b hb ?_)⟩
  rw [← hkey a ha x hx, hkey b hb x hx']

variable {clidr : BitVec 64} {ccsidr : BitVec 64 → BitVec 64} {l : ℕ}

theorem operand_levelWords (hl : l < 8)
    (hfits : 2 ≤ ctype clidr l → Fits (ccsidr (BitVec.ofNat 64 (2 * l)))) :
    (levelWords clidr ccsidr l).map (operand ccsidr) = levelLines clidr ccsidr l := by
  rw [levelWords, levelLines]
  by_cases h : ctype clidr l < 2
  · simp only [if_pos h, List.map_nil]
  · simp only [if_neg h, List.map_flatMap, List.map_cons, List.map_nil]
    simp only [operand_word hl rfl (hfits (by omega)) (Nat.sub_le _ _) (Nat.sub_le _ _)]

theorem mem_levelLines {line : Line} :
    line ∈ levelLines clidr ccsidr l ↔
      line.level = l ∧ 2 ≤ ctype clidr l ∧ line.way ≤ lastWay (ccsidr (BitVec.ofNat 64 (2 * l))) ∧
        line.set ≤ lastSet (ccsidr (BitVec.ofNat 64 (2 * l))) := by
  rw [levelLines]
  by_cases h : ctype clidr l < 2
  · rw [if_pos h]
    exact iff_of_false List.not_mem_nil fun hline => absurd hline.2.1 (by omega)
  · rw [if_neg h]
    simp only [List.mem_flatMap, List.mem_singleton, List.mem_range]
    constructor
    · rintro ⟨i, hi, j, hj, rfl⟩
      exact ⟨rfl, by omega, Nat.sub_le _ _, Nat.sub_le _ _⟩
    · rintro ⟨rfl, -, hway, hset⟩
      exact ⟨_, Nat.lt_succ_of_le (Nat.sub_le _ line.way), _,
        Nat.lt_succ_of_le (Nat.sub_le _ line.set), by
        rw [Nat.sub_sub_self hway, Nat.sub_sub_self hset]⟩

theorem nodup_levelLines : (levelLines clidr ccsidr l).Nodup := by
  rw [levelLines]
  by_cases h : ctype clidr l < 2
  · rw [if_pos h]
    exact List.nodup_nil
  · rw [if_neg h]
    refine nodup_flatMap_of_key (g := Line.way)
      (k := fun i => lastWay (ccsidr (BitVec.ofNat 64 (2 * l))) - i)
      List.nodup_range (fun i _ x hx => ?_) (fun i hi j hj hij => ?_) fun i _ => ?_
    · obtain ⟨j, -, hx⟩ := List.mem_flatMap.mp hx
      rw [List.mem_singleton.mp hx]
    · rw [List.mem_range] at hi hj
      omega
    · refine nodup_flatMap_of_key (g := Line.set)
        (k := fun j => lastSet (ccsidr (BitVec.ofNat 64 (2 * l))) - j)
        List.nodup_range (fun j _ x hx => ?_) (fun i hi j hj hij => ?_) fun j _ =>
          List.nodup_singleton _
      · rw [List.mem_singleton.mp hx]
      · rw [List.mem_range] at hi hj
        omega

end Lines

/-- **The flush**: it ends, and names each line of each data cache up to the level of coherency
once, and no other; a line of an inner level before those of the outer ones, which it may be written
to. -/
theorem flush_once {clidr : BitVec 64} {ccsidr : BitVec 64 → BitVec 64} {fuel : ℕ}
    (hfits : ∀ l < loc clidr, 2 ≤ ctype clidr l → Fits (ccsidr (BitVec.ofNat 64 (2 * l))))
    (hfuel : 2 ^ 15 ≤ fuel) :
    ∃ xs, aarch64_cache_flush clidr ccsidr fuel = some xs ∧
      (xs.map (operand ccsidr)).Nodup ∧
      (∀ line, line ∈ xs.map (operand ccsidr) ↔ Cached clidr ccsidr line) ∧
      (xs.map (operand ccsidr)).Pairwise fun x y => x.level ≤ y.level := by
  have hloc : loc clidr < 8 := Nat.mod_lt _ (by decide)
  have hlines : ((List.range (loc clidr)).flatMap (levelWords clidr ccsidr)).map (operand ccsidr) =
      (List.range (loc clidr)).flatMap (levelLines clidr ccsidr) := by
    rw [List.map_flatMap]
    refine List.flatMap_congr fun l hl => ?_
    have hl := List.mem_range.mp hl
    exact operand_levelWords (by omega) (hfits l hl)
  refine ⟨_, flush_eq hfits hfuel, ?_, ?_, ?_⟩
  · rw [hlines]
    exact nodup_flatMap_of_key (g := Line.level) (k := id) List.nodup_range
      (fun l _ x hx => (mem_levelLines.mp hx).1) (fun _ _ _ _ h => h) fun l _ => nodup_levelLines
  · intro line
    rw [hlines, List.mem_flatMap]
    constructor
    · rintro ⟨l, hl, hline⟩
      obtain ⟨rfl, hrest⟩ := mem_levelLines.mp hline
      exact ⟨List.mem_range.mp hl, hrest⟩
    · rintro ⟨hl, hrest⟩
      exact ⟨line.level, List.mem_range.mpr hl, mem_levelLines.mpr ⟨rfl, hrest⟩⟩
  · rw [hlines, List.pairwise_flatMap]
    constructor
    · intro l _
      exact List.pairwise_of_forall_mem_list fun x hx y hy => by
        rw [(mem_levelLines.mp hx).1, (mem_levelLines.mp hy).1]
    · refine List.pairwise_lt_range.imp fun {l l'} hlt x hx y hy => ?_
      rw [(mem_levelLines.mp hx).1, (mem_levelLines.mp hy).1]
      exact hlt.le

/-- A level of 4 ways and 256 sets, and behind it one of 8 ways and 1024 sets. -/
def twoLevels : BitVec 64 → BitVec 64 := fun csselr => if csselr = 0 then 0x1fe01a else 0x7fe03a

theorem flush_once_two :
    ∃ xs, aarch64_cache_flush 0x02000023 twoLevels (2 ^ 15) = some xs ∧
      (xs.map (operand twoLevels)).Nodup ∧
      ⟨0, 3, 255⟩ ∈ xs.map (operand twoLevels) ∧ ⟨1, 7, 1023⟩ ∈ xs.map (operand twoLevels) ∧
      ⟨1, 8, 0⟩ ∉ xs.map (operand twoLevels) := by
  have hfits : ∀ l < loc 0x02000023, 2 ≤ ctype 0x02000023 l →
    Fits (twoLevels (BitVec.ofNat 64 (2 * l))) := by decide
  obtain ⟨xs, hxs, hnodup, hmem, -⟩ := flush_once hfits (Nat.le_refl _)
  have hno : ¬ Cached 0x02000023 twoLevels ⟨1, 8, 0⟩ := by decide
  exact ⟨xs, hxs, hnodup, (hmem _).mpr (by decide), (hmem _).mpr (by decide), fun h =>
    hno ((hmem _).mp h)⟩

end Startup.CacheFlush
