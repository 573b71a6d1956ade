import Mathlib.Data.Nat.Digits.Lemmas
import RpiBsp.Support.Word

/-!
# Support — bits

A register that comes as a list of words, most significant first, is the number `ofWords` of them,
and a field of it is a `window`: so many bits from a bit on.  The bits of a word are bits of the
number (`testBit_word`), which is what a read of a field by shifts is compared through.
-/

namespace Support

/-- The `size` bits of `n` from bit `start` on. -/
def window (n start size : ℕ) : ℕ := n / 2 ^ start % 2 ^ size

theorem window_lt (n start size : ℕ) : window n start size < 2 ^ size :=
  Nat.mod_lt _ (Nat.two_pow_pos size)

theorem testBit_window (n start size i : ℕ) :
    (window n start size).testBit i = (decide (i < size) && n.testBit (start + i)) := by
  simp [window, Nat.testBit_mod_two_pow, Nat.testBit_div_two_pow, Nat.add_comm]

/-- The number that words of `w` bits make, the most significant word first. -/
def ofWords (w : ℕ) (data : List ℕ) : ℕ := Nat.ofDigits (2 ^ w) data.reverse

/-- The word of index `i` from the top is the window of `ofWords` at its place. -/
theorem window_word {w : ℕ} {data : List ℕ} (h : ∀ x ∈ data, x < 2 ^ w) {i : ℕ}
    (hi : i < data.length) :
    window (ofWords w data) (w * (data.length - 1 - i)) w = data[i] := by
  have hr : ∀ x ∈ data.reverse, x < 2 ^ w := fun x hx => h x (List.mem_reverse.mp hx)
  have hlen : data.length - 1 - i < data.reverse.length := by
    rw [List.length_reverse]
    omega
  have hd : data.reverse.drop (data.length - 1 - i) =
      data[i] :: data.reverse.drop (data.length - 1 - i + 1) := by
    rw [List.drop_eq_getElem_cons hlen, List.getElem_reverse]
    congr 2
    omega
  have hx : data[i] < 2 ^ w := h _ (List.getElem_mem hi)
  rw [window, ofWords, pow_mul, Nat.ofDigits_div_pow_eq_ofDigits_drop _ (Nat.two_pow_pos w)
    _ hr, hd, Nat.ofDigits_cons, Nat.add_mul_mod_self_left, Nat.mod_eq_of_lt hx]

/-- A bit of a word is a bit of the number. -/
theorem testBit_word {w : ℕ} {data : List ℕ} (h : ∀ x ∈ data, x < 2 ^ w) {i : ℕ}
    (hi : i < data.length) {j : ℕ} (hj : j < w) :
    data[i].testBit j = (ofWords w data).testBit (w * (data.length - 1 - i) + j) := by
  rw [← window_word h hi, testBit_window]
  simp [hj]

end Support
