import RpiBsp.Support.Memory

/-!
# Support — records of numbers

A record in memory whose fields are little-endian numbers of one width, one behind the other.

* `fields` — the bytes of a record; `Holds.field` — one of its numbers is read;
* `fields_inj` — the bytes say which numbers they are.
-/

namespace Support

/-- The bytes of numbers of `w` bytes each. -/
def fields (w : ℕ) (vs : List ℕ) : List UInt8 := vs.flatMap (leBytes w)

variable {w : ℕ}

theorem fields_append (us vs : List ℕ) : fields w (us ++ vs) = fields w us ++ fields w vs :=
  List.flatMap_append

@[simp] theorem length_fields (vs : List ℕ) : (fields w vs).length = w * vs.length := by
  induction vs with
  | nil => rfl
  | cons v vs ih =>
      change (leBytes w v ++ fields w vs).length = _
      rw [List.length_append, length_leBytes, ih, List.length_cons, Nat.mul_succ, Nat.add_comm]

theorem fields_zeros (n : ℕ) : fields w (List.replicate n 0) = List.replicate (w * n) 0 := by
  induction n with
  | zero => rfl
  | succ n ih =>
      change leBytes w 0 ++ fields w (List.replicate n 0) = _
      rw [ih, leBytes_zero, List.replicate_append_replicate, Nat.mul_succ, Nat.add_comm]

/-- The fields around one of them. -/
theorem fields_split {vs : List ℕ} {j v : ℕ} (hj : vs[j]? = some v) :
    fields w vs = fields w (vs.take j) ++ leBytes w v ++ fields w (vs.drop (j + 1)) := by
  obtain ⟨hlt, hv⟩ := List.getElem?_eq_some_iff.mp hj
  have hcons : vs.drop j = v :: vs.drop (j + 1) := hv ▸ List.drop_eq_getElem_cons hlt
  conv_lhs => rw [← List.take_append_drop j vs, hcons, fields_append]
  rw [List.append_assoc]
  rfl

theorem fields_set_split {vs : List ℕ} {j : ℕ} (hj : j < vs.length) (v : ℕ) :
    fields w (vs.set j v) = fields w (vs.take j) ++ leBytes w v ++ fields w (vs.drop (j + 1)) := by
  have hv : (vs.set j v)[j]? = some v := List.getElem?_set_self hj
  rw [fields_split hv, List.take_set_of_le (Nat.le_refl j),
    List.drop_set_of_lt (Nat.lt_succ_self j)]

theorem length_fields_take {vs : List ℕ} {j : ℕ} (hj : j < vs.length) :
    (fields w (vs.take j)).length = w * j := by
  rw [length_fields, List.length_take, Nat.min_eq_left hj.le]

/-- A field is read. -/
theorem Holds.field {f : ℕ → UInt8} {a : ℕ} {l m : List UInt8} {vs : List ℕ}
    (h : Holds f a (l ++ fields w vs ++ m))
    {j v : ℕ} (hj : vs[j]? = some v) : load w (a + l.length + w * j) f = v % 256 ^ w := by
  have hlt := (List.getElem?_eq_some_iff.mp hj).1
  have hfields := (holds_append.mp (holds_append.mp h).1).2
  rw [fields_split hj] at hfields
  have hv := (holds_append.mp (holds_append.mp hfields).1).2
  rw [length_fields_take hlt] at hv
  exact load_of_holds hv

/-- One byte sequence, one number. -/
theorem leBytes_inj {u v : ℕ} (h : leBytes w u = leBytes w v) : u % 256 ^ w = v % 256 ^ w := by
  have hu := load_store w 0 u fun _ => 0
  rwa [store_eq_write, h, ← store_eq_write, load_store, eq_comm] at hu

theorem fields_inj (hw : 0 < w) {us vs : List ℕ} (hu : ∀ u ∈ us, u < 256 ^ w)
    (hv : ∀ v ∈ vs, v < 256 ^ w) :
    fields w us = fields w vs ↔ us = vs := by
  refine ⟨fun h => ?_, fun h => congrArg _ h⟩
  have hlen : us.length = vs.length := by
    have := congrArg List.length h
    rw [length_fields, length_fields] at this
    exact Nat.eq_of_mul_eq_mul_left hw this
  induction us generalizing vs with
  | nil => exact (List.length_eq_zero_iff.mp hlen.symm).symm
  | cons u us ih =>
      obtain ⟨v, vs, rfl⟩ := List.exists_cons_of_length_eq_add_one hlen.symm
      rw [List.forall_mem_cons] at hu hv
      change leBytes w u ++ fields w us = leBytes w v ++ fields w vs at h
      obtain ⟨hhead, htail⟩ := List.append_inj h (by rw [length_leBytes, length_leBytes])
      have huv := leBytes_inj hhead
      rw [Nat.mod_eq_of_lt hu.1, Nat.mod_eq_of_lt hv.1] at huv
      rw [huv, ih hu.2 hv.2 htail (by simpa using hlen)]

end Support
