import RpiBsp.Support.Outcome

/-!
# Support — accesses to memory

`Touching ρ α` is a computation that says, besides its result, which memory it accesses: a region,
the place in it and how many bytes.

* `Safe` — no access leaves its region, with one equation for each way of building a computation;
* `loop_safe_iff`, `loop_ends_iff` — a loop that is run for as many rounds as one likes, by its
single rounds;
* `Leaves` — over a state: no access leaves its region, and what is true in the end, with one rule
  for each way of building a computation.
-/

namespace Support

/-- Bytes of a region. -/
structure Touch (ρ : Type) where
  region : ρ
  off : ℕ
  len : ℕ

/-- The bytes are inside a region of that size; no bytes are inside every one. -/
def Touch.Inside {ρ : Type} (size : ρ → ℕ) (t : Touch ρ) : Prop :=
  t.len ≠ 0 → t.off + t.len ≤ size t.region

/-- A value, and the accesses. -/
structure Touching (ρ α : Type) where
  result : α
  log : List (Touch ρ)

namespace Touching

variable {ρ α β : Type}

instance : Monad (Touching ρ) where
  pure a := ⟨a, []⟩
  bind x f := ⟨(f x.result).result, x.log ++ (f x.result).log⟩

/-- One access. -/
def touch (region : ρ) (off len : ℕ) : Touching ρ Unit := ⟨(), [⟨region, off, len⟩]⟩

@[simp] theorem result_pure (a : α) : (pure a : Touching ρ α).result = a := rfl

@[simp] theorem result_bind (x : Touching ρ α) (f : α → Touching ρ β) :
    (x >>= f).result = (f x.result).result := rfl

@[simp] theorem result_ite {c : Prop} [Decidable c] (x y : Touching ρ α) :
    (if c then x else y).result = if c then x.result else y.result :=
  apply_ite Touching.result c x y

/-! ### Accesses that stay inside -/

variable {size : ρ → ℕ}

/-- No access leaves its region. -/
def Safe (size : ρ → ℕ) (x : Touching ρ α) : Prop := ∀ t ∈ x.log, t.Inside size

@[simp] theorem safe_pure (a : α) : Safe size (pure a) := fun _ h => absurd h List.not_mem_nil

@[simp] theorem safe_bind_iff (x : Touching ρ α) (f : α → Touching ρ β) :
    Safe size (x >>= f) ↔ Safe size x ∧ Safe size (f x.result) := List.forall_mem_append

@[simp] theorem safe_touch_iff (region : ρ) (off len : ℕ) :
    Safe size (touch region off len) ↔ (len ≠ 0 → off + len ≤ size region) :=
  List.forall_mem_singleton

@[simp] theorem safe_ite_iff {c : Prop} [Decidable c] (x y : Touching ρ α) :
    Safe size (if c then x else y) ↔ (c → Safe size x) ∧ (¬ c → Safe size y) := by
  split
  case isTrue h => simp [h]
  case isFalse h => simp [h]

/-! ### Loops -/

section Loop

variable {σ : Type} (step : ℕ → σ → Touching ρ (β ⊕ σ))

/-- Rounds of a loop, at most `fuel`: what it ends with, if it has ended. -/
def loop : ℕ → ℕ → σ → Touching ρ (Option β)
  | 0, _, _ => pure none
  | fuel + 1, i, s => do
      match ← step i s with
      | .inl b => pure (some b)
      | .inr s => loop fuel (i + 1) s

/-- The state before the round `i + n`, if there is one. -/
def stateAt (i : ℕ) (s : σ) : ℕ → Option σ
  | 0 => some s
  | n + 1 => (stateAt i s n).bind fun s => (step (i + n) s).result.getRight?

theorem stateAt_succ (i : ℕ) (s : σ) (n : ℕ) :
    stateAt step i s (n + 1) = (step i s).result.getRight?.bind fun s =>
      stateAt step (i + 1) s n := by
  induction n with
  | zero => cases h : (step i s).result.getRight? <;> simp [stateAt, h]
  | succ n ih =>
      rw [stateAt, ih]
      cases (step i s).result.getRight? with
      | none => rfl
      | some s =>
          show (stateAt step (i + 1) s n).bind _ = (stateAt step (i + 1) s n).bind _
          rw [Nat.add_right_comm i 1 n]
          rfl

theorem loop_succ (fuel i : ℕ) (s : σ) : loop step (fuel + 1) i s = step i s >>= fun r =>
    match r with
    | .inl b => pure (some b)
    | .inr s => loop step fuel (i + 1) s := rfl

theorem loop_safe (fuel : ℕ) : ∀ i s, Safe size (loop step fuel i s) ↔
    ∀ n < fuel, ∀ t, stateAt step i s n = some t → Safe size (step (i + n) t) := by
  induction fuel with
  | zero => exact fun i s => ⟨fun _ n hn => absurd hn (Nat.not_lt_zero n), fun _ => safe_pure none⟩
  | succ fuel ih =>
      intro i s
      rw [loop_succ, safe_bind_iff, Nat.forall_lt_succ_left]
      have hfirst : (∀ t, stateAt step i s 0 = some t → Safe size (step (i + 0) t)) ↔
          Safe size (step i s) := by
        simp [stateAt]
      rw [hfirst, and_congr_right_iff]
      intro _
      cases hr : (step i s).result with
      | inl b => simp [stateAt_succ, hr]
      | inr s =>
          dsimp only
          simp only [ih, stateAt_succ, hr, Sum.getRight?_inr, Option.bind_some, Nat.add_assoc,
            Nat.add_comm 1]

/-- A loop accesses what its rounds access. -/
theorem loop_safe_iff (s : σ) : (∀ fuel, Safe size (loop step fuel 0 s)) ↔
    ∀ n t, stateAt step 0 s n = some t → Safe size (step n t) := by
  simp only [loop_safe, Nat.zero_add]
  exact ⟨fun h n => h (n + 1) n (Nat.lt_succ_self n), fun h _ n _ => h n⟩

theorem loop_isSome (fuel : ℕ) :
    ∀ i s, (loop step fuel i s).result.isSome = true ↔ stateAt step i s fuel = none := by
  induction fuel with
  | zero => exact fun i s => by simp [loop, stateAt]
  | succ fuel ih =>
      intro i s
      rw [loop_succ, result_bind, stateAt_succ]
      cases (step i s).result with
      | inl b => simp
      | inr s => exact ih (i + 1) s

/-- A loop ends if some round is the last one. -/
theorem loop_ends_iff (s : σ) :
    (∃ fuel, (loop step fuel 0 s).result.isSome = true) ↔ ∃ n, stateAt step 0 s n = none :=
  exists_congr fun fuel => loop_isSome step fuel 0 s

end Loop

/-! ### Over a state -/

section State

variable {σ : Type}

/-- No access leaves its region, and `Q` is true of what comes out. -/
structure Leaves (size : ρ → ℕ) (m : StateT σ (Touching ρ) α) (Q : α → σ → Prop)
    (s : σ) : Prop where
  safe : Safe size (m.run s)
  final : Q (m.run s).result.1 (m.run s).result.2

namespace Leaves

variable {m : StateT σ (Touching ρ) α} {f : α → StateT σ (Touching ρ) β} {Q Q' : α → σ → Prop}
    {R : β → σ → Prop} {s : σ}

theorem mono (h : Leaves size m Q s) (hQ : ∀ a t, Q a t → Q' a t) : Leaves size m Q' s :=
  ⟨h.safe, hQ _ _ h.final⟩

theorem pure {a : α} (h : Q a s) : Leaves size (pure a) Q s := ⟨safe_pure (a, s), h⟩

theorem bind (hm : Leaves size m Q s) (hf : ∀ a t, Q a t → Leaves size (f a) R t) :
    Leaves size (m >>= f) R s := by
  have hrest := hf _ _ hm.final
  exact ⟨(safe_bind_iff (m.run s) fun p => (f p.1).run p.2).mpr ⟨hm.safe, hrest.safe⟩, hrest.final⟩

theorem get_bind {f : σ → StateT σ (Touching ρ) β} (h : Leaves size (f s) R s) :
    Leaves size (get >>= f) R s :=
  bind (Q := fun a t => a = s ∧ t = s) ⟨safe_pure (s, s), rfl, rfl⟩ fun _ _ ht => ht.1 ▸ ht.2 ▸ h

theorem modify {g : σ → σ} {Q : Unit → σ → Prop} (h : Q () (g s)) : Leaves size (modify g) Q s :=
  ⟨safe_pure ((), g s), h⟩

theorem touch {region : ρ} {off len : ℕ} {Q : Unit → σ → Prop}
    (hin : len ≠ 0 → off + len ≤ size region) (h : Q () s) :
    Leaves size (StateT.lift (touch region off len)) Q s :=
  ⟨(safe_bind_iff _ _).mpr ⟨(safe_touch_iff region off len).mpr hin, safe_pure ((), s)⟩, h⟩

theorem modify_bind {g : σ → σ} {f : Unit → StateT σ (Touching ρ) β}
    (h : Leaves size (f ()) R (g s)) :
    Leaves size ((MonadState.modifyGet fun s => ((), g s)) >>= f) R s :=
  bind (Q := fun _ t => t = g s) (modify rfl) fun _ _ ht => ht ▸ h

theorem touch_bind {region : ρ} {off len : ℕ} {f : Unit → StateT σ (Touching ρ) β}
    (hin : len ≠ 0 → off + len ≤ size region) (h : Leaves size (f ()) R s) :
    Leaves size (StateT.lift (Touching.touch region off len) >>= f) R s :=
  bind (Q := fun _ t => t = s) (touch hin rfl) fun _ _ ht => ht ▸ h

theorem ite {c : Prop} [Decidable c] {m' : StateT σ (Touching ρ) α} (hm : c → Leaves size m Q s)
    (hm' : ¬ c → Leaves size m' Q s) : Leaves size (if c then m else m') Q s := by
  split
  case isTrue h => exact hm h
  case isFalse h => exact hm' h

end Leaves

end State

end Touching

end Support
