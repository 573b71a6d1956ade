import Mathlib.Algebra.GroupWithZero.Nat
import Mathlib.Algebra.Ring.Int.Defs
import Mathlib.Order.CompletePartialOrder
import Mathlib.Tactic.Common

/-!
# Support — programs that ask

A driver works on a state and on what its device answers.  `Prog ρ σ α` is such a computation: it
changes a state `σ`, asks for answers `ρ`, and gives an `α`.  The answers come from a sequence that
is fixed from outside, so a statement about all sequences is one about everything the device can do.

`Triple A P m Q` says that `m`, started where `P` holds, ends where `Q` holds, if every answer it
gets meets `A`.  There is one rule for each way of building a program; `Keeps` is the case of an
invariant, and `Moves` of a relation between the first and the last state.  `Lockstep S m m'` is
about two runs with the same answers, from states that `S` relates.
-/

namespace Support

/-- A computation that changes a state and asks for answers. -/
def Prog (ρ σ α : Type) : Type := (ℕ → ρ) → σ × ℕ → α × (σ × ℕ)

namespace Prog

variable {ρ σ α β : Type}

instance : Monad (Prog ρ σ) where
  pure a := fun _ s => (a, s)
  bind m f := fun r s => f (m r s).1 r (m r s).2

instance : MonadStateOf σ (Prog ρ σ) where
  get := fun _ s => (s.1, s)
  set s' := fun _ s => ((), s', s.2)
  modifyGet f := fun _ s => ((f s.1).1, (f s.1).2, s.2)

/-- The next answer. -/
def ask : Prog ρ σ ρ := fun r s => (r s.2, s.1, s.2 + 1)

/-- Run with the answers `r`, from the first. -/
def run (m : Prog ρ σ α) (r : ℕ → ρ) (s : σ) : α × σ := ((m r (s, 0)).1, (m r (s, 0)).2.1)

/-! ### One step of a run -/

theorem bind_of_eq {m : Prog ρ σ α} {f : α → Prog ρ σ β} {r : ℕ → ρ} {s s' : σ × ℕ} {a : α}
    (h : m r s = (a, s')) : (m >>= f) r s = f a r s' := by
  change f (m r s).1 r (m r s).2 = _
  rw [h]

@[simp] theorem pure_apply (a : α) (r : ℕ → ρ) (s : σ × ℕ) :
    (pure a : Prog ρ σ α) r s = (a, s) := rfl

@[simp] theorem bind_apply (m : Prog ρ σ α) (f : α → Prog ρ σ β) (r : ℕ → ρ) (s : σ × ℕ) :
    (m >>= f) r s = f (m r s).1 r (m r s).2 := rfl

@[simp] theorem get_apply (r : ℕ → ρ) (s : σ × ℕ) : (get : Prog ρ σ σ) r s = (s.1, s) := rfl

@[simp] theorem modify_apply (f : σ → σ) (r : ℕ → ρ) (s : σ × ℕ) :
    (modify f : Prog ρ σ PUnit) r s = (⟨⟩, f s.1, s.2) := rfl

@[simp] theorem ask_apply (r : ℕ → ρ) (s : σ × ℕ) :
    (ask : Prog ρ σ ρ) r s = (r s.2, s.1, s.2 + 1) := rfl

@[simp] theorem ite_apply' {c : Prop} [Decidable c] (m m' : Prog ρ σ α) (r : ℕ → ρ) (s : σ × ℕ) :
    (if c then m else m') r s = if c then m r s else m' r s := by
  split <;> rfl

/-- A branch of a run. -/
theorem ite_run {c : Prop} [Decidable c] {m m' : Prog ρ σ α} {r : ℕ → ρ} {s : σ × ℕ}
    (P : α × (σ × ℕ) → Prop)
    (ht : c → P (m r s)) (he : ¬ c → P (m' r s)) : P ((if c then m else m') r s) := by
  split
  · exact ht ‹_›
  · exact he ‹_›

/-! ### What every run does -/

/-- From `P` to `Q`, if the answers meet `A`. -/
def Triple (A : ρ → Prop) (P : σ → Prop) (m : Prog ρ σ α) (Q : α → σ → Prop) : Prop :=
  ∀ (r : ℕ → ρ), (∀ k, A (r k)) → ∀ s n, P s → Q (m r (s, n)).1 (m r (s, n)).2.1

/-- The program keeps an invariant. -/
def Keeps (A : ρ → Prop) (I : σ → Prop) (m : Prog ρ σ α) : Prop := Triple A I m fun _ => I

variable {A : ρ → Prop} {P P' : σ → Prop} {I : σ → Prop} {Q Q' : α → σ → Prop}

theorem Triple.run {m : Prog ρ σ α} (h : Triple A P m Q) {r : ℕ → ρ} (hr : ∀ k, A (r k)) {s : σ}
    (hs : P s) : Q (m.run r s).1 (m.run r s).2 := h r hr s 0 hs

theorem Triple.mono {m : Prog ρ σ α} (h : Triple A P m Q) (hP : ∀ s, P' s → P s)
    (hQ : ∀ a s, Q a s → Q' a s) : Triple A P' m Q' :=
  fun r hr s n hs => hQ _ _ (h r hr s n (hP s hs))

theorem Triple.pre {m : Prog ρ σ α} (h : Triple A P m Q) (hP : ∀ s, P' s → P s) :
    Triple A P' m Q := h.mono hP fun _ _ hq => hq

theorem Triple.post {m : Prog ρ σ α} (h : Triple A P m Q) (hQ : ∀ a s, Q a s → Q' a s) :
    Triple A P m Q' := h.mono (fun _ hp => hp) hQ

theorem Triple.pure {a : α} (h : ∀ s, P s → Q a s) : Triple A P (Pure.pure a) Q :=
  fun _ _ s _ hs => h s hs

theorem Triple.bind {R : β → σ → Prop} {m : Prog ρ σ α} {f : α → Prog ρ σ β}
    (hm : Triple A P m Q) (hf : ∀ a, Triple A (Q a) (f a) R) : Triple A P (m >>= f) R :=
  fun r hr s n hs => hf _ r hr _ _ (hm r hr s n hs)

theorem Triple.ite {c : Prop} [Decidable c] {m m' : Prog ρ σ α} (ht : c → Triple A P m Q)
    (he : ¬ c → Triple A P m' Q) : Triple A P (if c then m else m') Q := by
  split
  · exact ht ‹_›
  · exact he ‹_›

theorem Triple.get {Q : σ → σ → Prop} (h : ∀ s, P s → Q s s) :
    Triple A P (get : Prog ρ σ σ) Q := fun _ _ s _ hs => h s hs

theorem Triple.modify {Q : PUnit → σ → Prop} {f : σ → σ} (h : ∀ s, P s → Q ⟨⟩ (f s)) :
    Triple A P (modify f : Prog ρ σ PUnit) Q := fun _ _ s _ hs => h s hs

theorem Triple.ask {Q : ρ → σ → Prop} (h : ∀ a s, A a → P s → Q a s) :
    Triple A P (ask : Prog ρ σ ρ) Q := fun _ hr s _ hs => h _ s (hr _) hs

/-- A state that the program starts from may be named. -/
theorem Triple.at {m : Prog ρ σ α} (h : ∀ s₀, P s₀ → Triple A (fun s => s = s₀) m Q) :
    Triple A P m Q := fun r hr s n hs => h s hs r hr s n rfl

theorem Triple.and {P₁ P₂ : σ → Prop} {Q₁ Q₂ : α → σ → Prop} {m : Prog ρ σ α}
    (h₁ : Triple A P₁ m Q₁) (h₂ : Triple A P₂ m Q₂) :
    Triple A (fun s => P₁ s ∧ P₂ s) m fun a s => Q₁ a s ∧ Q₂ a s :=
  fun r hr s n hs => ⟨h₁ r hr s n hs.1, h₂ r hr s n hs.2⟩

/-- The state that is read may be named. -/
theorem Triple.get_bind {f : σ → Prog ρ σ α}
    (h : ∀ s₀, P s₀ → Triple A (fun s => s = s₀) (f s₀) Q) :
    Triple A P (MonadStateOf.get >>= f) Q := fun r hr s n hs => h s hs r hr s n rfl

theorem Keeps.pure (a : α) : Keeps A I (Pure.pure a : Prog ρ σ α) := Triple.pure fun _ h => h

theorem Keeps.bind {m : Prog ρ σ α} {f : α → Prog ρ σ β} (hm : Keeps A I m)
    (hf : ∀ a, Keeps A I (f a)) : Keeps A I (m >>= f) := Triple.bind hm hf

theorem Keeps.ite {c : Prop} [Decidable c] {m m' : Prog ρ σ α} (hm : Keeps A I m)
    (hm' : Keeps A I m') : Keeps A I (if c then m else m') :=
  Triple.ite (fun _ => hm) fun _ => hm'

theorem Keeps.ite_of {c : Prop} [Decidable c] {m m' : Prog ρ σ α} (hm : c → Keeps A I m)
    (hm' : ¬ c → Keeps A I m') : Keeps A I (if c then m else m') := Triple.ite hm hm'

theorem Keeps.get : Keeps A I (MonadStateOf.get : Prog ρ σ σ) := Triple.get fun _ h => h

theorem Keeps.modify {f : σ → σ} (h : ∀ s, I s → I (f s)) :
    Keeps A I (modify f : Prog ρ σ PUnit) := Triple.modify h

theorem Keeps.ask : Keeps A I (ask : Prog ρ σ ρ) := Triple.ask fun _ _ _ h => h

/-- Every run moves within a relation. -/
def Moves (R : σ → σ → Prop) (m : Prog ρ σ α) : Prop := ∀ r s n, R s (m r (s, n)).2.1

section Moves

variable {R : σ → σ → Prop}

theorem Moves.pure [Std.Refl R] (a : α) : Moves R (Pure.pure a : Prog ρ σ α) :=
  fun _ s _ => Std.Refl.refl s

theorem Moves.bind [IsTrans σ R] {m : Prog ρ σ α} {f : α → Prog ρ σ β} (hm : Moves R m)
    (hf : ∀ a, Moves R (f a)) : Moves R (m >>= f) :=
  fun r s n => IsTrans.trans _ _ _ (hm r s n) (hf _ r _ _)

theorem Moves.ite {c : Prop} [Decidable c] {m m' : Prog ρ σ α} (hm : Moves R m)
    (hm' : Moves R m') : Moves R (if c then m else m') := by
  split
  · exact hm
  · exact hm'

theorem Moves.get [Std.Refl R] : Moves R (MonadStateOf.get : Prog ρ σ σ) :=
  fun _ s _ => Std.Refl.refl s

theorem Moves.modify {f : σ → σ} (h : ∀ s, R s (f s)) : Moves R (modify f : Prog ρ σ PUnit) :=
  fun _ s _ => h s

theorem Moves.ask [Std.Refl R] : Moves R (ask : Prog ρ σ ρ) := fun _ s _ => Std.Refl.refl s

/-- A relation that leads from `I` to `I` keeps `I`. -/
theorem Moves.keeps {m : Prog ρ σ α} (h : Moves R m) (hI : ∀ s s', R s s' → I s → I s') :
    Keeps A I m := fun r _ s n hs => hI _ _ (h r s n) hs

end Moves

/-! ### Two runs -/

/-- Two programs that do the same from states that are alike, with the same answers. -/
def Lockstep (S : σ → σ → Prop) (m m' : Prog ρ σ α) : Prop :=
  ∀ r s s' n, S s s' → (m r (s, n)).1 = (m' r (s', n)).1 ∧
    S (m r (s, n)).2.1 (m' r (s', n)).2.1 ∧ (m r (s, n)).2.2 = (m' r (s', n)).2.2

section Lockstep

variable {S : σ → σ → Prop}

theorem Lockstep.pure (a : α) : Lockstep S (Pure.pure a : Prog ρ σ α) (Pure.pure a) :=
  fun _ _ _ _ h => ⟨rfl, h, rfl⟩

theorem Lockstep.bind {m m' : Prog ρ σ α} {f f' : α → Prog ρ σ β} (hm : Lockstep S m m')
    (hf : ∀ a, Lockstep S (f a) (f' a)) : Lockstep S (m >>= f) (m' >>= f') := by
  intro r s s' n h
  obtain ⟨ha, hs, hn⟩ := hm r s s' n h
  have hn' : (m' r (s', n)).2 = ((m' r (s', n)).2.1, (m r (s, n)).2.2) := Prod.ext rfl hn.symm
  rw [bind_apply, bind_apply, hn', ← ha]
  exact hf _ r _ _ _ hs

theorem Lockstep.ite {c c' : Prop} [Decidable c] [Decidable c'] {m₁ m₂ m₁' m₂' : Prog ρ σ α}
    (hc : c ↔ c') (h₁ : c → Lockstep S m₁ m₁') (h₂ : ¬ c → Lockstep S m₂ m₂') :
    Lockstep S (if c then m₁ else m₂) (if c' then m₁' else m₂') := by
  by_cases h : c
  · rw [if_pos h, if_pos (hc.mp h)]
    exact h₁ h
  · rw [if_neg h, if_neg fun h' => h (hc.mpr h')]
    exact h₂ h

theorem Lockstep.get_bind {f f' : σ → Prog ρ σ α} (h : ∀ s s', S s s' → Lockstep S (f s) (f' s')) :
    Lockstep S (MonadStateOf.get >>= f) (MonadStateOf.get >>= f') :=
  fun r s s' n hs => h s s' hs r s s' n hs

theorem Lockstep.modify {f f' : σ → σ} (h : ∀ s s', S s s' → S (f s) (f' s')) :
    Lockstep S (modify f : Prog ρ σ PUnit) (modify f') := fun _ s s' _ hs => ⟨rfl, h s s' hs, rfl⟩

theorem Lockstep.ask : Lockstep S (ask : Prog ρ σ ρ) ask := fun _ _ _ _ h => ⟨rfl, h, rfl⟩

end Lockstep

end Prog

end Support
