import RpiBsp.Support.Prog

/-!
# Support — devices with registers

A driver has data of its own and a device with registers of 32 bits.  `Device` says what an access
to a register does, given what went on in the device since the one before; the driver is a `Prog`
that keeps both, and reaches the device by `read32` and `write32` only.  Everything that can happen
between two accesses is in the answers, so a statement about all of them is one about every
interleaving.

`Soft P m Q` is a triple about the driver's data alone: what is read can be anything.  `Stays` is
the case of an invariant.
-/

namespace Support

/-- What the accesses to the registers `R` do to a device `H`; `ρ` is what went on before. -/
structure Device (ρ R H : Type) where
  read : ρ → R → H → BitVec 32 × H
  write : ρ → R → BitVec 32 → H → H

/-- A driver's data and its device. -/
structure Rig (σ H : Type) where
  soft : σ
  hard : H

/-- A driver. -/
abbrev Driver (ρ σ H : Type) := Prog ρ (Rig σ H)

namespace Driver

variable {ρ R σ H α β : Type}

def read32 (D : Device ρ R H) (r : R) : Driver ρ σ H (BitVec 32) :=
  fun a g => ((D.read (a g.2) r g.1.hard).1, ⟨g.1.soft, (D.read (a g.2) r g.1.hard).2⟩, g.2 + 1)

def write32 (D : Device ρ R H) (r : R) (v : BitVec 32) : Driver ρ σ H PUnit :=
  fun a g => (⟨⟩, ⟨g.1.soft, D.write (a g.2) r v g.1.hard⟩, g.2 + 1)

/-- The driver's data. -/
def soft : Driver ρ σ H σ := fun _ g => (g.1.soft, g)

/-- Change the driver's data. -/
def update (f : σ → σ) : Driver ρ σ H PUnit := fun _ g => (⟨⟩, ⟨f g.1.soft, g.1.hard⟩, g.2)

/-- A step that is only taken if the condition holds. -/
def doIf (c : Prop) [Decidable c] (m : Driver ρ σ H PUnit) : Driver ρ σ H PUnit :=
  if c then m else pure ⟨⟩

@[simp] theorem read32_apply (D : Device ρ R H) (r : R) (a : ℕ → ρ) (g : Rig σ H × ℕ) :
    (read32 D r : Driver ρ σ H (BitVec 32)) a g =
      ((D.read (a g.2) r g.1.hard).1, ⟨g.1.soft, (D.read (a g.2) r g.1.hard).2⟩, g.2 + 1) := rfl

@[simp] theorem write32_apply (D : Device ρ R H) (r : R) (v : BitVec 32) (a : ℕ → ρ)
    (g : Rig σ H × ℕ) :
    (write32 D r v : Driver ρ σ H PUnit) a g =
      (⟨⟩, ⟨g.1.soft, D.write (a g.2) r v g.1.hard⟩, g.2 + 1) := rfl

@[simp] theorem soft_apply (a : ℕ → ρ) (g : Rig σ H × ℕ) :
    (soft : Driver ρ σ H σ) a g = (g.1.soft, g) := rfl

@[simp] theorem update_apply (f : σ → σ) (a : ℕ → ρ) (g : Rig σ H × ℕ) :
    (update f : Driver ρ σ H PUnit) a g = (⟨⟩, ⟨f g.1.soft, g.1.hard⟩, g.2) := rfl

/-! ### The driver's data -/

/-- From `P` to `Q`, about the driver's data, whatever the device does. -/
def Soft (P : σ → Prop) (m : Driver ρ σ H α) (Q : α → σ → Prop) : Prop :=
  ∀ (a : ℕ → ρ) (g : Rig σ H) (n : ℕ), P g.soft → Q (m a (g, n)).1 (m a (g, n)).2.1.soft

variable {P P' : σ → Prop} {Q Q' : α → σ → Prop}

theorem Soft.apply {I : σ → Prop} {m : Driver ρ σ H α} (a : ℕ → ρ) (g : Rig σ H) (n : ℕ)
    (h : Soft P m fun _ => I) (hs : P g.soft) : I (m a (g, n)).2.1.soft := h a g n hs

theorem Soft.mono {m : Driver ρ σ H α} (h : Soft P m Q) (hP : ∀ s, P' s → P s)
    (hQ : ∀ x s, Q x s → Q' x s) : Soft P' m Q' :=
  fun a g n hs => hQ _ _ (h a g n (hP _ hs))

theorem Soft.pre {m : Driver ρ σ H α} (h : Soft P m Q) (hP : ∀ s, P' s → P s) : Soft P' m Q :=
  h.mono hP fun _ _ hq => hq

theorem Soft.post {m : Driver ρ σ H α} (h : Soft P m Q) (hQ : ∀ x s, Q x s → Q' x s) :
    Soft P m Q' :=
  h.mono (fun _ hp => hp) hQ

theorem Soft.and {P₁ P₂ : σ → Prop} {Q₁ Q₂ : α → σ → Prop} {m : Driver ρ σ H α} (h₁ : Soft P₁ m Q₁)
    (h₂ : Soft P₂ m Q₂) : Soft (fun s => P₁ s ∧ P₂ s) m fun x s => Q₁ x s ∧ Q₂ x s :=
  fun a g n hs => ⟨h₁ a g n hs.1, h₂ a g n hs.2⟩

theorem Soft.pure {x : α} (h : ∀ s, P s → Q x s) : Soft P (Pure.pure x : Driver ρ σ H α) Q :=
  fun _ _ _ hs => h _ hs

theorem Soft.bind {S : β → σ → Prop} {m : Driver ρ σ H α} {f : α → Driver ρ σ H β} (hm : Soft P m Q)
    (hf : ∀ x, Soft (Q x) (f x) S) : Soft P (m >>= f) S :=
  fun a g n hs => hf _ a _ _ (hm a g n hs)

theorem Soft.ite {c : Prop} [Decidable c] {m m' : Driver ρ σ H α} (ht : c → Soft P m Q)
    (he : ¬ c → Soft P m' Q) : Soft P (if c then m else m') Q := by
  split
  · exact ht ‹_›
  · exact he ‹_›

theorem Soft.doIf {c : Prop} [Decidable c] {m : Driver ρ σ H PUnit} {Q : PUnit → σ → Prop}
    (ht : c → Soft P m Q) (he : ¬ c → ∀ s, P s → Q ⟨⟩ s) : Soft P (doIf c m) Q :=
  Soft.ite ht fun hc => Soft.pure (he hc)

theorem Soft.read32 {D : Device ρ R H} {r : R} {Q : BitVec 32 → σ → Prop} (h : ∀ v s, P s → Q v s) :
    Soft P (read32 D r) Q := fun _ _ _ hs => h _ _ hs

theorem Soft.write32 {D : Device ρ R H} {r : R} {v : BitVec 32} {Q : PUnit → σ → Prop}
    (h : ∀ s, P s → Q ⟨⟩ s) : Soft P (write32 D r v) Q := fun _ _ _ hs => h _ hs

theorem Soft.update {f : σ → σ} {Q : PUnit → σ → Prop} (h : ∀ s, P s → Q ⟨⟩ (f s)) :
    Soft P (update f : Driver ρ σ H PUnit) Q := fun _ _ _ hs => h _ hs

/-- The data that is read may be named. -/
theorem Soft.soft_bind {f : σ → Driver ρ σ H α} (h : ∀ s₀, P s₀ → Soft (fun s => s = s₀) (f s₀) Q) :
    Soft P (soft >>= f) Q := fun a g n hs => h g.soft hs a g n rfl

/-- The data that the program starts from may be named. -/
theorem Soft.at {m : Driver ρ σ H α} (h : ∀ s₀, P s₀ → Soft (fun s => s = s₀) m Q) : Soft P m Q :=
  fun a g n hs => h g.soft hs a g n rfl

/-- The program keeps an invariant of the driver's data. -/
def Stays (I : σ → Prop) (m : Driver ρ σ H α) : Prop := Soft I m fun _ => I

section Stays

variable {I : σ → Prop}

theorem Stays.pure (x : α) : Stays I (Pure.pure x : Driver ρ σ H α) := Soft.pure fun _ h => h

theorem Stays.bind {m : Driver ρ σ H α} {f : α → Driver ρ σ H β} (hm : Stays I m)
    (hf : ∀ x, Stays I (f x)) : Stays I (m >>= f) := Soft.bind hm hf

theorem Stays.ite {c : Prop} [Decidable c] {m m' : Driver ρ σ H α} (hm : Stays I m)
    (hm' : Stays I m') :
    Stays I (if c then m else m') := Soft.ite (fun _ => hm) fun _ => hm'

theorem Stays.doIf {c : Prop} [Decidable c] {m : Driver ρ σ H PUnit} (hm : Stays I m) :
    Stays I (Driver.doIf c m) := Stays.ite hm (.pure _)

theorem Stays.read32 {D : Device ρ R H} {r : R} : Stays I (Driver.read32 D r) :=
  Soft.read32 fun _ _ h => h

theorem Stays.write32 {D : Device ρ R H} {r : R} {v : BitVec 32} : Stays I (Driver.write32 D r v) :=
  Soft.write32 fun _ h => h

theorem Stays.update {f : σ → σ} (h : ∀ s, I s → I (f s)) :
    Stays I (Driver.update f : Driver ρ σ H PUnit) :=
  Soft.update h

theorem Stays.soft : Stays I (Driver.soft : Driver ρ σ H σ) := fun _ _ _ h => h

end Stays

/-! ### The driver and its device -/

section Whole

open Prog (Triple)

variable {A : ρ → Prop} {P : Rig σ H → Prop}

theorem triple_read32 {D : Device ρ R H} {r : R} {Q : BitVec 32 → Rig σ H → Prop}
    (h : ∀ x g, A x → P g → Q (D.read x r g.hard).1 ⟨g.soft, (D.read x r g.hard).2⟩) :
    Triple A P (Driver.read32 D r) Q := fun _ ha g n hg => h _ g (ha n) hg

theorem triple_write32 {D : Device ρ R H} {r : R} {v : BitVec 32} {Q : PUnit → Rig σ H → Prop}
    (h : ∀ x g, A x → P g → Q ⟨⟩ ⟨g.soft, D.write x r v g.hard⟩) :
      Triple A P (Driver.write32 D r v) Q :=
  fun _ ha g n hg => h _ g (ha n) hg

theorem triple_update {f : σ → σ} {Q : PUnit → Rig σ H → Prop}
    (h : ∀ g, P g → Q ⟨⟩ ⟨f g.soft, g.hard⟩) :
    Triple A P (Driver.update f : Driver ρ σ H PUnit) Q := fun _ _ g _ hg => h g hg

theorem triple_soft_bind {f : σ → Driver ρ σ H α} {Q : α → Rig σ H → Prop}
    (h : ∀ s, Triple A (fun g => P g ∧ g.soft = s) (f s) Q) : Triple A P (Driver.soft >>= f) Q :=
  fun a ha g n hg => h g.soft a ha g n ⟨hg, rfl⟩

theorem triple_doIf {c : Prop} [Decidable c] {m : Driver ρ σ H PUnit} {Q : PUnit → Rig σ H → Prop}
    (ht : c → Triple A P m Q) (he : ¬ c → ∀ g, P g → Q ⟨⟩ g) : Triple A P (Driver.doIf c m) Q :=
  Triple.ite ht fun hc => Triple.pure (he hc)

end Whole

/-! ### Programs without accesses -/

/-- The program makes no access. -/
def Still (m : Driver ρ σ H α) : Prop := ∀ (a : ℕ → ρ) (g : Rig σ H) (n : ℕ), (m a (g, n)).2.2 = n

theorem Still.pure (x : α) : Still (Pure.pure x : Driver ρ σ H α) := fun _ _ _ => rfl

theorem Still.bind {m : Driver ρ σ H α} {f : α → Driver ρ σ H β} (hm : Still m)
    (hf : ∀ x, Still (f x)) :
    Still (m >>= f) := fun a g n => (hf _ a _ _).trans (hm a g n)

theorem Still.ite {c : Prop} [Decidable c] {m m' : Driver ρ σ H α} (hm : Still m) (hm' : Still m') :
    Still (if c then m else m') := by
  split
  · exact hm
  · exact hm'

theorem Still.soft : Still (Driver.soft : Driver ρ σ H σ) := fun _ _ _ => rfl

theorem Still.update (f : σ → σ) : Still (Driver.update f : Driver ρ σ H PUnit) := fun _ _ _ => rfl

end Driver

end Support
