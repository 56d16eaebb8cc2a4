import Mathlib.Logic.Basic

/-!
# Computations with state and exceptions

A method reads and assigns the fields of its object and may raise; what it has
assigned before it raises stays assigned. `exec` runs a computation from a state
to its outcome and the state it leaves. `Keeps f m` says that `m` leaves `f` of
the state alone whatever its outcome; it is closed under the ways computations
are put together, so a frame is checked along the text of a method.
-/

namespace Effects

variable {ε σ τ α β γ : Type}

/-- A sequence that returns has got through its first part. -/
theorem bind_eq_ok {x : Except ε β} {f : β → Except ε γ} {c : γ} (h : x >>= f = .ok c) :
    ∃ b, x = .ok b ∧ f b = .ok c := by
  cases x with
  | error e => cases h
  | ok b => exact ⟨b, rfl, h⟩

abbrev Eff (ε σ α : Type) := ExceptT ε (StateM σ) α

def exec (m : Eff ε σ α) (s : σ) : Except ε α × σ := m s

@[simp] theorem exec_pure (a : α) (s : σ) : exec (pure a : Eff ε σ α) s = (.ok a, s) := rfl

@[simp] theorem exec_throw (e : ε) (s : σ) : exec (throw e : Eff ε σ α) s = (.error e, s) := rfl

@[simp] theorem exec_get (s : σ) : exec (get : Eff ε σ σ) s = (.ok s, s) := rfl

@[simp] theorem exec_modify (g : σ → σ) (s : σ) :
    exec (modify g : Eff ε σ PUnit) s = (.ok ⟨⟩, g s) := rfl

theorem exec_bind (m : Eff ε σ α) (k : α → Eff ε σ β) (s : σ) :
    exec (m >>= k) s = match exec m s with
      | (.ok a, s') => exec (k a) s'
      | (.error e, s') => (.error e, s') := by
  simp only [exec, bind, ExceptT.bind, ExceptT.mk, StateT.bind]
  rcases h : m s with ⟨a | e, s'⟩ <;> rfl

theorem exec_bind_ok {m : Eff ε σ α} {s s' : σ} {a : α} (h : exec m s = (.ok a, s'))
    (k : α → Eff ε σ β) : exec (m >>= k) s = exec (k a) s' := by rw [exec_bind, h]

theorem exec_bind_error {m : Eff ε σ α} {s s' : σ} {e : ε} (h : exec m s = (.error e, s'))
    (k : α → Eff ε σ β) : exec (m >>= k) s = (.error e, s') := by rw [exec_bind, h]

@[simp] theorem exec_pure_bind (a : α) (k : α → Eff ε σ β) (s : σ) :
    exec (pure a >>= k) s = exec (k a) s := rfl

@[simp] theorem exec_get_bind (k : σ → Eff ε σ β) (s : σ) :
    exec (get >>= k) s = exec (k s) s := rfl

@[simp] theorem exec_modify_bind (g : σ → σ) (k : PUnit → Eff ε σ β) (s : σ) :
    exec (modify g >>= k) s = exec (k ⟨⟩) (g s) := rfl

@[simp] theorem exec_throw_bind (e : ε) (k : α → Eff ε σ β) (s : σ) :
    exec (throw e >>= k) s = (.error e, s) := rfl

@[simp] theorem exec_ofExcept (x : Except ε α) (s : σ) :
    exec (ofExcept x : Eff ε σ α) s = (x, s) := by cases x <;> rfl

theorem exec_tryCatch (m : Eff ε σ α) (h : ε → Eff ε σ α) (s : σ) :
    exec (tryCatch m h) s = match exec m s with
      | (.ok a, s') => (.ok a, s')
      | (.error e, s') => exec (h e) s' := by
  simp only [exec, tryCatch, tryCatchThe, MonadExceptOf.tryCatch, ExceptT.tryCatch, ExceptT.mk,
    bind, StateT.bind]
  rcases hm : m s with ⟨a | e, s'⟩ <;> rfl

/-- The state is read, replaced and the outcome passed on. -/
def transition (f : σ → Except ε α × σ) : Eff ε σ α := f

@[simp] theorem exec_transition (f : σ → Except ε α × σ) (s : σ) :
    exec (transition f) s = f s := rfl

/-! ## What is left alone -/

def Keeps (f : σ → γ) (m : Eff ε σ α) : Prop := ∀ s, f (exec m s).2 = f s

variable {f : σ → γ}

/-- Less is left alone by whatever leaves more alone. -/
theorem Keeps.of_eq {g : σ → τ} {m : Eff ε σ α} (h : Keeps f m)
    (hg : ∀ s s', f s' = f s → g s' = g s) : Keeps g m := fun s => hg s _ (h s)

theorem keeps_pure (a : α) : Keeps f (pure a : Eff ε σ α) := fun _ => rfl

theorem keeps_throw (e : ε) : Keeps f (throw e : Eff ε σ α) := fun _ => rfl

theorem keeps_get : Keeps f (get : Eff ε σ σ) := fun _ => rfl

theorem keeps_modify {g : σ → σ} (h : ∀ s, f (g s) = f s) :
    Keeps f (modify g : Eff ε σ PUnit) := h

theorem keeps_ofExcept (x : Except ε α) : Keeps f (ofExcept x : Eff ε σ α) := by
  cases x <;> exact fun _ => rfl

theorem keeps_transition {g : σ → Except ε α × σ} (h : ∀ s, f (g s).2 = f s) :
    Keeps f (transition g) := h

/-- What comes last and leaves `f` alone does not matter to it. -/
theorem after_bind {m : Eff ε σ α} {k : α → Eff ε σ β} (hk : ∀ a, Keeps f (k a)) (s : σ) :
    f (exec (m >>= k) s).2 = f (exec m s).2 := by
  rw [exec_bind]
  split
  · next a s' he => rw [hk a s', he]
  · next e s' he => rw [he]

theorem keeps_bind {m : Eff ε σ α} {k : α → Eff ε σ β} (hm : Keeps f m)
    (hk : ∀ a, Keeps f (k a)) : Keeps f (m >>= k) := by
  intro s
  rw [after_bind hk, hm s]

theorem keeps_tryCatch {m : Eff ε σ α} {h : ε → Eff ε σ α} (hm : Keeps f m)
    (hh : ∀ e, Keeps f (h e)) : Keeps f (tryCatch m h) := by
  intro s
  have hs := hm s
  rw [exec_tryCatch]
  split
  · next a s' he => rw [← hs, he]
  · next e s' he => rw [hh e s', ← hs, he]

theorem keeps_ite {c : Prop} [Decidable c] {m m' : Eff ε σ α} (h : Keeps f m)
    (h' : Keeps f m') : Keeps f (if c then m else m') := by
  split <;> assumption

end Effects
