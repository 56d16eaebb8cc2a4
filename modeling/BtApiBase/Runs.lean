import Mathlib.Data.List.Infix

/-!
# Runs of a step function

A run is a list of labels folded through a total step function; a label that a
state does not enable leaves the state as it is, so every list is a run and
every interleaving is a list. Safety is `Throughout`: a property of every state
that the run visits. `Meets` is the condition that each step satisfies a guard
in the state it is taken in.
-/

namespace Runs

variable {σ α β : Type*}

def run (step : σ → α → σ) (s : σ) (as : List α) : σ := as.foldl step s

@[simp] theorem run_nil (step : σ → α → σ) (s : σ) : run step s [] = s := rfl
@[simp] theorem run_cons (step : σ → α → σ) (s : σ) (a : α) (as : List α) :
    run step s (a :: as) = run step (step s a) as := rfl

theorem run_append (step : σ → α → σ) (s : σ) (as bs : List α) :
    run step s (as ++ bs) = run step (run step s as) bs := List.foldl_append

theorem run_concat (step : σ → α → σ) (s : σ) (as : List α) (a : α) :
    run step s (as ++ [a]) = step (run step s as) a := by simp [run_append]

/-- `P` holds in every state that the run visits, the first and the last included. -/
def Throughout (step : σ → α → σ) (P : σ → Prop) (s : σ) (as : List α) : Prop :=
  ∀ pre, pre <+: as → P (run step s pre)

/-- Every step of the run satisfies `C` in the state before it. -/
def Meets (step : σ → α → σ) (C : σ → α → Prop) (s : σ) (as : List α) : Prop :=
  ∀ pre a, pre ++ [a] <+: as → C (run step s pre) a

theorem throughout_nil (step : σ → α → σ) (P : σ → Prop) (s : σ) :
    Throughout step P s [] ↔ P s := by
  simp [Throughout]

theorem throughout_cons (step : σ → α → σ) (P : σ → Prop) (s : σ) (a : α) (as : List α) :
    Throughout step P s (a :: as) ↔ P s ∧ Throughout step P (step s a) as := by
  constructor
  · intro h
    refine ⟨h [] (List.nil_prefix), ?_⟩
    intro pre hp
    exact h (a :: pre) (by simpa using hp)
  · rintro ⟨h₀, h⟩ pre hp
    rcases List.prefix_cons_iff.mp hp with rfl | ⟨tail, rfl, ht⟩
    · exact h₀
    · exact h tail ht

theorem meets_nil (step : σ → α → σ) (C : σ → α → Prop) (s : σ) : Meets step C s [] := by
  intro pre a h
  simp at h

theorem meets_cons (step : σ → α → σ) (C : σ → α → Prop) (s : σ) (a : α) (as : List α) :
    Meets step C s (a :: as) ↔ C s a ∧ Meets step C (step s a) as := by
  constructor
  · intro h
    refine ⟨h [] a (by simp), ?_⟩
    intro pre b hp
    exact h (a :: pre) b (by simpa using hp)
  · rintro ⟨h₀, h⟩ pre b hp
    cases pre with
    | nil =>
      obtain rfl : b = a := by simpa using hp
      exact h₀
    | cons c pre =>
      obtain ⟨rfl, ht⟩ : c = a ∧ pre ++ [b] <+: as := by simpa using hp
      exact h pre b ht

instance decidableMeets (step : σ → α → σ) (C : σ → α → Prop) [∀ s a, Decidable (C s a)] :
    (s : σ) → (as : List α) → Decidable (Meets step C s as)
  | s, [] => isTrue (meets_nil step C s)
  | s, a :: as =>
    have := decidableMeets step C (step s a) as
    decidable_of_iff (C s a ∧ Meets step C (step s a) as) (meets_cons step C s a as).symm

theorem throughout_last {step : σ → α → σ} {P : σ → Prop} {s : σ} {as : List α}
    (h : Throughout step P s as) : P (run step s as) := h as List.prefix_rfl

/-- A property that every step preserves holds after every run. -/
theorem run_induction {step : σ → α → σ} {P : σ → Prop} (hstep : ∀ s a, P s → P (step s a))
    {s : σ} (h : P s) (as : List α) : P (run step s as) := by
  induction as generalizing s with
  | nil => exact h
  | cons a as ih => exact ih (hstep s a h)

/-- A property that every guarded step preserves holds throughout a guarded run. -/
theorem throughout_of_meets {step : σ → α → σ} {P : σ → Prop} {C : σ → α → Prop}
    (hstep : ∀ s a, P s → C s a → P (step s a)) {s : σ} (h : P s) {as : List α}
    (hm : Meets step C s as) : Throughout step P s as := by
  induction as generalizing s with
  | nil => exact (throughout_nil step P s).mpr h
  | cons a as ih =>
    obtain ⟨hc, hm⟩ := (meets_cons step C s a as).mp hm
    exact (throughout_cons step P s a as).mpr ⟨h, ih (hstep s a h hc) hm⟩

/-- Where a guard is exactly what one step needs to keep `P`, beside an
invariant `Q` of all runs, the guarded runs are exactly the safe ones. -/
theorem throughout_iff_meets {step : σ → α → σ} {P Q : σ → Prop} {C : σ → α → Prop}
    (hq : ∀ s a, Q s → Q (step s a))
    (hstep : ∀ s a, Q s → P s → (P (step s a) ↔ C s a)) {s : σ} (hs : Q s) (hp : P s)
    (as : List α) : Throughout step P s as ↔ Meets step C s as := by
  induction as generalizing s with
  | nil => simp [throughout_nil, meets_nil, hp]
  | cons a as ih =>
    rw [throughout_cons, meets_cons]
    constructor
    · rintro ⟨-, ht⟩
      have hp' : P (step s a) := ht [] List.nil_prefix
      exact ⟨(hstep s a hs hp).mp hp', (ih (hq s a hs) hp').mp ht⟩
    · rintro ⟨hc, hm⟩
      have hp' := (hstep s a hs hp).mpr hc
      exact ⟨hp, (ih (hq s a hs) hp').mpr hm⟩

/-- What the steps of a run report, in order. -/
def log (step : σ → α → σ) (report : σ → α → List β) : σ → List α → List β
  | _, [] => []
  | s, a :: as => report s a ++ log step report (step s a) as

/-- A relation that pairs each left component with one right component. -/
def Functional (pairs : List (α × β)) : Prop :=
  ∀ p ∈ pairs, ∀ q ∈ pairs, p.1 = q.1 → p.2 = q.2

instance [DecidableEq α] [DecidableEq β] (pairs : List (α × β)) : Decidable (Functional pairs) :=
  inferInstanceAs (Decidable (∀ p ∈ pairs, ∀ q ∈ pairs, p.1 = q.1 → p.2 = q.2))

end Runs
