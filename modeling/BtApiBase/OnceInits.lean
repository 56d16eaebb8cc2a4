import Mathlib.Logic.Function.Basic
import BtApiBase.Runs

/-!
# Double-checked initialisation

A value is tested without a lock and, if it is missing, tested again and made with the lock
held. Any number of threads do this; a making that raises leaves the value missing, and the
next thread tries again.
-/

namespace OnceInits

open Runs

variable {V : Type*}

/-- Where a thread is: it has seen no value, has the lock, makes the value, is through or
has raised. -/
inductive Point where
  | idle | tested | entered | making | returned | raised
  deriving DecidableEq, Repr

structure Once (V : Type*) where
  value : Option V := none
  owner : Option Nat := none
  points : Nat → Point := fun _ => .idle
  /-- How many times the value was made. -/
  completed : Nat := 0

inductive Label (V : Type*) where
  | enter (t : Nat)
  | acquire (t : Nat)
  | retest (t : Nat)
  /-- The making returns a value, or raises. -/
  | finish (t : Nat) (result : Option V)
  | leave (t : Nat)
  deriving DecidableEq, Repr

def Once.goTo (o : Once V) (t : Nat) (p : Point) : Once V :=
  { o with points := Function.update o.points t p }

def step (o : Once V) : Label V → Once V
  | .enter t =>
    if o.points t = .idle then o.goTo t (if o.value.isSome then .returned else .tested) else o
  | .acquire t =>
    if o.points t = .tested ∧ o.owner = none then { o with owner := some t }.goTo t .entered else o
  | .retest t =>
    if o.points t = .entered then
      if o.value.isSome then { o with owner := none }.goTo t .returned else o.goTo t .making
    else o
  | .finish t result =>
    if o.points t = .making then match result with
      | some v =>
        { o with value := some v, owner := none, completed := o.completed + 1 }.goTo t .returned
      | none => { o with owner := none }.goTo t .raised
    else o
  | .leave t => if o.points t = .returned ∨ o.points t = .raised then o.goTo t .idle else o

/-- The points of a thread that has the lock. -/
def Point.inside : Point → Bool
  | .entered | .making => true
  | _ => false

/-- The owner of the lock is the thread inside, the value is missing while it is made, and
was made once if it is there. -/
structure Sound (o : Once V) : Prop where
  owner : ∀ t, (o.points t).inside = true ↔ o.owner = some t
  making : ∀ t, o.points t = .making → o.value = none
  returned : ∀ t, o.points t = .returned → o.value.isSome = true
  completed : o.completed = if o.value.isSome then 1 else 0

theorem sound_new : Sound ({} : Once V) :=
  ⟨by simp [Point.inside], by simp, by simp, rfl⟩

section

variable {o : Once V}

@[simp] theorem points_goTo_same (t : Nat) (p : Point) : (o.goTo t p).points t = p := by
  simp [Once.goTo]

theorem points_goTo_other {t u : Nat} (p : Point) (h : u ≠ t) : (o.goTo t p).points u = o.points u := by
  simp [Once.goTo, h]

/-- A thread moves on without the lock, or with it and without a value. -/
theorem Sound.goTo (h : Sound o) {t : Nat} {p : Point} (hin : p.inside = (o.points t).inside)
    (hm : p = .making → o.value = none) (hr : p = .returned → o.value.isSome = true) :
    Sound (o.goTo t p) := by
  refine ⟨?_, ?_, ?_, h.completed⟩
  · intro u
    by_cases hu : u = t
    · subst hu
      rw [points_goTo_same, hin]
      exact h.owner u
    · rw [points_goTo_other p hu]
      exact h.owner u
  · intro u hp
    by_cases hu : u = t
    · subst hu
      rw [points_goTo_same] at hp
      exact hm hp
    · rw [points_goTo_other p hu] at hp
      exact h.making u hp
  · intro u hp
    by_cases hu : u = t
    · subst hu
      rw [points_goTo_same] at hp
      exact hr hp
    · rw [points_goTo_other p hu] at hp
      exact h.returned u hp

/-- The thread inside gives the lock back; a value may have come. -/
theorem Sound.release (h : Sound o) {t : Nat} (ht : (o.points t).inside = true) (o' : Once V)
    (p : Point) (hp : o'.points = o.points) (ho : o'.owner = none)
    (hv : o'.value = o.value ∨ o.value = none ∧ o'.value.isSome = true)
    (hc : o'.completed = if o'.value.isSome then 1 else 0) (hin : p.inside = false)
    (hr : p = .returned → o'.value.isSome = true) : Sound (o'.goTo t p) := by
  have hother : ∀ u, u ≠ t → (o.points u).inside = false := by
    intro u hu
    cases hi : (o.points u).inside with
    | false => rfl
    | true =>
      have := ((h.owner u).mp hi).symm.trans ((h.owner t).mp ht)
      exact absurd (Option.some.inj this) hu
  refine ⟨?_, ?_, ?_, hc⟩
  · intro u
    have hnone : (o'.goTo t p).owner = none := ho
    rw [hnone]
    by_cases hu : u = t
    · subst hu
      simp [hin]
    · rw [points_goTo_other p hu, hp]
      simp [hother u hu]
  · intro u hpu
    by_cases hu : u = t
    · subst hu
      rw [points_goTo_same] at hpu
      rw [hpu] at hin
      cases hin
    · rw [points_goTo_other p hu, hp] at hpu
      have := hother u hu
      rw [hpu] at this
      cases this
  · intro u hpu
    by_cases hu : u = t
    · subst hu
      rw [points_goTo_same] at hpu
      exact hr hpu
    · rw [points_goTo_other p hu, hp] at hpu
      have hsome := h.returned u hpu
      rcases hv with hv | hv
      · simpa [Once.goTo, hv] using hsome
      · exact hv.2

theorem sound_step (h : Sound o) (l : Label V) : Sound (step o l) := by
  cases l with
  | enter t =>
    simp only [step]
    split
    · next hp =>
      cases hv : o.value with
      | none => exact h.goTo (by simp [hp, Point.inside]) (by simp) (by simp)
      | some v => exact h.goTo (by simp [hp, Point.inside]) (by simp) (by simp [hv])
    · exact h
  | acquire t =>
    simp only [step]
    split
    · next hp =>
      obtain ⟨hp, ho⟩ := hp
      have hout : ∀ u, (o.points u).inside = false := by
        intro u
        cases hi : (o.points u).inside with
        | false => rfl
        | true =>
          rw [h.owner, ho] at hi
          cases hi
      refine ⟨?_, ?_, ?_, h.completed⟩
      · intro u
        have hown : ({ o with owner := some t }.goTo t .entered).owner = some t := rfl
        rw [hown]
        by_cases hu : u = t
        · subst hu
          simp [Point.inside]
        · rw [points_goTo_other _ hu]
          simp [hout u, Ne.symm hu]
      · intro u hpu
        by_cases hu : u = t
        · subst hu
          simp at hpu
        · rw [points_goTo_other _ hu] at hpu
          exact h.making u hpu
      · intro u hpu
        by_cases hu : u = t
        · subst hu
          simp at hpu
        · rw [points_goTo_other _ hu] at hpu
          exact h.returned u hpu
    · exact h
  | retest t =>
    simp only [step]
    split
    · next hp =>
      have hin : (o.points t).inside = true := by simp [hp, Point.inside]
      split
      · next hv => exact h.release hin { o with owner := none } .returned rfl rfl (Or.inl rfl) h.completed rfl (fun _ => hv)
      · next hv => exact h.goTo (by simp [hp, Point.inside]) (fun _ => by simpa using hv) (by simp)
    · exact h
  | finish t result =>
    simp only [step]
    split
    · next hp =>
      have hin : (o.points t).inside = true := by simp [hp, Point.inside]
      have hnone := h.making t hp
      have hc : o.completed = 0 := by simpa [hnone] using h.completed
      cases result with
      | none => exact h.release hin { o with owner := none } .raised rfl rfl (Or.inl rfl) h.completed rfl (by simp)
      | some v =>
        exact h.release hin { o with value := some v, owner := none, completed := o.completed + 1 }
          .returned rfl rfl (Or.inr ⟨hnone, rfl⟩) (by simp [hc]) rfl (fun _ => rfl)
    · exact h
  | leave t =>
    simp only [step]
    split
    · next hp =>
      exact h.goTo (by rcases hp with hp | hp <;> simp [hp, Point.inside]) (by simp) (by simp)
    · exact h

/-- One thread makes the value at a time. -/
theorem Sound.unique (h : Sound o) {t u : Nat} (ht : o.points t = .making) (hu : o.points u = .making) :
    t = u := by
  have hot := (h.owner t).mp (by simp [ht, Point.inside])
  have hou := (h.owner u).mp (by simp [hu, Point.inside])
  exact Option.some.inj (hot.symm.trans hou)

/-- A value that was made stays. -/
theorem value_step (h : Sound o) {v : V} (hv : o.value = some v) (l : Label V) :
    (step o l).value = some v := by
  cases l with
  | enter t | acquire t | leave t =>
    simp only [step]
    split <;> simpa [Once.goTo] using hv
  | retest t =>
    simp only [step]
    split
    · split <;> simpa [Once.goTo] using hv
    · exact hv
  | finish t result =>
    simp only [step]
    split
    · next hp => simp [h.making t hp] at hv
    · exact hv

end

end OnceInits
