import Mathlib.Data.List.Infix

/-!
# Ownership in a log

A log of things that are handed out and given back. A thing is owned when the
last that happened to it is that it was handed out, and a log is exclusive when
nothing is handed out while it is owned.
-/

namespace Ownership

variable {ι α : Type*}

/-- A thing that is handed out, or given back. -/
inductive Event (ι α : Type*) where
  | acquired (owner : ι) (thing : α)
  | released (thing : α)
  deriving DecidableEq

def Owned (log : List (Event ι α)) (thing : α) : Prop :=
  ∃ before owner after, log = before ++ .acquired owner thing :: after ∧ .released thing ∉ after

/-- Between two events that hand a thing out lies one that gives it back. -/
def Exclusive (log : List (Event ι α)) : Prop :=
  ∀ before owner thing after, log = before ++ .acquired owner thing :: after → ¬ Owned before thing

theorem not_owned_nil (thing : α) : ¬ Owned ([] : List (Event ι α)) thing := by
  rintro ⟨before, owner, after, h, -⟩
  simp at h

/-- An event at the end decides about its own thing only. -/
theorem owned_concat (log : List (Event ι α)) (e : Event ι α) (thing : α) :
    Owned (log ++ [e]) thing ↔
      (∃ owner, e = .acquired owner thing) ∨ Owned log thing ∧ e ≠ .released thing := by
  constructor
  · rintro ⟨before, owner, after, h, hno⟩
    rcases List.eq_nil_or_concat after with rfl | ⟨init, last, rfl⟩
    · have he := List.append_inj_right' h rfl
      exact .inl ⟨owner, List.cons.inj he |>.1⟩
    · rw [List.concat_eq_append, ← List.cons_append, ← List.append_assoc] at h
      have hlog := List.append_inj_left' h rfl
      obtain rfl : e = last := List.cons.inj (List.append_inj_right' h rfl) |>.1
      rw [List.concat_eq_append, List.mem_append, not_or] at hno
      refine .inr ⟨⟨before, owner, init, hlog, hno.1⟩, ?_⟩
      rintro rfl
      exact hno.2 (List.mem_singleton.mpr rfl)
  · rintro (⟨owner, rfl⟩ | ⟨⟨before, owner, after, rfl, hno⟩, he⟩)
    · exact ⟨log, owner, [], rfl, List.not_mem_nil⟩
    · refine ⟨before, owner, after ++ [e], by simp, ?_⟩
      rw [List.mem_append, List.mem_singleton, not_or]
      exact ⟨hno, Ne.symm he⟩

@[simp] theorem owned_acquired (log : List (Event ι α)) (owner : ι) (got thing : α) :
    Owned (log ++ [.acquired owner got]) thing ↔ got = thing ∨ Owned log thing := by
  simp [owned_concat]

@[simp] theorem owned_released (log : List (Event ι α)) (gone thing : α) :
    Owned (log ++ [.released gone]) thing ↔ Owned log thing ∧ gone ≠ thing := by
  simp [owned_concat]

theorem exclusive_nil : Exclusive ([] : List (Event ι α)) := by
  intro before owner thing after h
  simp at h

theorem exclusive_concat (log : List (Event ι α)) (e : Event ι α) :
    Exclusive (log ++ [e]) ↔
      Exclusive log ∧ ∀ owner thing, e = .acquired owner thing → ¬ Owned log thing := by
  constructor
  · intro h
    constructor
    · rintro before owner thing after rfl
      exact h before owner thing (after ++ [e]) (by simp)
    · rintro owner thing rfl
      exact h log owner thing [] rfl
  · rintro ⟨hlog, he⟩ before owner thing after h
    rcases List.eq_nil_or_concat after with rfl | ⟨init, last, rfl⟩
    · obtain rfl := List.append_inj_left' h rfl
      exact he owner thing (List.cons.inj (List.append_inj_right' h rfl) |>.1)
    · rw [List.concat_eq_append, ← List.cons_append, ← List.append_assoc] at h
      exact hlog before owner thing init (List.append_inj_left' h rfl)

@[simp] theorem exclusive_acquired (log : List (Event ι α)) (owner : ι) (thing : α) :
    Exclusive (log ++ [.acquired owner thing]) ↔ Exclusive log ∧ ¬ Owned log thing := by
  simp [exclusive_concat]

@[simp] theorem exclusive_released (log : List (Event ι α)) (thing : α) :
    Exclusive (log ++ [.released thing]) ↔ Exclusive log := by
  simp [exclusive_concat]

/-! ## A store of free things -/

/-- What is owned was made and is not free. -/
structure Guarded (log : List (Event ι α)) (free made : List α) : Prop where
  exclusive : Exclusive log
  made : ∀ thing, Owned log thing → thing ∈ made
  apart : ∀ thing, Owned log thing → thing ∉ free

theorem guarded_nil (free made : List α) : Guarded ([] : List (Event ι α)) free made :=
  ⟨exclusive_nil, fun thing h => absurd h (not_owned_nil thing),
    fun thing h => absurd h (not_owned_nil thing)⟩

section

variable {log : List (Event ι α)} {free free' made made' : List α}

/-- Things leave the store, and new ones come into it. -/
theorem Guarded.store (h : Guarded log free made) (hmade : made ⊆ made')
    (hfree : ∀ thing ∈ free', thing ∈ free ∨ thing ∉ made) : Guarded log free' made' := by
  refine ⟨h.exclusive, fun thing ho => hmade (h.made thing ho), ?_⟩
  intro thing ho hmem
  rcases hfree thing hmem with hmem | hnew
  · exact h.apart thing ho hmem
  · exact hnew (h.made thing ho)

/-- A free thing, or a new one, is handed out and leaves the store. -/
theorem Guarded.acquire (h : Guarded log free made) (owner : ι) {thing : α}
    (hthing : thing ∈ free ∨ thing ∉ made) (hmade : made ⊆ made') (hmem : thing ∈ made')
    (hsub : free' ⊆ free) (hnot : thing ∉ free') :
    Guarded (log ++ [.acquired owner thing]) free' made' := by
  have hown : ¬ Owned log thing := by
    intro ho
    rcases hthing with hfree | hnew
    · exact h.apart thing ho hfree
    · exact hnew (h.made thing ho)
  refine ⟨(exclusive_acquired log owner thing).mpr ⟨h.exclusive, hown⟩, ?_, ?_⟩
  · intro other ho
    rcases (owned_acquired log owner thing other).mp ho with rfl | ho
    · exact hmem
    · exact hmade (h.made other ho)
  · intro other ho hfree
    rcases (owned_acquired log owner thing other).mp ho with rfl | ho
    · exact hnot hfree
    · exact h.apart other ho (hsub hfree)

/-- A thing is given back, to the store or not. -/
theorem Guarded.release (h : Guarded log free made) (thing : α)
    (hfree : ∀ other ∈ free', other ∈ free ∨ other = thing) :
    Guarded (log ++ [.released thing]) free' made := by
  refine ⟨(exclusive_released log thing).mpr h.exclusive, ?_, ?_⟩
  · intro other ho
    exact h.made other ((owned_released log thing other).mp ho).1
  · intro other ho hmem
    obtain ⟨ho, hne⟩ := (owned_released log thing other).mp ho
    rcases hfree other hmem with hmem | rfl
    · exact h.apart other ho hmem
    · exact hne rfl

end

end Ownership
