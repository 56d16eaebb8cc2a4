import Mathlib.Data.List.Nodup
import Mathlib.Logic.Function.Basic

/-!
# Resources made on demand

An owner keeps one resource in a slot and makes another when the slot is empty or what is in
it is closed. A resource may be handed to a closer, which closes it when it runs, if it runs.
-/

namespace OnDemand

structure Slot where
  current : Option Nat := none
  /-- The resources are numbered as they are made. -/
  made : Nat := 0
  closed : Nat → Bool := fun _ => false
  /-- Handed to closers that have not run. -/
  closing : List Nat := []

/-- The resource in the slot, if it is open. -/
def Slot.live (s : Slot) : Option Nat := s.current.filter fun i => !s.closed i

def Slot.get (s : Slot) : Nat × Slot := match s.live with
  | some i => (i, s)
  | none => (s.made, { s with current := some s.made, made := s.made + 1 })

def Slot.close (s : Slot) (i : Nat) : Slot := { s with closed := Function.update s.closed i true }

def Slot.empty (s : Slot) : Slot := { s with current := none }

def Slot.handOver (s : Slot) (i : Nat) : Slot := { s with closing := s.closing ++ [i] }

/-- A closer is gone, whether it has run or not. -/
def Slot.forget (s : Slot) (i : Nat) : Slot := { s with closing := s.closing.erase i }

def Slot.runCloser (s : Slot) (i : Nat) : Slot :=
  if i ∈ s.closing then (s.close i).forget i else s

/-- What is anywhere was made. -/
structure Numbered (s : Slot) : Prop where
  current : ∀ i, s.current = some i → i < s.made
  closed : ∀ i, s.closed i = true → i < s.made
  closing : ∀ i ∈ s.closing, i < s.made

/-- An open resource is in the slot or has a closer. -/
def Covered (s : Slot) : Prop :=
  ∀ i < s.made, s.closed i = true ∨ s.current = some i ∨ i ∈ s.closing

/-- An open resource is the one in the slot. -/
def Single (s : Slot) : Prop := ∀ i < s.made, s.closed i = false → s.current = some i

/-- A resource that has a closer is open and out of the slot, and has no other. -/
structure Detached (s : Slot) : Prop where
  nodup : s.closing.Nodup
  away : ∀ i ∈ s.closing, s.current ≠ some i
  isOpen : ∀ i ∈ s.closing, s.closed i = false

theorem numbered_new : Numbered {} := ⟨by simp, by simp, by simp⟩

theorem covered_new : Covered {} := by simp [Covered]

theorem single_new : Single {} := by simp [Single]

theorem detached_new : Detached {} := ⟨by simp, by simp, by simp⟩

section

variable {s : Slot} {i : Nat}

theorem live_eq_some : s.live = some i ↔ s.current = some i ∧ s.closed i = false := by
  simp [Slot.live]

theorem closed_of_live_none (h : s.live = none) (hi : s.current = some i) : s.closed i = true := by
  simpa [Slot.live, hi] using h

theorem get_cases : (∃ i, s.live = some i ∧ s.get = (i, s)) ∨
    s.live = none ∧ s.get = (s.made, { s with current := some s.made, made := s.made + 1 }) := by
  unfold Slot.get
  cases h : s.live with
  | some i => exact Or.inl ⟨i, rfl, rfl⟩
  | none => exact Or.inr ⟨rfl, rfl⟩

/-- What the slot gives is open, and is in the slot from then on. -/
theorem get_open (h : Numbered s) :
    s.get.2.closed s.get.1 = false ∧ s.get.2.current = some s.get.1 := by
  rcases get_cases (s := s) with ⟨i, hlive, hget⟩ | ⟨-, hget⟩
  · obtain ⟨hc, ho⟩ := live_eq_some.mp hlive
    rw [hget]
    exact ⟨ho, hc⟩
  · rw [hget]
    refine ⟨?_, rfl⟩
    have hfresh : s.closed s.made ≠ true := fun hm => Nat.lt_irrefl _ (h.closed _ hm)
    simpa using hfresh

@[simp] theorem made_runCloser (s : Slot) (i : Nat) : (s.runCloser i).made = s.made := by
  unfold Slot.runCloser
  split <;> rfl

/-! ## Every move keeps the numbers -/

theorem Numbered.get (h : Numbered s) : Numbered s.get.2 := by
  rcases get_cases (s := s) with ⟨i, -, hget⟩ | ⟨-, hget⟩ <;> rw [hget]
  · exact h
  · refine ⟨by simp, ?_, ?_⟩
    · exact fun i hi => Nat.lt_succ_of_lt (h.closed i hi)
    · exact fun i hi => Nat.lt_succ_of_lt (h.closing i hi)

theorem Numbered.close (h : Numbered s) (hi : i < s.made) : Numbered (s.close i) := by
  refine ⟨h.current, ?_, h.closing⟩
  intro j hj
  by_cases hji : j = i
  · exact hji ▸ hi
  · exact h.closed j (by simpa [Slot.close, hji] using hj)

theorem Numbered.empty (h : Numbered s) : Numbered s.empty :=
  ⟨by simp [Slot.empty], h.closed, h.closing⟩

theorem Numbered.handOver (h : Numbered s) (hi : i < s.made) : Numbered (s.handOver i) := by
  refine ⟨h.current, h.closed, ?_⟩
  intro j hj
  rcases List.mem_append.mp hj with hj | hj
  · exact h.closing j hj
  · exact List.mem_singleton.mp hj ▸ hi

theorem Numbered.forget (h : Numbered s) : Numbered (s.forget i) :=
  ⟨h.current, h.closed, fun j hj => h.closing j (List.mem_of_mem_erase hj)⟩

theorem Numbered.runCloser (h : Numbered s) : Numbered (s.runCloser i) := by
  unfold Slot.runCloser
  split
  · next hi => exact (h.close (h.closing i hi)).forget
  · exact h

/-! ## No move but a lost closer loses an open resource -/

theorem Covered.get (h : Covered s) : Covered s.get.2 := by
  rcases get_cases (s := s) with ⟨i, -, hget⟩ | ⟨hlive, hget⟩ <;> rw [hget]
  · exact h
  · intro i hi
    have hle : i < s.made + 1 := hi
    by_cases him : i = s.made
    · exact Or.inr (Or.inl (by rw [him]))
    · rcases h i (by omega) with hc | hc | hc
      · exact Or.inl hc
      · have hclosed : s.closed i = true := closed_of_live_none hlive hc
        exact Or.inl hclosed
      · exact Or.inr (Or.inr hc)

theorem Covered.close (h : Covered s) : Covered (s.close i) := by
  intro j hj
  rcases h j hj with hc | hc
  · exact Or.inl (by simp [Slot.close, Function.update_apply, hc])
  · exact Or.inr hc

theorem Covered.handOver (h : Covered s) : Covered (s.handOver i) := by
  intro j hj
  rcases h j hj with hc | hc | hc
  · exact Or.inl hc
  · exact Or.inr (Or.inl hc)
  · exact Or.inr (Or.inr (List.mem_append_left _ hc))

/-- The slot may be emptied once what is in it is closed or has a closer. -/
theorem Covered.empty (h : Covered s) (hlive : ∀ i, s.live = some i → i ∈ s.closing) :
    Covered s.empty := by
  intro j hj
  rcases h j hj with hc | hc | hc
  · exact Or.inl hc
  · cases ho : s.closed j with
    | true => exact Or.inl ho
    | false => exact Or.inr (Or.inr (hlive j (live_eq_some.mpr ⟨hc, ho⟩)))
  · exact Or.inr (Or.inr hc)

theorem Covered.runCloser (h : Covered s) : Covered (s.runCloser i) := by
  unfold Slot.runCloser
  split
  · intro j hj
    by_cases hji : j = i
    · subst hji
      exact Or.inl (by simp [Slot.forget, Slot.close])
    · rcases h j hj with hc | hc | hc
      · exact Or.inl (by simpa [Slot.forget, Slot.close, hji] using hc)
      · exact Or.inr (Or.inl hc)
      · exact Or.inr (Or.inr ((List.mem_erase_of_ne hji).mpr hc))
  · exact h

/-- A closer that is lost before it runs loses its resource. -/
theorem covered_forget (hn : Numbered s) (hd : Detached s) (h : Covered s) :
    Covered (s.forget i) ↔ i ∉ s.closing := by
  constructor
  · intro hc hi
    rcases hc i (hn.closing i hi) with hx | hx | hx
    · exact absurd ((hd.isOpen i hi).symm.trans hx) (by simp)
    · exact hd.away i hi hx
    · exact hd.nodup.not_mem_erase hx
  · intro hi
    rwa [Slot.forget, List.erase_of_not_mem hi]

/-! ## One open resource at a time -/

theorem Single.get (h : Single s) : Single s.get.2 := by
  rcases get_cases (s := s) with ⟨i, -, hget⟩ | ⟨hlive, hget⟩ <;> rw [hget]
  · exact h
  · intro i hi ho
    have hle : i < s.made + 1 := hi
    have hopen : s.closed i = false := ho
    by_cases him : i = s.made
    · rw [him]
    · have hc := closed_of_live_none hlive (h i (by omega) hopen)
      exact absurd (hopen.symm.trans hc) (by simp)

theorem Single.close (h : Single s) : Single (s.close i) := by
  intro j hj ho
  have hji : j ≠ i := by
    rintro rfl
    simp [Slot.close] at ho
  exact h j hj (by simpa [Slot.close, hji] using ho)

theorem Single.runCloser (h : Single s) : Single (s.runCloser i) := by
  unfold Slot.runCloser
  split
  · exact h.close
  · exact h

theorem Single.unique (h : Single s) {j : Nat} (hi : i < s.made) (hj : j < s.made)
    (hio : s.closed i = false) (hjo : s.closed j = false) : i = j :=
  Option.some.inj ((h i hi hio).symm.trans (h j hj hjo))

/-! ## Closers of what has left the slot -/

theorem Detached.get (hn : Numbered s) (h : Detached s) : Detached s.get.2 := by
  rcases get_cases (s := s) with ⟨i, -, hget⟩ | ⟨-, hget⟩ <;> rw [hget]
  · exact h
  · refine ⟨h.nodup, ?_, h.isOpen⟩
    intro i hi heq
    have hlt := hn.closing i hi
    simp only [Option.some.injEq] at heq
    omega

theorem Detached.forget (h : Detached s) : Detached (s.forget i) :=
  ⟨h.nodup.erase i, fun j hj => h.away j (List.mem_of_mem_erase hj),
    fun j hj => h.isOpen j (List.mem_of_mem_erase hj)⟩

theorem Detached.empty (h : Detached s) : Detached s.empty :=
  ⟨h.nodup, by simp [Slot.empty], h.isOpen⟩

/-- The resource in the slot is closed there. -/
theorem Detached.close (h : Detached s) (hi : i ∉ s.closing) : Detached (s.close i) := by
  refine ⟨h.nodup, h.away, ?_⟩
  intro j hj
  have hji : j ≠ i := fun he => hi (he ▸ hj)
  simpa [Slot.close, hji] using h.isOpen j hj

/-- It is taken out of the slot and gets a closer. -/
theorem Detached.handOver (h : Detached s) (hlive : s.live = some i) :
    Detached (s.handOver i).empty := by
  obtain ⟨hc, ho⟩ := live_eq_some.mp hlive
  have hi : i ∉ s.closing := fun hi => h.away i hi hc
  refine ⟨?_, by simp [Slot.empty], ?_⟩
  · exact List.nodup_append.mpr ⟨h.nodup, List.nodup_singleton i, by
      intro j hj k hk hjk
      exact hi (List.mem_singleton.mp hk ▸ hjk ▸ hj)⟩
  · intro j hj
    rcases List.mem_append.mp hj with hj | hj
    · exact h.isOpen j hj
    · exact List.mem_singleton.mp hj ▸ ho

theorem Detached.runCloser (h : Detached s) : Detached (s.runCloser i) := by
  unfold Slot.runCloser
  split
  · refine ⟨h.nodup.erase i, fun j hj => h.away j (List.mem_of_mem_erase hj), ?_⟩
    intro j hj
    have hji : j ≠ i := fun he => h.nodup.not_mem_erase (he ▸ hj)
    simpa [Slot.forget, Slot.close, hji] using h.isOpen j (List.mem_of_mem_erase hj)
  · exact h

end

end OnDemand
