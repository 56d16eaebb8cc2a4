import Mathlib.Algebra.Order.BigOperators.Group.List
import Mathlib.Order.Interval.Set.Basic
import Mathlib.Tactic.Abel

/-!
# Logs of weights charged over time

A log is the list of charges that were admitted, the oldest first. A quota is a
family of sets of times, its windows, and a limit; it is kept when no window
holds more weight than the limit. A charge is made at the end of the log, so it
is enough to look at the windows that hold the new time.
-/

namespace ChargeLogs

variable {κ τ ω : Type*}

structure Charge (κ τ ω : Type*) where
  account : κ
  time : τ
  weight : ω
  deriving DecidableEq, Repr

abbrev Log (κ τ ω : Type*) := List (Charge κ τ ω)

/-- The charges of one account. -/
def charged [DecidableEq κ] (log : Log κ τ ω) (k : κ) : Log κ τ ω :=
  log.filter fun c => c.account = k

def Sorted [LE τ] (log : Log κ τ ω) : Prop := log.Pairwise fun a b => a.time ≤ b.time

/-- A charge below zero is the last one of its account. -/
def Tame [LE ω] [Zero ω] (charges : List (κ × ω)) : Prop :=
  charges.Pairwise fun a b => a.1 = b.1 → 0 ≤ a.2

section

variable [DecidableEq κ]

theorem charged_append (log log' : Log κ τ ω) (k : κ) :
    charged (log ++ log') k = charged log k ++ charged log' k := List.filter_append log log'

theorem charged_concat_same (log : Log κ τ ω) (c : Charge κ τ ω) :
    charged (log ++ [c]) c.account = charged log c.account ++ [c] := by
  simp [charged, List.filter_append]

theorem charged_concat_other (log : Log κ τ ω) {c : Charge κ τ ω} {k : κ} (h : k ≠ c.account) :
    charged (log ++ [c]) k = charged log k := by
  simp [charged, List.filter_append, h.symm]

theorem mem_charged {log : Log κ τ ω} {k : κ} {c : Charge κ τ ω} :
    c ∈ charged log k ↔ c ∈ log ∧ c.account = k := by
  simp [charged]

end

/-- The weight of the charges made at the times that pass `p`. -/
def weightIn [AddMonoid ω] (p : τ → Bool) (log : Log κ τ ω) : ω :=
  ((log.filter fun c => p c.time).map Charge.weight).sum

section

variable [AddCommMonoid ω] {p q : τ → Bool}

@[simp] theorem weightIn_nil : weightIn p ([] : Log κ τ ω) = 0 := rfl

theorem weightIn_concat (log : Log κ τ ω) (c : Charge κ τ ω) :
    weightIn p (log ++ [c]) = weightIn p log + if p c.time then c.weight else 0 := by
  by_cases h : p c.time = true <;> simp [weightIn, List.filter_append, h]

theorem weightIn_eq_zero {log : Log κ τ ω} (h : ∀ c ∈ log, p c.time = false) :
    weightIn p log = 0 := by
  have he : log.filter (fun c => p c.time) = [] := by
    rw [List.filter_eq_nil_iff]
    intro c hc
    simp [h c hc]
  rw [weightIn, he, List.map_nil, List.sum_nil]

variable [PartialOrder ω] [IsOrderedAddMonoid ω]

theorem weightIn_nonneg {log : Log κ τ ω} (h : ∀ c ∈ log, 0 ≤ c.weight) : 0 ≤ weightIn p log := by
  refine List.sum_nonneg fun w hw => ?_
  obtain ⟨c, hc, rfl⟩ := List.mem_map.mp hw
  exact h c (List.mem_filter.mp hc).1

/-- A smaller set of times holds less. -/
theorem weightIn_mono {log : Log κ τ ω} (h : ∀ c ∈ log, 0 ≤ c.weight)
    (hpq : ∀ c ∈ log, p c.time = true → q c.time = true) : weightIn p log ≤ weightIn q log := by
  refine List.Sublist.sum_le_sum (List.Sublist.map _ ?_) ?_
  · have hf : log.filter (fun c => p c.time) =
        (log.filter fun c => q c.time).filter fun c => p c.time := by
      rw [List.filter_filter]
      refine List.filter_congr fun c hc => ?_
      cases hp : p c.time with
      | false => simp
      | true => simp [hpq c hc hp]
    rw [hf]
    exact List.filter_sublist
  · intro w hw
    obtain ⟨c, hc, rfl⟩ := List.mem_map.mp hw
    exact h c (List.mem_filter.mp hc).1

/-- No window of the family holds more than the limit. -/
def Bounded (windows : (τ → Bool) → Prop) (limit : ω) (log : Log κ τ ω) : Prop :=
  ∀ p, windows p → weightIn p log ≤ limit

omit [IsOrderedAddMonoid ω] in
theorem bounded_nil {windows : (τ → Bool) → Prop} {limit : ω} (h : 0 ≤ limit) :
    Bounded windows limit ([] : Log κ τ ω) := fun _ _ => h

omit [IsOrderedAddMonoid ω] in
theorem bounded_concat {windows : (τ → Bool) → Prop} {limit : ω} {log : Log κ τ ω}
    {c : Charge κ τ ω} (hb : Bounded windows limit log)
    (hc : ∀ p, windows p → p c.time = true → weightIn p log + c.weight ≤ limit) :
    Bounded windows limit (log ++ [c]) := by
  intro p hp
  rw [weightIn_concat]
  by_cases h : p c.time = true
  · simpa [h] using hc p hp h
  · simpa [h] using hb p hp

end

section

variable [LinearOrder τ]

/-- The charges made from a time on. -/
def since (t : τ) (log : Log κ τ ω) : Log κ τ ω := log.filter fun c => t ≤ c.time

theorem since_concat (t : τ) (log : Log κ τ ω) (c : Charge κ τ ω) :
    since t (log ++ [c]) = since t log ++ if t ≤ c.time then [c] else [] := by
  by_cases h : t ≤ c.time <;> simp [since, List.filter_append, h]

theorem since_since {s t : τ} (h : s ≤ t) (log : Log κ τ ω) : since t (since s log) = since t log := by
  rw [since, since, List.filter_filter]
  refine List.filter_congr fun c _ => ?_
  by_cases ht : t ≤ c.time
  · simp [ht, h.trans ht]
  · simp [ht]

theorem since_eq_nil {t : τ} {log : Log κ τ ω} (h : ∀ c ∈ log, c.time < t) : since t log = [] := by
  rw [since, List.filter_eq_nil_iff]
  intro c hc
  simpa using h c hc

/-- In a sorted log these are what is left when the older ones are dropped from the
front. -/
theorem dropWhile_eq_since {log : Log κ τ ω} (hs : Sorted log) (t : τ) :
    log.dropWhile (fun c => c.time < t) = since t log := by
  induction log with
  | nil => rfl
  | cons c log ih =>
    obtain ⟨hc, hs⟩ := List.pairwise_cons.mp hs
    by_cases h : c.time < t
    · simp [since, h, not_le.mpr h, ih hs]
    · have hle : t ≤ c.time := not_lt.mp h
      have hall : since t log = log :=
        List.filter_eq_self.mpr fun d hd => by simpa using hle.trans (hc d hd)
      rw [since] at hall
      simp [since, h, hle, hall]

theorem sorted_since {log : Log κ τ ω} (h : Sorted log) (t : τ) : Sorted (since t log) :=
  h.sublist List.filter_sublist

theorem sorted_concat {log : Log κ τ ω} {c : Charge κ τ ω} :
    Sorted (log ++ [c]) ↔ Sorted log ∧ ∀ d ∈ log, d.time ≤ c.time := by
  simp [Sorted, List.pairwise_append]

theorem sorted_charged [DecidableEq κ] {log : Log κ τ ω} (h : Sorted log) (k : κ) :
    Sorted (charged log k) := h.sublist List.filter_sublist

end

end ChargeLogs
