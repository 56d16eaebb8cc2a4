import Mathlib.Algebra.Order.Group.Defs
import Mathlib.Algebra.Order.Group.Unbundled.Basic
import Mathlib.Data.List.Basic
import Mathlib.Tactic.Abel

/-!
# Sliding windows

A log of times, and the times of it that lie less than a width before now. A log that
grows only while fewer than a limit are live has no span of that width with more than
the limit.
-/

namespace SlidingWindows

variable {T : Type*} [AddCommGroup T] [LinearOrder T]

/-- The times less than `width` before `now`. -/
def live (width now : T) (log : List T) : List T := log.filter fun t => now - t < width

/-- The times in the half-open span of length `width` that begins at `start`. -/
def inSpan (width start : T) (log : List T) : List T :=
  log.filter fun t => start ≤ t ∧ t < start + width

@[simp] theorem live_nil (width now : T) : live width now [] = [] := rfl

theorem live_concat {width now : T} (hw : 0 < width) (log : List T) :
    live width now (log ++ [now]) = live width now log ++ [now] := by
  simp [live, hw]

theorem inSpan_concat (width start t : T) (log : List T) :
    inSpan width start (log ++ [t]) =
      inSpan width start log ++ if start ≤ t ∧ t < start + width then [t] else [] := by
  by_cases h : start ≤ t ∧ t < start + width <;> simp [inSpan, List.filter_append, h]

variable [IsOrderedAddMonoid T]

/-- What is live later was live before. -/
theorem live_live {width c now : T} (h : c ≤ now) (log : List T) :
    live width now (live width c log) = live width now log := by
  rw [live, live, List.filter_filter]
  refine List.filter_congr fun t _ => ?_
  by_cases ht : now - t < width
  · have hc : c - t < width := lt_of_le_of_lt (sub_le_sub_right h t) ht
    simp [ht, hc]
  · simp [ht]

theorem length_live_le {width c now : T} (h : c ≤ now) (log : List T) :
    (live width now log).length ≤ (live width c log).length := by
  rw [← live_live h]
  exact List.length_filter_le _ _

/-- Once the width has passed over a live time there are fewer. -/
theorem length_live_lt {width c now r : T} {log : List T} (hr : r ∈ live width c log)
    (hc : c ≤ now) (hnow : r + width ≤ now) :
    (live width now log).length < (live width c log).length := by
  rw [← live_live hc]
  refine List.length_filter_lt_length_iff_exists.mpr ⟨r, hr, ?_⟩
  have hle : width ≤ now - r := le_sub_iff_add_le'.mpr hnow
  simpa using hle

/-- A span that reaches over now holds of the past only what is live. -/
theorem length_inSpan_le {width start now : T} {log : List T} (hpast : now < start + width) :
    (inSpan width start log).length ≤ (live width now log).length := by
  have hsub : inSpan width start log = inSpan width start (live width now log) := by
    rw [inSpan, inSpan, live, List.filter_filter]
    refine List.filter_congr fun t _ => ?_
    by_cases ht : start ≤ t ∧ t < start + width
    · have hlt : now - t < width := by
        have h : now < t + width := lt_of_lt_of_le hpast (by gcongr; exact ht.1)
        exact sub_lt_iff_lt_add'.mpr h
      simp [ht, hlt]
    · simp [ht]
  rw [hsub]
  exact List.length_filter_le _ _

/-- The log is in order, lies in the past, and no span of it holds more than the
limit. -/
structure Limited (width : T) (limit : ℕ) (now : T) (log : List T) : Prop where
  sorted : log.Pairwise (· ≤ ·)
  past : ∀ t ∈ log, t ≤ now
  spans : ∀ start, (inSpan width start log).length ≤ limit

omit [IsOrderedAddMonoid T] in
theorem limited_nil (width : T) (limit : ℕ) (now : T) : Limited width limit now [] :=
  ⟨.nil, by simp, fun _ => Nat.zero_le limit⟩

omit [IsOrderedAddMonoid T] in
theorem Limited.wait {width now now' : T} {limit : ℕ} {log : List T}
    (h : Limited width limit now log) (hle : now ≤ now') : Limited width limit now' log :=
  ⟨h.sorted, fun t ht => (h.past t ht).trans hle, h.spans⟩

/-- There is room for one more when fewer than the limit are live. -/
theorem Limited.add {width now : T} {limit : ℕ} {log : List T} (h : Limited width limit now log)
    (hroom : (live width now log).length < limit) : Limited width limit now (log ++ [now]) where
  sorted := List.pairwise_append.mpr ⟨h.sorted, List.pairwise_singleton _ _,
    fun t ht t' ht' => List.mem_singleton.mp ht' ▸ h.past t ht⟩
  past t ht := by
    rcases List.mem_append.mp ht with ht | ht
    · exact h.past t ht
    · exact (List.mem_singleton.mp ht).le
  spans start := by
    rw [inSpan_concat]
    split
    · next hin =>
      have hle : (inSpan width start log).length ≤ (live width now log).length :=
        length_inSpan_le hin.2
      rw [List.length_append, List.length_singleton]
      omega
    · simpa using h.spans start

end SlidingWindows
