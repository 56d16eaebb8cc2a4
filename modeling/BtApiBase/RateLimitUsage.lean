import Mathlib.Data.List.DropRight
import BtApiBase.RateLimits

/-!
# What a limiter says it has used

`current_usage` of a sliding window drops what has expired before it sums, as
`acquire` does. That of a fixed window is the count of the window of the last
`acquire`, also when that window is over, where `acquire` starts from zero.
-/

namespace RateLimitUsage

open PyText PyDict PyValue RateLimits Runs

/-! ## Reading the usage -/

/-- What `SlidingWindowLimiter.current_usage` reports and leaves. -/
def SlidingWindowLimiter.currentUsage (l : SlidingWindowLimiter) (now : Rat) : Int × SlidingWindowLimiter :=
  let l := l.pruneExpired now
  ((l.requests.map Prod.snd).sum, l)

def FixedWindowLimiter.currentUsage (l : FixedWindowLimiter) : Int := l.windowCount

def Limiter.currentUsage (limiter : Limiter) (now : Rat) : Int × Limiter :=
  match limiter with
  | .sliding l =>
    let r := SlidingWindowLimiter.currentUsage l now
    (r.1, .sliding r.2)
  | .fixed l => (FixedWindowLimiter.currentUsage l, .fixed l)

structure Status where
  type : RateLimitType
  limit : Int
  interval : Int
  current : Int
  deriving DecidableEq

def RateLimiter.status (r : RateLimiter) (now : Rat) (rule : RateLimitRule) : Option Status :=
  (r.limiters.get rule.name).map fun limiter =>
    ⟨rule.type, rule.limit, rule.interval, (Limiter.currentUsage limiter now).1⟩

/-- `get_status`; what it drops from the logs is dropped by the next `acquire` as well. -/
def RateLimiter.getStatus (r : RateLimiter) (now : Rat) : Dict PyStr Status :=
  r.rules.foldl (fun status rule => match RateLimiter.status r now rule with
    | some s => status.set rule.name s
    | none => status) .empty

/-- Under distinct names every rule is shown with the usage of its own limiter. -/
theorem getStatus_get (r : RateLimiter) (now : Rat) (hn : (r.rules.map (·.name)).Nodup) {rule : RateLimitRule}
    (h : rule ∈ r.rules) : (RateLimiter.getStatus r now).get rule.name = RateLimiter.status r now rule := by
  have hfold : ∀ (rules : List RateLimitRule) (d : Dict PyStr Status), (rules.map (·.name)).Nodup →
      ∀ name, (rules.foldl (fun status rule => match RateLimiter.status r now rule with
          | some s => status.set rule.name s
          | none => status) d).get name =
        match rules.find? (·.name = name) with
        | some rule => (RateLimiter.status r now rule).or (d.get name)
        | none => d.get name := by
    intro rules
    induction rules with
    | nil => intro d _ name; rfl
    | cons first rules ih =>
      intro d hnodup name
      obtain ⟨hfirst, hrest⟩ := List.nodup_cons.mp hnodup
      rw [List.foldl_cons, ih _ hrest, List.find?_cons]
      by_cases hname : first.name = name
      · have hnone : rules.find? (·.name = name) = none := by
          rw [List.find?_eq_none]
          intro other hother heq
          exact hfirst (List.mem_map.mpr ⟨other, hother, by simpa [hname] using heq⟩)
        subst hname
        rw [hnone]
        cases hs : RateLimiter.status r now first <;> simp [hs]
      · have hother : ∀ s : Status, (d.set first.name s).get name = d.get name :=
          fun s => Dict.get_set_other d s (Ne.symm hname)
        cases RateLimiter.status r now first <;> simp [hname, hother]
  rw [RateLimiter.getStatus, hfold r.rules .empty hn rule.name]
  have hsome : (r.rules.find? (·.name = rule.name)).isSome = true := by
    rw [List.find?_isSome]
    exact ⟨rule, h, by simp⟩
  obtain ⟨found, hfound⟩ := Option.isSome_iff_exists.mp hsome
  have hname : found.name = rule.name := by simpa using List.find?_some hfound
  obtain rfl := List.inj_on_of_nodup_map hn (List.mem_of_find?_eq_some hfound) h hname
  rw [hfound]
  simp

/-! ## Runs of one limiter -/

inductive Op where
  | acquire (now : Rat) (weight : Int)
  | release (now : Rat) (weight : Int)

/-- An `acquire` that raises leaves the limiter as it is. -/
def step (limiter : Limiter) : Op → Limiter
  | .acquire now weight => match limiter.acquire now weight with
    | .ok (_, limiter) => limiter
    | .error _ => limiter
  | .release now weight => limiter.release now weight

/-- The times of the `acquire` calls. -/
def acquired (ops : List Op) : List Rat := ops.filterMap fun
  | .acquire now _ => some now
  | .release _ _ => none

/-- `acquire(weight)` returns `True`. -/
def grants (limiter : Limiter) (now : Rat) (weight : Int) : Bool :=
  match limiter.acquire now weight with
  | .ok (granted, _) => granted
  | .error _ => false

/-- `acquire(w)` succeeds exactly where the usage that is reported leaves room for `w`. -/
def Agrees (limiter : Limiter) (now : Rat) : Prop :=
  ∀ weight, grants (Limiter.currentUsage limiter now).2 now weight = true ↔
    (Limiter.currentUsage limiter now).1 + weight ≤ limiter.limit

theorem pruneExpired_pruneExpired (l : SlidingWindowLimiter) (now : Rat) :
    (l.pruneExpired now).pruneExpired now = l.pruneExpired now := by
  exact congrArg (SlidingWindowLimiter.mk l.interval l.limit)
    (List.dropWhile_idempotent (fun r : Rat × Int => r.1 < now - l.interval) l.requests)

theorem agrees_sliding (l : SlidingWindowLimiter) (now : Rat) : Agrees (.sliding l) now := by
  intro weight
  have hlimit : (l.pruneExpired now).limit = l.limit := rfl
  simp only [grants, Limiter.currentUsage, SlidingWindowLimiter.currentUsage, Limiter.acquire,
    SlidingWindowLimiter.acquire, pruneExpired_pruneExpired, Limiter.limit, hlimit]
  split <;> simp_all

/-- The window at `now` is the one of the last `acquire`, or nothing was counted in that. -/
def UpToDate (l : FixedWindowLimiter) (now : Rat) : Prop :=
  l.interval ≠ 0 ∧ (windowOf l.interval now = l.windowStart ∨ l.windowCount = 0)

theorem agrees_fixed_iff (l : FixedWindowLimiter) (now : Rat) : Agrees (.fixed l) now ↔ UpToDate l now := by
  have hacquire : ∀ weight, grants (.fixed l) now weight = true ↔
      l.interval ≠ 0 ∧ (l.advance now).windowCount + weight ≤ l.limit := by
    intro weight
    have hlimit : (l.advance now).limit = l.limit := by unfold FixedWindowLimiter.advance; split <;> rfl
    by_cases hi : l.interval = 0
    · simp [grants, Limiter.acquire, hi]
    · simp only [grants, Limiter.acquire, hi, ↓reduceIte, FixedWindowLimiter.acquire, hlimit]
      split <;> simp_all
  have hcount : (l.advance now).windowCount =
      if windowOf l.interval now = l.windowStart then l.windowCount else 0 := by
    unfold FixedWindowLimiter.advance
    split <;> simp_all
  constructor
  · intro h
    have hroom := fun weight => (hacquire weight).symm.trans (h weight)
    simp only [Limiter.currentUsage, FixedWindowLimiter.currentUsage, Limiter.limit, hcount] at hroom
    have hi : l.interval ≠ 0 := ((hroom (l.limit - l.windowCount)).mpr (by omega)).1
    refine ⟨hi, ?_⟩
    by_cases hw : windowOf l.interval now = l.windowStart
    · exact .inl hw
    · -- the weight that fills the new window, and the one that fills the old count
      have hfull := hroom l.limit
      have hrest := hroom (l.limit - l.windowCount)
      simp only [hw, ↓reduceIte] at hfull hrest
      refine .inr ?_
      have h₁ := hfull.mp ⟨hi, by omega⟩
      have h₂ := (hrest.mpr (by omega)).2
      omega
  · rintro ⟨hi, hw⟩ weight
    simp only [Limiter.currentUsage, FixedWindowLimiter.currentUsage, Limiter.limit]
    rw [hacquire, hcount]
    rcases hw with hw | hw
    · simp [hi, hw]
    · simp [hi, hw]

/-- A fixed window stands where the last `acquire` has put it. -/
theorem windowStart_run (interval limit : Int) (hi : interval ≠ 0) (ops : List Op) :
    ∃ l, run step (.fixed ⟨interval, limit, 0, 0⟩) ops = .fixed l ∧ l.interval = interval ∧
      l.windowStart = ((acquired ops).getLast?.map (windowOf interval)).getD 0 := by
  induction ops using List.reverseRecOn with
  | nil => exact ⟨_, rfl, rfl, rfl⟩
  | append_singleton ops op ih =>
    obtain ⟨l, hl, hinterval, hstart⟩ := ih
    rw [run_concat, hl]
    cases op with
    | acquire now weight =>
      have hlast : (acquired (ops ++ [.acquire now weight])).getLast? = some now := by simp [acquired]
      have hl0 : l.interval ≠ 0 := hinterval ▸ hi
      have hadvance : (l.advance now).windowStart = windowOf interval now ∧ (l.advance now).interval = interval := by
        unfold FixedWindowLimiter.advance
        split <;> simp_all
      refine ⟨(l.acquire now weight).2, by simp [step, Limiter.acquire, hl0], ?_, ?_⟩
      · unfold FixedWindowLimiter.acquire
        dsimp only
        split <;> exact hadvance.2
      · rw [hlast]
        unfold FixedWindowLimiter.acquire
        dsimp only
        split <;> exact hadvance.1
    | release now weight =>
      have hsame : acquired (ops ++ [.release now weight]) = acquired ops := by simp [acquired]
      exact ⟨l.release weight, rfl, hinterval, by rw [hsame]; exact hstart⟩

/-- After every run of `acquire` and `release` a sliding window grants what it
reports as free, and a fixed window does if and only if no new window has begun
since the last `acquire` or its count is zero. -/
theorem usage_agrees_iff (limiter : Limiter) (ops : List Op) (now : Rat) :
    Agrees (run step limiter ops) now ↔ ∀ l, run step limiter ops = .fixed l → UpToDate l now := by
  cases h : run step limiter ops with
  | sliding l => exact iff_of_true (agrees_sliding l now) nofun
  | fixed l =>
    rw [agrees_fixed_iff]
    constructor
    · rintro hu _ ⟨⟩
      exact hu
    · exact fun hu => hu l rfl

/-- The only request of a window, reported as used after that window is over. -/
theorem stale_usage :
    ¬ Agrees (run step (.fixed ⟨1, 1, 0, 0⟩) [.acquire 0 1]) 1 ∧
      (Limiter.currentUsage (run step (.fixed ⟨1, 1, 0, 0⟩) [.acquire 0 1]) 1).1 = 1 ∧
      grants (run step (.fixed ⟨1, 1, 0, 0⟩) [.acquire 0 1]) 1 1 = true := by
  refine ⟨fun h => ?_, by decide +kernel, by decide +kernel⟩
  have hroom := (h 1).mp (by decide +kernel)
  revert hroom
  decide +kernel

end RateLimitUsage
