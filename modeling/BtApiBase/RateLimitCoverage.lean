import BtApiBase.RateLimitWindows

/-!
# Which rules are enforced

Limiters stand under rule names, and a token bucket gets none. A rule is
enforced when the last rule of its name that gets a limiter has its interval and
its limit; its own type is not asked. A shared limiter is charged for each of
its rules, so that it bounds each of them.
-/

namespace RateLimitCoverage

open PyText PyDict PyValue ChargeLogs RateLimits RateLimitLedgers RateLimitWindows

/-- Whatever has happened, a rule that matches a request finds a limiter with its own
interval and limit, and an admitted request holds a reservation there. -/
def Covered (rules : List RateLimitRule) : Prop :=
  ∀ (calls : List Call) (c : Call), ∀ rule ∈ rules, rule.match c.method c.path →
    ∃ limiter, (Runs.run RateLimiter.after (.new rules) calls).limiters.get rule.name = some limiter ∧
      limiter.interval = rule.interval ∧ limiter.limit = rule.limit ∧
      ∀ acquired, ((Runs.run RateLimiter.after (.new rules) calls).acquire c).1 = .admitted acquired →
        ∃ i, rule.reservation c i ∈ acquired

/-- The weight that runs admit under a rule within its interval has a bound. -/
def Contained (rules : List RateLimitRule) : Prop :=
  ∀ rule ∈ rules, ∃ bound : Int, ∀ calls, Ordered calls → (∀ c ∈ calls, NonnegRequests rules c) →
    ∀ a, admittedIn rules rule calls (span rule.interval a) ≤ bound

/-- The last limiter under the name of a rule that can match has the interval and the
limit of the rule. -/
def OwnLimiters (rules : List RateLimitRule) : Prop :=
  ∀ rule ∈ rules, (∃ method path, rule.match method path) →
    ∃ last, lastRule rules rule.name = some last ∧ last.interval = rule.interval ∧
      last.limit = rule.limit

theorem quotasOf_run (rules : List RateLimitRule) (calls : List Call) :
    quotasOf (Runs.run RateLimiter.after (.new rules) calls).limiters =
      quotasOf (RateLimiter.new rules).limiters :=
  Runs.run_induction (P := fun r => quotasOf r.limiters = quotasOf (RateLimiter.new rules).limiters)
    (fun r c h => (quotasOf_after r c).trans h) rfl calls

theorem rules_run (rules : List RateLimitRule) (calls : List Call) :
    (Runs.run RateLimiter.after (.new rules) calls).rules = rules :=
  Runs.run_induction (P := fun r => r.rules = rules) (fun r c h => (after_rules r c).trans h) rfl calls

theorem quota_limiter {rule : RateLimitRule} {limiter : Limiter} (h : rule.limiter? = some limiter) :
    quota limiter = ⟨rule.type, rule.interval, rule.limit⟩ := by
  unfold RateLimitRule.limiter? at h
  split at h <;> cases h
  · next ht => simp [quota, ht]
  · next ht => simp [quota, ht]

/-- What stands under a name is made for the last rule of that name. -/
theorem quotasOf_eq (rules : List RateLimitRule) (k : PyStr) :
    quotasOf (RateLimiter.new rules).limiters k =
      (lastRule rules k).map fun rule => ⟨rule.type, rule.interval, rule.limit⟩ := by
  rw [quotasOf, get_new]
  cases h : lastRule rules k with
  | none => rfl
  | some rule =>
    have hmem := List.mem_of_getLast? h
    have hsome := (of_decide_eq_true (List.mem_filter.mp hmem).2).2
    obtain ⟨limiter, hl⟩ := Option.isSome_iff_exists.mp hsome
    simp [hl, quota_limiter hl]

theorem fields_of_quota {limiter : Limiter} {type : RateLimitType} {interval limit : Int}
    (h : quota limiter = ⟨type, interval, limit⟩) :
    limiter.interval = interval ∧ limiter.limit = limit := by
  cases limiter <;> cases h <;> exact ⟨rfl, rfl⟩

theorem covered_of_ownLimiters {rules : List RateLimitRule} (h : OwnLimiters rules) : Covered rules := by
  intro calls c rule hrule hmatch
  obtain ⟨last, hlast, hi, hl⟩ := h rule hrule ⟨c.method, c.path, hmatch⟩
  have hq : quotasOf (Runs.run RateLimiter.after (.new rules) calls).limiters rule.name =
      some ⟨last.type, last.interval, last.limit⟩ := by
    rw [quotasOf_run, quotasOf_eq, hlast]
    rfl
  obtain ⟨limiter, hget, hquota⟩ := Option.map_eq_some_iff.mp hq
  have hfields := fields_of_quota hquota
  refine ⟨limiter, hget, hfields.1.trans hi, hfields.2.trans hl, fun acquired ha => ?_⟩
  rw [acquireAll_eq] at ha
  refine (reservation_of_admitted ha).2 rule ?_ (by rw [hq]; rfl)
  rw [RateLimiter.getMatchedRules, rules_run]
  exact List.mem_filter.mpr ⟨hrule, hmatch⟩

theorem ownLimiters_of_covered {rules : List RateLimitRule} (h : Covered rules) : OwnLimiters rules := by
  rintro rule hrule ⟨method, path, hmatch⟩
  obtain ⟨limiter, hget, hi, hl, -⟩ := h [] ⟨method, path, 0, fun _ => 0⟩ rule hrule hmatch
  have hq : quotasOf (RateLimiter.new rules).limiters rule.name = some (quota limiter) := by
    rw [quotasOf]
    exact congrArg (Option.map quota) hget
  rw [quotasOf_eq] at hq
  obtain ⟨last, hlast, hquota⟩ := Option.map_eq_some_iff.mp hq
  have hfields := fields_of_quota hquota.symm
  exact ⟨last, hlast, hfields.1.symm.trans hi, hfields.2.symm.trans hl⟩

/-! ## Bounds -/

theorem totalIn_nil (p : Rat → Bool) : totalIn p [] = 0 := rfl

theorem totalIn_cons (p : Rat → Bool) (x : Rat × Int) (requests : List (Rat × Int)) :
    totalIn p (x :: requests) = (if p x.1 then x.2 else 0) + totalIn p requests := by
  by_cases h : p x.1 = true <;> simp [totalIn, h]

/-- A set of times that two others cover holds no more than both. -/
theorem totalIn_le_add {p p₁ p₂ : Rat → Bool} (hp : ∀ s, p s = true → p₁ s = true ∨ p₂ s = true)
    {requests : List (Rat × Int)} (hn : ∀ x ∈ requests, 0 ≤ x.2) :
    totalIn p requests ≤ totalIn p₁ requests + totalIn p₂ requests := by
  induction requests with
  | nil => simp [totalIn_nil]
  | cons x requests ih =>
    have hx := hn x List.mem_cons_self
    have ih := ih fun y hy => hn y (List.mem_cons_of_mem _ hy)
    rw [totalIn_cons, totalIn_cons, totalIn_cons]
    by_cases h : p x.1 = true
    · rcases hp x.1 h with h' | h'
      · simp only [h, h', if_true]
        split <;> omega
      · simp only [h, h', if_true]
        split <;> omega
    · simp only [h, Bool.false_eq_true, if_false]
      split <;> split <;> omega

theorem mem_admissions {rule : RateLimitRule} {calls : List Call} {replies : List Reply}
    {x : Rat × Int} (h : x ∈ admissions rule calls replies) :
    ∃ c ∈ calls, rule.match c.method c.path ∧ x.2 = rule.requestWeight c := by
  obtain ⟨⟨c, reply⟩, hmem, hx⟩ := List.mem_flatMap.mp h
  refine ⟨c, (List.of_mem_zip hmem).1, ?_⟩
  unfold admission at hx
  split at hx
  · split at hx
    · next hmatch =>
      rw [List.mem_singleton.mp hx]
      exact ⟨hmatch, rfl⟩
    · cases hx
  · cases hx

/-- A span of the length of an interval lies in two aligned intervals. -/
theorem span_cover {interval : Int} (hi : 0 < interval) (a s : Rat) (h : span interval a s = true) :
    aligned interval ⌊a / interval⌋ s = true ∨ aligned interval (⌊a / interval⌋ + 1) s = true := by
  have hi' : (0 : Rat) < interval := by exact_mod_cast hi
  simp only [span, decide_eq_true_eq] at h
  rw [aligned_iff hi, aligned_iff hi]
  have hlow : ⌊a / interval⌋ ≤ ⌊s / interval⌋ :=
    Int.floor_mono (div_le_div_of_nonneg_right h.1 hi'.le)
  have hhigh : ⌊s / interval⌋ ≤ ⌊a / interval⌋ + 1 := by
    have hle : s / interval ≤ a / interval + 1 := by
      rw [div_le_iff₀ hi', add_mul, div_mul_cancel₀ _ hi'.ne', one_mul]
      exact h.2
    calc ⌊s / interval⌋ ≤ ⌊a / interval + 1⌋ := Int.floor_mono hle
      _ = ⌊a / interval⌋ + 1 := Int.floor_add_one _
  omega

theorem contained_of_ownLimiters {rules : List RateLimitRule} (h : OwnLimiters rules) :
    Contained rules := by
  intro rule hrule
  by_cases hmatch : ∃ method path, rule.match method path
  · obtain ⟨last, hlast, hi, -⟩ := h rule hrule hmatch
    have hq : quotasOf (RateLimiter.new rules).limiters rule.name =
        some ⟨last.type, rule.interval, last.limit⟩ := by
      rw [quotasOf_eq, hlast, ← hi]
      rfl
    refine ⟨max last.limit 0 + max last.limit 0, fun calls hord hw a => ?_⟩
    have hbound : ∀ p, windows ⟨last.type, rule.interval, last.limit⟩ p →
        admittedIn rules rule calls p ≤ max last.limit 0 := fun p hp =>
      admittedIn_le hrule hq hord hw hp
    have hzero : (0 : Int) ≤ max last.limit 0 := le_max_right _ _
    by_cases ht : last.type = .slidingWindow
    · have hspan := hbound (span rule.interval a) (by rw [windows, ht]; exact ⟨a, rfl⟩)
      omega
    have hwindow : ∀ p, (rule.interval = 0 ∨ 0 < rule.interval ∧ ∃ k, p = aligned rule.interval k) →
        windows ⟨last.type, rule.interval, last.limit⟩ p := by
      intro p hp
      unfold windows
      split
      · next hs => exact absurd hs ht
      · exact hp
    rcases lt_trichotomy rule.interval 0 with hneg | hnull | hpos
    · have hempty : admittedIn rules rule calls (span rule.interval a) = 0 := by
        have hneg' : (rule.interval : Rat) < 0 := by exact_mod_cast hneg
        have hnone : (span rule.interval a) = fun _ => false := by
          funext s
          simp only [span, decide_eq_false_iff_not, not_and, not_le]
          intro has
          linarith
        rw [hnone]
        simp [admittedIn, totalIn]
      omega
    · have := hbound (span rule.interval a) (hwindow _ (.inl hnull))
      omega
    · have hnonneg : ∀ x ∈ admissions rule calls ((RateLimiter.new rules).replies calls), 0 ≤ x.2 := by
        intro x hx
        obtain ⟨c, hc, -, hxc⟩ := mem_admissions hx
        rw [hxc]
        exact hw c hc rule hrule
      have hadd := totalIn_le_add (span_cover hpos a) hnonneg
      have h₁ := hbound _ (hwindow _ (.inr ⟨hpos, ⌊a / rule.interval⌋, rfl⟩))
      have h₂ := hbound _ (hwindow _ (.inr ⟨hpos, ⌊a / rule.interval⌋ + 1, rfl⟩))
      unfold admittedIn at *
      omega
  · refine ⟨0, fun calls _ _ a => ?_⟩
    have hnone : admissions rule calls ((RateLimiter.new rules).replies calls) = [] := by
      refine List.eq_nil_iff_forall_not_mem.mpr fun x hx => ?_
      obtain ⟨c, -, hc, -⟩ := mem_admissions hx
      exact hmatch ⟨c.method, c.path, hc⟩
    rw [admittedIn, hnone]
    exact le_rfl

/-- No rule is ignored exactly when each has a limiter with its interval and limit. -/
theorem enforced_iff_ownLimiters (rules : List RateLimitRule) :
    (Covered rules ∧ Contained rules) ↔ OwnLimiters rules :=
  ⟨fun h => ownLimiters_of_covered h.1, fun h => ⟨covered_of_ownLimiters h, contained_of_ownLimiters h⟩⟩

/-- A rule over all requests. -/
def globalRule (type : RateLimitType) (interval limit : Int) : RateLimitRule :=
  ⟨u "orders", type, interval, limit, .global, none, none, 1⟩

/-- A token bucket of ten a minute lets any weight through at one time, and of two
rules of one name the first, ten a second, is not enforced. -/
theorem rules_ignored :
    (¬ Covered [globalRule .tokenBucket 60 10] ∧ ¬ Contained [globalRule .tokenBucket 60 10]) ∧
      ¬ Covered [globalRule .slidingWindow 1 10, globalRule .slidingWindow 60 1000] := by
  refine ⟨⟨fun h => ?_, fun h => ?_⟩, fun h => ?_⟩
  · obtain ⟨limiter, hl, -⟩ := h [] (callAt "POST" 1 0) _ List.mem_cons_self (by decide)
    cases hl
  · obtain ⟨bound, hb⟩ := h _ List.mem_cons_self
    have hnonneg : NonnegRequests [globalRule .tokenBucket 60 10] (callAt "POST" (max bound 0 + 1) 0) := by
      intro rule hrule
      rw [List.mem_singleton.mp hrule]
      show 0 ≤ 1 * (max bound 0 + 1)
      omega
    have hle := hb [callAt "POST" (max bound 0 + 1) 0] ⟨by simp [callAt, monotone_const], by simp⟩
      (by simpa using hnonneg) 0
    have htotal : admittedIn [globalRule .tokenBucket 60 10] (globalRule .tokenBucket 60 10)
        [callAt "POST" (max bound 0 + 1) 0] (span 60 0) = 1 * (max bound 0 + 1) + 0 := by
      have hreplies : (RateLimiter.new [globalRule .tokenBucket 60 10]).replies
          [callAt "POST" (max bound 0 + 1) 0] = [.admitted []] := rfl
      have hadmissions : admissions (globalRule .tokenBucket 60 10)
          [callAt "POST" (max bound 0 + 1) 0] [.admitted []] = [(0, 1 * (max bound 0 + 1))] := rfl
      have htime : span 60 0 0 = true := by simp [span]
      rw [admittedIn, hreplies, hadmissions, totalIn_cons, htime, totalIn_nil]
      rfl
    have hspan : (globalRule .tokenBucket 60 10).interval = 60 := rfl
    rw [hspan, htotal] at hle
    omega
  · obtain ⟨limiter, hl, hi, -⟩ := h [] (callAt "POST" 1 0) _ List.mem_cons_self (by decide)
    cases hl
    cases hi

end RateLimitCoverage
