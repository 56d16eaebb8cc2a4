import Mathlib.Algebra.Order.Archimedean.Basic
import Mathlib.Data.Rat.Lemmas
import Mathlib.Tactic.FieldSimp
import BtApiBase.RateLimitAttempts

/-!
# Waiting for a rate limiter

`wait_and_acquire` sleeps for the longest wait of the matching limiters, a second
at most, and gives up where that wait reaches beyond the timeout. All times lie
on the grid of a common denominator, so that every sleep has a least length.
-/

namespace RateLimitWaits

open PyText PyDict PyValue RateLimits RateLimitLedgers RateLimitAttempts
open RateLimitUsage (grants)
open RateLimitCoverage (quotasOf_run rules_run quotasOf_eq fields_of_quota)

/-! ## The loop -/

def SlidingWindowLimiter.waitTime (l : SlidingWindowLimiter) (now : Rat) : Rat :=
  match l.requests.head? with
  | none => 0
  | some (oldest, _) => max 0 (oldest + l.interval - now)

def FixedWindowLimiter.waitTime (l : FixedWindowLimiter) (now : Rat) : Rat :=
  max 0 (l.windowStart + l.interval - now)

def waitTime (limiter : Limiter) (now : Rat) : Rat :=
  match limiter with
  | .sliding l => SlidingWindowLimiter.waitTime l now
  | .fixed l => FixedWindowLimiter.waitTime l now

/-- `_get_max_wait_time` -/
def getMaxWaitTime (r : RateLimiter) (q : Request) (now : Rat) : Rat :=
  (r.getMatchedRules q.method q.path).foldl (fun maxWait rule => match r.limiters.get rule.name with
    | some limiter => max maxWait (waitTime limiter now)
    | none => maxWait) 0

def effectiveWait (waitInterval : Rat) : Rat := if 0 < waitInterval then waitInterval else 1 / 20

/-- `wait_and_acquire` in at most so many iterations; a wait advances the clock by
its length, and nothing else takes time. -/
def waitAndAcquire (q : Request) (timeout : Option Rat) (start : Rat) :
    Nat → RateLimiter → Rat → Option (Except ExcType Bool)
  | 0, _, _ => none
  | n + 1, r, now =>
    match (r.acquire (q.call now)).1.answer with
    | .error e => some (.error e)
    | .ok true => some (.ok true)
    | .ok false =>
      let wait := effectiveWait (getMaxWaitTime (r.after (q.call now)) q now)
      if timeout.any fun t => t < now - start + wait then some (.ok false)
      else waitAndAcquire q timeout start n (r.after (q.call now)) (now + min wait 1)

/-- One turn of the loop in `_get_max_wait_time`. -/
def longerWait (r : RateLimiter) (now maxWait : Rat) (rule : RateLimitRule) : Rat :=
  match r.limiters.get rule.name with
  | some limiter => max maxWait (waitTime limiter now)
  | none => maxWait

theorem foldl_longerWait_cases (r : RateLimiter) (now : Rat) (rules : List RateLimitRule) (w : Rat) :
    rules.foldl (longerWait r now) w = w ∨ ∃ rule ∈ rules, ∃ limiter,
      r.limiters.get rule.name = some limiter ∧ rules.foldl (longerWait r now) w = waitTime limiter now := by
  induction rules generalizing w with
  | nil => exact .inl rfl
  | cons rule rules ih =>
    rw [List.foldl_cons]
    rcases ih (longerWait r now w rule) with h | ⟨later, hmem, limiter, hl, h⟩
    · cases hget : r.limiters.get rule.name with
      | none =>
        have hsame : longerWait r now w rule = w := by simp only [longerWait, hget]
        exact .inl (h.trans hsame)
      | some limiter =>
        have hmax : longerWait r now w rule = max w (waitTime limiter now) := by
          simp only [longerWait, hget]
        rcases max_choice w (waitTime limiter now) with hm | hm
        · exact .inl (h.trans (hmax.trans hm))
        · exact .inr ⟨rule, List.mem_cons_self .., limiter, hget, h.trans (hmax.trans hm)⟩
    · exact .inr ⟨later, List.mem_cons_of_mem rule hmem, limiter, hl, h⟩

theorem maxWait_cases (r : RateLimiter) (q : Request) (now : Rat) :
    getMaxWaitTime r q now = 0 ∨ ∃ rule ∈ r.getMatchedRules q.method q.path, ∃ limiter,
      r.limiters.get rule.name = some limiter ∧ getMaxWaitTime r q now = waitTime limiter now :=
  foldl_longerWait_cases r now (r.getMatchedRules q.method q.path) 0

/-- No matching limiter waits longer. -/
theorem le_maxWait {r : RateLimiter} {q : Request} {now : Rat} {rule : RateLimitRule} {limiter : Limiter}
    (hrule : rule ∈ r.getMatchedRules q.method q.path) (hget : r.limiters.get rule.name = some limiter) :
    waitTime limiter now ≤ getMaxWaitTime r q now := by
  have hgrows : ∀ w e, w ≤ longerWait r now w e := by
    intro w e
    unfold longerWait
    split
    · exact le_max_left ..
    · exact le_rfl
  have hfold : ∀ (rules : List RateLimitRule) (w : Rat), w ≤ rules.foldl (longerWait r now) w ∧
      (rule ∈ rules → waitTime limiter now ≤ rules.foldl (longerWait r now) w) := by
    intro rules
    induction rules with
    | nil => exact fun w => ⟨le_rfl, nofun⟩
    | cons e rules ih =>
      intro w
      obtain ⟨hle, hmem⟩ := ih (longerWait r now w e)
      refine ⟨(hgrows w e).trans hle, fun h => ?_⟩
      rcases List.mem_cons.mp h with rfl | h
      · have hmax : longerWait r now w rule = max w (waitTime limiter now) := by
          simp only [longerWait, hget]
        exact (hmax ▸ le_max_right ..).trans hle
      · exact hmem h
  exact (hfold _ 0).2 hrule

/-- A loop whose sleeps have a least length comes to a time at which it is granted. -/
theorem returns_of_progress {q : Request} {timeout : Option Rat} {start least : Rat}
    (deadline : Rat) (Inv : RateLimiter → Rat → Prop) (hleast : 0 < least)
    (hdone : ∀ r now, Inv r now → deadline ≤ now → (r.acquire (q.call now)).1.answer = .ok true)
    (hstep : ∀ r now, Inv r now → now < deadline → (r.acquire (q.call now)).1.answer = .ok true ∨
      (r.acquire (q.call now)).1.answer = .ok false ∧
        (timeout.any fun t => t < now - start + effectiveWait (getMaxWaitTime (r.after (q.call now)) q now)) = false ∧
        least ≤ min (effectiveWait (getMaxWaitTime (r.after (q.call now)) q now)) 1 ∧
        Inv (r.after (q.call now)) (now + min (effectiveWait (getMaxWaitTime (r.after (q.call now)) q now)) 1))
    (r : RateLimiter) (now : Rat) (h : Inv r now) :
    ∃ n, waitAndAcquire q timeout start n r now = some (.ok true) := by
  have hgranted : ∀ r now, (r.acquire (q.call now)).1.answer = .ok true →
      waitAndAcquire q timeout start 1 r now = some (.ok true) := by
    intro r now ha
    rw [waitAndAcquire, ha]
  -- `k` sleeps are enough to come to the deadline
  obtain ⟨k, hk⟩ := exists_nat_ge ((deadline - now) / least)
  have hk' : deadline ≤ now + k * least := by
    rw [div_le_iff₀ hleast] at hk
    linarith
  clear hk
  induction k generalizing r now with
  | zero =>
    refine ⟨1, hgranted r now (hdone r now h ?_)⟩
    simpa using hk'
  | succ k ih =>
    by_cases hlt : now < deadline
    · rcases hstep r now h hlt with ha | ⟨ha, hgoes, hlong, hinv⟩
      · exact ⟨1, hgranted r now ha⟩
      · obtain ⟨n, hn⟩ := ih _ _ hinv (by push_cast at hk'; linarith)
        refine ⟨n + 1, ?_⟩
        rw [waitAndAcquire, ha]
        simp only [hgoes, Bool.false_eq_true, ↓reduceIte, hn]
    · exact ⟨1, hgranted r now (hdone r now h (not_lt.mp hlt))⟩

/-! ## A grid of times -/

def OnGrid (g : Nat) (x : Rat) : Prop := ∃ n : Int, x * g = n

theorem OnGrid.add {g : Nat} {x y : Rat} (hx : OnGrid g x) (hy : OnGrid g y) : OnGrid g (x + y) := by
  obtain ⟨n, hn⟩ := hx
  obtain ⟨m, hm⟩ := hy
  exact ⟨n + m, by push_cast; rw [add_mul, hn, hm]⟩

theorem OnGrid.sub {g : Nat} {x y : Rat} (hx : OnGrid g x) (hy : OnGrid g y) : OnGrid g (x - y) := by
  obtain ⟨n, hn⟩ := hx
  obtain ⟨m, hm⟩ := hy
  exact ⟨n - m, by push_cast; rw [sub_mul, hn, hm]⟩

theorem onGrid_int (g : Nat) (n : Int) : OnGrid g n := ⟨n * g, by push_cast; rfl⟩

theorem OnGrid.mul {g : Nat} {x : Rat} (h : OnGrid g x) (k : Nat) : OnGrid (g * k) x := by
  obtain ⟨n, hn⟩ := h
  exact ⟨n * k, by push_cast; rw [← mul_assoc, hn]⟩

/-- What is positive on a grid is not less than its mesh. -/
theorem OnGrid.mesh_le {g : Nat} (hg : 0 < g) {x : Rat} (h : OnGrid g x) (hx : 0 < x) : 1 / (g : Rat) ≤ x := by
  obtain ⟨n, hn⟩ := h
  have hg' : (0 : Rat) < g := by exact_mod_cast hg
  have hpos : (0 : Rat) < n := hn ▸ mul_pos hx hg'
  have hone : (1 : Rat) ≤ n := by exact_mod_cast (show (1 : Int) ≤ n by exact_mod_cast hpos)
  rw [div_le_iff₀ hg', hn]
  exact hone

/-- Finitely many times have a grid, also one on which a twentieth lies. -/
theorem exists_grid (xs : List Rat) : ∃ g, 0 < g ∧ OnGrid g (1 / 20) ∧ ∀ x ∈ xs, OnGrid g x := by
  induction xs with
  | nil => exact ⟨20, by omega, ⟨1, by norm_num⟩, nofun⟩
  | cons x xs ih =>
    obtain ⟨g, hg, htwentieth, hxs⟩ := ih
    refine ⟨g * x.den, Nat.mul_pos hg x.den_pos, htwentieth.mul _, fun y hy => ?_⟩
    rcases List.mem_cons.mp hy with rfl | hy
    · refine ⟨y.num * g, ?_⟩
      push_cast
      rw [mul_comm (g : Rat), ← mul_assoc, Rat.mul_den_eq_num]
    · exact (hxs y hy).mul _

/-- The times that a limiter remembers. -/
def times : Limiter → List Rat
  | .sliding l => l.requests.map Prod.fst
  | .fixed l => [l.windowStart]

theorem onGrid_waitTime {g : Nat} {limiter : Limiter} (h : ∀ x ∈ times limiter, OnGrid g x) {now : Rat}
    (hnow : OnGrid g now) : OnGrid g (waitTime limiter now) := by
  have hmax : ∀ {x : Rat}, OnGrid g x → OnGrid g (max 0 x) := by
    intro x hx
    rcases max_choice 0 x with hm | hm
    · rw [hm]
      exact_mod_cast onGrid_int g 0
    · rwa [hm]
  cases limiter with
  | sliding l =>
    show OnGrid g (SlidingWindowLimiter.waitTime l now)
    cases hreq : l.requests with
    | nil =>
      simp only [SlidingWindowLimiter.waitTime, hreq, List.head?_nil]
      exact_mod_cast onGrid_int g 0
    | cons first rest =>
      have hfirst : OnGrid g first.1 := h first.1 (by simp [times, hreq])
      simp only [SlidingWindowLimiter.waitTime, hreq, List.head?_cons]
      exact hmax ((hfirst.add (onGrid_int g l.interval)).sub hnow)
  | fixed l => exact hmax (((h _ (List.mem_singleton_self _)).add (onGrid_int g l.interval)).sub hnow)

theorem onGrid_tried {g : Nat} {limiter limiter' : Limiter} {now : Rat} (ht : Tried now limiter limiter')
    (h : ∀ x ∈ times limiter, OnGrid g x) : ∀ x ∈ times limiter', OnGrid g x := by
  cases ht with
  | same => exact h
  | sliding l =>
    intro x hx
    obtain ⟨r, hr, rfl⟩ := List.mem_map.mp hx
    exact h r.1 (List.mem_map_of_mem ((List.dropWhile_sublist _).subset hr))
  | fixed l count hcount =>
    intro x hx
    obtain rfl := List.mem_singleton.mp hx
    have hwindow : windowOf l.interval now = ((⌊now / l.interval⌋ * l.interval : Int) : Rat) := by
      rw [windowOf]
      push_cast
      rfl
    rw [show ({ l.advance now with windowCount := count } : FixedWindowLimiter).windowStart =
      windowOf l.interval now from advance_start l now, hwindow]
    exact onGrid_int g _

/-- Every limiter and the clock are on the grid. -/
structure Gridded (g : Nat) (r : RateLimiter) (now : Rat) : Prop where
  limiters : ∀ k limiter, r.limiters.get k = some limiter → ∀ x ∈ times limiter, OnGrid g x
  clock : OnGrid g now

theorem exists_gridded (r : RateLimiter) (now : Rat) :
    ∃ g, 0 < g ∧ OnGrid g (1 / 20) ∧ Gridded g r now := by
  obtain ⟨g, hg, htwentieth, hall⟩ := exists_grid (now :: r.limiters.values.flatMap times)
  refine ⟨g, hg, htwentieth, fun k limiter hget x hx => ?_, hall now (List.mem_cons_self ..)⟩
  have hmem : limiter ∈ r.limiters.values := List.mem_map.mpr ⟨_, Dict.mem_of_get hget, rfl⟩
  exact hall x (List.mem_cons_of_mem now (List.mem_flatMap.mpr ⟨limiter, hmem, hx⟩))

/-- A step of the loop on a grid: the sleep has the length of the mesh or more. -/
theorem gridded_step {g : Nat} (hg : 0 < g) (htwentieth : OnGrid g (1 / 20)) {r r' : RateLimiter} {now : Rat}
    (h : Gridded g r now) (ht : AllTried now r.limiters r'.limiters) (q : Request) :
    1 / (g : Rat) ≤ min (effectiveWait (getMaxWaitTime r' q now)) 1 ∧
      Gridded g r' (now + min (effectiveWait (getMaxWaitTime r' q now)) 1) := by
  have hlimiters : ∀ k limiter, r'.limiters.get k = some limiter → ∀ x ∈ times limiter, OnGrid g x := by
    intro k limiter' hget
    obtain ⟨limiter, hl, htried⟩ := ht.back hget
    exact onGrid_tried htried (h.limiters k limiter hl)
  have hwait : OnGrid g (effectiveWait (getMaxWaitTime r' q now)) ∧
      0 < effectiveWait (getMaxWaitTime r' q now) := by
    unfold effectiveWait
    split
    · next hpos =>
      refine ⟨?_, hpos⟩
      rcases maxWait_cases r' q now with hzero | ⟨rule, -, limiter, hget, heq⟩
      · rw [hzero] at hpos
        exact absurd hpos (lt_irrefl 0)
      · rw [heq]
        exact onGrid_waitTime (hlimiters _ limiter hget) h.clock
    · exact ⟨htwentieth, by norm_num⟩
  have hsleep : OnGrid g (min (effectiveWait (getMaxWaitTime r' q now)) 1) := by
    rcases min_choice (effectiveWait (getMaxWaitTime r' q now)) 1 with hm | hm
    · rw [hm]
      exact hwait.1
    · rw [hm]
      exact_mod_cast onGrid_int g 1
  exact ⟨hsleep.mesh_le hg (lt_min hwait.2 one_pos), hlimiters, h.clock.add hsleep⟩

/-! ## Without a timeout -/

/-- From `D` on the limiter has nothing left that it counts. -/
def Quiet (D : Rat) : Limiter → Prop
  | .sliding l => ∀ x ∈ l.requests, x.1 + l.interval < D
  | .fixed l => l.windowCount ≤ 0 ∨ l.windowStart + l.interval ≤ D

theorem exists_quiet (limiters : List Limiter) : ∃ D, ∀ limiter ∈ limiters, Quiet D limiter := by
  have hmono : ∀ {D D' : Rat}, D ≤ D' → ∀ limiter, Quiet D limiter → Quiet D' limiter := by
    intro D D' hD limiter h
    cases limiter with
    | sliding l => exact fun x hx => (h x hx).trans_le hD
    | fixed l => exact h.imp_right fun hw => hw.trans hD
  have hrequests : ∀ (i : Int) (requests : List (Rat × Int)), ∃ D, ∀ x ∈ requests, x.1 + i < D := by
    intro i requests
    induction requests with
    | nil => exact ⟨0, nofun⟩
    | cons x requests ih =>
      obtain ⟨D, hD⟩ := ih
      refine ⟨max (x.1 + i + 1) D, fun y hy => ?_⟩
      rcases List.mem_cons.mp hy with rfl | hy
      · exact (lt_add_one _).trans_le (le_max_left ..)
      · exact (hD y hy).trans_le (le_max_right ..)
  have hone : ∀ limiter, ∃ D, Quiet D limiter := by
    intro limiter
    cases limiter with
    | sliding l => exact hrequests l.interval l.requests
    | fixed l => exact ⟨l.windowStart + l.interval, .inr le_rfl⟩
  induction limiters with
  | nil => exact ⟨0, nofun⟩
  | cons limiter limiters ih =>
    obtain ⟨D, hD⟩ := ih
    obtain ⟨D', hD'⟩ := hone limiter
    refine ⟨max D' D, fun other hmem => ?_⟩
    rcases List.mem_cons.mp hmem with rfl | hmem
    · exact hmono (le_max_left ..) _ hD'
    · exact hmono (le_max_right ..) _ (hD other hmem)

theorem quiet_tried {D now : Rat} {limiter limiter' : Limiter} (h : Quiet D limiter)
    (ht : Tried now limiter limiter') : Quiet D limiter' := by
  cases ht with
  | same => exact h
  | sliding l => exact fun x hx => h x ((List.dropWhile_sublist _).subset hx)
  | fixed l count hcount =>
    have hinterval : (l.advance now).interval = l.interval := advance_interval l now
    by_cases hw : windowOf l.interval now = l.windowStart
    · rw [advance_count, if_pos hw] at hcount
      rcases h with h | h
      · exact .inl (show count ≤ 0 by omega)
      · refine .inr ?_
        show (l.advance now).windowStart + (l.advance now).interval ≤ D
        rwa [advance_start, hinterval, hw]
    · rw [advance_count, if_neg hw] at hcount
      exact .inl (show count ≤ 0 by omega)

theorem lt_windowOf_add {interval : Int} (hi : 0 < interval) (now : Rat) : now < windowOf interval now + interval := by
  have hpos : (0 : Rat) < interval := by exact_mod_cast hi
  have hfloor := Int.lt_floor_add_one (now / interval)
  rw [div_lt_iff₀ hpos, add_mul, one_mul] at hfloor
  exact hfloor

/-- A limiter that counts nothing grants whatever is within its limit. -/
theorem grants_of_quiet {D now : Rat} {limiter : Limiter} (h : Quiet D limiter) (hi : 0 < limiter.interval)
    (hD : D ≤ now) {weight : Int} (hw : weight ≤ limiter.limit) : grants limiter now weight = true := by
  cases limiter with
  | sliding l =>
    have hnone : (l.pruneExpired now).requests = [] := by
      refine List.dropWhile_eq_nil_iff.mpr fun x hx => ?_
      have hx := h x hx
      simp only [decide_eq_true_eq]
      linarith
    rw [grants_sliding, hnone, List.map_nil, List.sum_nil, zero_add]
    exact hw
  | fixed l =>
    have hcount : (l.advance now).windowCount ≤ 0 := by
      rw [advance_count]
      split
      · next hsame =>
        rcases h with h | h
        · exact h
        · have hlt := lt_windowOf_add hi now
          rw [show Limiter.interval (.fixed l) = l.interval from rfl, hsame] at hlt
          linarith
      · exact le_rfl
    rw [grants_fixed hi]
    have hw : weight ≤ l.limit := hw
    omega

/-- What the loop keeps while it waits for the limiters to count nothing. -/
structure Waiting (g : Nat) (D : Rat) (q : Request) (r : RateLimiter) (now : Rat) : Prop where
  proper : Proper r
  fits : ∀ rule ∈ r.getMatchedRules q.method q.path, ∀ limiter,
    r.limiters.get rule.name = some limiter → q.under rule ≤ limiter.limit
  quiet : ∀ k limiter, r.limiters.get k = some limiter → Quiet D limiter
  gridded : Gridded g r now

theorem matched_after (r : RateLimiter) (q : Request) (c : Call) :
    (r.after c).getMatchedRules q.method q.path = r.getMatchedRules q.method q.path := by
  rw [RateLimiter.getMatchedRules, after_rules, RateLimiter.getMatchedRules]

theorem proper_tried {r : RateLimiter} {now : Rat} {c : Call} (h : Proper r)
    (ht : AllTried now r.limiters (r.after c).limiters) : Proper (r.after c) where
  names := by
    rw [after_rules]
    exact h.names
  intervals := fun k limiter' hget => by
    obtain ⟨limiter, hl, htried⟩ := ht.back hget
    rw [htried.interval]
    exact h.intervals k limiter hl

theorem Waiting.step {g : Nat} (hg : 0 < g) (htwentieth : OnGrid g (1 / 20)) {D now : Rat} {q : Request}
    {r : RateLimiter} (h : Waiting g D q r now) (ht : AllTried now r.limiters (r.after (q.call now)).limiters) :
    1 / (g : Rat) ≤ min (effectiveWait (getMaxWaitTime (r.after (q.call now)) q now)) 1 ∧
      Waiting g D q (r.after (q.call now))
        (now + min (effectiveWait (getMaxWaitTime (r.after (q.call now)) q now)) 1) := by
  obtain ⟨hleast, hgridded⟩ := gridded_step hg htwentieth h.gridded ht q
  refine ⟨hleast, proper_tried h.proper ht, ?_, ?_, hgridded⟩
  · intro rule hrule limiter' hget
    obtain ⟨limiter, hl, htried⟩ := ht.back hget
    rw [matched_after] at hrule
    rw [htried.limit]
    exact h.fits rule hrule limiter hl
  · intro k limiter' hget
    obtain ⟨limiter, hl, htried⟩ := ht.back hget
    exact quiet_tried (h.quiet k limiter hl) htried

theorem returns_of_waiting {g : Nat} (hg : 0 < g) (htwentieth : OnGrid g (1 / 20)) {D start : Rat} {q : Request}
    {r : RateLimiter} (h : Waiting g D q r start) :
    ∃ n, waitAndAcquire q none start n r start = some (.ok true) := by
  have hleast : 0 < 1 / (g : Rat) := one_div_pos.mpr (by exact_mod_cast hg)
  refine returns_of_progress D (Waiting g D q) hleast (fun r now hr hD => ?_) (fun r now hr _ => ?_) r start h
  · rcases attempt_cases hr.proper q now with ⟨ha, -⟩ | ⟨-, hno, -⟩
    · exact ha
    · refine absurd (fun rule hrule limiter hl => ?_) hno
      exact grants_of_quiet (hr.quiet _ limiter hl) (hr.proper.intervals _ limiter hl) hD
        (hr.fits rule hrule limiter hl)
  · rcases attempt_cases hr.proper q now with ⟨ha, -⟩ | ⟨ha, -, ht⟩
    · exact .inl ha
    · obtain ⟨hlong, hnext⟩ := hr.step hg htwentieth ht
      exact .inr ⟨ha, rfl, hlong, hnext⟩

/-- What a rate limiter with proper rules holds after any calls. -/
theorem quota_of_run {rules : List RateLimitRule} {calls : List Call} {k : PyStr} {limiter : Limiter}
    (hget : (Runs.run RateLimiter.after (.new rules) calls).limiters.get k = some limiter) :
    ∃ rule ∈ rules, rule.name = k ∧ limiter.interval = rule.interval ∧ limiter.limit = rule.limit := by
  have hquota := congrFun (quotasOf_run rules calls) k
  rw [quotasOf_eq, quotasOf, hget, Option.map_some] at hquota
  obtain ⟨rule, hlast, heq⟩ := Option.map_eq_some_iff.mp hquota.symm
  have hmem := List.mem_filter.mp (List.mem_of_getLast? hlast)
  obtain ⟨hi, hl⟩ := fields_of_quota heq.symm
  exact ⟨rule, hmem.1, (of_decide_eq_true hmem.2).1, hi, hl⟩

theorem proper_run {rules : List RateLimitRule} (hn : (rules.map RateLimitRule.name).Nodup)
    (hi : ∀ rule ∈ rules, 0 < rule.interval) (calls : List Call) :
    Proper (Runs.run RateLimiter.after (.new rules) calls) where
  names := by
    rw [rules_run]
    exact hn
  intervals := fun k limiter hget => by
    obtain ⟨rule, hrule, -, heq, -⟩ := quota_of_run hget
    rw [heq]
    exact hi rule hrule

/-- Without a timeout `wait_and_acquire` returns `True` after finitely many
iterations, from every reachable state. -/
theorem waitAndAcquire_returns (rules : List RateLimitRule) (hn : (rules.map RateLimitRule.name).Nodup)
    (hi : ∀ rule ∈ rules, 0 < rule.interval) (calls : List Call) (q : Request)
    (hw : ∀ rule ∈ rules, rule.match q.method q.path → q.under rule ≤ rule.limit) (start : Rat) :
    ∃ n, waitAndAcquire q none start n (Runs.run RateLimiter.after (.new rules) calls) start =
      some (.ok true) := by
  generalize hr : Runs.run RateLimiter.after (.new rules) calls = r
  have hmatched : ∀ rule ∈ r.getMatchedRules q.method q.path, rule ∈ rules ∧ rule.match q.method q.path := by
    intro rule hrule
    rw [RateLimiter.getMatchedRules, ← hr, rules_run] at hrule
    exact List.mem_filter.mp hrule
  obtain ⟨g, hg, htwentieth, hgridded⟩ := exists_gridded r start
  obtain ⟨D, hD⟩ := exists_quiet r.limiters.values
  refine returns_of_waiting (D := D) hg htwentieth ⟨?_, ?_, ?_, hgridded⟩
  · rw [← hr]
    exact proper_run hn hi calls
  · intro rule hrule limiter hget
    obtain ⟨hmem, hmatch⟩ := hmatched rule hrule
    rw [← hr] at hget
    obtain ⟨rule', hmem', hname, -, hl⟩ := quota_of_run hget
    obtain rfl := List.inj_on_of_nodup_map hn hmem' hmem hname
    rw [hl]
    exact hw rule' hmem hmatch
  · intro k limiter hget
    exact hD limiter (List.mem_map.mpr ⟨_, Dict.mem_of_get hget, rfl⟩)

/-- A rule for the minute, and one for the second that is soon used up. -/
def crowdedRules : List RateLimitRule :=
  [{ name := u "minute", type := .slidingWindow, interval := 60, limit := 100 },
    { name := u "second", type := .fixedWindow, interval := 1, limit := 1 }]

theorem waitAndAcquire_returns_sample :
    ∃ n, waitAndAcquire ⟨u "GET", [], 1⟩ none 0 n
      (Runs.run RateLimiter.after (.new crowdedRules) [callAt "GET" 1 0]) 0 = some (.ok true) :=
  waitAndAcquire_returns crowdedRules (by decide) (by decide) [callAt "GET" 1 0] ⟨u "GET", [], 1⟩
    (by decide +kernel) 0

end RateLimitWaits
