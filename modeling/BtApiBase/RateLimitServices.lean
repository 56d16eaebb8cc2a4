import BtApiBase.SlidingWindows
import BtApiBase.PyValue
import BtApiBase.Runs

/-!
# The rate limit service

A limiter keeps the times of the tokens it has granted, as far as they are live. Where
there are too many it sleeps until the oldest of them has gone, with its lock held, and
then grants without a second look; queries drop dead times from the list without the
lock. A task stands in `calls` at the place it was started in.
-/

namespace RateLimitServices

open PyValue PyDict SlidingWindows Runs

variable {K : Type}

/-- The lock is held across the `sleep` only: by whom, and when the sleep is over. -/
structure Sleep where
  call : ℕ
  wake : ℚ

structure AsyncRateLimiter where
  maxRequests : ℤ
  timeWindow : ℚ
  requests : List ℚ
  _lock : Option Sleep
  maxRequests_pos : 0 < maxRequests
  timeWindow_pos : 0 < timeWindow

def AsyncRateLimiter.new (maxRequests : ℤ) (timeWindow : ℚ) : Except PyExc AsyncRateLimiter :=
  if hm : maxRequests ≤ 0 then .error (valueError "max_requests must be > 0")
  else if hw : timeWindow ≤ 0 then .error (valueError "time_window must be > 0")
  else .ok {
    maxRequests := maxRequests
    timeWindow := timeWindow
    requests := []
    _lock := none
    maxRequests_pos := not_le.mp hm
    timeWindow_pos := not_le.mp hw }

section

variable (l : AsyncRateLimiter) (now : ℚ)

def AsyncRateLimiter.removeOld : AsyncRateLimiter := { l with requests := live l.timeWindow now l.requests }

theorem AsyncRateLimiter.ne_nil_of_full (h : l.maxRequests ≤ l.requests.length) : l.requests ≠ [] := by
  have hpos := l.maxRequests_pos
  intro hnil
  simp only [hnil, List.length_nil, Nat.cast_zero] at h
  omega

/-- How long `acquire` sleeps, after the old requests have been removed. -/
def AsyncRateLimiter.sleepTime : Option ℚ :=
  if h : l.maxRequests ≤ l.requests.length then
    let sleepTime := l.timeWindow - (now - l.requests.head (l.ne_nil_of_full h))
    if 0 < sleepTime then some sleepTime else none
  else none

end

structure RateLimitService (K : Type) where
  _limiters : Dict K AsyncRateLimiter
  _limits : Dict K (ℤ × ℚ)

section

variable [DecidableEq K] (s : RateLimitService K) (resource : K)

def RateLimitService.configureLimit (maxRequests : ℤ) (timeWindow : ℚ) : RateLimitService K where
  _limits := s._limits.set resource (maxRequests, timeWindow)
  _limiters := s._limiters.pop resource

/-- The part of `acquire` under the lock of the service. -/
def RateLimitService.ensureLimiter : Except PyExc (RateLimitService K) :=
  if (s._limiters.get resource).isSome then .ok s
  else do
    let limit := (s._limits.get resource).getD (10, 1)
    let limiter ← AsyncRateLimiter.new limit.1 limit.2
    .ok { s with _limiters := s._limiters.set resource limiter }

def RateLimitService.setLimiter (limiter : AsyncRateLimiter) : RateLimitService K :=
  { s with _limiters := s._limiters.set resource limiter }

def RateLimitService.getRemainingTokens (now : ℚ) : ℤ × RateLimitService K :=
  match s._limiters.get resource with
  | none => (((s._limits.get resource).map Prod.fst).getD 0, s)
  | some limiter =>
    let limiter := limiter.removeOld now
    (max 0 (limiter.maxRequests - limiter.requests.length), s.setLimiter resource limiter)

def RateLimitService.getResetTime (now : ℚ) : Option ℚ × RateLimitService K :=
  match s._limiters.get resource with
  | none => (none, s)
  | some limiter =>
    let limiter := limiter.removeOld now
    (limiter.requests.head?.map (· + limiter.timeWindow), s.setLimiter resource limiter)

end

/-! ## Tasks -/

/-- Where a call of `acquire` stands. -/
inductive Stage (K : Type) where
  | entering (resource : K) (tokens : ℕ)
  | looping (resource : K) (tokens : ℕ)
  | returned
  | raised (exc : PyExc)
  | cancelled

/-- `granted` has the times at which the tokens of each resource were granted. -/
structure World (K : Type) where
  service : RateLimitService K
  calls : List (Stage K)
  clock : ℚ
  granted : K → List ℚ

/-- A step has a reading of the clock, which does not run backwards. -/
inductive Label (K : Type) where
  | acquire (resource : K) (tokens : ℤ)
  | enter (call : ℕ)
  | turn (call : ℕ) (reading : ℚ)
  | wake (call : ℕ) (reading : ℚ)
  | cancel (call : ℕ)
  | getRemainingTokens (resource : K) (reading : ℚ)
  | getResetTime (resource : K) (reading : ℚ)

section

variable [DecidableEq K] (w : World K)

def World.goTo (call : ℕ) (stage : Stage K) : World K := { w with calls := w.calls.set call stage }

/-- The limiter of a resource and what it has granted are other ones from a time on. -/
def World.put (resource : K) (now : ℚ) (limiter : AsyncRateLimiter) (granted : List ℚ) : World K where
  service := w.service.setLimiter resource limiter
  calls := w.calls
  clock := now
  granted := Function.update w.granted resource granted

/-- `self.requests.append(now)`, the end of the lock and the next turn of the loop. -/
def World.grant (call : ℕ) (resource : K) (tokens : ℕ) (now : ℚ) (limiter : AsyncRateLimiter) : World K :=
  (w.put resource now { limiter with
    requests := limiter.requests ++ [now]
    _lock := none } (w.granted resource ++ [now])).goTo call
    (if tokens = 0 then .returned else .looping resource tokens)

/-- `limiter.acquire()` up to its sleep, if it sleeps. -/
def World.turn (call : ℕ) (resource : K) (tokens : ℕ) (now : ℚ) (limiter : AsyncRateLimiter) : World K :=
  let limiter := limiter.removeOld now
  match limiter.sleepTime now with
  | some sleepTime =>
    w.put resource now { limiter with _lock := some ⟨call, now + sleepTime⟩ } (w.granted resource)
  | none => w.grant call resource tokens now limiter

/-- A task that is cancelled in its sleep gives the lock back. -/
def World.cancel (call : ℕ) (resource : K) : World K :=
  match w.service._limiters.get resource with
  | some limiter =>
    if limiter._lock.any (·.call = call) then
      (w.put resource w.clock { limiter with _lock := none } (w.granted resource)).goTo call .cancelled
    else w.goTo call .cancelled
  | none => w.goTo call .cancelled

/-- A label that the state does not enable leaves it as it is. -/
def step (w : World K) : Label K → World K
  | .acquire resource tokens =>
    { w with calls := w.calls ++
        [if tokens ≤ 0 then .raised (valueError "tokens must be > 0") else .entering resource tokens.toNat] }
  | .enter call =>
    match w.calls[call]? with
    | some (.entering resource tokens) =>
      match w.service.ensureLimiter resource with
      | .ok service => { w with service := service }.goTo call (.looping resource tokens)
      | .error exc => w.goTo call (.raised exc)
    | _ => w
  | .turn call reading =>
    match w.calls[call]? with
    | some (.looping resource (tokens + 1)) =>
      match w.service._limiters.get resource with
      | some limiter =>
        if limiter._lock.isSome then w else w.turn call resource tokens (max w.clock reading) limiter
      | none => w
    | _ => w
  | .wake call reading =>
    match w.calls[call]? with
    | some (.looping resource (tokens + 1)) =>
      match w.service._limiters.get resource with
      | some limiter =>
        if limiter._lock.any fun sleep => sleep.call = call ∧ sleep.wake ≤ max w.clock reading then
          w.grant call resource tokens (max w.clock reading) (limiter.removeOld (max w.clock reading))
        else w
      | none => w
    | _ => w
  | .cancel call =>
    match w.calls[call]? with
    | some (.entering _ _) => w.goTo call .cancelled
    | some (.looping resource _) => w.cancel call resource
    | _ => w
  | .getRemainingTokens resource reading =>
    { w with
      clock := max w.clock reading
      service := (w.service.getRemainingTokens resource (max w.clock reading)).2 }
  | .getResetTime resource reading =>
    { w with
      clock := max w.clock reading
      service := (w.service.getResetTime resource (max w.clock reading)).2 }

def init (service : RateLimitService K) (clock : ℚ) : World K := ⟨service, [], clock, fun _ => []⟩

end

/-! ## What a limiter has granted -/

/-- The list of a limiter is what is live of its grants, and there is room for one more
when the sleep under its lock is over. -/
structure Records (limiter : AsyncRateLimiter) (granted : List ℚ) (now : ℚ) : Prop where
  requests : ∃ since ≤ now, limiter.requests = live limiter.timeWindow since granted
  limited : Limited limiter.timeWindow limiter.maxRequests.toNat now granted
  room : (limiter.requests.length : ℤ) ≤ limiter.maxRequests
  woken : ∀ sleep, limiter._lock = some sleep →
    ((live limiter.timeWindow sleep.wake granted).length : ℤ) < limiter.maxRequests

section

variable {l : AsyncRateLimiter} {granted : List ℚ} {now now' : ℚ}

theorem records_nil (hr : l.requests = []) (hl : l._lock = none) (now : ℚ) : Records l [] now where
  requests := ⟨now, le_rfl, by rw [hr, live_nil]⟩
  limited := limited_nil _ _ _
  room := by rw [hr]; exact l.maxRequests_pos.le
  woken sleep hs := by rw [hl] at hs; cases hs

theorem Records.wait (h : Records l granted now) (hle : now ≤ now') : Records l granted now' where
  requests := by
    obtain ⟨since, hs, hr⟩ := h.requests
    exact ⟨since, hs.trans hle, hr⟩
  limited := h.limited.wait hle
  room := h.room
  woken := h.woken

theorem Records.removeOld_requests (h : Records l granted now) (hle : now ≤ now') :
    (l.removeOld now').requests = live l.timeWindow now' granted := by
  obtain ⟨since, hs, hr⟩ := h.requests
  rw [AsyncRateLimiter.removeOld, hr]
  exact live_live (hs.trans hle) granted

theorem Records.removeOld (h : Records l granted now) (hle : now ≤ now') :
    Records (l.removeOld now') granted now' where
  requests := ⟨now', le_rfl, h.removeOld_requests hle⟩
  limited := h.limited.wait hle
  room := by
    have hlen : (l.removeOld now').requests.length ≤ l.requests.length := List.length_filter_le _ _
    exact le_trans (by exact_mod_cast hlen) h.room
  woken := h.woken

theorem Records.unlock (h : Records l granted now) :
    Records { l with _lock := none } granted now :=
  ⟨h.requests, h.limited, h.room, by simp⟩

/-- The oldest request is gone when the sleep is over. -/
theorem Records.sleep {d : ℚ} (h : Records l granted now)
    (hr : l.requests = live l.timeWindow now granted) (hd : l.sleepTime now = some d) (call : ℕ) :
    Records { l with _lock := some ⟨call, now + d⟩ } granted now := by
  refine ⟨h.requests, h.limited, h.room, ?_⟩
  rintro _ ⟨⟩
  unfold AsyncRateLimiter.sleepTime at hd
  split at hd
  · next hfull =>
    have hmem := List.head_mem (l.ne_nil_of_full hfull)
    generalize l.requests.head (l.ne_nil_of_full hfull) = oldest at hmem hd
    dsimp only at hd
    split at hd
    · next hpos =>
      obtain rfl : l.timeWindow - (now - oldest) = d := by simpa using hd
      rw [hr] at hmem
      have hlt := length_live_lt hmem (show now ≤ now + (l.timeWindow - (now - oldest)) by linarith)
        (by linarith)
      have hroom := h.room
      rw [hr] at hroom
      show ((live l.timeWindow (now + (l.timeWindow - (now - oldest))) granted).length : ℤ) < l.maxRequests
      omega
    · cases hd
  · cases hd

/-- A limiter that does not sleep has room: the oldest request of a full list is live,
so the sleep would not be zero. -/
theorem room_of_sleepTime_eq_none (hr : l.requests = live l.timeWindow now granted)
    (hd : l.sleepTime now = none) : ((live l.timeWindow now granted).length : ℤ) < l.maxRequests := by
  unfold AsyncRateLimiter.sleepTime at hd
  split at hd
  · next hfull =>
    have hmem := List.head_mem (l.ne_nil_of_full hfull)
    generalize l.requests.head (l.ne_nil_of_full hfull) = oldest at hmem hd
    rw [hr] at hmem
    have hlive : now - oldest < l.timeWindow := by simpa using List.of_mem_filter hmem
    rw [if_pos (by linarith)] at hd
    cases hd
  · next hfull =>
    rw [hr] at hfull
    omega

/-- Where there is room, one more is granted. -/
theorem Records.grant (h : Records l granted now) (hr : l.requests = live l.timeWindow now granted)
    (hroom : ((live l.timeWindow now granted).length : ℤ) < l.maxRequests) :
    Records { l with
      requests := l.requests ++ [now]
      _lock := none } (granted ++ [now]) now where
  requests := ⟨now, le_rfl, by rw [live_concat l.timeWindow_pos, hr]⟩
  limited := h.limited.add (by omega)
  room := by
    rw [hr, List.length_append, List.length_singleton]
    push_cast
    omega
  woken := by simp

end

/-! ## Runs -/

variable [DecidableEq K] {w : World K} {k : K} {m : ℤ} {d : ℚ}

/-- The limiter of a resource, once there is one, has the numbers it was configured
with, and its records are right. -/
structure Sound (k : K) (m : ℤ) (d : ℚ) (w : World K) : Prop where
  limits : w.service._limits.get k = some (m, d)
  none : w.service._limiters.get k = none → w.granted k = []
  numbers : ∀ l, w.service._limiters.get k = some l → l.maxRequests = m ∧ l.timeWindow = d
  records : ∀ l, w.service._limiters.get k = some l → Records l (w.granted k) w.clock

theorem Sound.goTo (h : Sound k m d w) (call : ℕ) (stage : Stage K) : Sound k m d (w.goTo call stage) :=
  ⟨h.limits, h.none, h.numbers, h.records⟩

theorem Sound.wait (h : Sound k m d w) {now : ℚ} (hle : w.clock ≤ now) : Sound k m d { w with clock := now } :=
  ⟨h.limits, h.none, h.numbers, fun l hl => (h.records l hl).wait hle⟩

/-- A limiter that has gone over to another with the same numbers. -/
theorem Sound.put (h : Sound k m d w) {resource : K} {now : ℚ} {l : AsyncRateLimiter} (l' : AsyncRateLimiter)
    (granted : List ℚ) (hl : w.service._limiters.get resource = some l) (hle : w.clock ≤ now)
    (hm : l'.maxRequests = l.maxRequests) (hd : l'.timeWindow = l.timeWindow)
    (hr : Records l (w.granted resource) w.clock → Records l' granted now) :
    Sound k m d (w.put resource now l' granted) := by
  by_cases hk : k = resource
  · subst hk
    have hget : (w.put k now l' granted).service._limiters.get k = some l' := Dict.get_set_same _ _ _
    have hgranted : (w.put k now l' granted).granted k = granted := Function.update_self _ _ _
    refine ⟨h.limits, fun hno => ?_, fun l'' hl'' => ?_, fun l'' hl'' => ?_⟩
    · rw [hget] at hno
      cases hno
    · obtain rfl : l' = l'' := by simpa [hget] using hl''
      rw [hm, hd]
      exact h.numbers l hl
    · obtain rfl : l' = l'' := by simpa [hget] using hl''
      rw [hgranted]
      exact hr (h.records l hl)
  · have hget : (w.put resource now l' granted).service._limiters.get k = w.service._limiters.get k :=
      Dict.get_set_other _ _ hk
    have hgranted : (w.put resource now l' granted).granted k = w.granted k := Function.update_of_ne hk _ _
    refine ⟨h.limits, fun hno => ?_, fun l'' hl'' => ?_, fun l'' hl'' => ?_⟩
    · rw [hgranted]
      exact h.none (hget ▸ hno)
    · exact h.numbers l'' (hget ▸ hl'')
    · rw [hgranted]
      exact (h.records l'' (hget ▸ hl'')).wait hle

theorem sound_enter (h : Sound k m d w) {resource : K} {service : RateLimitService K}
    (hs : w.service.ensureLimiter resource = .ok service) : Sound k m d { w with service := service } := by
  unfold RateLimitService.ensureLimiter at hs
  split at hs
  · cases hs
    exact h
  · next hno =>
    have hno : w.service._limiters.get resource = .none := by simpa using hno
    dsimp only [bind, Except.bind] at hs
    split at hs
    · cases hs
    · next limiter hnew =>
      cases hs
      by_cases hk : k = resource
      · subst hk
        rw [h.limits, Option.getD_some, AsyncRateLimiter.new] at hnew
        split at hnew
        · cases hnew
        · split at hnew
          · cases hnew
          · cases hnew
            have hnil : w.granted k = [] := h.none hno
            refine ⟨h.limits, fun _ => hnil, fun l hl => ?_, fun l hl => ?_⟩
            · simp only [Dict.get_set_same, Option.some.injEq] at hl
              subst hl
              exact ⟨rfl, rfl⟩
            · simp only [Dict.get_set_same, Option.some.injEq] at hl
              subst hl
              rw [hnil]
              exact records_nil rfl rfl _
      · have hget : (w.service._limiters.set resource limiter).get k = w.service._limiters.get k :=
          Dict.get_set_other _ _ hk
        exact ⟨h.limits, fun hno' => h.none (hget ▸ hno'), fun l hl => h.numbers l (hget ▸ hl),
          fun l hl => h.records l (hget ▸ hl)⟩

section

variable {resource : K} {l : AsyncRateLimiter} {now : ℚ}

theorem sound_grant (h : Sound k m d w) (call tokens : ℕ) (hl : w.service._limiters.get resource = some l)
    (hle : w.clock ≤ now) (hroom : Records l (w.granted resource) w.clock →
      ((live l.timeWindow now (w.granted resource)).length : ℤ) < l.maxRequests) :
    Sound k m d (w.grant call resource tokens now (l.removeOld now)) := by
  have hput := h.put { l.removeOld now with
    requests := (l.removeOld now).requests ++ [now]
    _lock := none } (w.granted resource ++ [now]) hl hle rfl rfl fun hr =>
      (hr.removeOld hle).grant (hr.removeOld_requests hle) (hroom hr)
  exact hput.goTo call _

theorem sound_turn (h : Sound k m d w) (call tokens : ℕ) (hl : w.service._limiters.get resource = some l)
    (hle : w.clock ≤ now) : Sound k m d (w.turn call resource tokens now l) := by
  unfold World.turn
  dsimp only
  split
  · next sleepTime hs =>
    exact h.put _ _ hl hle rfl rfl fun hr => (hr.removeOld hle).sleep (hr.removeOld_requests hle) hs call
  · next hs =>
    refine sound_grant h call tokens hl hle fun hr => ?_
    have hlive := hr.removeOld_requests hle
    exact room_of_sleepTime_eq_none (l := l.removeOld now) hlive hs

/-- What is granted at the end of a sleep has room. -/
theorem sound_wake (h : Sound k m d w) (call tokens : ℕ) (hl : w.service._limiters.get resource = some l)
    (hle : w.clock ≤ now) {sleep : Sleep} (hs : l._lock = some sleep) (hw : sleep.wake ≤ now) :
    Sound k m d (w.grant call resource tokens now (l.removeOld now)) := by
  refine sound_grant h call tokens hl hle fun hr => ?_
  have hfew := hr.woken sleep hs
  have hshrunk : (live l.timeWindow now (w.granted resource)).length ≤
      (live l.timeWindow sleep.wake (w.granted resource)).length := length_live_le hw _
  omega

theorem sound_cancel (h : Sound k m d w) (call : ℕ) (resource : K) : Sound k m d (w.cancel call resource) := by
  unfold World.cancel
  split
  · next l hl =>
    split
    · have hput := h.put { l with _lock := none } (w.granted resource) hl le_rfl rfl rfl Records.unlock
      exact hput.goTo call _
    · exact h.goTo call _
  · exact h.goTo call _

/-- A query drops what is no longer live, whoever holds the lock. -/
theorem sound_query (h : Sound k m d w) (hl : w.service._limiters.get resource = some l) (hle : w.clock ≤ now) :
    Sound k m d { w with
      clock := now
      service := w.service.setLimiter resource (l.removeOld now) } := by
  have hput := h.put (l.removeOld now) (w.granted resource) hl hle rfl rfl fun hr => hr.removeOld hle
  unfold World.put at hput
  rwa [Function.update_eq_self] at hput

end

theorem sound_step (h : Sound k m d w) (label : Label K) : Sound k m d (step w label) := by
  cases label with
  | acquire resource tokens => exact ⟨h.limits, h.none, h.numbers, h.records⟩
  | enter call =>
    dsimp only [step]
    split
    · split
      · next hs => exact (sound_enter h hs).goTo call _
      · exact h.goTo call _
    · exact h
  | turn call reading =>
    dsimp only [step]
    split
    · split
      · next hl =>
        split
        · exact h
        · exact sound_turn h call _ hl (le_max_left _ _)
      · exact h
    · exact h
  | wake call reading =>
    dsimp only [step]
    split
    · split
      · next l hl =>
        split
        · next hs =>
          obtain ⟨sleep, hlock, hw⟩ := (Option.any_eq_true _ _).mp hs
          exact sound_wake h call _ hl (le_max_left _ _) hlock (of_decide_eq_true hw).2
        · exact h
      · exact h
    · exact h
  | cancel call =>
    dsimp only [step]
    split
    · exact h.goTo call _
    · exact sound_cancel h call _
    · exact h
  | getRemainingTokens resource reading =>
    dsimp only [step, RateLimitService.getRemainingTokens]
    split
    · exact h.wait (le_max_left _ _)
    · next l hl => exact sound_query h hl (le_max_left _ _)
  | getResetTime resource reading =>
    dsimp only [step, RateLimitService.getResetTime]
    split
    · exact h.wait (le_max_left _ _)
    · next l hl => exact sound_query h hl (le_max_left _ _)

/-- Whatever else is configured, and however the calls and queries interleave: no
half-open span as long as the window of a resource has more grants than its limit (none,
if the limit is below one), and the recorded times are in order. -/
theorem spans_within_limit (limits : Dict K (ℤ × ℚ)) (resource : K) (maxRequests : ℤ) (timeWindow clock : ℚ)
    (labels : List (Label K)) :
    let service := RateLimitService.configureLimit ⟨.empty, limits⟩ resource maxRequests timeWindow
    let w := run step (init service clock) labels
    (∀ start, (inSpan timeWindow start (w.granted resource)).length ≤ maxRequests.toNat) ∧
    ∀ limiter, w.service._limiters.get resource = some limiter → limiter.requests.Pairwise (· ≤ ·) := by
  intro service w
  have hinit : Sound resource maxRequests timeWindow (init service clock) :=
    ⟨Dict.get_set_same _ _ _, fun _ => rfl, nofun, nofun⟩
  have h : Sound resource maxRequests timeWindow w :=
    run_induction (P := Sound resource maxRequests timeWindow) (fun _ label hs => sound_step hs label) hinit labels
  constructor
  · intro start
    cases hl : w.service._limiters.get resource with
    | none => rw [h.none hl]; exact Nat.zero_le _
    | some limiter =>
      obtain ⟨hm, hd⟩ := h.numbers limiter hl
      have hspan := (h.records limiter hl).limited.spans start
      rwa [hm, hd] at hspan
  · intro limiter hl
    obtain ⟨since, -, hr⟩ := (h.records limiter hl).requests
    rw [hr]
    exact (h.records limiter hl).limited.sorted.sublist List.filter_sublist

-- The second token of a call waits for the first to go, with a query in between.
example :
    let service := RateLimitService.configureLimit ⟨.empty, .empty⟩ "order" 1 5
    let labels := [.acquire "order" 2, .enter 0, .turn 0 3, .turn 0 4, .getRemainingTokens "order" 6,
      .wake 0 7, .wake 0 8]
    (run step (init service 0) labels).granted "order" = [3, 8] := by
  decide +kernel

end RateLimitServices
