import BtApiBase.RateLimitWaits

/-!
# Waiting with a timeout

The attempts that fail leave no limiter less willing than it was at the start, so a
request that would be granted from some delay on is granted in the loop as well,
unless the loop has given up before. The wait of the limiter that denies is over
within the timeout; it gives up for one that grants, or that was not asked.
-/

namespace RateLimitTimeouts

open PyText PyDict PyValue RateLimits RateLimitLedgers RateLimitAttempts RateLimitWaits
open RateLimitUsage (grants)

/-! ## What attempts that fail leave of a limiter -/

/-- The limiter after its expired requests or its old window are gone. -/
def refresh (limiter : Limiter) (now : Rat) : Limiter :=
  match limiter with
  | .sliding l => .sliding (l.pruneExpired now)
  | .fixed l => .fixed (l.advance now)

/-- What attempts up to `now` may make of a limiter, if none of them is granted. -/
inductive Behind (now : Rat) : Limiter → Limiter → Prop
  | sliding {l l' : SlidingWindowLimiter} (h : l' = l ∨ ∃ s ≤ now, l' = l.pruneExpired s) :
    Behind now (.sliding l) (.sliding l')
  | fixed {l l' : FixedWindowLimiter} (hinterval : l'.interval = l.interval) (hlimit : l'.limit = l.limit)
    (hstart : l'.windowStart = l.windowStart ∨ ∃ s ≤ now, l'.windowStart = windowOf l.interval s)
    (hcount : ∀ t, now ≤ t → (l'.advance t).windowCount ≤ max 0 (l.advance t).windowCount) :
    Behind now (.fixed l) (.fixed l')

theorem Behind.interval {now : Rat} {limiter limiter' : Limiter} (h : Behind now limiter limiter') :
    limiter'.interval = limiter.interval := by
  cases h with
  | sliding h =>
    rcases h with rfl | ⟨s, -, rfl⟩
    · rfl
    · rfl
  | fixed hinterval => exact hinterval

theorem behind_self (limiter : Limiter) (now : Rat) : Behind now limiter limiter := by
  cases limiter with
  | sliding l => exact .sliding (.inl rfl)
  | fixed l => exact .fixed rfl rfl (.inl rfl) fun _ _ => le_max_right ..

theorem Behind.mono {now later : Rat} (h : now ≤ later) {limiter limiter' : Limiter}
    (hb : Behind now limiter limiter') : Behind later limiter limiter' := by
  cases hb with
  | sliding hl => exact .sliding (hl.imp_right fun ⟨s, hs, heq⟩ => ⟨s, hs.trans h, heq⟩)
  | fixed hi hl hs hc =>
    exact .fixed hi hl (hs.imp_right fun ⟨s, hs, heq⟩ => ⟨s, hs.trans h, heq⟩) fun t ht => hc t (h.trans ht)

theorem dropWhile_dropWhile {α : Type} {p q : α → Bool} (h : ∀ x, p x = true → q x = true) (xs : List α) :
    (xs.dropWhile p).dropWhile q = xs.dropWhile q := by
  induction xs with
  | nil => rfl
  | cons x xs ih =>
    rw [List.dropWhile_cons]
    split
    · next hp => rw [ih, List.dropWhile_cons_of_pos (h x hp)]
    · rfl

/-- An earlier pruning is not seen after a later one. -/
theorem pruneExpired_later (l : SlidingWindowLimiter) {s now : Rat} (h : s ≤ now) :
    (l.pruneExpired s).pruneExpired now = l.pruneExpired now := by
  refine congrArg (SlidingWindowLimiter.mk l.interval l.limit) (dropWhile_dropWhile (fun x hx => ?_) l.requests)
  simp only [decide_eq_true_eq] at hx ⊢
  show x.1 < now - (l.interval : Rat)
  linarith

theorem Behind.tried {now : Rat} {limiter l l' : Limiter} (hb : Behind now limiter l) (ht : Tried now l l') :
    Behind now limiter l' := by
  cases ht with
  | same => exact hb
  | sliding l =>
    cases hb with
    | sliding hl =>
      refine .sliding (.inr ⟨now, le_rfl, ?_⟩)
      rcases hl with rfl | ⟨s, hs, rfl⟩
      · rfl
      · exact pruneExpired_later _ hs
  | fixed l count hcount =>
    cases hb with
    | @fixed l₀ _ hi hl hs hc =>
      refine .fixed ((advance_interval l now).trans hi) ((advance_limit l now).trans hl)
        (.inr ⟨now, le_rfl, ?_⟩) fun t ht => ?_
      · show (l.advance now).windowStart = _
        rw [advance_start, hi]
      · rw [advance_count]
        show (if windowOf (l.advance now).interval t = (l.advance now).windowStart then count else 0) ≤ _
        rw [advance_interval, advance_start]
        split
        · next hwindow =>
          -- in the window of the attempt the count is what it was then
          have hthen := hc now le_rfl
          rw [advance_count l₀] at hthen ⊢
          rw [← hi, hwindow, hi]
          omega
        · exact le_max_left ..

/-- A request that the limiter at the start would grant is granted later as well; a
credit below zero may be lost. -/
theorem grants_of_behind {now : Rat} {limiter limiter' : Limiter} (hb : Behind now limiter limiter')
    (hi : 0 < limiter.interval) {weight : Int} (hfits : ∀ l, limiter = .fixed l → weight ≤ l.limit)
    (h : grants limiter now weight = true) : grants limiter' now weight = true := by
  cases hb with
  | @sliding l l' hl =>
    rw [grants_sliding] at h ⊢
    rcases hl with rfl | ⟨s, hs, rfl⟩
    · exact h
    · rw [pruneExpired_later _ hs]
      exact h
  | @fixed l l' hinterval hlimit hs hc =>
    have hi : 0 < l.interval := hi
    have hfits := hfits l rfl
    have hcount := hc now le_rfl
    rw [grants_fixed hi] at h
    rw [grants_fixed (hinterval ▸ hi), hlimit]
    omega

/-! ## The attempts -/

/-- The attempts of the loop without a timeout, each with the limiters that it finds. -/
inductive Attempts (q : Request) (start : Rat) (r : RateLimiter) : RateLimiter → Rat → Prop
  | first : Attempts q start r r start
  | next {r' : RateLimiter} {now : Rat} (h : Attempts q start r r' now)
    (hdenied : (r'.acquire (q.call now)).1.answer = .ok false) :
    Attempts q start r (r'.after (q.call now))
      (now + min (effectiveWait (getMaxWaitTime (r'.after (q.call now)) q now)) 1)

/-- The limiters of these rules grant, so that the next one is asked. -/
def Grant (r : RateLimiter) (q : Request) (now : Rat) (rules : List RateLimitRule) : Prop :=
  ∀ e ∈ rules, ∀ limiter, r.limiters.get e.name = some limiter → grants limiter now (q.under e) = true

/-- Before an attempt that is denied: what a limiter that grants has counted, brought up
to date, and what one that is not asked has counted, as it stands, is over by the
deadline. A fixed window that denies would have room for the request when empty. -/
structure Unhindered (r : RateLimiter) (q : Request) (deadline now : Rat) : Prop where
  granting : ∀ earlier rule later limiter, r.getMatchedRules q.method q.path = earlier ++ rule :: later →
    Grant r q now earlier → r.limiters.get rule.name = some limiter → grants limiter now (q.under rule) = true →
    now + waitTime (refresh limiter now) now ≤ deadline
  unasked : ∀ earlier rule later limiter, r.getMatchedRules q.method q.path = earlier ++ rule :: later →
    ¬ Grant r q now earlier → r.limiters.get rule.name = some limiter → now + waitTime limiter now ≤ deadline
  fits : ∀ earlier rule later l, r.getMatchedRules q.method q.path = earlier ++ rule :: later →
    Grant r q now earlier → r.limiters.get rule.name = some (.fixed l) →
    grants (.fixed l) now (q.under rule) = false → q.under rule ≤ l.limit

theorem waitTime_of_asked {now : Rat} {limiter limiter' : Limiter} (h : Asked now limiter limiter') :
    waitTime limiter' now = waitTime (refresh limiter now) now := by
  cases h with
  | sliding l => rfl
  | fixed l count hcount => rfl

/-- What a denied attempt leaves of the limiter of a matching rule: it is asked if all
before it grant, and else it is as it was. -/
theorem limiter_of_denied {r : RateLimiter} (hr : Proper r) {q : Request} {now : Rat}
    {earlier later before after : List RateLimitRule} {rule m : RateLimitRule} {limiter l : Limiter}
    (hd : Denied r q now earlier rule later limiter) (hm : r.getMatchedRules q.method q.path = before ++ m :: after)
    (hget : r.limiters.get m.name = some l) : ∃ l', (r.after (q.call now)).limiters.get m.name = some l' ∧
      (Grant r q now before ∧ Asked now l l' ∨ ¬ Grant r q now before ∧ l' = l) := by
  have hasked : Grant r q now before → m ∈ earlier ++ [rule] → ∃ l',
      (r.after (q.call now)).limiters.get m.name = some l' ∧
        (Grant r q now before ∧ Asked now l l' ∨ ¬ Grant r q now before ∧ l' = l) := by
    intro hgrant hmem
    have hrel := hd.asks.asked _ (List.mem_map_of_mem hmem)
    rw [hget] at hrel
    cases hafter : (r.after (q.call now)).limiters.get m.name with
    | none =>
      rw [hafter] at hrel
      cases hrel
    | some l' =>
      rw [hafter] at hrel
      cases hrel with
      | some ha => exact ⟨l', rfl, .inl ⟨hgrant, ha⟩⟩
  rcases List.append_eq_append_iff.mp (hd.matched.symm.trans hm) with
    ⟨between, rfl, heq⟩ | ⟨between, rfl, heq⟩
  · cases between with
    | nil =>
      obtain ⟨rfl, -⟩ := List.cons.inj heq
      refine hasked ?_ (List.mem_append_right _ (List.mem_singleton_self _))
      rw [List.append_nil]
      exact hd.granted
    | cons first between =>
      obtain ⟨rfl, rfl⟩ := List.cons.inj heq
      -- no two rules share a name
      have hmatched : r.getMatchedRules q.method q.path = earlier ++ rule :: (between ++ m :: after) := hd.matched
      have hnodup : ((r.getMatchedRules q.method q.path).map RateLimitRule.name).Nodup :=
        hr.names.sublist (List.filter_sublist.map _)
      have hout : m.name ∉ (earlier ++ [rule]).map RateLimitRule.name := by
        rw [hmatched, List.append_cons, List.map_append] at hnodup
        exact fun hmem => List.disjoint_of_nodup_append hnodup hmem (List.mem_map_of_mem (by simp))
      refine ⟨l, (hd.asks.others _ hout).trans hget, .inr ⟨fun hgrant => ?_, rfl⟩⟩
      have hgrants := hgrant rule (by simp) limiter hd.found
      rw [hd.refused] at hgrants
      cases hgrants
  · have hmem : m ∈ before ++ between ++ [rule] := by
      cases between with
      | nil =>
        obtain ⟨rfl, -⟩ := List.cons.inj heq
        simp
      | cons first between =>
        obtain ⟨rfl, -⟩ := List.cons.inj heq
        simp
    exact hasked (fun e he => hd.granted e (List.mem_append_left _ he)) hmem

/-! ## What returns is unhindered -/

/-- The window is at its limit for this weight, and would be when it is empty. -/
def Hopeless (weight : Int) (l : FixedWindowLimiter) : Prop := l.limit < weight ∧ l.limit < l.windowCount + weight

theorem hopeless_tried {weight : Int} {now : Rat} {l : FixedWindowLimiter} (h : Hopeless weight l) {limiter : Limiter}
    (ht : Tried now (.fixed l) limiter) : ∃ l', limiter = .fixed l' ∧ Hopeless weight l' := by
  cases ht with
  | same => exact ⟨l, rfl, h⟩
  | fixed l count hcount =>
    refine ⟨_, rfl, ?_⟩
    obtain ⟨hweight, hfull⟩ := h
    rw [advance_count] at hcount
    simp only [Hopeless, advance_limit]
    split at hcount <;> omega

/-- A window that refuses more than its limit. -/
theorem hopeless_of_asked {weight : Int} {now : Rat} {l : FixedWindowLimiter} (hi : 0 < l.interval)
    (hweight : l.limit < weight) (h : grants (.fixed l) now weight = false) {limiter : Limiter}
    (ha : Asked now (.fixed l) limiter) : ∃ l', limiter = .fixed l' ∧ Hopeless weight l' := by
  have hfull : ¬ (l.advance now).windowCount + weight ≤ l.limit := by
    rw [← grants_fixed hi, h]
    exact Bool.false_ne_true
  cases ha with
  | fixed l count hcount =>
    refine ⟨_, rfl, ?_⟩
    simp only [Hopeless, advance_limit]
    omega

theorem Hopeless.refuses {weight : Int} {l : FixedWindowLimiter} (h : Hopeless weight l) (hi : 0 < l.interval)
    (now : Rat) : ¬ grants (.fixed l) now weight = true := by
  obtain ⟨hweight, hfull⟩ := h
  rw [grants_fixed hi, advance_count]
  split <;> omega

variable {g : Nat} {r₀ r r' : RateLimiter} {q : Request} {start timeout deadline now : Rat}

theorem never_of_hopeless {timeout : Option Rat} {m : RateLimitRule} {l : FixedWindowLimiter} (hr : Proper r)
    (hm : m ∈ r.getMatchedRules q.method q.path) (hget : r.limiters.get m.name = some (.fixed l))
    (h : Hopeless (q.under m) l) (n : Nat) : waitAndAcquire q timeout start n r now ≠ some (.ok true) := by
  induction n generalizing r now l with
  | zero => nofun
  | succ n ih =>
    rcases attempt_cases hr q now with ⟨-, hall⟩ | ⟨hdenied, -, ht⟩
    · exact absurd (hall m hm _ hget) (h.refuses (hr.intervals _ _ hget) now)
    · have hrel := ht m.name
      rw [hget] at hrel
      cases hafter : (r.after (q.call now)).limiters.get m.name with
      | none =>
        rw [hafter] at hrel
        cases hrel
      | some limiter =>
        rw [hafter] at hrel
        cases hrel with
        | some htried =>
          obtain ⟨l', rfl, h'⟩ := hopeless_tried h htried
          have hm' : m ∈ (r.after (q.call now)).getMatchedRules q.method q.path := by rwa [matched_after]
          have hnext : waitAndAcquire q timeout start n (r.after (q.call now))
              (now + min (effectiveWait (getMaxWaitTime (r.after (q.call now)) q now)) 1) ≠ some (.ok true) :=
            ih (proper_tried hr ht) hm' hafter h'
          rw [waitAndAcquire, hdenied]
          dsimp only
          split
          · simp
          · exact hnext

theorem le_effectiveWait (w : Rat) : w ≤ effectiveWait w := by
  unfold effectiveWait
  split
  · exact le_rfl
  · next hnone => exact (not_lt.mp hnone).trans (by norm_num)

/-- The loop comes back with the request granted. -/
def Returns (q : Request) (timeout start : Rat) (r : RateLimiter) (now : Rat) : Prop :=
  ∃ n, waitAndAcquire q (some timeout) start n r now = some (.ok true)

/-- After an attempt that is denied it has not given up, and comes back from the next. -/
theorem Returns.next (h : Returns q timeout start r now) (hdenied : (r.acquire (q.call now)).1.answer = .ok false) :
    now + effectiveWait (getMaxWaitTime (r.after (q.call now)) q now) ≤ start + timeout ∧
      Returns q timeout start (r.after (q.call now))
        (now + min (effectiveWait (getMaxWaitTime (r.after (q.call now)) q now)) 1) := by
  obtain ⟨n, hn⟩ := h
  cases n with
  | zero => cases hn
  | succ n =>
    rw [waitAndAcquire, hdenied] at hn
    dsimp only at hn
    split at hn
    · simp at hn
    · next hgoes =>
      simp only [Option.any_some, decide_eq_true_eq, not_lt] at hgoes
      exact ⟨by linarith, n, hn⟩

theorem returns_attempts (h : Returns q timeout start r start) (ha : Attempts q start r r' now) :
    Returns q timeout start r' now := by
  induction ha with
  | first => exact h
  | next _ hdenied ih => exact (ih.next hdenied).2

theorem proper_attempts (hr : Proper r) (ha : Attempts q start r r' now) : Proper r' := by
  induction ha with
  | first => exact hr
  | @next r' now _ hdenied ih =>
    rcases attempt_cases ih q now with ⟨hyes, -⟩ | ⟨-, -, ht⟩
    · rw [hyes] at hdenied
      cases hdenied
    · exact proper_tried ih ht

theorem unhindered_of_returns (hr : Proper r) (h : Returns q timeout start r now)
    (hdenied : (r.acquire (q.call now)).1.answer = .ok false) : Unhindered r q (start + timeout) now := by
  obtain ⟨hgoes, hreturns⟩ := h.next hdenied
  rcases attempt_denied hr q now with ⟨hyes, -⟩ | ⟨-, earlier, rule, later, limiter, hd⟩
  · rw [hyes] at hdenied
    cases hdenied
  have hwait : ∀ {before m after l}, r.getMatchedRules q.method q.path = before ++ m :: after →
      (r.after (q.call now)).limiters.get (RateLimitRule.name m) = some l →
      now + waitTime l now ≤ start + timeout := by
    intro before m after l hm hget
    have hmatched : m ∈ (r.after (q.call now)).getMatchedRules q.method q.path := by
      simp [matched_after, hm]
    have hle : waitTime l now ≤ getMaxWaitTime (r.after (q.call now)) q now := le_maxWait hmatched hget
    have heffective := le_effectiveWait (getMaxWaitTime (r.after (q.call now)) q now)
    linarith
  refine ⟨?_, ?_, ?_⟩
  · intro before m after l hm hgrant hget _
    obtain ⟨l', hget', ⟨-, ha⟩ | ⟨hno, -⟩⟩ := limiter_of_denied hr hd hm hget
    · rw [← waitTime_of_asked ha]
      exact hwait hm hget'
    · exact absurd hgrant hno
  · intro before m after l hm hgrant hget
    obtain ⟨l', hget', ⟨hyes, -⟩ | ⟨-, rfl⟩⟩ := limiter_of_denied hr hd hm hget
    · exact absurd hyes hgrant
    · exact hwait hm hget'
  · intro before m after l hm hgrant hget hrefused
    by_contra hweight
    obtain ⟨l', hget', ⟨-, ha⟩ | ⟨hno, -⟩⟩ := limiter_of_denied hr hd hm hget
    · obtain ⟨n, hn⟩ := hreturns
      have hproper : Proper (r.after (q.call now)) := proper_tried hr hd.asks.allTried
      obtain ⟨f, rfl, hhopeless⟩ := hopeless_of_asked (hr.intervals _ _ hget) (not_le.mp hweight) hrefused ha
      exact never_of_hopeless hproper (by simp [matched_after, hm]) hget' hhopeless n hn
    · exact absurd hgrant hno

/-! ## What is unhindered returns -/

/-- A window that is not over at the deadline is still the window then. -/
theorem windowOf_of_lt {interval : Int} (hi : 0 < interval) {now deadline : Rat} (h : now ≤ deadline)
    (hlong : deadline < windowOf interval now + interval) : windowOf interval deadline = windowOf interval now := by
  have hpos : (0 : Rat) < interval := by exact_mod_cast hi
  have hfloor : ⌊deadline / interval⌋ = ⌊now / interval⌋ := by
    rw [Int.floor_eq_iff]
    have hle : (⌊now / interval⌋ : Rat) ≤ now / interval := Int.floor_le _
    have hmono : now / interval ≤ deadline / interval := div_le_div_of_nonneg_right h hpos.le
    refine ⟨hle.trans hmono, ?_⟩
    rw [div_lt_iff₀ hpos, add_mul, one_mul]
    exact hlong
  rw [windowOf, hfloor, windowOf]

/-- A limiter that denies, and waits beyond the deadline, denies then as well. -/
theorem denies_until {limiter : Limiter} (hi : 0 < limiter.interval) {weight : Int} (h : now ≤ deadline)
    (hlong : deadline < now + waitTime (refresh limiter now) now) :
    grants limiter deadline weight = grants limiter now weight := by
  rw [Bool.eq_iff_iff]
  cases limiter with
  | sliding l =>
    have hsame : l.pruneExpired deadline = l.pruneExpired now := by
      rw [← pruneExpired_later l h]
      cases hreq : (l.pruneExpired now).requests with
      | nil =>
        have hwait : waitTime (refresh (.sliding l) now) now = 0 := by
          show SlidingWindowLimiter.waitTime _ now = 0
          simp only [SlidingWindowLimiter.waitTime, hreq, List.head?_nil]
        linarith
      | cons x rest =>
        have hwait : waitTime (refresh (.sliding l) now) now = max 0 (x.1 + l.interval - now) := by
          show SlidingWindowLimiter.waitTime _ now = _
          simp only [SlidingWindowLimiter.waitTime, hreq, List.head?_cons]
          rfl
        have hlater : deadline < x.1 + l.interval := by
          rw [hwait] at hlong
          rcases max_choice 0 (x.1 + l.interval - now) with hm | hm <;> rw [hm] at hlong <;> linarith
        have hlive : ¬ decide (x.1 < deadline - l.interval) = true := by
          rw [decide_eq_true_eq]
          linarith
        refine congrArg (SlidingWindowLimiter.mk l.interval l.limit) ?_
        show (l.pruneExpired now).requests.dropWhile (fun x => x.1 < deadline - l.interval) =
          (l.pruneExpired now).requests
        rw [hreq]
        exact List.dropWhile_cons_of_neg (p := fun x : Rat × Int => decide (x.1 < deadline - l.interval)) hlive
    rw [grants_sliding, grants_sliding, hsame]
  | fixed l =>
    have hi : 0 < l.interval := hi
    have hlater : deadline < windowOf l.interval now + l.interval := by
      have hwait : waitTime (refresh (.fixed l) now) now = max 0 (windowOf l.interval now + l.interval - now) := by
        show max 0 ((l.advance now).windowStart + (l.advance now).interval - now) = _
        rw [advance_start, advance_interval]
      rw [hwait] at hlong
      rcases max_choice 0 (windowOf l.interval now + l.interval - now) with hm | hm <;> rw [hm] at hlong <;> linarith
    rw [grants_fixed hi, grants_fixed hi, advance_count, advance_count, windowOf_of_lt hi h hlater]

/-- What the loop has made of a limiter: it has lost a credit below zero only where the
request fits without one. -/
structure Follows (now : Rat) (weight : Int) (limiter limiter' : Limiter) : Prop where
  behind : Behind now limiter limiter'
  fits : limiter' = limiter ∨ ∀ l, limiter = .fixed l → weight ≤ l.limit

section

variable {limiter limiter' : Limiter} {weight : Int}

theorem Follows.grants_later (h : Follows now weight limiter limiter') (hi : 0 < limiter.interval) {t : Rat} (ht : now ≤ t)
    (hgrants : grants limiter t weight = true) : grants limiter' t weight = true := by
  rcases h.fits with rfl | hfits
  · exact hgrants
  · exact grants_of_behind (h.behind.mono ht) hi hfits hgrants

/-- A window that grants now, and from some time on until the deadline, has room for the
weight when it is empty. -/
theorem fits_of_granted {l : FixedWindowLimiter} (hi : 0 < l.interval) {soon : Rat} (hsoon : soon ≤ deadline)
    (hgranted : ∀ t, soon ≤ t → t ≤ deadline → grants (.fixed l) t weight = true)
    (hwait : now + waitTime (refresh (.fixed l) now) now ≤ deadline) (hnow : grants (.fixed l) now weight = true) :
    weight ≤ l.limit := by
  by_cases hsame : windowOf l.interval now = l.windowStart
  · have hend : l.windowStart + l.interval ≤ deadline := by
      have hle : (l.advance now).windowStart + (l.advance now).interval - now ≤ waitTime (refresh (.fixed l) now) now :=
        le_max_right ..
      rw [advance_start, advance_interval, hsame] at hle
      linarith
    have hover : windowOf l.interval (max (l.windowStart + l.interval) soon) ≠ l.windowStart := by
      intro heq
      have hlt := lt_windowOf_add hi (max (l.windowStart + l.interval) soon)
      rw [heq] at hlt
      exact absurd hlt (not_lt.mpr (le_max_left ..))
    have hgrants := hgranted _ (le_max_right ..) (max_le hend hsoon)
    rwa [grants_fixed hi, advance_count, if_neg hover, zero_add] at hgrants
  · rwa [grants_fixed hi, advance_count, if_neg hsame, zero_add] at hnow

/-- A limiter that is asked, where one that grants waits until the deadline at most. -/
theorem Follows.asked (h : Follows now weight limiter limiter') (hi : 0 < limiter.interval) {soon : Rat}
    (hsoon : soon ≤ deadline) (hnow : now ≤ deadline)
    (hgranted : ∀ t, soon ≤ t → t ≤ deadline → grants limiter t weight = true)
    (hgranting : grants limiter' now weight = true → now + waitTime (refresh limiter' now) now ≤ deadline)
    (hfits : ∀ l, limiter' = .fixed l → grants limiter' now weight = false → weight ≤ l.limit) {limiter'' : Limiter}
    (ha : Asked now limiter' limiter'') :
    now + waitTime limiter'' now ≤ deadline ∧ Follows now weight limiter limiter'' := by
  have hwait : now + waitTime (refresh limiter' now) now ≤ deadline := by
    cases hg : grants limiter' now weight with
    | true => exact hgranting hg
    | false =>
      -- one that denies would deny at the deadline
      by_contra hlong
      have hi' : 0 < limiter'.interval := by
        rw [h.behind.interval]
        exact hi
      have hdenies : grants limiter' deadline weight = grants limiter' now weight :=
        denies_until hi' hnow (not_le.mp hlong)
      rw [h.grants_later hi hnow (hgranted deadline hsoon le_rfl), hg] at hdenies
      cases hdenies
  refine ⟨by rwa [waitTime_of_asked ha], h.behind.tried ha.tried, .inr ?_⟩
  rcases h.fits with rfl | hfits'
  · rintro l rfl
    cases hg : grants (.fixed l) now weight with
    | true => exact fits_of_granted hi hsoon hgranted hwait hg
    | false => exact hfits l rfl hg
  · exact hfits'

end

/-- What the loop keeps until it is granted. -/
structure Pending (g : Nat) (r₀ : RateLimiter) (q : Request) (deadline : Rat) (r : RateLimiter) (now : Rat) :
    Prop where
  proper : Proper r
  rules : r.rules = r₀.rules
  follows : ∀ rule ∈ r₀.getMatchedRules q.method q.path, ∀ limiter', r.limiters.get rule.name = some limiter' →
    ∃ limiter, r₀.limiters.get rule.name = some limiter ∧ Follows now (q.under rule) limiter limiter'
  gridded : Gridded g r now
  inTime : now ≤ deadline

theorem Pending.matched (h : Pending g r₀ q deadline r now) :
    r.getMatchedRules q.method q.path = r₀.getMatchedRules q.method q.path := by
  rw [RateLimiter.getMatchedRules, h.rules, RateLimiter.getMatchedRules]

theorem allGrant_of_granted (hr : Proper r) {t : Rat} (ha : (r.acquire (q.call t)).1.answer = .ok true) :
    AllGrant r q t := by
  rcases attempt_cases hr q t with ⟨-, hall⟩ | ⟨hno, -⟩
  · exact hall
  · rw [hno] at ha
    cases ha

theorem granted_of_pending (h₀ : Proper r₀) (h : Pending g r₀ q deadline r now)
    (ha : (r₀.acquire (q.call now)).1.answer = .ok true) : (r.acquire (q.call now)).1.answer = .ok true := by
  rcases attempt_cases h.proper q now with ⟨hyes, -⟩ | ⟨-, hdenied, -⟩
  · exact hyes
  · refine absurd (fun rule hrule limiter' hget => ?_) hdenied
    rw [h.matched] at hrule
    obtain ⟨limiter, hl, hf⟩ := h.follows rule hrule limiter' hget
    exact hf.grants_later (h₀.intervals _ limiter hl) le_rfl (allGrant_of_granted h₀ ha rule hrule limiter hl)

/-- A denied attempt and the sleep after it. -/
theorem Pending.step (hg : 0 < g) (htwentieth : OnGrid g (1 / 20)) (h₀ : Proper r₀)
    (h : Pending g r₀ q deadline r now) {soon : Rat} (hsoon : soon ≤ deadline) (hshort : now + 1 / 20 ≤ deadline)
    (hgranted : ∀ t, soon ≤ t → t ≤ deadline → (r₀.acquire (q.call t)).1.answer = .ok true)
    {earlier later : List RateLimitRule} {rule : RateLimitRule} {limiter : Limiter}
    (hd : Denied r q now earlier rule later limiter) (hu : Unhindered r q deadline now) :
    now + effectiveWait (getMaxWaitTime (r.after (q.call now)) q now) ≤ deadline ∧
      1 / (g : Rat) ≤ min (effectiveWait (getMaxWaitTime (r.after (q.call now)) q now)) 1 ∧
      Pending g r₀ q deadline (r.after (q.call now))
        (now + min (effectiveWait (getMaxWaitTime (r.after (q.call now)) q now)) 1) := by
  have ht := hd.asks.allTried
  obtain ⟨hleast, hgridded⟩ := gridded_step hg htwentieth h.gridded ht q
  have hpos : 0 < 1 / (g : Rat) := one_div_pos.mpr (by exact_mod_cast hg)
  have hlimiters : ∀ m ∈ r₀.getMatchedRules q.method q.path, ∀ l'',
      (r.after (q.call now)).limiters.get m.name = some l'' → now + waitTime l'' now ≤ deadline ∧
        ∃ l, r₀.limiters.get m.name = some l ∧ Follows now (q.under m) l l'' := by
    intro m hm l'' hget''
    obtain ⟨l', hget', -⟩ := ht.back hget''
    obtain ⟨l, hget, hf⟩ := h.follows m hm l' hget'
    obtain ⟨before, after, hsplit⟩ := List.append_of_mem (h.matched.symm ▸ hm)
    obtain ⟨_, heq, hcases⟩ := limiter_of_denied h.proper hd hsplit hget'
    obtain rfl := Option.some.inj (hget''.symm.trans heq)
    rcases hcases with ⟨hgrant, ha⟩ | ⟨hno, rfl⟩
    · have hall : ∀ t, soon ≤ t → t ≤ deadline → grants l t (q.under m) = true :=
        fun t hfrom hto => allGrant_of_granted h₀ (hgranted t hfrom hto) m hm l hget
      obtain ⟨hwait, hnext⟩ := hf.asked (h₀.intervals _ l hget) hsoon h.inTime hall
        (hu.granting before m after l' hsplit hgrant hget')
        (fun f hfixed hg => hu.fits before m after f hsplit hgrant (hfixed ▸ hget') (hfixed ▸ hg)) ha
      exact ⟨hwait, l, hget, hnext⟩
    · exact ⟨hu.unasked before m after l'' hsplit hno hget', l, hget, hf⟩
  have hwait : now + effectiveWait (getMaxWaitTime (r.after (q.call now)) q now) ≤ deadline := by
    unfold effectiveWait
    split
    · next hlong =>
      rcases maxWait_cases (r.after (q.call now)) q now with hzero | ⟨m, hm, l'', hget, heq⟩
      · rw [hzero] at hlong
        exact absurd hlong (lt_irrefl 0)
      · rw [matched_after, h.matched] at hm
        rw [heq]
        exact (hlimiters m hm l'' hget).1
    · exact hshort
  have hsleep := min_le_left (effectiveWait (getMaxWaitTime (r.after (q.call now)) q now)) 1
  refine ⟨hwait, hleast, proper_tried h.proper ht, (after_rules r _).trans h.rules, ?_, hgridded, by linarith⟩
  intro m hm l'' hget''
  obtain ⟨-, l, hget, hf⟩ := hlimiters m hm l'' hget''
  exact ⟨l, hget, hf.behind.mono (by linarith), hf.fits⟩

/-- A request that `acquire` would grant from `delay` after the start until the timeout is
granted exactly if every attempt before that is unhindered. -/
theorem returns_iff_unhindered (hr : Proper r) (q : Request) (start timeout delay : Rat) (hdelay : 0 ≤ delay)
    (htimeout : delay + 1 / 20 ≤ timeout)
    (hgranted : ∀ t, start + delay ≤ t → t ≤ start + timeout → (r.acquire (q.call t)).1.answer = .ok true) :
    (∃ n, waitAndAcquire q (some timeout) start n r start = some (.ok true)) ↔
      ∀ r' now, Attempts q start r r' now → (r'.acquire (q.call now)).1.answer = .ok false →
        Unhindered r' q (start + timeout) now := by
  constructor
  · intro h r' now ha hdenied
    exact unhindered_of_returns (proper_attempts hr ha) (returns_attempts h ha) hdenied
  · intro hu
    obtain ⟨g, hg, htwentieth, hgridded⟩ := exists_gridded r start
    have hleast : 0 < 1 / (g : Rat) := one_div_pos.mpr (by exact_mod_cast hg)
    have hfirst : Pending g r q (start + timeout) r start :=
      ⟨hr, rfl, fun rule _ limiter hget => ⟨limiter, hget, behind_self limiter start, .inl rfl⟩, hgridded,
        by linarith⟩
    refine returns_of_progress (start + delay)
      (fun r' now => Attempts q start r r' now ∧ Pending g r q (start + timeout) r' now) hleast ?_ ?_ r start
      ⟨.first, hfirst⟩
    · rintro r' now ⟨-, h⟩ hnow
      exact granted_of_pending hr h (hgranted now hnow h.inTime)
    · rintro r' now ⟨ha, h⟩ hnow
      rcases attempt_denied h.proper q now with ⟨hyes, -⟩ | ⟨hdenied, earlier, rule, later, limiter, hd⟩
      · exact .inl hyes
      · obtain ⟨hwait, hlong, hnext⟩ := h.step hg htwentieth hr (by linarith) (by linarith) hgranted hd
          (hu r' now ha hdenied)
        refine .inr ⟨hdenied, ?_, hlong, ha.next hdenied, hnext⟩
        simp only [Option.any_some, decide_eq_false_iff_not, not_lt]
        linarith

/-- The one slot of the second 0 is used up. -/
def busy : RateLimiter := Runs.run RateLimiter.after (.new crowdedRules) [callAt "GET" 1 0]

def another : Request := ⟨u "GET", [], 1⟩

theorem busy_cases {rule : RateLimitRule} (hrule : rule ∈ busy.getMatchedRules another.method another.path)
    {limiter : Limiter} (hget : busy.limiters.get rule.name = some limiter) : another.under rule = 1 ∧
      (limiter = .sliding ⟨60, 100, [(0, 1)]⟩ ∨ limiter = .fixed ⟨1, 1, 0, 1⟩) := by
  have hminute : busy.limiters.get (u "minute") = some (.sliding ⟨60, 100, [(0, 1)]⟩) := by decide +kernel
  have hsecond : busy.limiters.get (u "second") = some (.fixed ⟨1, 1, 0, 1⟩) := by decide +kernel
  have hmem : rule ∈ crowdedRules := (List.mem_filter.mp hrule).1
  rcases List.mem_pair.mp hmem with rfl | rfl
  · rw [hminute] at hget
    exact ⟨rfl, .inl (Option.some.inj hget).symm⟩
  · rw [hsecond] at hget
    exact ⟨rfl, .inr (Option.some.inj hget).symm⟩

theorem proper_busy : Proper busy := proper_run (by decide) (by decide) [callAt "GET" 1 0]

theorem busy_grants {t : Rat} (ht : 1 ≤ t) : (busy.acquire (another.call t)).1.answer = .ok true := by
  rcases attempt_cases proper_busy another t with ⟨hyes, -⟩ | ⟨-, hno, -⟩
  · exact hyes
  · refine absurd (fun rule hrule limiter hget => ?_) hno
    obtain ⟨hw, rfl | rfl⟩ := busy_cases hrule hget
    · rw [hw, grants_sliding, SlidingWindowLimiter.pruneExpired, List.dropWhile_cons]
      split <;> simp
    · have hwindow : windowOf 1 t ≠ 0 := by
        have hfloor : 1 ≤ ⌊t⌋ := Int.le_floor.mpr (by exact_mod_cast ht)
        simp only [windowOf, Int.cast_one, div_one, mul_one, ne_eq, Int.cast_eq_zero]
        omega
      rw [hw, grants_fixed (by decide), advance_count, if_neg hwindow]
      decide

/-- With a timeout of a minute the first attempt is denied, and the second is granted. -/
theorem unhindered_minute : (busy.acquire (another.call 0)).1.answer = .ok false ∧
    Unhindered busy another (0 + 60) 0 ∧ ∃ n, waitAndAcquire another (some 60) 0 n busy 0 = some (.ok true) := by
  have hdenied : (busy.acquire (another.call 0)).1.answer = .ok false := by decide +kernel
  have hreturns : ∃ n, waitAndAcquire another (some 60) 0 n busy 0 = some (.ok true) := ⟨2, by decide +kernel⟩
  have hunhindered := (returns_iff_unhindered proper_busy another 0 60 1 (by norm_num) (by norm_num)
    fun t ht _ => busy_grants (by linarith)).mp hreturns
  exact ⟨hdenied, hunhindered busy 0 .first hdenied, hreturns⟩

/-- The loop gives up at once: the request of the second 0 stands in the limiter of
the minute, which would grant, for longer than the timeout. -/
theorem gives_up_early :
    (Proper busy ∧ (0 : Rat) ≤ 1 ∧ (1 : Rat) + 1 / 20 ≤ 2 ∧
      ∀ t, 0 + 1 ≤ t → t ≤ 0 + 2 → (busy.acquire (another.call t)).1.answer = .ok true) ∧
      ∀ n, waitAndAcquire another (some 2) 0 (n + 1) busy 0 = some (.ok false) := by
  refine ⟨⟨proper_busy, by norm_num, by norm_num, fun t ht _ => busy_grants (by linarith)⟩, fun n => ?_⟩
  have hdenied : (busy.acquire (another.call 0)).1.answer = .ok false := by decide +kernel
  have hlong : getMaxWaitTime (busy.after (another.call 0)) another 0 = 60 := by decide +kernel
  rw [waitAndAcquire, hdenied]
  simp only [hlong, effectiveWait]
  norm_num

end RateLimitTimeouts
