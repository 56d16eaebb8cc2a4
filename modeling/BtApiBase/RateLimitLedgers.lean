import Mathlib.Algebra.Order.Floor.Ring
import Mathlib.Algebra.Order.Field.Rat
import BtApiBase.RateLimits

/-!
# The ledger behind a rate limiter

A ledger keeps every reservation that stands and forgets nothing: a quota admits
a weight when the reservations that still count leave room for it, and a denied
call changes nothing. Pruned queues, reset windows and roll-backs are ways to
know the counted weight without the log, so a rate limiter answers as its ledger
does.
-/

namespace RateLimitLedgers

open PyText PyDict PyValue ChargeLogs RateLimits

abbrev Reservations := List Reservation

/-- What a limiter enforces, apart from what it remembers. -/
structure Quota where
  type : RateLimitType
  interval : Int
  limit : Int
  deriving DecidableEq

def quota : Limiter → Quota
  | .sliding l => ⟨.slidingWindow, l.interval, l.limit⟩
  | .fixed l => ⟨.fixedWindow, l.interval, l.limit⟩

namespace Quota

/-- A reservation made at `s` still counts at `now`. -/
def counts (q : Quota) (now s : Rat) : Bool :=
  match q.type with
  | .slidingWindow => now - q.interval ≤ s
  | _ => windowOf q.interval s = windowOf q.interval now

def admits (q : Quota) (now : Rat) (weight : Int) (log : Reservations) : Except ExcType Bool :=
  if q.type = .fixedWindow ∧ q.interval = 0 then .error (.other "ZeroDivisionError")
  else .ok (weightIn (q.counts now) log + weight ≤ q.limit)

end Quota

structure Ledger where
  quotas : PyStr → Option Quota
  log : Reservations

def reserveAll (quotas : PyStr → Option Quota) (c : Call) (kept : Reservations) :
    Nat → List RateLimitRule → Reservations → Reply
  | _, [], acquired => .admitted acquired
  | i, rule :: rest, acquired =>
    match quotas rule.name with
    | none => reserveAll quotas c kept i rest acquired
    | some q =>
      match q.admits (c.clock i) (rule.requestWeight c) (charged (kept ++ acquired) rule.name) with
      | .ok true =>
        reserveAll quotas c kept (i + 1) rest (acquired ++ [rule.reservation c i])
      | .ok false => .denied
      | .error e => .raised e acquired

namespace Ledger

def acquire (l : Ledger) (rules : List RateLimitRule) (c : Call) : Reply :=
  reserveAll l.quotas c l.log 0 (rules.filter fun rule => rule.match c.method c.path) []

def after (l : Ledger) (rules : List RateLimitRule) (c : Call) : Ledger :=
  { l with log := l.log ++ (l.acquire rules c).kept }

def replies (l : Ledger) (rules : List RateLimitRule) (calls : List Call) : List Reply :=
  Runs.log (fun l c => l.after rules c) (fun l c => [l.acquire rules c]) l calls

end Ledger

/-! ## What a limiter enforces -/

theorem advance_interval (l : FixedWindowLimiter) (now : Rat) :
    (l.advance now).interval = l.interval := by
  unfold FixedWindowLimiter.advance
  split <;> rfl

theorem advance_limit (l : FixedWindowLimiter) (now : Rat) : (l.advance now).limit = l.limit := by
  unfold FixedWindowLimiter.advance
  split <;> rfl

theorem quota_release (limiter : Limiter) (now : Rat) (w : Int) :
    quota (limiter.release now w) = quota limiter := by
  cases limiter with
  | fixed l => rfl
  | sliding l =>
    simp only [Limiter.release, SlidingWindowLimiter.release]
    split <;> rfl

/-- What a limiter can do when it is asked: it is brought up to date, and then charges the weight
or refuses it. -/
inductive Asked (now : Rat) (w : Int) : Limiter → Bool → Limiter → Prop
  | slidingGranted (l : SlidingWindowLimiter) : Asked now w (.sliding l) true
      (.sliding { l.pruneExpired now with requests := (l.pruneExpired now).requests ++ [(now, w)] })
  | slidingRefused (l : SlidingWindowLimiter) :
      Asked now w (.sliding l) false (.sliding (l.pruneExpired now))
  | fixedGranted (l : FixedWindowLimiter) : Asked now w (.fixed l) true
      (.fixed { l.advance now with windowCount := (l.advance now).windowCount + w })
  | fixedRefused (l : FixedWindowLimiter) : Asked now w (.fixed l) false (.fixed (l.advance now))

theorem asked_of_ok {limiter limiter' : Limiter} {now : Rat} {w : Int} {b : Bool}
    (h : limiter.acquire now w = .ok (b, limiter')) : Asked now w limiter b limiter' := by
  cases limiter with
  | sliding l =>
    simp only [Limiter.acquire, SlidingWindowLimiter.acquire, Except.ok.injEq, Prod.mk.injEq] at h
    obtain ⟨rfl, rfl⟩ := h
    split
    · exact .slidingGranted l
    · exact .slidingRefused l
  | fixed l =>
    unfold Limiter.acquire at h
    dsimp only at h
    split at h
    · cases h
    · simp only [FixedWindowLimiter.acquire, Except.ok.injEq, Prod.mk.injEq] at h
      obtain ⟨rfl, rfl⟩ := h
      split
      · exact .fixedGranted l
      · exact .fixedRefused l

theorem quota_acquire {limiter limiter' : Limiter} {now : Rat} {w : Int} {b : Bool}
    (h : limiter.acquire now w = .ok (b, limiter')) : quota limiter' = quota limiter := by
  cases asked_of_ok h with
  | slidingGranted l => rfl
  | slidingRefused l => rfl
  | fixedGranted l => simp only [quota, advance_interval, advance_limit]
  | fixedRefused l => simp only [quota, advance_interval, advance_limit]

/-- The quota that stands under each name. -/
def quotasOf (limiters : Dict PyStr Limiter) (k : PyStr) : Option Quota := (limiters.get k).map quota

theorem quotasOf_set {limiters : Dict PyStr Limiter} {k : PyStr} {limiter limiter' : Limiter}
    (hk : limiters.get k = some limiter) (hq : quota limiter' = quota limiter) :
    quotasOf (limiters.set k limiter') = quotasOf limiters := by
  funext j
  rw [quotasOf, quotasOf, Dict.get_set]
  split
  · next h => rw [h, hk, Option.map_some, Option.map_some, hq]
  · rfl

theorem quotasOf_releaseAll (clock : Nat → Rat) (stack : Reservations) (i : Nat)
    (limiters : Dict PyStr Limiter) :
    quotasOf (releaseAll clock i stack limiters) = quotasOf limiters := by
  induction stack generalizing i limiters with
  | nil => rfl
  | cons a stack ih =>
    unfold releaseAll
    split
    · next limiter hk => rw [ih, quotasOf_set hk (quota_release limiter _ _)]
    · exact ih (i + 1) limiters

theorem quotasOf_acquireAll (c : Call) (rules : List RateLimitRule) (i : Nat)
    (acquired : Reservations) (limiters : Dict PyStr Limiter) :
    quotasOf (acquireAll c i rules acquired limiters).2 = quotasOf limiters := by
  induction rules generalizing i acquired limiters with
  | nil => rfl
  | cons rule rules ih =>
    unfold acquireAll
    split
    · exact ih i acquired limiters
    · next limiter hk =>
      split
      · next limiter' ha => rw [ih, quotasOf_set hk (quota_acquire ha)]
      · next limiter' ha => rw [quotasOf_releaseAll, quotasOf_set hk (quota_acquire ha)]
      · rfl

/-- An admitted call holds a reservation for every rule whose name has a limiter. -/
theorem reservation_of_admitted {c : Call} {rules : List RateLimitRule} {i : Nat}
    {acquired final : Reservations} {limiters : Dict PyStr Limiter}
    (h : (acquireAll c i rules acquired limiters).1 = .admitted final) :
    (∀ a ∈ acquired, a ∈ final) ∧
      ∀ rule ∈ rules, (quotasOf limiters rule.name).isSome → ∃ j, rule.reservation c j ∈ final := by
  induction rules generalizing i acquired limiters with
  | nil =>
    cases h
    exact ⟨fun _ h => h, by simp⟩
  | cons rule rules ih =>
    unfold acquireAll at h
    cases hk : limiters.get rule.name with
    | none =>
      rw [hk] at h
      obtain ⟨hold, hrest⟩ := ih h
      refine ⟨hold, fun r hr hsome => ?_⟩
      rcases List.mem_cons.mp hr with rfl | hr
      · simp [quotasOf, hk] at hsome
      · exact hrest r hr hsome
    | some limiter =>
      rw [hk] at h
      dsimp only at h
      split at h
      · next limiter' ha =>
        obtain ⟨hold, hrest⟩ := ih h
        rw [quotasOf_set hk (quota_acquire ha)] at hrest
        refine ⟨fun a ha => hold a (List.mem_append_left _ ha), fun r hr hsome => ?_⟩
        rcases List.mem_cons.mp hr with rfl | hr
        · exact ⟨i, hold _ (by simp)⟩
        · exact hrest r hr hsome
      · cases h
      · cases h

/-! ## What a limiter remembers -/

theorem windowOf_mono (interval : Int) : Monotone (windowOf interval) := by
  intro a b h
  rcases le_total 0 interval with hi | hi
  · have hi' : (0 : Rat) ≤ interval := by exact_mod_cast hi
    have hf : ⌊a / interval⌋ ≤ ⌊b / interval⌋ := Int.floor_mono (div_le_div_of_nonneg_right h hi')
    exact mul_le_mul_of_nonneg_right (by exact_mod_cast hf) hi'
  · have hi' : (interval : Rat) ≤ 0 := by exact_mod_cast hi
    have hf : ⌊b / interval⌋ ≤ ⌊a / interval⌋ := Int.floor_mono (div_le_div_of_nonpos_of_le hi' h)
    exact mul_le_mul_of_nonpos_right (by exact_mod_cast hf) hi'

/-- The entries of the queue that a log stands for. -/
def entries (log : Reservations) : List (Rat × Int) := log.map fun c => (c.time, c.weight)

theorem dropWhile_entries {log : Reservations} (hs : Sorted log) (t : Rat) :
    (entries log).dropWhile (fun r => r.1 < t) = entries (since t log) := by
  rw [← dropWhile_eq_since hs, entries, entries, List.dropWhile_map]
  rfl

theorem entries_append (log log' : Reservations) : entries (log ++ log') = entries log ++ entries log' :=
  List.map_append

/-- From `t` on the queue is pruned to the reservations that count. -/
def SlidingAccounts (l : SlidingWindowLimiter) (log : Reservations) (t : Rat) : Prop :=
  ∀ now, t ≤ now → (l.pruneExpired now).requests = entries (since (now - l.interval) log)

/-- From `t` on the counter is the weight in the window of the reading; what the
limiter charged below zero stands in the window it is in. -/
structure FixedAccounts (l : FixedWindowLimiter) (log : Reservations) (t : Rat) : Prop where
  count : ∀ now, t ≤ now → (l.advance now).windowCount =
    weightIn (fun s => windowOf l.interval s = windowOf l.interval now) log
  current : ∀ c ∈ log, 0 ≤ c.weight ∨ windowOf l.interval c.time = l.windowStart

def Accounts : Limiter → Reservations → Rat → Prop
  | .sliding l => SlidingAccounts l
  | .fixed l => FixedAccounts l

theorem accounts_mono {limiter : Limiter} {log : Reservations} {t t' : Rat}
    (h : Accounts limiter log t) (ht : t ≤ t') : Accounts limiter log t' := by
  cases limiter with
  | sliding l => exact fun now hn => h now (ht.trans hn)
  | fixed l => exact ⟨fun now hn => h.count now (ht.trans hn), h.current⟩

section

variable {l : SlidingWindowLimiter} {log : Reservations} {t now : Rat}

theorem interval_release (l : SlidingWindowLimiter) (now : Rat) (w : Int) :
    (l.release now w).interval = l.interval := by
  unfold SlidingWindowLimiter.release
  dsimp only
  split <;> rfl

/-- A queue that holds a sorted part of the log, the rest being too old to count. -/
theorem slidingAccounts_of_entries {kept : Reservations} (hr : l.requests = entries kept)
    (hs : Sorted kept)
    (hf : ∀ now, t ≤ now → since (now - l.interval) kept = since (now - l.interval) log) :
    SlidingAccounts l log t := by
  intro now hn
  show l.requests.dropWhile _ = _
  rw [hr, dropWhile_entries hs, hf now hn]

theorem slidingAccounts_pruned (h : SlidingAccounts l log t) (hs : Sorted log) (ht : t ≤ now) :
    SlidingAccounts (l.pruneExpired now) log now := by
  refine slidingAccounts_of_entries (h now ht) (sorted_since hs _) fun n hn => ?_
  exact since_since (sub_le_sub_right hn _) log

theorem slidingAccounts_charged (h : SlidingAccounts l log t) (hs : Sorted log)
    (hp : ∀ c ∈ log, c.time ≤ t) (ht : t ≤ now) (k : PyStr) (w : Int) :
    SlidingAccounts { l with requests := (l.pruneExpired now).requests ++ [(now, w)] }
      (log ++ [⟨k, now, w⟩]) now := by
  have hr : (l.pruneExpired now).requests ++ [(now, w)] =
      entries (since (now - l.interval) log ++ [⟨k, now, w⟩]) := by
    rw [h now ht, entries_append]
    rfl
  have hsort : Sorted (since (now - l.interval) log ++ [⟨k, now, w⟩]) := by
    refine sorted_concat.mpr ⟨sorted_since hs _, fun d hd => ?_⟩
    exact (hp d (List.mem_filter.mp hd).1).trans ht
  refine slidingAccounts_of_entries hr hsort fun n hn => ?_
  rw [since_concat, since_concat, since_since (sub_le_sub_right hn _)]

/-- Releasing the last reservation of a log takes it out of the queue, if it has not
expired; if it has, so have all others. -/
theorem slidingAccounts_released {c : Reservation} (h : SlidingAccounts l (log ++ [c]) t)
    (hs : Sorted (log ++ [c])) (ht : t ≤ now) :
    SlidingAccounts (l.release now c.weight) log now := by
  have hr := h now ht
  obtain ⟨hs', hlast⟩ := sorted_concat.mp hs
  rw [since_concat] at hr
  have hreq : (l.release now c.weight).requests = entries (since (now - l.interval) log) := by
    by_cases hc : now - l.interval ≤ c.time
    · rw [if_pos hc, entries_append] at hr
      simp only [SlidingWindowLimiter.release, hr]
      simp [entries]
    · have hnone : since (now - l.interval) log = [] :=
        since_eq_nil fun d hd => (hlast d hd).trans_lt (not_le.mp hc)
      rw [if_neg hc, hnone] at hr
      simp only [SlidingWindowLimiter.release, hr, hnone]
      simp [entries, hr]
  refine slidingAccounts_of_entries hreq (sorted_since hs' _) fun n hn => ?_
  rw [interval_release]
  exact since_since (sub_le_sub_right hn _) log

end

section

variable {l : FixedWindowLimiter} {log : Reservations} {t now : Rat}

theorem advance_count (l : FixedWindowLimiter) (now : Rat) :
    (l.advance now).windowCount = if windowOf l.interval now = l.windowStart then l.windowCount else 0 := by
  unfold FixedWindowLimiter.advance
  split <;> simp_all

theorem advance_start (l : FixedWindowLimiter) (now : Rat) :
    (l.advance now).windowStart = windowOf l.interval now := by
  unfold FixedWindowLimiter.advance
  split <;> simp_all

/-- What was charged by `now` is not in a window that begins after it. -/
theorem weightIn_later (interval : Int) {log : Reservations} (hp : ∀ c ∈ log, c.time ≤ now)
    {n : Rat} (hn : now ≤ n) (hw : windowOf interval n ≠ windowOf interval now) :
    weightIn (fun s => windowOf interval s = windowOf interval n) log = 0 := by
  refine weightIn_eq_zero fun c hc => ?_
  rw [decide_eq_false_iff_not]
  intro he
  have h₁ : windowOf interval c.time ≤ windowOf interval now := windowOf_mono interval (hp c hc)
  have h₂ : windowOf interval now ≤ windowOf interval n := windowOf_mono interval hn
  exact hw (le_antisymm (he ▸ h₁) h₂)

theorem fixedAccounts_advanced (h : FixedAccounts l log t) (hp : ∀ c ∈ log, c.time ≤ t)
    (hw : ∀ c ∈ log, 0 ≤ c.weight) (ht : t ≤ now) : FixedAccounts (l.advance now) log now where
  count n hn := by
    have hi := advance_interval l now
    rw [advance_count]
    simp only [hi, advance_start]
    by_cases he : windowOf l.interval n = windowOf l.interval now
    · simp only [he, h.count now ht, if_true]
    · have hz := weightIn_later l.interval (fun c hc => (hp c hc).trans ht) hn he
      simp only [he, if_false, hz]
  current c hc := .inl (hw c hc)

/-- The window of `now`, with `w` more in the counter for a charge of `w`. -/
theorem fixedAccounts_charge (h : FixedAccounts l log now) (hstart : l.windowStart = windowOf l.interval now)
    (hw : ∀ c ∈ log, 0 ≤ c.weight) (k : PyStr) (w : Int) :
    FixedAccounts { l with windowCount := l.windowCount + w } (log ++ [⟨k, now, w⟩]) now where
  count n hn := by
    have hcount := h.count n hn
    rw [advance_count, hstart] at hcount
    rw [advance_count, weightIn_concat, ← hcount]
    dsimp only
    rw [hstart]
    by_cases he : windowOf l.interval n = windowOf l.interval now
    · simp only [he, if_true, decide_true]
    · simp [he, Ne.symm he]
  current c hc := by
    rcases List.mem_append.mp hc with hc | hc
    · exact .inl (hw c hc)
    · obtain rfl := List.mem_singleton.mp hc
      exact .inr hstart.symm

theorem fixedAccounts_charged (h : FixedAccounts l log t) (hp : ∀ c ∈ log, c.time ≤ t)
    (hw : ∀ c ∈ log, 0 ≤ c.weight) (ht : t ≤ now) (k : PyStr) (w : Int) :
    FixedAccounts { l.advance now with windowCount := (l.advance now).windowCount + w }
      (log ++ [⟨k, now, w⟩]) now := by
  have hstart : (l.advance now).windowStart = windowOf (l.advance now).interval now := by
    rw [advance_start, advance_interval]
  exact fixedAccounts_charge (fixedAccounts_advanced h hp hw ht) hstart hw k w

/-- The clamp at zero hides nothing: a charge that is no longer in the window of the
limiter has no older ones beside it there. -/
theorem fixedAccounts_released {c : Reservation} (h : FixedAccounts l (log ++ [c]) t)
    (hs : Sorted (log ++ [c])) (hp : c.time ≤ t) (hw : ∀ c ∈ log, 0 ≤ c.weight) :
    FixedAccounts (l.release c.weight) log t where
  count n hn := by
    have hc := h.count n hn
    have hlast : ∀ d ∈ log, d.time ≤ c.time := (sorted_concat.mp hs).2
    have hnonneg : 0 ≤ weightIn (fun s => windowOf l.interval s = windowOf l.interval n) log :=
      weightIn_nonneg hw
    rw [weightIn_concat, advance_count] at hc
    have hr : ((l.release c.weight).advance n).windowCount =
        if windowOf l.interval n = l.windowStart then max 0 (l.windowCount - c.weight) else 0 :=
      advance_count _ n
    show _ = weightIn (fun s => windowOf l.interval s = windowOf l.interval n) log
    rw [hr]
    by_cases hin : windowOf l.interval c.time = windowOf l.interval n
    · simp only [hin, decide_true, if_true] at hc
      by_cases hstart : windowOf l.interval n = l.windowStart
      · simp only [hstart, if_true] at hc ⊢
        rw [hc]
        simpa [hstart] using hnonneg
      · have hcw : 0 ≤ c.weight := by
          rcases h.current c (by simp) with hcw | hcw
          · exact hcw
          · exact absurd (hin ▸ hcw) hstart
        simp only [hstart, if_false] at hc ⊢
        omega
    · have hz := weightIn_later l.interval hlast (hp.trans hn) (Ne.symm hin)
      simp only [hin, decide_false, Bool.false_eq_true, if_false, add_zero] at hc
      rw [hz] at hc ⊢
      by_cases hstart : windowOf l.interval n = l.windowStart
      · have hcw : 0 ≤ c.weight := by
          rcases h.current c (by simp) with hcw | hcw
          · exact hcw
          · exact absurd (hcw.trans hstart.symm) hin
        simp only [hstart, if_true] at hc ⊢
        omega
      · simp only [hstart, if_false]
  current d hd := .inl (hw d hd)

end

/-! ## One operation of a limiter -/

section

variable {limiter : Limiter} {log : Reservations} {t now : Rat}

theorem admits_sliding (l : SlidingWindowLimiter) (now : Rat) (w : Int) (log : Reservations) :
    (quota (.sliding l)).admits now w log =
      .ok (weightIn ((quota (.sliding l)).counts now) log + w ≤ l.limit) := by
  rw [Quota.admits, if_neg (by simp [quota])]
  rfl

theorem admits_fixed {l : FixedWindowLimiter} (hi : l.interval ≠ 0) (now : Rat) (w : Int)
    (log : Reservations) : (quota (.fixed l)).admits now w log =
      .ok (weightIn ((quota (.fixed l)).counts now) log + w ≤ l.limit) := by
  rw [Quota.admits, if_neg (by simp [quota, hi])]
  rfl

/-- A limiter decides as its quota does on the log that it accounts for. -/
theorem acquire_spec (h : Accounts limiter log t) (hs : Sorted log) (hp : ∀ c ∈ log, c.time ≤ t)
    (hw : ∀ c ∈ log, 0 ≤ c.weight) (ht : t ≤ now) (k : PyStr) (w : Int) :
    (∃ e, (quota limiter).admits now w log = .error e ∧ limiter.acquire now w = .error e) ∨
    ∃ b limiter', (quota limiter).admits now w log = .ok b ∧
      limiter.acquire now w = .ok (b, limiter') ∧
      Accounts limiter' (if b then log ++ [⟨k, now, w⟩] else log) now := by
  cases limiter with
  | sliding l =>
    have hsum : ((l.pruneExpired now).requests.map Prod.snd).sum =
        weightIn ((quota (.sliding l)).counts now) log := by
      rw [h now ht]
      simp [entries, since, weightIn, quota, Quota.counts, Function.comp_def]
    have hl : (l.pruneExpired now).limit = l.limit := rfl
    right
    by_cases hle : weightIn ((quota (.sliding l)).counts now) log + w ≤ l.limit
    · refine ⟨true, .sliding { l with requests := (l.pruneExpired now).requests ++ [(now, w)] },
        ?_, ?_, slidingAccounts_charged h hs hp ht k w⟩
      · rw [admits_sliding, decide_eq_true hle]
      · simp only [Limiter.acquire, SlidingWindowLimiter.acquire, hsum, hl, hle, if_true]
        rfl
    · refine ⟨false, .sliding (l.pruneExpired now), ?_, ?_, slidingAccounts_pruned h hs ht⟩
      · rw [admits_sliding, decide_eq_false hle]
      · simp only [Limiter.acquire, SlidingWindowLimiter.acquire, hsum, hl, hle, if_false]
  | fixed l =>
    by_cases hi : l.interval = 0
    · refine .inl ⟨.other "ZeroDivisionError", ?_, ?_⟩
      · rw [Quota.admits, if_pos ⟨rfl, hi⟩]
      · simp only [Limiter.acquire, hi, if_true]
    have hcount : (l.advance now).windowCount =
        weightIn ((quota (.fixed l)).counts now) log := h.count now ht
    have hl := advance_limit l now
    right
    by_cases hle : weightIn ((quota (.fixed l)).counts now) log + w ≤ l.limit
    · refine ⟨true, .fixed { l.advance now with windowCount := (l.advance now).windowCount + w },
        ?_, ?_, fixedAccounts_charged h hp hw ht k w⟩
      · rw [admits_fixed hi, decide_eq_true hle]
      · simp only [Limiter.acquire, FixedWindowLimiter.acquire, hi, hcount, hl, hle, if_true,
          if_false]
    · refine ⟨false, .fixed (l.advance now), ?_, ?_, fixedAccounts_advanced h hp hw ht⟩
      · rw [admits_fixed hi, decide_eq_false hle]
      · simp only [Limiter.acquire, FixedWindowLimiter.acquire, hi, hcount, hl, hle, if_false]

theorem release_spec {c : Reservation} (h : Accounts limiter (log ++ [c]) t)
    (hs : Sorted (log ++ [c])) (hp : c.time ≤ t) (hw : ∀ c ∈ log, 0 ≤ c.weight) (ht : t ≤ now) :
    Accounts (limiter.release now c.weight) log now := by
  cases limiter with
  | sliding l => exact slidingAccounts_released h hs ht
  | fixed l =>
    have hl : Accounts (.fixed (l.release c.weight)) log t := fixedAccounts_released h hs hp hw
    exact accounts_mono hl ht

end

/-! ## The loops of a call -/

/-- The limiters enforce the quotas of the ledger and account for its log. -/
structure Accounted (limiters : Dict PyStr Limiter) (l : Ledger) (t : Rat) : Prop where
  sorted : Sorted l.log
  past : ∀ c ∈ l.log, c.time ≤ t
  quotas : quotasOf limiters = l.quotas
  accounts : ∀ k limiter, limiters.get k = some limiter → Accounts limiter (charged l.log k) t

section

variable {limiters : Dict PyStr Limiter} {l : Ledger} {t now : Rat}

theorem Accounted.mono (h : Accounted limiters l t) (ht : t ≤ now) : Accounted limiters l now where
  sorted := h.sorted
  past c hc := (h.past c hc).trans ht
  quotas := h.quotas
  accounts k limiter hk := accounts_mono (h.accounts k limiter hk) ht

/-- One limiter is replaced and one account of the log changes with it. -/
theorem Accounted.update (h : Accounted limiters l t) {k : PyStr} {limiter limiter' : Limiter}
    {log : Reservations} (hk : limiters.get k = some limiter) (hq : quota limiter' = quota limiter)
    (ha : Accounts limiter' (charged log k) now) (ht : t ≤ now) (hs : Sorted log)
    (hp : ∀ c ∈ log, c.time ≤ now) (ho : ∀ j, j ≠ k → charged log j = charged l.log j) :
    Accounted (limiters.set k limiter') ⟨l.quotas, log⟩ now where
  sorted := hs
  past := hp
  quotas := (quotasOf_set hk hq).trans h.quotas
  accounts j m hj := by
    rw [Dict.get_set] at hj
    split at hj
    · next he =>
      obtain rfl : limiter' = m := by simpa using hj
      subst he
      exact ha
    · next he =>
      rw [ho j he]
      exact accounts_mono (h.accounts j m hj) ht

end

def keys (log : Reservations) : List (PyStr × Int) := log.map fun c => (c.account, c.weight)

/-- Before a reservation that is tame in its log, its account holds no weight below
zero. -/
theorem nonneg_of_tame {log : Reservations} {k : PyStr} {w : Int} {rest : List (PyStr × Int)}
    (h : Tame (keys log ++ (k, w) :: rest)) : ∀ c ∈ charged log k, 0 ≤ c.weight := by
  intro c hc
  obtain ⟨hc, hk⟩ := mem_charged.mp hc
  have hcross := (List.pairwise_append.mp h).2.2
  exact hcross (c.account, c.weight) (List.mem_map_of_mem hc) (k, w) (by simp) hk

theorem keys_append (log log' : Reservations) : keys (log ++ log') = keys log ++ keys log' :=
  List.map_append

/-- Rolling back the reservations of a call leaves the log as it was before them. -/
theorem accounted_releaseAll {clock : Nat → Rat} (hc : Monotone clock) (quotas : PyStr → Option Quota)
    (kept : Reservations) (stack : Reservations) :
    ∀ (i : Nat) (limiters : Dict PyStr Limiter) (t : Rat),
      Accounted limiters ⟨quotas, kept ++ stack.reverse⟩ t → t ≤ clock i →
      Tame (keys (kept ++ stack.reverse)) →
      ∃ n, Accounted (releaseAll clock i stack limiters) ⟨quotas, kept⟩ (clock n) := by
  induction stack with
  | nil =>
    intro i limiters t h ht _
    exact ⟨i, by simpa [releaseAll] using h.mono ht⟩
  | cons a stack ih =>
    intro i limiters t h ht htame
    rw [List.reverse_cons, ← List.append_assoc] at h htame
    rw [keys_append] at htame
    have hw : ∀ c ∈ charged (kept ++ stack.reverse) a.account, 0 ≤ c.weight := nonneg_of_tame htame
    have htame' := (List.pairwise_append.mp htame).1
    have hs := (sorted_concat.mp h.sorted).1
    have hp : ∀ c ∈ kept ++ stack.reverse, c.time ≤ clock i :=
      fun c hc => (h.past c (List.mem_append_left _ hc)).trans ht
    have hother : ∀ j, j ≠ a.account →
        charged (kept ++ stack.reverse) j = charged (kept ++ stack.reverse ++ [a]) j :=
      fun j hj => (charged_concat_other _ hj).symm
    unfold releaseAll
    cases hk : limiters.get a.account with
    | none =>
      refine ih (i + 1) limiters (clock i) ⟨hs, hp, h.quotas, fun k m hm => ?_⟩
        (hc (Nat.le_succ i)) htame'
      have hne : k ≠ a.account := by
        rintro rfl
        rw [hk] at hm
        cases hm
      rw [hother k hne]
      exact accounts_mono (h.accounts k m hm) ht
    | some limiter =>
      have ha := h.accounts _ _ hk
      rw [charged_concat_same] at ha
      have hsa : Sorted (charged (kept ++ stack.reverse) a.account ++ [a]) := by
        rw [← charged_concat_same]
        exact sorted_charged h.sorted _
      have hacc := release_spec ha hsa (h.past a (by simp)) hw ht
      exact ih (i + 1) _ (clock i) (h.update hk (quota_release _ _ _) hacc ht hs hp hother)
        (hc (Nat.le_succ i)) htame'

/-- The weights that the remaining rules will ask for, under their names. -/
def asked (c : Call) (rules : List RateLimitRule) : List (PyStr × Int) :=
  rules.map fun rule => (rule.name, rule.requestWeight c)

/-- The loop answers as the ledger does and leaves limiters that account for what the
ledger keeps. -/
theorem acquireAll_refines {c : Call} (hc : Monotone c.clock) (quotas : PyStr → Option Quota)
    (kept : Reservations) (rules : List RateLimitRule) :
    ∀ (i : Nat) (acquired : Reservations) (limiters : Dict PyStr Limiter) (t : Rat),
      Accounted limiters ⟨quotas, kept ++ acquired⟩ t → t ≤ c.clock i →
      Tame (keys (kept ++ acquired) ++ asked c rules) →
      (acquireAll c i rules acquired limiters).1 = reserveAll quotas c kept i rules acquired ∧
      ∃ n, Accounted (acquireAll c i rules acquired limiters).2
        ⟨quotas, kept ++ (reserveAll quotas c kept i rules acquired).kept⟩ (c.clock n) := by
  induction rules with
  | nil =>
    intro i acquired limiters t h ht _
    exact ⟨rfl, i, h.mono ht⟩
  | cons rule rules ih =>
    intro i acquired limiters t h ht htame
    unfold acquireAll reserveAll
    have hquotas : (limiters.get rule.name).map quota = quotas rule.name := congrFun h.quotas rule.name
    rw [← hquotas]
    cases hk : limiters.get rule.name with
    | none =>
      refine ih i acquired limiters t h ht (htame.sublist ?_)
      exact List.Sublist.append_left (List.sublist_cons_self _ _) _
    | some limiter =>
      have hw := nonneg_of_tame htame
      have hs := sorted_charged h.sorted rule.name
      have hp : ∀ d ∈ charged (kept ++ acquired) rule.name, d.time ≤ t :=
        fun d hd => h.past d (mem_charged.mp hd).1
      have hpast : ∀ d ∈ kept ++ acquired, d.time ≤ c.clock i := fun d hd => (h.past d hd).trans ht
      simp only [Option.map_some]
      rcases acquire_spec (h.accounts _ _ hk) hs hp hw ht rule.name (rule.requestWeight c) with
        ⟨e, hq, ha⟩ | ⟨b, limiter', hq, ha, hacc⟩
      · simp only [hq, ha, true_and]
        exact ⟨i, h.mono ht⟩
      · simp only [hq, ha]
        cases b with
        | true =>
          have hlog : kept ++ (acquired ++ [rule.reservation c i]) =
              kept ++ acquired ++ [rule.reservation c i] := (List.append_assoc _ _ _).symm
          have hcharged : charged (kept ++ acquired ++ [rule.reservation c i]) rule.name =
              charged (kept ++ acquired) rule.name ++ [rule.reservation c i] :=
            charged_concat_same _ (rule.reservation c i)
          have hsort : Sorted (kept ++ acquired ++ [rule.reservation c i]) :=
            sorted_concat.mpr ⟨h.sorted, hpast⟩
          have hpast' : ∀ d ∈ kept ++ acquired ++ [rule.reservation c i], d.time ≤ c.clock i := by
            intro d hd
            rcases List.mem_append.mp hd with hd | hd
            · exact hpast d hd
            · rw [List.mem_singleton.mp hd]
              exact le_rfl
          have hnext := h.update hk (quota_acquire ha) (hcharged ▸ hacc) ht hsort hpast'
            fun j hj => charged_concat_other (c := rule.reservation c i) _ hj
          rw [← hlog] at hnext
          refine ih (i + 1) _ _ (c.clock i) hnext (hc (Nat.le_succ i)) ?_
          rw [hlog, keys_append, List.append_assoc]
          exact htame
        | false =>
          have hd := h.update hk (quota_acquire ha) hacc ht h.sorted hpast fun _ _ => rfl
          have hroll : Accounted (limiters.set rule.name limiter')
              ⟨quotas, kept ++ acquired.reverse.reverse⟩ (c.clock i) := by
            rw [List.reverse_reverse]
            exact hd
          have htame' : Tame (keys (kept ++ acquired.reverse.reverse)) := by
            rw [List.reverse_reverse]
            exact (List.pairwise_append.mp htame).1
          obtain ⟨n, hn⟩ := accounted_releaseAll hc quotas kept acquired.reverse (i + 1) _
            (c.clock i) hroll (hc (Nat.le_succ i)) htame'
          refine ⟨rfl, n, ?_⟩
          simpa [Reply.kept] using hn

/-- A call keeps reservations of the rules that it matched. -/
theorem mem_kept_reserveAll {quotas : PyStr → Option Quota} {c : Call} {kept : Reservations}
    {rules : List RateLimitRule} {i : Nat} {acquired : Reservations} {a : Reservation}
    (h : a ∈ (reserveAll quotas c kept i rules acquired).kept) :
    a ∈ acquired ∨ ∃ rule ∈ rules, ∃ j, a = rule.reservation c j := by
  induction rules generalizing i acquired with
  | nil => exact .inl h
  | cons rule rules ih =>
    have hrest : ∀ {j acq}, a ∈ (reserveAll quotas c kept j rules acq).kept →
        a ∈ acq ∨ ∃ r ∈ rule :: rules, ∃ j, a = r.reservation c j := by
      intro j acq h
      rcases ih h with h | ⟨r, hr, ha⟩
      · exact .inl h
      · exact .inr ⟨r, List.mem_cons_of_mem _ hr, ha⟩
    unfold reserveAll at h
    split at h
    · exact hrest h
    · split at h
      · rcases hrest h with h | h
        · rcases List.mem_append.mp h with h | h
          · exact .inl h
          · exact .inr ⟨rule, List.mem_cons_self, i, List.mem_singleton.mp h⟩
        · exact .inr h
      · cases h
      · exact .inl h

/-! ## Calls and runs -/

theorem acquireAll_eq (r : RateLimiter) (c : Call) :
    r.acquire c = ((acquireAll c 0 (r.getMatchedRules c.method c.path) [] r.limiters).1,
      { r with limiters := (acquireAll c 0 (r.getMatchedRules c.method c.path) [] r.limiters).2 }) := by
  unfold RateLimiter.acquire
  by_cases hr : r.rules.isEmpty
  · have hm : r.getMatchedRules c.method c.path = [] := by
      simp [RateLimiter.getMatchedRules, List.isEmpty_iff.mp hr]
    simp [hr, hm, acquireAll]
  · by_cases hm : (r.getMatchedRules c.method c.path).isEmpty
    · simp [hr, List.isEmpty_iff.mp hm, acquireAll]
    · simp [hr, hm]

/-- The rate limiter answers as the ledger does if no weight below zero gets in the
way of a roll-back. -/
theorem acquire_refines {r : RateLimiter} {l : Ledger} {t : Rat} (h : Accounted r.limiters l t)
    {c : Call} (hc : Monotone c.clock) (ht : t ≤ c.clock 0)
    (htame : Tame (keys l.log ++ asked c (r.getMatchedRules c.method c.path))) :
    (r.acquire c).1 = l.acquire r.rules c ∧
      ∀ u, (∀ i, c.clock i ≤ u) → Accounted (r.after c).limiters (l.after r.rules c) u := by
  have hinit : Accounted r.limiters ⟨l.quotas, l.log ++ []⟩ t := by
    rw [List.append_nil]
    exact h
  obtain ⟨hreply, n, hn⟩ := acquireAll_refines hc l.quotas l.log
    (r.getMatchedRules c.method c.path) 0 [] r.limiters t hinit ht (by simpa using htame)
  rw [RateLimiter.after, acquireAll_eq]
  exact ⟨hreply, fun u hu => hn.mono (hu n)⟩

def Nonneg (log : Reservations) : Prop := ∀ c ∈ log, 0 ≤ c.weight

/-- The weights of a rule are not below zero. -/
def RuleNonneg (rule : RateLimitRule) : Prop :=
  0 ≤ rule.weight ∧ ∀ m, rule.weightMap = some m → ∀ w ∈ m.values, 0 ≤ w

theorem getWeight_nonneg {rule : RateLimitRule} (h : RuleNonneg rule) (method path : PyStr) :
    0 ≤ rule.getWeight method path := by
  have hmem : ∀ (m : Dict PyStr Int) (k : PyStr) (w : Int), m.get k = some w → w ∈ m.values := by
    intro m k w hw
    exact List.mem_map.mpr ⟨_, Dict.mem_of_get hw, rfl⟩
  unfold RateLimitRule.getWeight
  cases hm : rule.weightMap with
  | none => exact h.1
  | some m =>
    dsimp only
    split
    · exact h.1
    · cases hk : m.get (method ++ u " " ++ path) with
      | some w => exact h.2 m hm w (hmem m _ w hk)
      | none =>
        cases hk' : m.get method with
        | some w => exact h.2 m hm w (hmem m _ w hk')
        | none => exact h.1

/-- A request weighs nothing below zero under any of the rules. -/
def NonnegRequests (rules : List RateLimitRule) (c : Call) : Prop :=
  ∀ rule ∈ rules, 0 ≤ rule.requestWeight c

theorem nonnegRequests_of {rules : List RateLimitRule} (h : ∀ rule ∈ rules, RuleNonneg rule) {c : Call}
    (hc : 0 ≤ c.weight) : NonnegRequests rules c :=
  fun rule hrule => mul_nonneg (getWeight_nonneg (h rule hrule) _ _) hc

theorem tame_of_nonneg {log : Reservations} (hlog : Nonneg log) {c : Call} {rules : List RateLimitRule}
    (hr : ∀ rule ∈ rules, 0 ≤ rule.requestWeight c) : Tame (keys log ++ asked c rules) := by
  have hall : ∀ x ∈ keys log ++ asked c rules, 0 ≤ x.2 := by
    intro x hx
    rcases List.mem_append.mp hx with hx | hx
    · obtain ⟨a, ha, rfl⟩ := List.mem_map.mp hx
      exact hlog a ha
    · obtain ⟨rule, hrule, rfl⟩ := List.mem_map.mp hx
      exact hr rule hrule
  exact List.Pairwise.imp_of_mem (fun ha _ _ _ => hall _ ha) (List.pairwise_of_forall fun _ _ => trivial)

/-- The limiters account for a ledger without weights below zero. -/
structure Refines (r : RateLimiter) (l : Ledger) (t : Rat) : Prop where
  accounted : Accounted r.limiters l t
  nonneg : Nonneg l.log

theorem Refines.mono {r : RateLimiter} {l : Ledger} {t now : Rat} (h : Refines r l t)
    (ht : t ≤ now) : Refines r l now := ⟨h.accounted.mono ht, h.nonneg⟩

section

variable {r : RateLimiter} {l : Ledger} {t : Rat}

theorem quotasOf_after (r : RateLimiter) (c : Call) :
    quotasOf (r.after c).limiters = quotasOf r.limiters := by
  rw [RateLimiter.after, acquireAll_eq]
  exact quotasOf_acquireAll c _ 0 [] r.limiters

theorem after_rules (r : RateLimiter) (c : Call) : (r.after c).rules = r.rules := by
  rw [RateLimiter.after, acquireAll_eq]

theorem refines_after (h : Refines r l t) {c : Call} (hc : Monotone c.clock)
    (hw : NonnegRequests r.rules c) (ht : t ≤ c.clock 0) :
    (r.acquire c).1 = l.acquire r.rules c ∧
      ∀ u, (∀ i, c.clock i ≤ u) → Refines (r.after c) (l.after r.rules c) u := by
  have hweights : ∀ rule ∈ r.getMatchedRules c.method c.path, 0 ≤ rule.requestWeight c :=
    fun rule hrule => hw rule (List.mem_filter.mp hrule).1
  obtain ⟨hreply, hacc⟩ := acquire_refines h.accounted hc ht (tame_of_nonneg h.nonneg hweights)
  refine ⟨hreply, fun u hu => ⟨hacc u hu, fun a ha => ?_⟩⟩
  rcases List.mem_append.mp ha with ha | ha
  · exact h.nonneg a ha
  · rcases mem_kept_reserveAll ha with ha | ⟨rule, hrule, j, rfl⟩
    · cases ha
    · exact hweights rule hrule

/-- In a run without weights below zero the answers are those of the ledger. `B` holds
of the times after all earlier readings. -/
theorem replies_refines (rules : List RateLimitRule) (calls : List Call) :
    ∀ {r : RateLimiter} {l : Ledger} {B : Rat → Prop}, r.rules = rules →
      (∀ u, B u → Refines r l u) → Ordered calls → (∀ c ∈ calls, NonnegRequests rules c) →
      (∀ c ∈ calls, ∀ i, B (c.clock i)) →
      r.replies calls = l.replies rules calls ∧
      ∀ u, B u → (∀ c ∈ calls, ∀ i, c.clock i ≤ u) →
        Refines (Runs.run RateLimiter.after r calls)
          (Runs.run (fun l c => l.after rules c) l calls) u := by
  induction calls with
  | nil => exact fun _ h _ _ _ => ⟨rfl, fun u hu _ => h u hu⟩
  | cons c calls ih =>
    intro r l B hrules h hord hw hb
    obtain ⟨hmono, hpair⟩ := hord
    obtain ⟨hnext, hpair⟩ := List.pairwise_cons.mp hpair
    have hmem : c ∈ c :: calls := List.mem_cons_self
    obtain ⟨hreply, hafter⟩ := refines_after (h _ (hb c hmem 0)) (hmono c hmem)
      (hrules ▸ hw c hmem) le_rfl
    rw [hrules] at hreply hafter
    obtain ⟨hreplies, hrun⟩ := ih (r := r.after c) (B := fun u => B u ∧ ∀ i, c.clock i ≤ u)
      ((after_rules r c).trans hrules) (fun u hu => hafter u hu.2)
      ⟨fun d hd => hmono d (List.mem_cons_of_mem _ hd), hpair⟩
      (fun d hd => hw d (List.mem_cons_of_mem _ hd))
      (fun d hd j => ⟨hb d (List.mem_cons_of_mem _ hd) j, fun i => hnext d hd i j⟩)
    refine ⟨?_, fun u hu hcalls => ?_⟩
    · simp only [RateLimiter.replies, Ledger.replies, Runs.log] at hreplies ⊢
      rw [hreply, hreplies]
    · exact hrun u ⟨hu, hcalls c hmem⟩ fun d hd => hcalls d (List.mem_cons_of_mem _ hd)

end

/-- The rule that decides which limiter stands under a name: the last one of that name
that gets a limiter. -/
def lastRule (rules : List RateLimitRule) (k : PyStr) : Option RateLimitRule :=
  (rules.filter fun rule => rule.name = k ∧ rule.limiter?.isSome).getLast?

theorem get_new (rules : List RateLimitRule) (k : PyStr) :
    (RateLimiter.new rules).limiters.get k = (lastRule rules k).bind RateLimitRule.limiter? := by
  induction rules using List.reverseRecOn with
  | nil => rfl
  | append_singleton rules rule ih =>
    have hstep : (RateLimiter.new (rules ++ [rule])).limiters =
        addLimiter (RateLimiter.new rules).limiters rule := by
      simp [RateLimiter.new, List.foldl_append]
    rw [hstep, addLimiter, lastRule, List.filter_append]
    cases hl : rule.limiter? with
    | none => simpa [hl, lastRule] using ih
    | some limiter =>
      dsimp only
      rw [Dict.get_set]
      by_cases hk : k = rule.name
      · simp [hk, hl]
      · simpa [hk, Ne.symm hk, lastRule] using ih

theorem lastRule_of_nodup {rules : List RateLimitRule} (hn : (rules.map RateLimitRule.name).Nodup)
    {rule : RateLimitRule} (hrule : rule ∈ rules) {limiter : Limiter}
    (hl : rule.limiter? = some limiter) : lastRule rules rule.name = some rule := by
  have hmem : rule ∈ rules.filter fun r => r.name = rule.name ∧ r.limiter?.isSome := by
    simp [hrule, hl]
  rw [lastRule, List.getLast?_eq_getLast_of_ne_nil (List.ne_nil_of_mem hmem)]
  have hlast := List.mem_filter.mp (List.getLast_mem (List.ne_nil_of_mem hmem))
  have hname := (of_decide_eq_true hlast.2).1
  rw [List.inj_on_of_nodup_map hn hlast.1 hrule hname]

/-- The ledger of a rate limiter that has not been asked yet. -/
def Ledger.new (rules : List RateLimitRule) : Ledger where
  quotas := quotasOf (RateLimiter.new rules).limiters
  log := []

/-- A limiter that has charged nothing. -/
def Fresh (limiter : Limiter) : Prop := ∀ t, Accounts limiter [] t

theorem fresh_limiter {rule : RateLimitRule} {limiter : Limiter} (h : rule.limiter? = some limiter) :
    Fresh limiter := by
  intro t
  unfold RateLimitRule.limiter? at h
  split at h <;> cases h
  · exact fun now _ => rfl
  · refine ⟨fun now _ => ?_, by simp⟩
    rw [advance_count]
    simp

theorem fresh_new (rules : List RateLimitRule) {k : PyStr} {limiter : Limiter}
    (h : (RateLimiter.new rules).limiters.get k = some limiter) : Fresh limiter := by
  rw [get_new] at h
  obtain ⟨rule, -, hl⟩ := Option.bind_eq_some_iff.mp h
  exact fresh_limiter hl

theorem refines_new (rules : List RateLimitRule) (t : Rat) :
    Refines (RateLimiter.new rules) (Ledger.new rules) t where
  accounted := ⟨List.Pairwise.nil, by simp [Ledger.new], rfl, fun _ _ h => fresh_new rules h t⟩
  nonneg := by simp [Ledger.new, Nonneg]

end RateLimitLedgers
