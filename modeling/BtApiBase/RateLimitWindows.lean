import BtApiBase.RateLimitLedgers

/-!
# What a rate limiter lets through

No window of a rule holds more weight than the limit: a closed span as long as
the interval for a sliding window, an aligned interval for a fixed one. A window
that gains a charge ends after it or with it, so what it holds still counts for
the quota when the charge is admitted.
-/

namespace RateLimitWindows

open PyText PyDict PyValue ChargeLogs RateLimits RateLimitLedgers

def span (interval : Int) (a : Rat) : Rat → Bool := fun s => a ≤ s ∧ s ≤ a + interval

def aligned (interval k : Int) : Rat → Bool := fun s => k * interval ≤ s ∧ s < (k + 1) * interval

/-- The times over which a quota bounds the weight. An interval of zero divides no
time: it admits nothing. -/
def windows (q : Quota) (p : Rat → Bool) : Prop :=
  match q.type with
  | .slidingWindow => ∃ a, p = span q.interval a
  | _ => q.interval = 0 ∨ 0 < q.interval ∧ ∃ k, p = aligned q.interval k

theorem aligned_iff {interval : Int} (hi : 0 < interval) (k : Int) (s : Rat) :
    aligned interval k s = true ↔ ⌊s / interval⌋ = k := by
  have hi' : (0 : Rat) < interval := by exact_mod_cast hi
  rw [Int.floor_eq_iff, le_div_iff₀ hi', div_lt_iff₀ hi']
  simp [aligned]

/-- What a window that holds `now` held before still counts at `now`. -/
theorem counts_of_window {q : Quota} {p : Rat → Bool} (hp : windows q p)
    (hi : ¬ (q.type = .fixedWindow ∧ q.interval = 0)) (ht : q.type ≠ .tokenBucket) {now s : Rat}
    (hnow : p now = true) (hs : p s = true) : q.counts now s = true := by
  obtain ⟨type, interval, limit⟩ := q
  cases type with
  | tokenBucket => exact absurd rfl ht
  | slidingWindow =>
    obtain ⟨a, rfl⟩ := hp
    simp only [span, decide_eq_true_eq] at hnow hs
    simp only [Quota.counts, decide_eq_true_eq]
    linarith [hnow.2, hs.1]
  | fixedWindow =>
    rcases hp with hzero | ⟨hpos, k, rfl⟩
    · exact absurd ⟨rfl, hzero⟩ hi
    · rw [aligned_iff hpos] at hnow hs
      simp only [Quota.counts, windowOf, hnow, hs, decide_true]

/-- A charge that a quota admits keeps its windows within the limit. -/
theorem bounded_admitted {q : Quota} (ht : q.type ≠ .tokenBucket) {log : Reservations}
    (hb : Bounded (windows q) (max q.limit 0) log) (hw : Nonneg log) {now : Rat} {w : Int}
    (ha : q.admits now w log = .ok true) (k : PyStr) :
    Bounded (windows q) (max q.limit 0) (log ++ [⟨k, now, w⟩]) := by
  unfold Quota.admits at ha
  split at ha
  · cases ha
  · next hi =>
    have hle : weightIn (q.counts now) log + w ≤ q.limit := by simpa using ha
    refine bounded_concat hb fun p hp hnow => ?_
    have hmono : weightIn p log ≤ weightIn (q.counts now) log :=
      weightIn_mono hw fun c _ hc => counts_of_window hp hi ht hnow hc
    have hmax : q.limit ≤ max q.limit 0 := le_max_left _ _
    dsimp only
    omega

theorem bounded_reserveAll {quotas : PyStr → Option Quota} {c : Call} {kept : Reservations}
    {k : PyStr} {q : Quota} (hq : quotas k = some q) (ht : q.type ≠ .tokenBucket)
    (hkept : Nonneg kept)
    (hb : Bounded (windows q) (max q.limit 0) (charged kept k)) (rules : List RateLimitRule)
    (hr : ∀ rule ∈ rules, 0 ≤ rule.requestWeight c) :
    ∀ (i : Nat) (acquired : Reservations), Nonneg acquired →
      Bounded (windows q) (max q.limit 0) (charged (kept ++ acquired) k) →
      Bounded (windows q) (max q.limit 0)
        (charged (kept ++ (reserveAll quotas c kept i rules acquired).kept) k) := by
  induction rules with
  | nil => exact fun _ _ _ h => h
  | cons rule rules ih =>
    intro i acquired hacq h
    have ih' := ih fun r hr' => hr r (List.mem_cons_of_mem _ hr')
    unfold reserveAll
    split
    · exact ih' i acquired hacq h
    · next q' hq' =>
      split
      · next ha =>
        have hnonneg : Nonneg (acquired ++ [rule.reservation c i]) := by
          intro a ha
          rcases List.mem_append.mp ha with ha | ha
          · exact hacq a ha
          · rw [List.mem_singleton.mp ha]
            exact hr rule List.mem_cons_self
        refine ih' (i + 1) _ hnonneg ?_
        rw [← List.append_assoc]
        by_cases hk : k = rule.name
        · subst hk
          have hc : charged (kept ++ acquired ++ [rule.reservation c i]) rule.name =
              charged (kept ++ acquired) rule.name ++ [rule.reservation c i] :=
            charged_concat_same _ (rule.reservation c i)
          rw [hc]
          obtain rfl : q = q' := Option.some.inj (hq.symm.trans hq')
          refine bounded_admitted ht h (fun a ha => ?_) ha rule.name
          rcases List.mem_append.mp (mem_charged.mp ha).1 with ha | ha
          · exact hkept a ha
          · exact hacq a ha
        · have hc : charged (kept ++ acquired ++ [rule.reservation c i]) k =
              charged (kept ++ acquired) k := charged_concat_other _ hk
          rw [hc]
          exact h
      · simpa [Reply.kept] using hb
      · exact h

/-! ## Runs -/

/-- The reservations that a ledger keeps are not below zero if no call asks for
less. -/
theorem nonneg_after {rules : List RateLimitRule} {l : Ledger} (h : Nonneg l.log) {c : Call}
    (hc : NonnegRequests rules c) : Nonneg (l.after rules c).log := by
  intro a ha
  rcases List.mem_append.mp ha with ha | ha
  · exact h a ha
  · rcases mem_kept_reserveAll ha with ha | ⟨rule, hrule, j, rfl⟩
    · cases ha
    · exact hc rule (List.mem_filter.mp hrule).1

theorem bounded_run {rules : List RateLimitRule} {k : PyStr} {q : Quota} (ht : q.type ≠ .tokenBucket)
    (calls : List Call) :
    ∀ {l : Ledger}, l.quotas k = some q → (∀ c ∈ calls, NonnegRequests rules c) → Nonneg l.log →
      Bounded (windows q) (max q.limit 0) (charged l.log k) →
      Nonneg (Runs.run (fun l c => l.after rules c) l calls).log ∧
      Bounded (windows q) (max q.limit 0)
        (charged (Runs.run (fun l c => l.after rules c) l calls).log k) := by
  induction calls with
  | nil => exact fun _ _ hn hb => ⟨hn, hb⟩
  | cons c calls ih =>
    intro l hq hw hn hb
    have hc := hw c List.mem_cons_self
    refine ih (l := l.after rules c) hq (fun d hd => hw d (List.mem_cons_of_mem _ hd))
      (nonneg_after hn hc) ?_
    exact bounded_reserveAll hq ht hn hb _ (fun rule hrule => hc rule (List.mem_filter.mp hrule).1) 0 []
      (by simp [Nonneg]) (by simpa using hb)

/-- An admitted request that matches the rule, at the time of its reservation for the
rule and with the weight it has for the rule. -/
def admission (rule : RateLimitRule) (c : Call) : Reply → List (Rat × Int)
  | .admitted acquired =>
    if rule.match c.method c.path then
      [(((acquired.find? fun a => a.account = rule.name ∧ a.weight = rule.requestWeight c).map
        Charge.time).getD (c.clock 0), rule.requestWeight c)]
    else []
  | _ => []

/-- The admitted requests of a run that match the rule. -/
def admissions (rule : RateLimitRule) (calls : List Call) (replies : List Reply) : List (Rat × Int) :=
  (calls.zip replies).flatMap fun x => admission rule x.1 x.2

def totalIn (p : Rat → Bool) (requests : List (Rat × Int)) : Int :=
  ((requests.filter fun x => p x.1).map Prod.snd).sum

/-- The weight that a run admits under a rule at the times that pass `p`. -/
def admittedIn (rules : List RateLimitRule) (rule : RateLimitRule) (calls : List Call)
    (p : Rat → Bool) : Int :=
  totalIn p (admissions rule calls ((RateLimiter.new rules).replies calls))

theorem totalIn_entries (p : Rat → Bool) (log : Reservations) :
    totalIn p (entries log) = weightIn p log := by
  simp [totalIn, entries, weightIn, List.filter_map, Function.comp_def]

theorem totalIn_mono {requests : List (Rat × Int)} {log : Reservations} (h : requests.Sublist (entries log))
    (hn : Nonneg log) (p : Rat → Bool) : totalIn p requests ≤ weightIn p log := by
  rw [← totalIn_entries]
  refine List.Sublist.sum_le_sum ((h.filter _).map _) fun w hw => ?_
  obtain ⟨x, hx, rfl⟩ := List.mem_map.mp hw
  obtain ⟨c, hc, rfl⟩ := List.mem_map.mp (List.mem_filter.mp hx).1
  exact hn c hc

/-- An admitted request is in the account of each rule that it matches. -/
theorem admission_sublist {r : RateLimiter} {rule : RateLimitRule} (hrule : rule ∈ r.rules)
    (hq : (quotasOf r.limiters rule.name).isSome) (c : Call) :
    (admission rule c (r.acquire c).1).Sublist
      (entries (charged (r.acquire c).1.kept rule.name)) := by
  cases hreply : (r.acquire c).1 with
  | denied => exact List.nil_sublist _
  | raised e acquired => exact List.nil_sublist _
  | admitted acquired =>
    simp only [admission]
    by_cases hmatch : rule.match c.method c.path = true
    · rw [acquireAll_eq] at hreply
      obtain ⟨j, hj⟩ := (reservation_of_admitted hreply).2 rule
        (List.mem_filter.mpr ⟨hrule, hmatch⟩) hq
      obtain ⟨a, ha⟩ := Option.isSome_iff_exists.mp (List.find?_isSome
        (p := fun a : Reservation => a.account = rule.name ∧ a.weight = rule.requestWeight c).mpr
          ⟨_, hj, by simp [RateLimitRule.reservation]⟩)
      have hfound : a.account = rule.name ∧ a.weight = rule.requestWeight c := by
        simpa using List.find?_some ha
      have hmem := List.mem_of_find?_eq_some ha
      rw [if_pos hmatch, ha, Option.map_some, Option.getD_some, ← hfound.2, List.singleton_sublist]
      exact List.mem_map.mpr ⟨a, mem_charged.mpr ⟨hmem, hfound.1⟩, rfl⟩
    · rw [if_neg hmatch]
      exact List.nil_sublist _

theorem admissions_sublist {rules : List RateLimitRule} {rule : RateLimitRule} (hrule : rule ∈ rules)
    (calls : List Call) :
    ∀ {r : RateLimiter} {l : Ledger} {requests : List (Rat × Int)}, r.rules = rules →
      r.replies calls = l.replies rules calls → (quotasOf r.limiters rule.name).isSome →
      requests.Sublist (entries (charged l.log rule.name)) →
      (requests ++ admissions rule calls (r.replies calls)).Sublist
        (entries (charged (Runs.run (fun l c => l.after rules c) l calls).log rule.name)) := by
  induction calls with
  | nil => exact fun _ _ _ h => by simpa [admissions] using h
  | cons c calls ih =>
    intro r l requests hrules hreplies hq h
    obtain ⟨hreply, hrest⟩ : (r.acquire c).1 = l.acquire rules c ∧
        (r.after c).replies calls = (l.after rules c).replies rules calls := List.cons.inj hreplies
    have hstep : (requests ++ admission rule c (r.acquire c).1).Sublist
        (entries (charged (l.after rules c).log rule.name)) := by
      rw [Ledger.after, charged_append, entries_append, ← hreply]
      exact h.append (admission_sublist (hrules ▸ hrule) hq c)
    have hrun := ih (r := r.after c) ((after_rules r c).trans hrules) hrest
      ((congrFun (quotasOf_after r c) _).symm ▸ hq) hstep
    rw [List.append_assoc] at hrun
    exact hrun

/-- What a run admits under a rule whose limiter has the quota `q` stays within every
window of `q`. -/
theorem admittedIn_le {rules : List RateLimitRule} {rule : RateLimitRule} (hrule : rule ∈ rules)
    {q : Quota} (hq : quotasOf (RateLimiter.new rules).limiters rule.name = some q)
    {calls : List Call} (hord : Ordered calls) (hw : ∀ c ∈ calls, NonnegRequests rules c)
    {p : Rat → Bool} (hp : windows q p) :
    admittedIn rules rule calls p ≤ max q.limit 0 := by
  have hreplies := (replies_refines rules calls (r := .new rules) (B := fun _ => True) rfl
    (fun u _ => refines_new rules u) hord hw fun _ _ _ => trivial).1
  have hempty : Nonneg (Ledger.new rules).log := by simp [Ledger.new, Nonneg]
  have ht : q.type ≠ .tokenBucket := by
    obtain ⟨limiter, -, rfl⟩ := Option.map_eq_some_iff.mp hq
    cases limiter <;> simp [quota]
  obtain ⟨hnonneg, hbound⟩ :=
    bounded_run ht calls hq hw hempty (bounded_nil (le_max_right _ _))
  have hsome : (quotasOf (RateLimiter.new rules).limiters rule.name).isSome := by
    rw [hq]
    rfl
  have hnil : [].Sublist (entries (charged (Ledger.new rules).log rule.name)) := List.nil_sublist _
  have hsub := admissions_sublist hrule calls rfl hreplies hsome hnil
  rw [List.nil_append] at hsub
  exact (totalIn_mono hsub (fun a ha => hnonneg a (mem_charged.mp ha).1) p).trans (hbound p hp)

/-- The quota of a rule with a name of its own. -/
theorem quotasOf_new {rules : List RateLimitRule} (hn : (rules.map RateLimitRule.name).Nodup)
    {rule : RateLimitRule} (hrule : rule ∈ rules) {limiter : Limiter}
    (hl : rule.limiter? = some limiter) :
    quotasOf (RateLimiter.new rules).limiters rule.name = some (quota limiter) := by
  rw [quotasOf, get_new, lastRule_of_nodup hn hrule hl, Option.bind_some, hl, Option.map_some]

/-- Every window of every rule stays within the limit, or empty if the limit is below
zero. -/
theorem windows_within_limit {rules : List RateLimitRule}
    (hn : (rules.map RateLimitRule.name).Nodup) (hi : ∀ rule ∈ rules, 0 < rule.interval)
    (hr : ∀ rule ∈ rules, RuleNonneg rule) {calls : List Call} (hord : Ordered calls)
    (hw : ∀ c ∈ calls, 0 ≤ c.weight) {rule : RateLimitRule} (hrule : rule ∈ rules) :
    (rule.type = .slidingWindow → ∀ a,
      admittedIn rules rule calls (fun s => a ≤ s ∧ s ≤ a + rule.interval) ≤ max rule.limit 0) ∧
    (rule.type = .fixedWindow → ∀ k : Int, admittedIn rules rule calls
      (fun s => k * rule.interval ≤ s ∧ s < (k + 1) * rule.interval) ≤ max rule.limit 0) := by
  have hrequests : ∀ c ∈ calls, NonnegRequests rules c := fun c hc => nonnegRequests_of hr (hw c hc)
  constructor
  · intro ht a
    have hl : rule.limiter? = some (.sliding ⟨rule.interval, rule.limit, []⟩) := by
      simp [RateLimitRule.limiter?, ht]
    exact admittedIn_le hrule (quotasOf_new hn hrule hl) hord hrequests ⟨a, rfl⟩
  · intro ht k
    have hl : rule.limiter? = some (.fixed ⟨rule.interval, rule.limit, 0, 0⟩) := by
      simp [RateLimitRule.limiter?, ht]
    exact admittedIn_le hrule (quotasOf_new hn hrule hl) hord hrequests
      (.inr ⟨hi rule hrule, k, rfl⟩)

/-- A sliding window over all requests in which a `GET` weighs `get`. -/
def orders (limit get : Int) : RateLimitRule :=
  ⟨u "orders", .slidingWindow, 60, limit, .global, none, some (Dict.empty.set (u "GET") get), 1⟩

theorem windows_within_limit_orders :
    admittedIn [orders 5 2] (orders 5 2) [callAt "GET" 2 0, callAt "POST" 2 1, callAt "POST" 1 60]
      (fun s => 0 ≤ s ∧ s ≤ 0 + 60) ≤ max 5 0 := by
  have hmem : orders 5 2 ∈ [orders 5 2] := List.mem_cons_self
  refine (windows_within_limit (by decide) (by decide) ?_ ⟨?_, ?_⟩ (by decide) hmem).1 rfl 0
  · simp [orders, RuleNonneg, Dict.values, Dict.set, Dict.empty, put]
  · simp [callAt, monotone_const]
  · norm_num [callAt]

/-- A limit below zero is over-used by the empty window, and a weight below zero makes
room that a later window does not have. -/
theorem window_over_limit :
    admittedIn [orders (-1) 1] (orders (-1) 1) [] (fun s => 0 ≤ s ∧ s ≤ 60) > -1 ∧
      admittedIn [orders 1 (-5)] (orders 1 (-5)) [callAt "GET" 1 0, callAt "POST" 6 1]
        (fun s => 1 ≤ s ∧ s ≤ 61) > 1 := by
  decide +kernel

end RateLimitWindows
