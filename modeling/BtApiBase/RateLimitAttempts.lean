import BtApiBase.RateLimitCoverage
import BtApiBase.RateLimitUsage

/-!
# What a denied call leaves

Under distinct names a call asks every limiter once. It is admitted exactly if
each of them grants what the call asks of it, and where it is denied the limiters
that were asked are at most brought up to date.
-/

namespace RateLimitAttempts

open PyText PyDict PyValue RateLimits RateLimitLedgers RateLimitCoverage
open RateLimitUsage (grants pruneExpired_pruneExpired)

/-- A call of `acquire` that takes no time. -/
structure Request where
  method : PyStr
  path : PyStr
  weight : Int

def Request.call (q : Request) (now : Rat) : Call := ⟨q.method, q.path, q.weight, fun _ => now⟩

/-- The weight that a request has under a rule. -/
def Request.under (q : Request) (rule : RateLimitRule) : Int := rule.getWeight q.method q.path * q.weight

/-- Every limiter has a positive interval, and no two rules share a name. -/
structure Proper (r : RateLimiter) : Prop where
  names : (r.rules.map RateLimitRule.name).Nodup
  intervals : ∀ k limiter, r.limiters.get k = some limiter → 0 < limiter.interval

/-! ## One limiter -/

/-- A limiter that was asked at `now` and has charged nothing in the end: a fixed
window is reset where it was over, and a count below zero may be raised. -/
inductive Asked (now : Rat) : Limiter → Limiter → Prop
  | sliding (l : SlidingWindowLimiter) : Asked now (.sliding l) (.sliding (l.pruneExpired now))
  | fixed (l : FixedWindowLimiter) (count : Int)
    (h : count = (l.advance now).windowCount ∨ count = max 0 (l.advance now).windowCount) :
    Asked now (.fixed l) (.fixed { l.advance now with windowCount := count })

/-- A limiter that was asked at most. -/
inductive Tried (now : Rat) : Limiter → Limiter → Prop
  | same (limiter : Limiter) : Tried now limiter limiter
  | sliding (l : SlidingWindowLimiter) : Tried now (.sliding l) (.sliding (l.pruneExpired now))
  | fixed (l : FixedWindowLimiter) (count : Int)
    (h : count = (l.advance now).windowCount ∨ count = max 0 (l.advance now).windowCount) :
    Tried now (.fixed l) (.fixed { l.advance now with windowCount := count })

theorem Asked.tried {now : Rat} {limiter limiter' : Limiter} (h : Asked now limiter limiter') :
    Tried now limiter limiter' := by
  cases h with
  | sliding l => exact .sliding l
  | fixed l count h => exact .fixed l count h

theorem acquire_of_pos {limiter : Limiter} (hi : 0 < limiter.interval) (now : Rat) (weight : Int) :
    ∃ limiter', limiter.acquire now weight = .ok (grants limiter now weight, limiter') := by
  cases limiter with
  | sliding l => exact ⟨_, rfl⟩
  | fixed l =>
    have hne : l.interval ≠ 0 := by
      have hpos : 0 < l.interval := hi
      omega
    simp [grants, Limiter.acquire, hne]

theorem grants_sliding (l : SlidingWindowLimiter) (now : Rat) (weight : Int) :
    grants (.sliding l) now weight = true ↔
      ((l.pruneExpired now).requests.map Prod.snd).sum + weight ≤ l.limit := by
  have hlimit : (l.pruneExpired now).limit = l.limit := rfl
  simp only [grants, Limiter.acquire, SlidingWindowLimiter.acquire, hlimit]
  split <;> simp_all

theorem grants_fixed {l : FixedWindowLimiter} (hi : 0 < l.interval) (now : Rat) (weight : Int) :
    grants (.fixed l) now weight = true ↔ (l.advance now).windowCount + weight ≤ l.limit := by
  have hne : l.interval ≠ 0 := by omega
  simp only [grants, Limiter.acquire, hne, ↓reduceIte, FixedWindowLimiter.acquire, advance_limit]
  split <;> simp_all

theorem asked_of_refused {limiter limiter' : Limiter} {now : Rat} {weight : Int}
    (h : limiter.acquire now weight = .ok (false, limiter')) : Asked now limiter limiter' := by
  cases asked_of_ok h with
  | slidingRefused l => exact .sliding l
  | fixedRefused l => exact .fixed l (l.advance now).windowCount (.inl rfl)

theorem dropWhile_concat {p : Rat × Int → Bool} (xs : List (Rat × Int)) {y : Rat × Int} (hy : p y = false) :
    (xs.dropWhile p ++ [y]).dropWhile p = xs.dropWhile p ++ [y] := by
  induction xs with
  | nil => simp [hy]
  | cons x xs ih =>
    rw [List.dropWhile_cons]
    split
    · exact ih
    · next hx => rw [List.cons_append, List.dropWhile_cons_of_neg hx]

/-- What was charged is released again at the same time. -/
theorem asked_of_released {limiter limiter' : Limiter} {now : Rat} {weight : Int} (hi : 0 < limiter.interval)
    (h : limiter.acquire now weight = .ok (true, limiter')) :
    Asked now limiter (limiter'.release now weight) := by
  cases asked_of_ok h with
  | slidingGranted l =>
    have hpos : (0 : Rat) < l.interval := by exact_mod_cast (show 0 < l.interval from hi)
    have hlive : decide ((now, weight).1 < now - l.interval) = false := by simpa using hpos.le
    have hprune : SlidingWindowLimiter.pruneExpired { l.pruneExpired now with
        requests := (l.pruneExpired now).requests ++ [(now, weight)] } now =
        { l.pruneExpired now with requests := (l.pruneExpired now).requests ++ [(now, weight)] } :=
      congrArg (SlidingWindowLimiter.mk l.interval l.limit) (dropWhile_concat l.requests hlive)
    have hrelease : SlidingWindowLimiter.release { l.pruneExpired now with
        requests := (l.pruneExpired now).requests ++ [(now, weight)] } now weight = l.pruneExpired now := by
      rw [SlidingWindowLimiter.release, hprune]
      simp
    rw [Limiter.release, hrelease]
    exact .sliding l
  | fixedGranted l => exact .fixed l _ (.inr (by rw [Int.add_sub_cancel]))

theorem Tried.interval {now : Rat} {limiter limiter' : Limiter} (h : Tried now limiter limiter') :
    limiter'.interval = limiter.interval := by
  cases h with
  | same => rfl
  | sliding l => rfl
  | fixed l count h => exact advance_interval l now

theorem Tried.limit {now : Rat} {limiter limiter' : Limiter} (h : Tried now limiter limiter') :
    limiter'.limit = limiter.limit := by
  cases h with
  | same => rfl
  | sliding l => rfl
  | fixed l count h => exact advance_limit l now

/-! ## The loops -/

section

variable {c : Call} {now : Rat}

/-- What `releaseAll` leaves under each name. -/
theorem get_releaseAll (hc : ∀ i, c.clock i = now) (stack : List Reservation)
    (hn : (stack.map (·.account)).Nodup) (i : Nat) (limiters : Dict PyStr Limiter) (k : PyStr) :
    (releaseAll c.clock i stack limiters).get k = match stack.find? (·.account = k) with
      | some a => (limiters.get k).map fun limiter => limiter.release now a.weight
      | none => limiters.get k := by
  induction stack generalizing i limiters with
  | nil => rfl
  | cons a stack ih =>
    obtain ⟨ha, hrest⟩ := List.nodup_cons.mp hn
    have hnone : a.account = k → stack.find? (·.account = k) = none := by
      rintro rfl
      rw [List.find?_eq_none]
      intro b hb heq
      exact ha (List.mem_map.mpr ⟨b, hb, by simpa using heq⟩)
    rw [releaseAll]
    cases hget : limiters.get a.account with
    | none =>
      dsimp only
      rw [ih hrest, List.find?_cons]
      by_cases hk : a.account = k
      · subst hk
        simp [hnone rfl, hget]
      · simp [hk]
    | some limiter =>
      dsimp only
      rw [ih hrest, List.find?_cons, hc]
      by_cases hk : a.account = k
      · subst hk
        simp [hnone rfl, hget]
      · have hother : (limiters.set a.account (limiter.release now a.weight)).get k = limiters.get k :=
          Dict.get_set_other limiters _ (Ne.symm hk)
        simp [hk, hother]

/-- The limiters during a call that has charged `acquired`. -/
structure Charged (before : Dict PyStr Limiter) (now : Rat) (acquired : List Reservation)
    (limiters : Dict PyStr Limiter) : Prop where
  nodup : (acquired.map (·.account)).Nodup
  charged : ∀ a ∈ acquired, ∃ limiter limiter', before.get a.account = some limiter ∧
    limiter.acquire now a.weight = .ok (true, limiter') ∧ limiters.get a.account = some limiter'
  others : ∀ k, k ∉ acquired.map (·.account) → limiters.get k = before.get k

theorem charged_nil (limiters : Dict PyStr Limiter) (now : Rat) : Charged limiters now [] limiters :=
  ⟨List.nodup_nil, nofun, fun _ _ => rfl⟩

theorem Charged.concat {before limiters : Dict PyStr Limiter} {acquired : List Reservation}
    (h : Charged before now acquired limiters) {a : Reservation} {limiter limiter' : Limiter}
    (hnew : a.account ∉ acquired.map (·.account)) (hget : limiters.get a.account = some limiter)
    (ha : limiter.acquire now a.weight = .ok (true, limiter')) :
    Charged before now (acquired ++ [a]) (limiters.set a.account limiter') := by
  have hother : ∀ k, k ≠ a.account → (limiters.set a.account limiter').get k = limiters.get k :=
    fun k hk => Dict.get_set_other limiters _ hk
  refine ⟨?_, fun b hb => ?_, fun k hk => ?_⟩
  · rw [List.map_append, List.map_singleton]
    exact h.nodup.append (List.nodup_singleton _) (by simpa using hnew)
  · rcases List.mem_append.mp hb with hb | hb
    · obtain ⟨l, l', hl, hacq, hl'⟩ := h.charged b hb
      have hne : b.account ≠ a.account := fun he => hnew (he ▸ List.mem_map_of_mem hb)
      exact ⟨l, l', hl, hacq, (hother _ hne).trans hl'⟩
    · obtain rfl := List.mem_singleton.mp hb
      exact ⟨limiter, limiter', (h.others _ hnew).symm.trans hget, ha, Dict.get_set_same ..⟩
  · simp only [List.map_append, List.map_singleton, List.mem_append, List.mem_singleton, not_or] at hk
    rw [hother k hk.2, h.others k hk.1]

/-- Each limiter was at most asked. -/
def AllTried (now : Rat) (before after : Dict PyStr Limiter) : Prop :=
  ∀ k, Option.Rel (Tried now) (before.get k) (after.get k)

/-- What stands under a name in the end stood there before. -/
theorem AllTried.back {now : Rat} {before after : Dict PyStr Limiter} (h : AllTried now before after) {k : PyStr}
    {limiter' : Limiter} (hget : after.get k = some limiter') :
    ∃ limiter, before.get k = some limiter ∧ Tried now limiter limiter' := by
  have hrel := h k
  rw [hget] at hrel
  cases hbefore : before.get k with
  | none =>
    rw [hbefore] at hrel
    cases hrel
  | some limiter =>
    rw [hbefore] at hrel
    cases hrel with
    | some ht => exact ⟨limiter, rfl, ht⟩

/-- The limiters under these names were asked, and no others. -/
structure OnlyAsked (now : Rat) (names : List PyStr) (before after : Dict PyStr Limiter) : Prop where
  asked : ∀ k ∈ names, Option.Rel (Asked now) (before.get k) (after.get k)
  others : ∀ k, k ∉ names → after.get k = before.get k

theorem OnlyAsked.allTried {now : Rat} {names : List PyStr} {before after : Dict PyStr Limiter}
    (h : OnlyAsked now names before after) : AllTried now before after := by
  intro k
  by_cases hk : k ∈ names
  · have hrel := h.asked k hk
    generalize before.get k = x, after.get k = y at hrel ⊢
    cases hrel with
    | some ha => exact .some ha.tried
    | none => exact .none
  · rw [h.others k hk]
    cases before.get k with
    | none => exact .none
    | some limiter => exact .some (.same limiter)

theorem OnlyAsked.perm {now : Rat} {names names' : List PyStr} {before after : Dict PyStr Limiter}
    (h : OnlyAsked now names before after) (hmem : ∀ k, k ∈ names' ↔ k ∈ names) :
    OnlyAsked now names' before after :=
  ⟨fun k hk => h.asked k ((hmem k).mp hk), fun k hk => h.others k fun hk' => hk ((hmem k).mpr hk')⟩

/-- A name without a limiter counts as asked. -/
theorem OnlyAsked.cons {now : Rat} {names : List PyStr} {before after : Dict PyStr Limiter}
    (h : OnlyAsked now names before after) {k : PyStr} (hk : k ∉ names) (hget : before.get k = none) :
    OnlyAsked now (k :: names) before after := by
  refine ⟨fun j hj => ?_, fun j hj => h.others j fun hmem => hj (List.mem_cons_of_mem k hmem)⟩
  rcases List.mem_cons.mp hj with rfl | hj
  · rw [h.others j hk, hget]
    exact .none
  · exact h.asked j hj

/-- Rolling back what was charged, with one limiter that has refused. -/
theorem onlyAsked_releaseAll {before limiters : Dict PyStr Limiter} {acquired : List Reservation}
    (hc : ∀ i, c.clock i = now) (hi : ∀ k limiter, before.get k = some limiter → 0 < limiter.interval)
    (h : Charged before now acquired limiters) {k : PyStr} {limiter limiter' : Limiter}
    (hk : k ∉ acquired.map (·.account)) (hget : limiters.get k = some limiter)
    (ht : Asked now limiter limiter') (i : Nat) :
    OnlyAsked now (acquired.map (·.account) ++ [k]) before
      (releaseAll c.clock i acquired.reverse (limiters.set k limiter')) := by
  have hget_after : ∀ j, (releaseAll c.clock i acquired.reverse (limiters.set k limiter')).get j = _ :=
    fun j => get_releaseAll hc acquired.reverse (by simpa using h.nodup) i _ j
  have hnone : ∀ j, j ∉ acquired.map (·.account) → acquired.reverse.find? (·.account = j) = none := by
    intro j hj
    rw [List.find?_eq_none]
    intro a ha heq
    exact hj (List.mem_map.mpr ⟨a, List.mem_reverse.mp ha, by simpa using heq⟩)
  refine ⟨fun j hj => ?_, fun j hj => ?_⟩
  · rw [hget_after]
    rcases List.mem_append.mp hj with hj | hj
    · cases hf : acquired.reverse.find? (·.account = j) with
      | none =>
        obtain ⟨a, ha, rfl⟩ := List.mem_map.mp hj
        have hno := List.find?_eq_none.mp hf a (List.mem_reverse.mpr ha)
        simp at hno
      | some a =>
        have hmem : a ∈ acquired := List.mem_reverse.mp (List.mem_of_find?_eq_some hf)
        obtain rfl : a.account = j := by simpa using List.find?_some hf
        have hne : a.account ≠ k := fun he => hk (he ▸ List.mem_map_of_mem hmem)
        obtain ⟨l, l', hl, hacq, hl'⟩ := h.charged a hmem
        have hset : (limiters.set k limiter').get a.account = some l' :=
          (Dict.get_set_other limiters _ hne).trans hl'
        rw [hl]
        simp only [hset, Option.map_some]
        exact .some (asked_of_released (hi _ l hl) hacq)
    · obtain rfl := List.mem_singleton.mp hj
      rw [hnone j hk]
      dsimp only
      rw [Dict.get_set_same, ← h.others j hk, hget]
      exact .some ht
  · rw [List.mem_append, List.mem_singleton, not_or] at hj
    rw [hget_after, hnone j hj.1]
    dsimp only
    rw [Dict.get_set_other _ _ hj.2, h.others j hj.1]

/-- The loop over the matched rules: admitted where all limiters grant, and else
denied by the first that does not, with the limiters up to that one asked. -/
theorem acquireAll_cases (hc : ∀ i, c.clock i = now) {before : Dict PyStr Limiter}
    (hi : ∀ k limiter, before.get k = some limiter → 0 < limiter.interval) (rules : List RateLimitRule)
    (hn : (rules.map RateLimitRule.name).Nodup) :
    ∀ (i : Nat) (acquired : List Reservation) (limiters : Dict PyStr Limiter),
      Charged before now acquired limiters → (∀ rule ∈ rules, rule.name ∉ acquired.map (·.account)) →
      (∃ final, (acquireAll c i rules acquired limiters).1 = .admitted final) ∧
          (∀ rule ∈ rules, ∀ limiter, before.get rule.name = some limiter →
            grants limiter now (rule.requestWeight c) = true) ∨
        (acquireAll c i rules acquired limiters).1 = .denied ∧
          ∃ earlier rule later limiter, rules = earlier ++ rule :: later ∧
            (∀ r ∈ earlier, ∀ l, before.get r.name = some l → grants l now (r.requestWeight c) = true) ∧
            before.get rule.name = some limiter ∧ grants limiter now (rule.requestWeight c) = false ∧
            OnlyAsked now (acquired.map (·.account) ++ (earlier ++ [rule]).map RateLimitRule.name) before
              (acquireAll c i rules acquired limiters).2 := by
  induction rules with
  | nil => exact fun i acquired limiters _ _ => .inl ⟨⟨acquired, rfl⟩, nofun⟩
  | cons rule rules ih =>
    intro i acquired limiters hch hnot
    obtain ⟨hrule, hrest⟩ := List.nodup_cons.mp hn
    have hnew := hnot rule (List.mem_cons_self ..)
    have hlater : ∀ r ∈ rules, r.name ∉ acquired.map (·.account) := fun r hr => hnot r (List.mem_cons_of_mem rule hr)
    have hbefore := hch.others rule.name hnew
    rw [acquireAll]
    cases hget : limiters.get rule.name with
    | none =>
      dsimp only
      have hnone := hbefore.symm.trans hget
      have hfree : ∀ l, before.get rule.name = some l → grants l now (rule.requestWeight c) = true := by
        intro l hl
        rw [hnone] at hl
        cases hl
      rcases ih hrest i acquired limiters hch hlater with
        ⟨hadm, hall⟩ | ⟨hden, earlier, denier, later, l, rfl, hearlier, hl, hno, honly⟩
      · exact .inl ⟨hadm, List.forall_mem_cons.mpr ⟨hfree, hall⟩⟩
      · have hout : rule.name ∉ acquired.map (·.account) ++ (earlier ++ [denier]).map RateLimitRule.name := by
          rw [List.mem_append, not_or]
          refine ⟨hnew, fun hmem => hrule ?_⟩
          rw [List.append_cons, List.map_append]
          exact List.mem_append_left _ hmem
        refine .inr ⟨hden, rule :: earlier, denier, later, l, rfl, List.forall_mem_cons.mpr ⟨hfree, hearlier⟩,
          hl, hno, ?_⟩
        exact (honly.cons hout hnone).perm fun k => by simp [or_left_comm]
    | some limiter =>
      have hfirst : before.get rule.name = some limiter := hbefore.symm.trans hget
      obtain ⟨limiter', hacq⟩ := acquire_of_pos (hi _ limiter hfirst) now (rule.requestWeight c)
      dsimp only
      rw [hc, hacq]
      cases hg : grants limiter now (rule.requestWeight c) with
      | true =>
        rw [hg] at hacq
        dsimp only
        have ha : rule.reservation c i = ⟨rule.name, now, rule.requestWeight c⟩ := by
          rw [RateLimitRule.reservation, hc]
        have hch' : Charged before now (acquired ++ [rule.reservation c i]) (limiters.set rule.name limiter') := by
          rw [ha]
          exact hch.concat hnew hget hacq
        have hlater' : ∀ r ∈ rules, r.name ∉ (acquired ++ [rule.reservation c i]).map (·.account) := by
          intro r hr
          rw [ha, List.map_append, List.map_singleton, List.mem_append, List.mem_singleton, not_or]
          exact ⟨hlater r hr, fun he => hrule (List.mem_map.mpr ⟨r, hr, he⟩)⟩
        have hgranting : ∀ l, before.get rule.name = some l → grants l now (rule.requestWeight c) = true := by
          intro l hl
          rw [hfirst] at hl
          cases hl
          exact hg
        rcases ih hrest (i + 1) _ _ hch' hlater' with
          ⟨hadm, hall⟩ | ⟨hden, earlier, denier, later, l, rfl, hearlier, hl, hno, honly⟩
        · exact .inl ⟨hadm, List.forall_mem_cons.mpr ⟨hgranting, hall⟩⟩
        · refine .inr ⟨hden, rule :: earlier, denier, later, l, rfl, List.forall_mem_cons.mpr ⟨hgranting, hearlier⟩,
            hl, hno, ?_⟩
          exact honly.perm fun k => by simp [ha]
      | false =>
        rw [hg] at hacq
        exact .inr ⟨rfl, [], rule, rules, limiter, rfl, nofun, hfirst, hg,
          onlyAsked_releaseAll hc hi hch hnew hget (asked_of_refused hacq) (i + 1)⟩

end

/-! ## A call -/

/-- Every limiter of a matching rule grants what is asked of it. -/
def AllGrant (r : RateLimiter) (q : Request) (now : Rat) : Prop :=
  ∀ rule ∈ r.getMatchedRules q.method q.path, ∀ limiter, r.limiters.get rule.name = some limiter →
    grants limiter now (q.under rule) = true

/-- A call is denied by `rule`, the first that does not grant; `earlier` are the matching
rules before it, and `later` those after it. -/
structure Denied (r : RateLimiter) (q : Request) (now : Rat) (earlier : List RateLimitRule) (rule : RateLimitRule)
    (later : List RateLimitRule) (limiter : Limiter) : Prop where
  matched : r.getMatchedRules q.method q.path = earlier ++ rule :: later
  granted : ∀ e ∈ earlier, ∀ l, r.limiters.get e.name = some l → grants l now (q.under e) = true
  found : r.limiters.get rule.name = some limiter
  refused : grants limiter now (q.under rule) = false
  asks : OnlyAsked now ((earlier ++ [rule]).map RateLimitRule.name) r.limiters (r.after (q.call now)).limiters

theorem attempt_denied {r : RateLimiter} (hr : Proper r) (q : Request) (now : Rat) :
    (r.acquire (q.call now)).1.answer = .ok true ∧ AllGrant r q now ∨
      (r.acquire (q.call now)).1.answer = .ok false ∧
        ∃ earlier rule later limiter, Denied r q now earlier rule later limiter := by
  have hnodup : ((r.getMatchedRules q.method q.path).map RateLimitRule.name).Nodup :=
    hr.names.sublist (List.filter_sublist.map _)
  have hcases := acquireAll_cases (c := q.call now) (fun _ => rfl) hr.intervals _ hnodup 0 [] r.limiters
    (charged_nil _ _) (by simp)
  have hafter : (r.after (q.call now)).limiters =
      (acquireAll (q.call now) 0 (r.getMatchedRules q.method q.path) [] r.limiters).2 := by
    rw [RateLimiter.after, acquireAll_eq]
    rfl
  rw [acquireAll_eq]
  rcases hcases with ⟨⟨final, hadm⟩, hall⟩ | ⟨hden, earlier, rule, later, limiter, heq, hearlier, hl, hno, honly⟩
  · refine .inl ⟨?_, hall⟩
    show Reply.answer (acquireAll (q.call now) 0 (r.getMatchedRules q.method q.path) [] r.limiters).1 = _
    rw [hadm]
    rfl
  · refine .inr ⟨?_, earlier, rule, later, limiter, heq, hearlier, hl, hno, ?_⟩
    · show Reply.answer (acquireAll (q.call now) 0 (r.getMatchedRules q.method q.path) [] r.limiters).1 = _
      rw [hden]
      rfl
    · rw [hafter]
      exact honly

theorem attempt_cases {r : RateLimiter} (hr : Proper r) (q : Request) (now : Rat) :
    (r.acquire (q.call now)).1.answer = .ok true ∧ AllGrant r q now ∨
      (r.acquire (q.call now)).1.answer = .ok false ∧ ¬ AllGrant r q now ∧
        AllTried now r.limiters (r.after (q.call now)).limiters := by
  rcases attempt_denied hr q now with hyes | ⟨hno, earlier, rule, later, limiter, hd⟩
  · exact .inl hyes
  · refine .inr ⟨hno, fun h => ?_, hd.asks.allTried⟩
    have hgrants := h rule (by simp [hd.matched]) limiter hd.found
    rw [hd.refused] at hgrants
    cases hgrants

end RateLimitAttempts
