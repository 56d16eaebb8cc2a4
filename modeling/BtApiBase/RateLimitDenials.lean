import BtApiBase.RateLimitLedgers

/-!
# What a denied call leaves behind

A denied call may have charged several limiters before one refused. The ledger
does not change, so the limiters that account for it answer every later call as
if the denied one had not been made. This takes a clock that does not go back
and a history without weights below zero; the denied call may ask for anything.
-/

namespace RateLimitDenials

open PyText PyDict PyValue ChargeLogs RateLimits RateLimitLedgers

/-- With distinct names no account is asked twice, so a negative weight is the last
one of its account. -/
theorem tame_of_nodup {log : Reservations} (hlog : Nonneg log) {rules : List RateLimitRule}
    (hn : (rules.map RateLimitRule.name).Nodup) (c : Call) : Tame (keys log ++ asked c rules) := by
  have hkeys : ∀ x ∈ keys log, 0 ≤ x.2 := by
    intro x hx
    obtain ⟨a, ha, rfl⟩ := List.mem_map.mp hx
    exact hlog a ha
  refine List.pairwise_append.mpr ⟨?_, ?_, fun x hx y _ _ => hkeys x hx⟩
  · exact List.Pairwise.imp_of_mem (fun hx _ _ _ => hkeys _ hx) (List.pairwise_of_forall fun _ _ => trivial)
  · refine List.Pairwise.map _ ?_ (List.pairwise_map.mp hn)
    intro a b hne heq
    exact absurd heq hne

/-- A denial leaves no trace. -/
theorem replies_after_denied {rules : List RateLimitRule} (hn : (rules.map RateLimitRule.name).Nodup)
    (hr : ∀ rule ∈ rules, RuleNonneg rule) {history later : List Call} {c : Call}
    (hord : Ordered (history ++ c :: later)) (hw : ∀ d ∈ history ++ later, 0 ≤ d.weight)
    (hd : ((Runs.run RateLimiter.after (.new rules) history).acquire c).1 = .denied) :
    ((Runs.run RateLimiter.after (.new rules) history).after c).replies later =
      (Runs.run RateLimiter.after (.new rules) history).replies later := by
  obtain ⟨hmono, hpair⟩ := hord
  obtain ⟨hhist, hrest, hcross⟩ := List.pairwise_append.mp hpair
  obtain ⟨hnext, hlater⟩ := List.pairwise_cons.mp hrest
  have hordLater : Ordered later :=
    ⟨fun d hd => hmono d (List.mem_append_right _ (List.mem_cons_of_mem _ hd)), hlater⟩
  have hwLater : ∀ d ∈ later, NonnegRequests rules d :=
    fun d hd => nonnegRequests_of hr (hw d (List.mem_append_right _ hd))
  have hrules : (Runs.run RateLimiter.after (RateLimiter.new rules) history).rules = rules :=
    Runs.run_induction (P := fun r => r.rules = rules) (fun r d h => (after_rules r d).trans h) rfl history
  -- the state before the denied call, and the ledger that it accounts for
  have hstate := (replies_refines rules history (r := .new rules) (B := fun _ => True) rfl
    (fun u _ => refines_new rules u) ⟨fun d hd => hmono d (List.mem_append_left _ hd), hhist⟩
    (fun d hd => nonnegRequests_of hr (hw d (List.mem_append_left _ hd))) (fun _ _ _ => trivial)).2
  generalize Runs.run RateLimiter.after (RateLimiter.new rules) history = r at *
  generalize Runs.run (fun l c => l.after rules c) (Ledger.new rules) history = l at *
  have hbefore : ∀ u, c.clock 0 ≤ u → Refines r l u := fun u hu =>
    hstate u trivial fun d hd i => (hcross d hd c List.mem_cons_self i 0).trans hu
  have hmonoc : Monotone c.clock := hmono c (List.mem_append_right _ List.mem_cons_self)
  have hnames : ((r.getMatchedRules c.method c.path).map RateLimitRule.name).Nodup := by
    rw [RateLimiter.getMatchedRules, hrules]
    exact hn.sublist (List.Sublist.map _ List.filter_sublist)
  obtain ⟨hreply, hafter⟩ := acquire_refines (hbefore _ le_rfl).accounted hmonoc le_rfl
    (tame_of_nodup (hbefore _ le_rfl).nonneg hnames c)
  have hsame : l.after r.rules c = l := by
    rw [Ledger.after, ← hreply, hd]
    simp [Reply.kept]
  rw [hsame] at hafter
  have hdenied := replies_refines rules later (r := r.after c) (B := fun u => ∀ i, c.clock i ≤ u)
    ((after_rules r c).trans hrules) (fun u hu => ⟨hafter u hu, (hbefore u (hu 0)).nonneg⟩)
    hordLater hwLater fun d hd j i => hnext d hd i j
  have hspared := replies_refines rules later (B := fun u => c.clock 0 ≤ u) hrules hbefore hordLater
    hwLater fun d hd j => hnext d hd 0 j
  rw [hdenied.1, hspared.1]

/-- The first rule counts one way for `GET`, the second refuses `PUT`. -/
def signed (get : Int) : List RateLimitRule :=
  [⟨u "orders", .fixedWindow, 10, 3, .global, none, some (Dict.empty.set (u "GET") get), 1⟩,
    ⟨u "puts", .fixedWindow, 10, 0, .global, none, some (Dict.empty.set (u "PUT") 1), 0⟩]

theorem replies_after_denied_put :
    ((Runs.run RateLimiter.after (.new (signed 2)) [callAt "GET" 1 20]).after (callAt "PUT" 1 21)).replies
        [callAt "POST" 2 22] =
      (Runs.run RateLimiter.after (.new (signed 2)) [callAt "GET" 1 20]).replies [callAt "POST" 2 22] := by
  refine replies_after_denied (by decide) ?_ ⟨?_, ?_⟩ (by decide) (by decide +kernel)
  · simp [signed, RuleNonneg, Dict.values, Dict.set, Dict.empty, put]
  · simp [callAt, monotone_const]
  · norm_num [callAt]

/-- The call is denied, and the calls after it are answered otherwise than without it. -/
abbrev LeavesTrace (rules : List RateLimitRule) (history : List Call) (c : Call) (later : List Call) :
    Prop :=
  (rules.map RateLimitRule.name).Nodup ∧
    ((Runs.run RateLimiter.after (.new rules) history).acquire c).1 = .denied ∧
    (((Runs.run RateLimiter.after (.new rules) history).after c).replies later).map Reply.answer ≠
      ((Runs.run RateLimiter.after (.new rules) history).replies later).map Reply.answer

/-- A weight below zero in the history lets the roll-back raise the counter, and after
a step back of the clock the denied call empties a window that is still open. -/
theorem denied_leaves_trace :
    LeavesTrace (signed (-1)) [callAt "GET" 2 20] (callAt "PUT" 1 21) [callAt "POST" 4 22] ∧
      LeavesTrace (signed 1) [callAt "POST" 3 20] (callAt "PUT" 1 19) [callAt "POST" 1 21] := by
  decide +kernel

end RateLimitDenials
