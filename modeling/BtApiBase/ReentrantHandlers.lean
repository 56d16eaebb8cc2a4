import BtApiBase.EventServices
import Mathlib.Data.List.Nodup

/-!
# Handlers that change the list they are called from

`_emit_sync` goes over the list of the handlers itself, so that a call may shorten or
extend the list under the iterator. An emission is the sequence of its calls: the call of
number `k` is the one at place `k` of the list as the earlier calls have left it.
-/

namespace ReentrantHandlers

open EventServices

variable {τ δ η : Type} [DecidableEq τ] [DecidableEq η]

inductive Change (η : Type) where
  | subscribe (handler : η)
  | unsubscribe (handler : η)
  deriving DecidableEq

/-- How a call ends: an exception is logged if it is an `Exception`, and leaves the loop
otherwise. -/
inductive Ending where
  | returned
  | raised
  | exited
  deriving DecidableEq

/-- What a handler does while it is called. -/
structure Reaction (η : Type) where
  changes : List (Change η)
  ending : Ending

/-- The loop of `_emit_sync` between two calls. -/
structure Loop (τ δ η : Type) where
  service : EventService τ δ η
  called : List η
  left : Bool

/-- An emission: the service when it begins, and what the call of each number does. -/
structure Emitting (τ δ η : Type) where
  isCoroutine : η → Bool
  type : τ
  service : EventService τ δ η
  react : Nat → Reaction η

namespace Emitting

variable (e : Emitting τ δ η)

def change (s : EventService τ δ η) : Change η → EventService τ δ η
  | .subscribe handler => subscribe e.isCoroutine s e.type handler
  | .unsubscribe handler => unsubscribe s e.type handler

/-- The handlers that the iterator has not come to. -/
def aheadOf (s : Loop τ δ η) : List η :=
  if s.left then [] else (s.service._handlers e.type).drop s.called.length

/-- The body of the loop for the next handler. -/
def callNext (s : Loop τ δ η) (r : Reaction η) : Loop τ δ η :=
  match e.aheadOf s with
  | [] => s
  | handler :: _ => {
      service := r.changes.foldl e.change s.service
      called := s.called ++ [handler]
      left := r.ending == .exited }

def loop : Nat → Loop τ δ η
  | 0 => ⟨e.service, [], false⟩
  | k + 1 => e.callNext (loop k) (e.react k)

def ahead (k : Nat) : List η := e.aheadOf (e.loop k)
def called (k : Nat) : List η := (e.loop k).called

/-! ## What an emission promises -/

/-- The call of number `k` unsubscribes a handler whose turn is still to come. -/
def Withdraws (k : Nat) (handler : η) : Prop :=
  handler ∈ (e.ahead k).tail ∧ .unsubscribe handler ∈ (e.react k).changes

/-- A handler that was subscribed at the start and has not been unsubscribed before its turn. -/
def Due (k : Nat) (handler : η) : Prop :=
  handler ∈ e.service._handlers e.type ∧ ∀ j < k, ¬ e.Withdraws j handler

/-- The emission ends, and every handler that is due then has been called exactly once. -/
structure Promised : Prop where
  ends : ∃ k, e.ahead k = []
  once : ∀ k handler, e.ahead k = [] → e.Due k handler → (e.called k).count handler = 1

/-- The call of number `k` appends the handler to the list. -/
def Adds (k : Nat) (handler : η) : Prop :=
  .subscribe handler ∈ (e.react k).changes ∧ e.isCoroutine handler = false

/-- No call shifts a handler that is due onto a place that the iterator has passed, none puts
one in its way again, and only finitely many calls append handlers. -/
structure Undisturbed : Prop where
  passed : ∀ k handler, handler ∈ (e.ahead k).tail → e.Due (k + 1) handler → handler ∈ e.ahead (k + 1)
  again : ∀ k handler, e.ahead k ≠ [] → e.Due (k + 1) handler →
    (e.ahead (k + 1)).count handler ≤ (e.ahead k).tail.count handler
  settles : ∃ n, ∀ k, n ≤ k → e.ahead k ≠ [] → ∀ handler, ¬ e.Adds k handler

/-! ## One call -/

variable {e}

theorem loop_of_ended {k : Nat} (h : e.ahead k = []) : e.loop (k + 1) = e.loop k := by
  have hahead : e.aheadOf (e.loop k) = [] := h
  simp only [loop, callNext, hahead]

theorem loop_succ {k : Nat} {handler : η} {behind : List η} (h : e.ahead k = handler :: behind) :
    e.loop (k + 1) = {
      service := (e.react k).changes.foldl e.change (e.loop k).service
      called := e.called k ++ [handler]
      left := (e.react k).ending == .exited } := by
  have hahead : e.aheadOf (e.loop k) = handler :: behind := h
  simp only [called, loop, callNext, hahead]

theorem called_succ {k : Nat} {handler : η} {behind : List η} (h : e.ahead k = handler :: behind) :
    e.called (k + 1) = e.called k ++ [handler] := by
  rw [called, loop_succ h]

/-- What is ahead after a call stands behind its place in the list as the call has left it. -/
theorem ahead_succ_sublist {k : Nat} (h : e.ahead k ≠ []) :
    (e.ahead (k + 1)).Sublist
      ((((e.react k).changes.foldl e.change (e.loop k).service)._handlers e.type).drop ((e.called k).length + 1)) := by
  obtain ⟨handler, behind, hahead⟩ := List.exists_cons_of_ne_nil h
  rw [ahead, loop_succ hahead, aheadOf]
  split
  · exact List.nil_sublist _
  · rw [List.length_append]
    exact List.Sublist.refl _

theorem ahead_tail {k : Nat} (h : e.ahead k ≠ []) :
    (e.ahead k).tail = ((e.loop k).service._handlers e.type).drop ((e.called k).length + 1) := by
  unfold ahead aheadOf at h ⊢
  split
  · next hleft => simp [hleft] at h
  · rw [List.tail_drop]
    rfl

theorem place_lt {k : Nat} (h : e.ahead k ≠ []) :
    (e.called k).length < ((e.loop k).service._handlers e.type).length := by
  by_contra hle
  refine h ?_
  unfold ahead aheadOf
  split
  · rfl
  · exact List.drop_of_length_le (Nat.le_of_not_lt hle)

/-- A change appends nothing but what it subscribes. -/
theorem count_change (s : EventService τ δ η) (c : Change η) (n : Nat) (handler : η)
    (h : c = .subscribe handler → e.isCoroutine handler = true) :
    (((e.change s c)._handlers e.type).drop n).count handler ≤ ((s._handlers e.type).drop n).count handler := by
  cases c with
  | unsubscribe other =>
    simp only [change, unsubscribe, Function.update_self]
    exact (List.erase_sublist.drop n).count_le handler
  | subscribe other =>
    simp only [change, subscribe]
    split
    · exact Nat.le_refl _
    · next hother =>
      have hne : other ≠ handler := by
        rintro rfl
        exact hother (h rfl)
      simp only [Function.update_self, List.drop_append, List.count_append]
      have hnew : ([other].drop (n - (s._handlers e.type).length)).count handler = 0 := by
        refine List.count_eq_zero.mpr ?_
        intro hmem
        exact hne (List.mem_singleton.mp (List.mem_of_mem_drop hmem)).symm
      omega

theorem length_change (s : EventService τ δ η) (c : Change η)
    (h : ∀ handler, c = .subscribe handler → e.isCoroutine handler = true) :
    ((e.change s c)._handlers e.type).length ≤ (s._handlers e.type).length := by
  cases c with
  | unsubscribe other =>
    simp only [change, unsubscribe, Function.update_self]
    exact List.erase_sublist.length_le
  | subscribe other =>
    simp only [change, subscribe, h other rfl, if_true]
    exact Nat.le_refl _

/-- What no change makes greater, a call does not. -/
theorem changes_le (m : EventService τ δ η → Nat) (s : EventService τ δ η) (cs : List (Change η))
    (h : ∀ c ∈ cs, ∀ s, m (e.change s c) ≤ m s) : m (cs.foldl e.change s) ≤ m s := by
  induction cs generalizing s with
  | nil => exact Nat.le_refl _
  | cons c cs ih =>
    have hrest := ih (e.change s c) (fun other hmem => h other (List.mem_cons_of_mem c hmem))
    exact hrest.trans (h c List.mem_cons_self s)

omit [DecidableEq τ] [DecidableEq η] in
theorem isCoroutine_of_not_adds {k : Nat} {handler : η} (h : ¬ e.Adds k handler)
    (hmem : .subscribe handler ∈ (e.react k).changes) : e.isCoroutine handler = true := by
  by_contra hcoroutine
  exact h ⟨hmem, by simpa using hcoroutine⟩

/-- A handler that the call does not append stands ahead no more often than before. -/
theorem count_ahead_succ {k : Nat} (h : e.ahead k ≠ []) {handler : η} (hadds : ¬ e.Adds k handler) :
    (e.ahead (k + 1)).count handler ≤ (e.ahead k).tail.count handler := by
  have hchanges := changes_le (fun s => ((s._handlers e.type).drop ((e.called k).length + 1)).count handler)
    (e.loop k).service (e.react k).changes (by
      intro c hc s
      refine count_change s c _ handler ?_
      rintro rfl
      exact isCoroutine_of_not_adds hadds hc)
  rw [ahead_tail h]
  exact ((ahead_succ_sublist h).count_le handler).trans hchanges

/-- A call that appends nothing leaves less ahead. -/
theorem length_ahead_succ {k : Nat} (h : e.ahead k ≠ []) (hadds : ∀ handler, ¬ e.Adds k handler) :
    (e.ahead (k + 1)).length < (e.ahead k).length := by
  have hchanges := changes_le (fun s => (s._handlers e.type).length) (e.loop k).service (e.react k).changes (by
    intro c hc s
    refine length_change s c ?_
    rintro handler rfl
    exact isCoroutine_of_not_adds (hadds handler) hc)
  have hsub := (ahead_succ_sublist h).length_le
  have htail := congrArg List.length (ahead_tail h)
  have hpos := List.length_pos_iff.mpr h
  rw [List.length_drop] at hsub
  rw [List.length_tail, List.length_drop] at htail
  omega

/-! ## The end of an emission -/

theorem ends_of_settled (n : Nat) (hsettled : ∀ k, n ≤ k → e.ahead k ≠ [] → ∀ handler, ¬ e.Adds k handler) :
    ∃ k, e.ahead k = [] := by
  -- a measure: what is ahead gets shorter with every call from here on
  induction hlength : (e.ahead n).length using Nat.strong_induction_on generalizing n with
  | _ length ih =>
    by_cases h : e.ahead n = []
    · exact ⟨n, h⟩
    · have hless := length_ahead_succ h (hsettled n (Nat.le_refl n) h)
      refine ih _ (hlength ▸ hless) (n + 1) ?_ rfl
      intro k hk
      exact hsettled k (by omega)

theorem ahead_of_ended {k : Nat} (h : e.ahead k = []) (n : Nat) (hn : k ≤ n) : e.ahead n = [] := by
  induction n, hn using Nat.le_induction with
  | base => exact h
  | succ n hn ih => rw [ahead, loop_of_ended ih, ← ahead, ih]

/-- The emission ends exactly when only finitely many of its calls append handlers. -/
theorem ends_iff_settles :
    (∃ k, e.ahead k = []) ↔ ∃ n, ∀ k, n ≤ k → e.ahead k ≠ [] → ∀ handler, ¬ e.Adds k handler := by
  constructor
  · rintro ⟨n, hn⟩
    refine ⟨n, ?_⟩
    intro k hk hahead
    exact absurd (ahead_of_ended hn k hk) hahead
  · rintro ⟨n, hn⟩
    exact ends_of_settled n hn

/-! ## Exactly once -/

theorem Due.earlier {k : Nat} {handler : η} (h : e.Due (k + 1) handler) : e.Due k handler := by
  refine ⟨h.1, ?_⟩
  intro j hj
  exact h.2 j (by omega)

theorem Due.later {k : Nat} {handler : η} (h : e.Due k handler) (hk : ¬ e.Withdraws k handler) :
    e.Due (k + 1) handler := by
  refine ⟨h.1, ?_⟩
  intro j hj
  rcases Nat.lt_succ_iff_lt_or_eq.mp hj with hj | rfl
  · exact h.2 j hj
  · exact hk

theorem ahead_zero : e.ahead 0 = e.service._handlers e.type := by
  simp [ahead, aheadOf, loop]

/-- The place of a handler that is due: it has been called or is ahead, and that once. -/
theorem count_of_undisturbed (hnodup : (e.service._handlers e.type).Nodup) (h : e.Undisturbed) (k : Nat)
    (handler : η) (hdue : e.Due k handler) : (e.called k).count handler + (e.ahead k).count handler = 1 := by
  induction k with
  | zero =>
    have hcalled : e.called 0 = [] := rfl
    rw [hcalled, ahead_zero, List.count_nil, Nat.zero_add]
    exact List.count_eq_one_of_mem hnodup hdue.1
  | succ k ih =>
    have hone := ih hdue.earlier
    cases hahead : e.ahead k with
    | nil =>
      rw [called, ahead, loop_of_ended hahead]
      exact hone
    | cons first behind =>
      have hpassed := h.passed k handler
      have hagain := h.again k handler (by simp [hahead]) hdue
      rw [hahead, List.tail_cons] at hpassed hagain
      rw [hahead, List.count_cons] at hone
      rw [called_succ hahead, List.count_append, List.count_singleton]
      by_cases hmem : handler ∈ behind
      · have hstill := List.count_pos_iff.mpr (hpassed hmem hdue)
        have hbehind := List.count_pos_iff.mpr hmem
        omega
      · rw [List.count_eq_zero.mpr hmem] at hone hagain
        omega

theorem promised_of_undisturbed (hnodup : (e.service._handlers e.type).Nodup) (h : e.Undisturbed) : e.Promised where
  ends := ends_iff_settles.mpr h.settles
  once := by
    intro k handler hended hdue
    have hone := count_of_undisturbed hnodup h k handler hdue
    rw [hended, List.count_nil] at hone
    exact hone

/-! ## Behaviours that subscribe none of the first handlers -/

/-- No handler of the start is subscribed again. -/
def AddsOthers (e : Emitting τ δ η) : Prop :=
  ∀ k handler, handler ∈ e.service._handlers e.type → ¬ e.Adds k handler

theorem count_le_of_addsOthers (hnodup : (e.service._handlers e.type).Nodup) (h : AddsOthers e) (k : Nat)
    {handler : η} (hmem : handler ∈ e.service._handlers e.type) :
    (e.called k).count handler + (e.ahead k).count handler ≤ 1 := by
  induction k with
  | zero =>
    have hcalled : e.called 0 = [] := rfl
    rw [hcalled, ahead_zero, List.count_nil, Nat.zero_add]
    exact List.nodup_iff_count_le_one.mp hnodup handler
  | succ k ih =>
    cases hahead : e.ahead k with
    | nil =>
      rw [called, ahead, loop_of_ended hahead]
      exact ih
    | cons first behind =>
      have hcount := count_ahead_succ (by simp [hahead]) (h k handler hmem)
      rw [hahead, List.tail_cons] at hcount
      rw [hahead, List.count_cons] at ih
      rw [called_succ hahead, List.count_append, List.count_singleton]
      omega

/-- A handler that the iterator has passed is not called any more. -/
theorem passed_for_good (h : AddsOthers e) {handler : η} (hmem : handler ∈ e.service._handlers e.type)
    {k : Nat} (hdue : e.Due k handler) (hcalled : handler ∉ e.called k) (hahead : handler ∉ e.ahead k) (n : Nat)
    (hn : k ≤ n) : e.Due n handler ∧ handler ∉ e.called n ∧ handler ∉ e.ahead n := by
  induction n, hn using Nat.le_induction with
  | base => exact ⟨hdue, hcalled, hahead⟩
  | succ n hn ih =>
    obtain ⟨hdue, hcalled, hahead⟩ := ih
    have hdue' : e.Due (n + 1) handler := hdue.later fun hw => hahead (List.mem_of_mem_tail hw.1)
    cases hlist : e.ahead n with
    | nil =>
      rw [called, ahead, loop_of_ended hlist]
      exact ⟨hdue', hcalled, hahead⟩
    | cons first behind =>
      have hcount := count_ahead_succ (by simp [hlist]) (h n handler hmem)
      rw [hlist] at hahead hcount
      rw [List.tail_cons, List.count_eq_zero.mpr fun hb => hahead (List.mem_cons_of_mem first hb)] at hcount
      have hfirst : handler ≠ first := fun he => hahead (he ▸ List.mem_cons_self)
      refine ⟨hdue', ?_, List.count_eq_zero.mp (by omega)⟩
      rw [called_succ hlist]
      simp [hcalled, hfirst]

theorem undisturbed_of_promised (hnodup : (e.service._handlers e.type).Nodup) (h : AddsOthers e)
    (hp : e.Promised) : e.Undisturbed where
  settles := ends_iff_settles.mp hp.ends
  again := by
    intro k handler hahead hdue
    exact count_ahead_succ hahead (h k handler hdue.1)
  passed := by
    intro k handler hbehind hdue
    by_contra hlost
    cases hahead : e.ahead k with
    | nil => simp [hahead] at hbehind
    | cons first behind =>
      rw [hahead, List.tail_cons] at hbehind
      have hcount := count_le_of_addsOthers hnodup h k hdue.1
      have hpos := List.count_pos_iff.mpr hbehind
      rw [hahead, List.count_cons] at hcount
      have hcalled : (e.called (k + 1)).count handler = 0 := by
        rw [called_succ hahead, List.count_append, List.count_singleton]
        omega
      obtain ⟨n, hn⟩ := hp.ends
      have hgone := passed_for_good h hdue.1 hdue (List.count_eq_zero.mp hcalled) hlost (max n (k + 1))
        (Nat.le_max_right _ _)
      have hone := hp.once (max n (k + 1)) handler (ahead_of_ended hn _ (Nat.le_max_left _ _)) hgone.1
      rw [List.count_eq_zero.mpr hgone.2.1] at hone
      omega

/-- Undisturbed emissions keep the promise, and among the behaviours that subscribe no
handler of the start again they are the only ones. -/
theorem promised_iff_undisturbed (e : Emitting τ δ η) (hnodup : (e.service._handlers e.type).Nodup) :
    (e.Undisturbed → e.Promised) ∧ (AddsOthers e → (e.Promised ↔ e.Undisturbed)) := by
  constructor
  · exact promised_of_undisturbed hnodup
  · intro h
    exact ⟨undisturbed_of_promised hnodup h, promised_of_undisturbed hnodup⟩

/-- Two handlers of one event type. -/
def twoHandlers (react : Nat → Reaction Nat) : Emitting Nat Nat Nat where
  isCoroutine _ := false
  type := 0
  service := subscribe (fun _ => false) (subscribe (fun _ => false) {} 0 1) 0 2
  react := react

/-- The first handler raises and the last one unsubscribes itself. -/
def lastLeaves : Emitting Nat Nat Nat := twoHandlers fun k =>
  if k = 1 then ⟨[.unsubscribe 2], .returned⟩ else ⟨[], .raised⟩

theorem lastLeaves_ended (k : Nat) (h : 2 ≤ k) : lastLeaves.ahead k = [] :=
  ahead_of_ended (by decide) k h

theorem undisturbed_lastLeaves : lastLeaves.Undisturbed where
  passed := by
    intro k handler hmem _
    by_cases hk : 2 ≤ k
    · rw [lastLeaves_ended k hk] at hmem
      cases hmem
    · obtain rfl | rfl : k = 0 ∨ k = 1 := by omega
      · exact hmem
      · exact hmem
  again := by
    intro k handler hahead _
    by_cases hk : 2 ≤ k
    · exact absurd (lastLeaves_ended k hk) hahead
    · obtain rfl | rfl : k = 0 ∨ k = 1 := by omega
      · exact Nat.le_refl _
      · exact Nat.le_refl _
  settles := by
    refine ⟨2, ?_⟩
    intro k hk hahead
    exact absurd (lastLeaves_ended k hk) hahead

theorem promised_lastLeaves : lastLeaves.Undisturbed ∧ lastLeaves.Promised :=
  ⟨undisturbed_lastLeaves, (promised_iff_undisturbed lastLeaves (by decide)).1 undisturbed_lastLeaves⟩

/-! ## Handlers that break the promise -/

/-- While every call appends a handler, the emission does not end. -/
theorem ahead_of_growing (hfirst : e.service._handlers e.type ≠ [])
    (hgrow : ∀ k, ∃ handler, e.isCoroutine handler = false ∧ e.react k = ⟨[.subscribe handler], .returned⟩) (k : Nat) :
    e.ahead k ≠ [] := by
  induction k with
  | zero => rwa [ahead_zero]
  | succ k ih =>
    obtain ⟨handler, hsync, hreact⟩ := hgrow k
    obtain ⟨first, behind, hahead⟩ := List.exists_cons_of_ne_nil ih
    have hplace := place_lt ih
    intro hnone
    have hlength := congrArg List.length hnone
    rw [ahead, loop_succ hahead, aheadOf, hreact] at hlength
    simp [change, subscribe, hsync] at hlength
    omega

/-- The first handler unsubscribes itself, and the second is passed over; every handler
subscribes another one, and there is always one to call. -/
theorem handler_passed :
    ¬ (twoHandlers fun _ => ⟨[.unsubscribe 1], .returned⟩).Promised ∧
    ¬ (twoHandlers fun k => ⟨[.subscribe (k + 3)], .returned⟩).Promised := by
  constructor
  · intro h
    have hone := h.once 1 2 (by decide) (by
      refine ⟨by decide, ?_⟩
      rintro j hj ⟨-, hmem⟩
      simp [twoHandlers] at hmem)
    revert hone
    decide
  · intro h
    obtain ⟨k, hk⟩ := h.ends
    refine ahead_of_growing (by decide) ?_ k hk
    intro k
    exact ⟨k + 3, rfl, rfl⟩

end Emitting

end ReentrantHandlers
