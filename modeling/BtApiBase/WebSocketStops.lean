import BtApiBase.WebSocketReconnects

/-!
# A connection that was disconnected

In a settled connection a `disconnect` that returns leaves a connection that is
down and that no task brings up again: whatever is left of the tasks finds the
loop stopped when it comes back.
-/

namespace WebSocketStops

open WebSocketTasks WebSocketReconnects

/-- The connection is down, and its tasks are cancelled or in the part of
`_handle_disconnect` that ends as soon as it looks at `_running`. -/
structure Down (w : World) : Prop where
  connected : w._connected = false
  running : w._running = false
  tasks : ∀ i t, w.tasks i = some t → t.cancelled = false →
    t.point = .leaving .reclosing ∨ ∃ left, t.point = .leaving (.restoring left)

section

variable {w : World}

/-- A connection without its flags and with some of the tasks. -/
theorem Down.shrink {w' : World} (h : Down w) (hc : w'._connected = false) (hr : w'._running = false)
    (ht : ∀ i t, w'.tasks i = some t → t.cancelled = true ∨ w.tasks i = some t) : Down w' := by
  refine ⟨hc, hr, fun i t hi hcan => ?_⟩
  rcases ht i t hi with htrue | hi
  · rw [htrue] at hcan
    cases hcan
  · exact h.tasks i t hi hcan

theorem tasks_endTask (w : World) (i j : Nat) :
    (w.endTask i).tasks j = if j = i then none else w.tasks j :=
  Function.update_apply _ _ _ _

theorem down_endTask (h : Down w) (i : Nat) : Down (w.endTask i) := by
  refine h.shrink h.connected h.running fun j t hj => ?_
  rw [tasks_endTask] at hj
  by_cases hji : j = i
  · rw [if_pos hji] at hj
    cases hj
  · rw [if_neg hji] at hj
    exact .inr hj

theorem down_crash (h : Down w) (i : Nat) : Down (w.crash i) := by
  have he := down_endTask h i
  exact ⟨he.connected, he.running, he.tasks⟩

theorem down_retry (h : Down w) (i : Nat) : Down (w.retry i) := by
  have he := down_endTask h i
  unfold World.retry
  rw [h.running, Bool.false_and, if_neg Bool.false_ne_true]
  exact ⟨he.connected, rfl, he.tasks⟩

theorem down_failed (h : Down w) (i : Nat) : Down (w.failed i) := by
  unfold World.failed World.closeAndRetry
  dsimp only
  split
  · refine ⟨rfl, h.running, fun j t hj hcan => ?_⟩
    have hget : Function.update w.tasks i (some ⟨.leaving .reclosing, false⟩) j = some t := hj
    rw [Function.update_apply] at hget
    by_cases hji : j = i
    · rw [if_pos hji] at hget
      cases hget
      exact .inl rfl
    · rw [if_neg hji] at hget
      exact h.tasks j t hget hcan
  · have hs : Down { w with _connected := false } := ⟨rfl, h.running, h.tasks⟩
    exact down_retry hs i

theorem down_restore (h : Down w) (i left : Nat) : Down (w._restoreSubscriptions i left) := by
  cases left with
  | zero => exact down_endTask h i
  | succ left =>
    show Down (w.send i left)
    unfold World.send
    rw [h.connected, Bool.false_and, if_neg Bool.false_ne_true]
    exact down_failed h i

/-- No task brings the connection up. -/
theorem down_resume (h : Down w) (i : Nat) (result : Result) (subscriptions : Nat) :
    Down (step w (.resume i result subscriptions)) := by
  simp only [step]
  split
  · exact h
  · next t ht =>
    split
    · exact down_endTask h i
    · next hcan =>
      rcases h.tasks i t ht (by simpa using hcan) with hp | ⟨left, hp⟩
      · rw [hp]
        exact down_retry h i
      · rw [hp]
        cases result with
        | done => exact down_restore h i left
        | waits => exact down_crash h i
        | lost => exact down_failed h i
        | raised => exact down_crash h i

theorem down_endCall (h : Down w) (c : Nat) : Down (w.endCall c) := ⟨h.connected, h.running, h.tasks⟩

theorem down_closeCall (h : Down w) (c : Nat) : Down (w.closeCall c) := by
  unfold World.closeCall
  split
  · exact ⟨h.connected, h.running, h.tasks⟩
  · exact ⟨rfl, h.running, h.tasks⟩

theorem down_awaited (h : Down w) (c task : Nat) : Down (w.awaited c task) := by
  unfold World.awaited
  split
  · exact down_endCall h c
  · exact down_closeCall h c

theorem down_disconnect (h : Down w) (c : Nat) : Down (step w (.disconnect c)) := by
  simp only [step]
  split
  · have hs : Down { w with _running := false, _processingTask := none } := ⟨h.connected, rfl, h.tasks⟩
    unfold World.disconnect
    dsimp only
    split
    · exact down_closeCall hs c
    · next task _ =>
      split
      · exact down_awaited hs c task
      · refine h.shrink h.connected rfl fun i t hi => ?_
        have hget : Function.update w.tasks task (some _) i = some t := hi
        rw [Function.update_apply] at hget
        by_cases hit : i = task
        · rw [if_pos hit] at hget
          cases hget
          exact .inl rfl
        · rw [if_neg hit] at hget
          exact .inr hget
  · exact h

/-- A call that goes on brings the connection up only by a `connect` that comes back. -/
theorem down_resumeCall (h : Down w) (c : Nat) (result : Result)
    (hc : w.calls c = some (.connecting .dialing) → result ≠ .done) :
    Down (step w (.resumeCall c result)) := by
  simp only [step]
  split
  · exact h
  · next place hplace =>
    cases place with
    | connecting place =>
      cases place with
      | closing => exact ⟨h.connected, h.running, h.tasks⟩
      | dialing =>
        cases result with
        | done => exact absurd rfl (hc hplace)
        | waits => exact down_endCall h c
        | lost => exact down_endCall h c
        | raised => exact down_endCall h c
    | awaiting task =>
      show Down (if w.tasks task = none then w.awaited c task else w)
      split
      · exact down_awaited h c task
      · exact h
    | closing => exact ⟨rfl, h.running, h.tasks⟩

/-! ## The end of `disconnect` -/

/-- A settled connection that is stopped and down stays down. -/
theorem down_of_stopped (h : Settled w) (hr : w._running = false) (hp : w._processingTask = none)
    (hc : w._connected = false) : Down w := by
  refine ⟨hc, hr, fun i t ht hcan => ?_⟩
  have hok := (h.points i t ht).2 hcan
  have hno : ¬ w._processingTask = some i := by
    rw [hp]
    nofun
  obtain ⟨point, cancelled⟩ := t
  cases point with
  | start => exact absurd hok.1 hno
  | recv socket => exact absurd hok.1 hno
  | handling => exact absurd hok.1 hno
  | spinning => exact absurd hok id
  | leaving place =>
    cases place with
    | closing => exact absurd hok.1 hno
    | sleeping => exact absurd hok.1 hno
    | connecting place => exact absurd hok.1 hno
    | reclosing => exact .inl rfl
    | restoring left => exact .inr ⟨left, rfl⟩

/-- What a `disconnect` has done when it returns. -/
structure Stopped (w : World) : Prop where
  running : w._running = false
  processingTask : w._processingTask = none
  connected : w._connected = false

theorem stopped_closeCall (hr : w._running = false) (hp : w._processingTask = none) {c : Nat}
    (hend : (w.closeCall c).calls c = none) : Stopped (w.closeCall c) := by
  unfold World.closeCall at hend ⊢
  cases hs : w._websocket with
  | none => exact ⟨hr, hp, rfl⟩
  | some socket =>
    rw [hs] at hend
    have hstand : Function.update w.calls c (some Call.closing) c = none := hend
    rw [Function.update_self] at hstand
    cases hstand

theorem stopped_awaited (hr : w._running = false) (hp : w._processingTask = none) {c task : Nat}
    (hno : w.crashed task = false) (hend : (w.awaited c task).calls c = none) :
    Stopped (w.awaited c task) := by
  unfold World.awaited at hend ⊢
  rw [hno] at hend ⊢
  exact stopped_closeCall hr hp hend

/-- `disconnect` returns at once. -/
theorem stopped_disconnect {c : Nat} (hraise : w.raises c = false)
    (hend : (step w (.disconnect c)).calls c = none) : Stopped (step w (.disconnect c)) := by
  have hnone : w.calls c = none := by
    by_contra hne
    simp only [step, if_neg hne] at hend
    exact hne hend
  simp only [step, if_pos hnone] at hend ⊢
  unfold World.disconnect at hend ⊢
  unfold World.raises at hraise
  rw [hnone] at hraise
  dsimp only at hraise hend ⊢
  cases hp : w._processingTask with
  | none =>
    rw [hp] at hend
    exact stopped_closeCall rfl rfl hend
  | some task =>
    rw [hp] at hend hraise
    cases ht : w.tasks task with
    | none =>
      simp only [ht] at hend ⊢
      have hno : w.crashed task = false := by simpa [ht] using hraise
      exact stopped_awaited rfl rfl hno hend
    | some t =>
      simp only [ht] at hend
      have hstand : Function.update w.calls c (some (Call.awaiting task)) c = none := hend
      rw [Function.update_self] at hstand
      cases hstand

/-- `disconnect` returns after an await. -/
theorem stopped_resumeCall (h : Settled w) {c : Nat} {call : Call} (hc : w.calls c = some call)
    (hd : call.isDisconnect) (hraise : w.raises c = false) {result : Result}
    (hend : (step w (.resumeCall c result)).calls c = none) : Stopped (step w (.resumeCall c result)) := by
  obtain ⟨hr, hp⟩ := h.stopped c call hc hd
  simp only [step, hc] at hend ⊢
  cases call with
  | connecting place => cases hd
  | awaiting task =>
    have hgo : w.resumeCall c (.awaiting task) result =
        if w.tasks task = none then w.awaited c task else w := rfl
    rw [hgo] at hend ⊢
    by_cases ht : w.tasks task = none
    · rw [if_pos ht] at hend ⊢
      unfold World.raises at hraise
      have hno : w.crashed task = false := by simpa [hc, ht] using hraise
      exact stopped_awaited hr hp hno hend
    · rw [if_neg ht, hc] at hend
      cases hend
  | closing => exact ⟨hr, hp, rfl⟩

/-! ## The calls -/

theorem calls_head (w : World) (i : Nat) : (w.head i).calls = w.calls := by
  unfold World.head
  split
  · split <;> rfl
  · rfl

theorem calls_retry (w : World) (i : Nat) : (w.retry i).calls = w.calls := by
  unfold World.retry
  split <;> rfl

theorem calls_closeAndRetry (w : World) (i : Nat) (place : Leaving) :
    (w.closeAndRetry i place).calls = w.calls := by
  unfold World.closeAndRetry
  split
  · rfl
  · exact calls_retry w i

theorem calls_failed (w : World) (i : Nat) : (w.failed i).calls = w.calls :=
  calls_closeAndRetry _ i .reclosing

theorem calls_restore (w : World) (i left : Nat) : (w._restoreSubscriptions i left).calls = w.calls := by
  cases left with
  | zero => rfl
  | succ left =>
    show (w.send i left).calls = w.calls
    unfold World.send
    split
    · rfl
    · exact calls_failed w i

theorem calls_reconnect (w : World) (i subscriptions : Nat) :
    (w.reconnect i subscriptions).calls = w.calls := by
  unfold World.reconnect
  split
  · exact calls_restore w i subscriptions
  · split <;> rfl

/-- The tasks have no part in the calls. -/
theorem calls_resume (w : World) (i : Nat) (result : Result) (subscriptions : Nat) :
    (step w (.resume i result subscriptions)).calls = w.calls := by
  simp only [step]
  split
  · rfl
  · next t _ =>
    split
    · rfl
    · cases t.point with
      | start => exact calls_head w i
      | recv socket =>
        cases result with
        | done => exact calls_head w i
        | waits => rfl
        | lost => exact calls_closeAndRetry _ i .closing
        | raised => rfl
      | handling =>
        cases result with
        | done => exact calls_head w i
        | waits => rfl
        | lost => exact calls_head w i
        | raised => rfl
      | spinning => rfl
      | leaving place =>
        cases place with
        | closing => exact calls_retry w i
        | reclosing => exact calls_retry w i
        | sleeping => exact calls_reconnect w i subscriptions
        | connecting place =>
          cases place with
          | closing => rfl
          | dialing =>
            cases result with
            | done => exact calls_restore w.established i subscriptions
            | waits => rfl
            | lost => exact calls_failed w i
            | raised => rfl
        | restoring left =>
          cases result with
          | done => exact calls_restore w i left
          | waits => rfl
          | lost => exact calls_failed w i
          | raised => rfl

theorem calls_closeCall {c : Nat} {call : Call} (h : (w.closeCall c).calls c = some call) :
    call = .closing := by
  unfold World.closeCall at h
  split at h
  · have hstand : Function.update w.calls c (some Call.closing) c = some call := h
    rw [Function.update_self] at hstand
    exact (Option.some.inj hstand).symm
  · have hend : Function.update w.calls c none c = some call := h
    rw [Function.update_self] at hend
    cases hend

theorem calls_awaited {c task : Nat} {call : Call} (h : (w.awaited c task).calls c = some call) :
    call = .closing := by
  unfold World.awaited at h
  split at h
  · have hend : Function.update w.calls c none c = some call := h
    rw [Function.update_self] at hend
    cases hend
  · exact calls_closeCall h

theorem isDisconnect_disconnect {c : Nat} (h : ∀ call, w.calls c = some call → call.isDisconnect)
    (call : Call) (hc : (step w (.disconnect c)).calls c = some call) : call.isDisconnect := by
  simp only [step] at hc
  split at hc
  · unfold World.disconnect at hc
    dsimp only at hc
    split at hc
    · rw [calls_closeCall hc]
      rfl
    · next task _ =>
      split at hc
      · rw [calls_awaited hc]
        rfl
      · have hstand : Function.update w.calls c (some (Call.awaiting task)) c = some call := hc
        rw [Function.update_self] at hstand
        cases hstand
        rfl
  · exact h call hc

theorem isDisconnect_resumeCall {c : Nat} (h : ∀ call, w.calls c = some call → call.isDisconnect)
    (result : Result) (call : Call) (hc : (step w (.resumeCall c result)).calls c = some call) :
    call.isDisconnect := by
  simp only [step] at hc
  split at hc
  · exact h call hc
  · next place hplace =>
    have hd := h place hplace
    cases place with
    | connecting place => cases hd
    | awaiting task =>
      have hgo : w.resumeCall c (.awaiting task) result =
          if w.tasks task = none then w.awaited c task else w := rfl
      rw [hgo] at hc
      split at hc
      · rw [calls_awaited hc]
        rfl
      · exact h call hc
    | closing =>
      have hend : Function.update w.calls c none c = some call := hc
      rw [Function.update_self] at hend
      cases hend

theorem calls_closeCall_other {c c' : Nat} (hne : c' ≠ c) : (w.closeCall c).calls c' = w.calls c' := by
  unfold World.closeCall
  split <;> exact Function.update_of_ne hne _ _

theorem calls_awaited_other {c c' task : Nat} (hne : c' ≠ c) : (w.awaited c task).calls c' = w.calls c' := by
  unfold World.awaited
  split
  · exact Function.update_of_ne hne _ _
  · exact calls_closeCall_other hne

/-- A `disconnect` that is called leaves the other calls alone. -/
theorem calls_disconnect_other {c c' : Nat} (hne : c' ≠ c) : (step w (.disconnect c)).calls c' = w.calls c' := by
  simp only [step]
  split
  · unfold World.disconnect
    dsimp only
    split
    · exact calls_closeCall_other hne
    · split
      · exact calls_awaited_other hne
      · exact Function.update_of_ne hne _ _
  · rfl

/-- A call that goes on leaves the others alone. -/
theorem calls_resumeCall_other {c c' : Nat} (hne : c' ≠ c) (result : Result) :
    (step w (.resumeCall c result)).calls c' = w.calls c' := by
  simp only [step]
  split
  · rfl
  · next place _ =>
    cases place with
    | connecting place =>
      cases place with
      | closing => exact Function.update_of_ne hne _ _
      | dialing => cases result <;> exact Function.update_of_ne hne _ _
    | awaiting task =>
      show (if w.tasks task = none then w.awaited c task else w).calls c' = w.calls c'
      split
      · exact calls_awaited_other hne
      · rfl
    | closing => exact Function.update_of_ne hne _ _

end

end WebSocketStops
