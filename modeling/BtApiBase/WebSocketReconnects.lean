import BtApiBase.WebSocketTasks

/-!
# Reconnecting without a second handler

While subscriptions are restored after a reconnect there are two processing
tasks, the one that reconnected and the one that its `connect` started. As long
as the connection holds until the first of them is done, and callers connect
only what is down for good, no two tasks handle a disconnect and no task finds
the loop running without a socket.
-/

namespace WebSocketReconnects

open WebSocketTasks Runs

/-- At most one task handles a disconnect and none spins. -/
structure Calm (w : World) : Prop where
  one : ∀ i j t t', w.tasks i = some t → w.tasks j = some t' → t.isLeaving → t'.isLeaving → i = j
  turns : ∀ i t, w.tasks i = some t → t.point ≠ .spinning

/-- What a processing task that is not cancelled can rely on where it stands. -/
def PointOk (w : World) (i : Nat) : Point → Prop
  | .start | .recv _ | .handling =>
    w._processingTask = some i ∧ w._running = true ∧ w._websocket ≠ none
  | .spinning => False
  | .leaving .closing | .leaving .sleeping | .leaving (.connecting _) =>
    w._processingTask = some i ∧ w._connected = false
  | .leaving .reclosing =>
    (w._processingTask = some i ∨ w._running = false) ∧ w._connected = false
  | .leaving (.restoring _) => w._running = true → w._connected = true ∧ w._websocket ≠ none

def TaskOk (w : World) (i : Nat) (t : Processing) : Prop :=
  t.point ≠ .spinning ∧ (t.cancelled = false → PointOk w i t.point)

/-- The invariant: each task can rely on what it has to, one at most handles a
disconnect, a `disconnect` in progress has taken the processing task, and a
`connect` of a caller is alone. -/
structure Settled (w : World) : Prop where
  points : ∀ i t, w.tasks i = some t → TaskOk w i t
  one : ∀ i j t t', w.tasks i = some t → w.tasks j = some t' → t.isLeaving → t'.isLeaving → i = j
  fresh : ∀ i, w.nextTask ≤ i → w.tasks i = none
  stopped : ∀ c call, w.calls c = some call → call.isDisconnect →
    w._running = false ∧ w._processingTask = none
  alone : ∀ c place, w.calls c = some (.connecting place) →
    (∀ i, w.tasks i = none) ∧ w._websocket = none ∧ ∀ c', w.calls c' ≠ none → c' = c

theorem Settled.calm {w : World} (h : Settled w) : Calm w :=
  ⟨h.one, fun i t ht => (h.points i t ht).1⟩

theorem settled_init (maxReconnectAttempts : Nat) : Settled (init maxReconnectAttempts) :=
  ⟨nofun, nofun, fun _ _ => rfl, nofun, nofun⟩

/-- A call of `connect` by a caller finds the connection up, or no task and no
other call; and while subscriptions are restored the connection is not seen to
be lost, unless it was stopped. -/
def Orderly (w : World) : Label → Prop
  | .connect _ => w._connected = true ∨ (∀ i, w.tasks i = none) ∧ ∀ c, w.calls c = none
  | .resume i .lost _ => ∀ t, w.tasks i = some t → t.cancelled = false → match t.point with
    | .recv _ => ∀ j t', w.tasks j = some t' → ¬ t'.isLeaving
    | .leaving (.restoring _) => w._running = false
    | _ => True
  | _ => True

/-! ## One task goes on -/

/-- No task but `i` handles a disconnect. -/
def NoOther (w : World) (i : Nat) : Prop :=
  ∀ j t, j ≠ i → w.tasks j = some t → ¬ t.isLeaving

theorem Settled.noOther {w : World} (h : Settled w) {i : Nat} {t : Processing} (ht : w.tasks i = some t)
    (hl : t.isLeaving) : NoOther w i :=
  fun j t' hne ht' hl' => hne (h.one j i t' t ht' ht hl' hl)

/-- A task that exists leaves no room for a `connect` of a caller. -/
theorem Settled.not_connecting {w : World} (h : Settled w) {i : Nat} {t : Processing}
    (ht : w.tasks i = some t) (c : Nat) (place : Connecting) :
    w.calls c ≠ some (.connecting place) := by
  intro hc
  rw [(h.alone c place hc).1 i] at ht
  cases ht

theorem Settled.lt_nextTask {w : World} (h : Settled w) {i : Nat} {t : Processing}
    (ht : w.tasks i = some t) : i < w.nextTask := by
  by_contra hge
  rw [h.fresh i (by omega)] at ht
  cases ht

/-- Beside the processing task, or once stopped, all others but one that handles
a disconnect are cancelled. -/
theorem Settled.cancelled {w : World} (h : Settled w) {i : Nat} (hl : NoOther w i)
    (hp : w._processingTask = some i ∨ w._running = false) {j : Nat} {t : Processing} (hne : j ≠ i)
    (ht : w.tasks j = some t) : t.cancelled = true := by
  by_contra hc
  have hok := (h.points j t ht).2 (by simpa using hc)
  have hno := hl j t hne ht
  obtain ⟨point, cancelled⟩ := t
  have hrun : ¬ (w._processingTask = some j ∧ w._running = true ∧ w._websocket ≠ none) := by
    rintro ⟨hj, hr, -⟩
    rcases hp with hp | hp
    · rw [hp] at hj
      exact hne (Option.some.inj hj).symm
    · rw [hp] at hr
      cases hr
  cases point with
  | start => exact hrun hok
  | recv socket => exact hrun hok
  | handling => exact hrun hok
  | spinning => exact hok
  | leaving place => exact hno rfl

/-- Processing `i` moves, and what the others rely on still holds. -/
theorem Settled.move {w w' : World} (h : Settled w) {i : Nat} {x : Option Processing}
    (hi : i < w.nextTask) (hno : ∀ c place, w.calls c ≠ some (.connecting place))
    (htasks : w'.tasks = Function.update w.tasks i x) (hcalls : w'.calls = w.calls)
    (hnext : w'.nextTask = w.nextTask)
    (hothers : ∀ j t, j ≠ i → w.tasks j = some t → t.cancelled = false → PointOk w' j t.point)
    (hself : ∀ t, x = some t → TaskOk w' i t ∧ (t.isLeaving → NoOther w i))
    (hstopped : ∀ c call, w.calls c = some call → call.isDisconnect →
      w'._running = false ∧ w'._processingTask = none) : Settled w' := by
  have hget : ∀ j, w'.tasks j = if j = i then x else w.tasks j := by
    intro j
    rw [htasks, Function.update_apply]
  refine ⟨?_, ?_, ?_, ?_, ?_⟩
  · intro j t ht
    rw [hget] at ht
    by_cases hj : j = i
    · rw [if_pos hj] at ht
      subst hj
      exact (hself t ht).1
    · rw [if_neg hj] at ht
      exact ⟨(h.points j t ht).1, hothers j t hj ht⟩
  · intro j k t t' ht ht' hl hl'
    rw [hget] at ht ht'
    by_cases hj : j = i
    · by_cases hk : k = i
      · rw [hj, hk]
      · rw [if_pos hj] at ht
        rw [if_neg hk] at ht'
        exact absurd hl' ((hself t ht).2 hl k t' hk ht')
    · by_cases hk : k = i
      · rw [if_neg hj] at ht
        rw [if_pos hk] at ht'
        exact absurd hl ((hself t' ht').2 hl' j t hj ht)
      · rw [if_neg hj] at ht
        rw [if_neg hk] at ht'
        exact h.one j k t t' ht ht' hl hl'
  · intro j hj
    rw [hnext] at hj
    rw [hget, if_neg (by omega)]
    exact h.fresh j hj
  · intro c call hc
    rw [hcalls] at hc
    exact hstopped c call hc
  · intro c place hc
    rw [hcalls] at hc
    exact absurd hc (hno c place)

section

variable {w : World} {i : Nat} {t : Processing}

theorem Settled.wait (h : Settled w) (ht : w.tasks i = some t) {point : Point}
    (hp : point ≠ .spinning) (hok : PointOk w i point)
    (hl : Processing.isLeaving ⟨point, false⟩ → NoOther w i) : Settled (w.wait i point) := by
  refine h.move (h.lt_nextTask ht) (h.not_connecting ht) rfl rfl rfl ?_ ?_ h.stopped
  · intro j t' _ ht'
    exact (h.points j t' ht').2
  · rintro _ ⟨⟩
    exact ⟨⟨hp, fun _ => hok⟩, hl⟩

theorem Settled.endTask (h : Settled w) (ht : w.tasks i = some t) : Settled (w.endTask i) := by
  refine h.move (h.lt_nextTask ht) (h.not_connecting ht) rfl rfl rfl ?_ nofun h.stopped
  intro j t' _ ht'
  exact (h.points j t' ht').2

theorem Settled.crash (h : Settled w) (ht : w.tasks i = some t) : Settled (w.crash i) := by
  refine h.move (h.lt_nextTask ht) (h.not_connecting ht) rfl rfl rfl ?_ nofun h.stopped
  intro j t' _ ht'
  exact (h.points j t' ht').2

/-- Processing `i` moves and changes the connection while the others are cancelled. -/
theorem Settled.moveAlone (h : Settled w) (ht : w.tasks i = some t) (hl : NoOther w i)
    (hp : w._processingTask = some i ∨ w._running = false) {w' : World} {x : Option Processing}
    (htasks : w'.tasks = Function.update w.tasks i x) (hcalls : w'.calls = w.calls)
    (hnext : w'.nextTask = w.nextTask) (hself : ∀ t', x = some t' → TaskOk w' i t')
    (hstopped : w._running = false ∧ w._processingTask = none →
      w'._running = false ∧ w'._processingTask = none) : Settled w' := by
  refine h.move (h.lt_nextTask ht) (h.not_connecting ht) htasks hcalls hnext ?_ ?_ ?_
  · intro j t' hne ht' hc
    rw [h.cancelled hl hp hne ht'] at hc
    cases hc
  · intro t' hx
    exact ⟨hself t' hx, fun _ => hl⟩
  · intro c call hc hd
    exact hstopped (h.stopped c call hc hd)

/-! ## What the tasks do -/

/-- A task that may read the loop's head finds the socket. -/
theorem settled_head (h : Settled w) (ht : w.tasks i = some t)
    (hok : w._processingTask = some i ∧ w._running = true ∧ w._websocket ≠ none) :
    Settled (w.head i) := by
  unfold World.head
  rw [if_pos hok.2.1]
  cases hs : w._websocket with
  | none => exact absurd hs hok.2.2
  | some socket => exact h.wait ht (by simp) hok (by simp [Processing.isLeaving])

/-- The loop of `_handle_disconnect` sleeps, or gives up and stops. -/
theorem settled_retry (h : Settled w) (ht : w.tasks i = some t) (hl : NoOther w i)
    (hp : w._processingTask = some i ∨ w._running = false) :
    Settled ({ w with _connected := false }.retry i) := by
  unfold World.retry
  split
  · next hgo =>
    have hrun : w._running = true := by
      rw [Bool.and_eq_true] at hgo
      exact hgo.1
    refine h.moveAlone ht hl hp rfl rfl rfl ?_ id
    rintro _ ⟨⟩
    refine ⟨by simp, fun _ => ⟨?_, rfl⟩⟩
    rcases hp with hp | hp
    · exact hp
    · rw [hrun] at hp
      cases hp
  · exact h.moveAlone ht hl hp rfl rfl rfl nofun fun hs => ⟨rfl, hs.2⟩

theorem settled_failed (h : Settled w) (ht : w.tasks i = some t) (hl : NoOther w i)
    (hp : w._processingTask = some i ∨ w._running = false) : Settled (w.failed i) := by
  unfold World.failed World.closeAndRetry
  dsimp only
  split
  · refine h.moveAlone ht hl hp rfl rfl rfl ?_ id
    rintro _ ⟨⟩
    exact ⟨by simp, fun _ => ⟨hp, rfl⟩⟩
  · exact settled_retry h ht hl hp

theorem settled_handleDisconnect (h : Settled w) (ht : w.tasks i = some t) (hl : NoOther w i)
    (hp : w._processingTask = some i) : Settled (w._handleDisconnect i) := by
  unfold World._handleDisconnect World.closeAndRetry
  dsimp only
  split
  · refine h.moveAlone ht hl (.inl hp) rfl rfl rfl ?_ id
    rintro _ ⟨⟩
    exact ⟨by simp, fun _ => ⟨hp, rfl⟩⟩
  · exact settled_retry h ht hl (.inl hp)

/-- The next subscription is sent, or the socket is gone because the connection
was stopped. -/
theorem settled_send (h : Settled w) (ht : w.tasks i = some t) (hl : NoOther w i)
    (hok : w._running = true → w._connected = true ∧ w._websocket ≠ none) (left : Nat) :
    Settled (w.send i left) := by
  unfold World.send
  split
  · exact h.wait ht (by simp) hok fun _ => hl
  · next hno =>
    refine settled_failed h ht hl (.inr ?_)
    by_contra hrun
    obtain ⟨hc, hs⟩ := hok (by simpa using hrun)
    rw [hc, Bool.true_and, Option.isSome_iff_ne_none] at hno
    exact hno hs

theorem settled_restore (h : Settled w) (ht : w.tasks i = some t) (hl : NoOther w i)
    (hok : w._running = true → w._connected = true ∧ w._websocket ≠ none) (left : Nat) :
    Settled (w._restoreSubscriptions i left) := by
  cases left with
  | zero => exact h.endTask ht
  | succ left => exact settled_send h ht hl hok left

/-- A new processing task where all that are left are cancelled. -/
theorem settled_established (h : Settled w)
    (hc : ∀ i t, w.tasks i = some t → t.cancelled = true)
    (hd : ∀ c call, w.calls c = some call → ¬ call.isDisconnect)
    (hno : ∀ c place, w.calls c ≠ some (.connecting place)) : Settled w.established := by
  have hget : ∀ j, w.established.tasks j =
      if j = w.nextTask then some ⟨.start, false⟩ else w.tasks j := by
    intro j
    exact Function.update_apply _ _ _ _
  refine ⟨?_, ?_, ?_, ?_, ?_⟩
  · intro j t ht
    rw [hget] at ht
    by_cases hj : j = w.nextTask
    · rw [if_pos hj] at ht
      cases ht
      subst hj
      exact ⟨by simp, fun _ => ⟨rfl, rfl, by simp [World.established]⟩⟩
    · rw [if_neg hj] at ht
      refine ⟨(h.points j t ht).1, fun hcan => ?_⟩
      rw [hc j t ht] at hcan
      cases hcan
  · intro j k t t' ht ht' hl hl'
    rw [hget] at ht ht'
    by_cases hj : j = w.nextTask
    · rw [if_pos hj] at ht
      cases ht
      cases hl
    · by_cases hk : k = w.nextTask
      · rw [if_pos hk] at ht'
        cases ht'
        cases hl'
      · rw [if_neg hj] at ht
        rw [if_neg hk] at ht'
        exact h.one j k t t' ht ht' hl hl'
  · intro j hj
    have hlt : w.nextTask + 1 ≤ j := hj
    rw [hget, if_neg (by omega)]
    exact h.fresh j (by omega)
  · intro c call hcall hdis
    exact absurd hdis (hd c call hcall)
  · intro c place hcall
    exact absurd hcall (hno c place)

/-- A task that has reconnected restores subscriptions beside the new one. -/
theorem settled_redialed (h : Settled w) (ht : w.tasks i = some t) (hl : NoOther w i)
    (hp : w._processingTask = some i) (subscriptions : Nat) :
    Settled (w.established._restoreSubscriptions i subscriptions) := by
  have hlt := h.lt_nextTask ht
  have hne : i ≠ w.nextTask := by omega
  have hended : Settled (w.endTask i).established := by
    refine settled_established (h.endTask ht) ?_ ?_ (h.not_connecting ht)
    · intro j t' ht'
      have hget : (w.endTask i).tasks j = if j = i then none else w.tasks j := Function.update_apply _ _ _ _
      rw [hget] at ht'
      by_cases hj : j = i
      · rw [if_pos hj] at ht'
        cases ht'
      · rw [if_neg hj] at ht'
        exact h.cancelled hl (.inl hp) hj ht'
    · intro c call hcall hdis
      have hnone := (h.stopped c call hcall hdis).2
      rw [hp] at hnone
      cases hnone
  cases subscriptions with
  | zero =>
    have he : w.established.endTask i = (w.endTask i).established := by
      unfold World.endTask World.established
      simp only [World.mk.injEq, true_and, and_true]
      exact Function.update_comm hne.symm _ _ _
    show Settled (w.established.endTask i)
    rw [he]
    exact hended
  | succ left =>
    have he : w.established._restoreSubscriptions i (left + 1) =
        w.established.wait i (.leaving (.restoring left)) := rfl
    rw [he]
    refine hended.move (x := some ⟨.leaving (.restoring left), false⟩) (Nat.lt_succ_of_lt hlt)
      (h.not_connecting ht) ?_ rfl rfl ?_ ?_ hended.stopped
    · funext j
      simp only [World.wait, World.established, World.endTask, Function.update_apply]
      by_cases hj : j = i <;> simp [hj]
    · intro j t' _ ht'
      exact (hended.points j t' ht').2
    · rintro _ ⟨⟩
      refine ⟨⟨by simp, fun _ _ => ⟨rfl, by simp [World.wait, World.established]⟩⟩, fun _ => ?_⟩
      intro j t' hj ht' hlj
      have hget : (w.endTask i).established.tasks j =
          if j = w.nextTask then some ⟨.start, false⟩ else if j = i then none else w.tasks j := by
        simp only [World.established, World.endTask, Function.update_apply]
      rw [hget] at ht'
      by_cases hjn : j = w.nextTask
      · rw [if_pos hjn] at ht'
        cases ht'
        cases hlj
      · rw [if_neg hjn, if_neg hj] at ht'
        exact hl j t' hj ht' hlj

/-- One task goes on. -/
theorem settled_resume (h : Settled w) (ht : w.tasks i = some t) (hc : t.cancelled = false)
    (result : Result) (subscriptions : Nat) (ho : Orderly w (.resume i result subscriptions)) :
    Settled (w.resume i t.point result subscriptions) := by
  have hok := (h.points i t ht).2 hc
  have hspin := (h.points i t ht).1
  have hown : t.isLeaving → NoOther w i := h.noOther ht
  obtain ⟨point, cancelled⟩ := t
  cases point with
  | start => exact settled_head h ht hok
  | recv socket =>
    cases result with
    | done => exact settled_head h ht hok
    | waits => exact h.wait ht (by simp) hok (by simp [Processing.isLeaving])
    | lost =>
      have hno : NoOther w i := fun j t' _ ht' => ho _ ht hc j t' ht'
      exact settled_handleDisconnect h ht hno hok.1
    | raised => exact h.crash ht
  | handling =>
    cases result with
    | done => exact settled_head h ht hok
    | waits => exact h
    | lost => exact settled_head h ht hok
    | raised => exact h.crash ht
  | spinning => exact absurd rfl hspin
  | leaving place =>
    have hl : NoOther w i := hown rfl
    clear hown
    have hretry : w._connected = false → (w._processingTask = some i ∨ w._running = false) →
        Settled (w.retry i) := by
      intro hconn hp
      have he : { w with _connected := false } = w := by
        cases w
        cases hconn
        rfl
      have hs := settled_retry h ht hl hp
      rwa [he] at hs
    cases place with
    | closing => exact hretry hok.2 (.inl hok.1)
    | reclosing => exact hretry hok.2 hok.1
    | sleeping =>
      show Settled (w.reconnect i subscriptions)
      unfold World.reconnect
      rw [if_neg (by simp [hok.2])]
      split
      · refine h.moveAlone ht hl (.inl hok.1) rfl rfl rfl ?_ id
        rintro _ ⟨⟩
        exact ⟨by simp, fun _ => hok⟩
      · exact h.wait ht (by simp) hok fun _ => hl
    | connecting place =>
      cases place with
      | closing => exact h.wait ht (by simp) hok fun _ => hl
      | dialing =>
        cases result with
        | done => exact settled_redialed h ht hl hok.1 subscriptions
        | waits => exact h.crash ht
        | lost => exact settled_failed h ht hl (.inl hok.1)
        | raised => exact h.crash ht
    | restoring left =>
      cases result with
      | done => exact settled_restore h ht hl hok left
      | waits => exact h.crash ht
      | lost => exact settled_failed h ht hl (.inr (ho _ ht hc))
      | raised => exact h.crash ht

end

/-! ## What the callers do -/

section

variable {w : World}

/-- The calls of `disconnect` change where no task relies on anything. -/
theorem Settled.closing (h : Settled w) (hr : w._running = false) (hp : w._processingTask = none)
    {w' : World} (htasks : w'.tasks = w.tasks) (hnext : w'.nextTask = w.nextTask)
    (hr' : w'._running = false) (hp' : w'._processingTask = none)
    (hconn : w'._connected = false ∨ w'._connected = w._connected)
    (halone : ∀ c place, w'.calls c = some (.connecting place) →
      (∀ i, w.tasks i = none) ∧ w'._websocket = none ∧ ∀ c', w'.calls c' ≠ none → c' = c) :
    Settled w' := by
  refine ⟨?_, ?_, ?_, fun _ _ _ _ => ⟨hr', hp'⟩, ?_⟩
  · intro i t ht
    rw [htasks] at ht
    refine ⟨(h.points i t ht).1, fun hc => ?_⟩
    have hok := (h.points i t ht).2 hc
    obtain ⟨point, cancelled⟩ := t
    have hrun : ¬ (w._processingTask = some i ∧ w._running = true ∧ w._websocket ≠ none) := by
      rintro ⟨-, hrun, -⟩
      rw [hr] at hrun
      cases hrun
    have htask : ¬ (w._processingTask = some i ∧ w._connected = false) := by
      rintro ⟨htask, -⟩
      rw [hp] at htask
      cases htask
    cases point with
    | start => exact absurd hok hrun
    | recv socket => exact absurd hok hrun
    | handling => exact absurd hok hrun
    | spinning => exact hok
    | leaving place =>
      cases place with
      | closing => exact absurd hok htask
      | sleeping => exact absurd hok htask
      | connecting place => exact absurd hok htask
      | reclosing =>
        refine ⟨.inr hr', ?_⟩
        rcases hconn with hconn | hconn
        · exact hconn
        · rw [hconn]
          exact hok.2
      | restoring left =>
        intro hrun'
        rw [hr'] at hrun'
        cases hrun'
  · rw [htasks]
    exact h.one
  · rw [htasks, hnext]
    exact h.fresh
  · intro c place hc
    rw [htasks]
    exact halone c place hc

theorem calls_endCall (w : World) (c c' : Nat) :
    (w.endCall c).calls c' = if c' = c then none else w.calls c' :=
  Function.update_apply _ _ _ _

theorem calls_stand (w : World) (c c' : Nat) (call : Call) :
    (w.stand c call).calls c' = if c' = c then some call else w.calls c' :=
  Function.update_apply _ _ _ _

/-- A call ends; a `connect` that is left is still alone. -/
theorem alone_endCall (h : Settled w) (c : Nat) : ∀ c' place, (w.endCall c).calls c' = some (.connecting place) →
    (∀ i, w.tasks i = none) ∧ w._websocket = none ∧ ∀ c'', (w.endCall c).calls c'' ≠ none → c'' = c' := by
  intro c' place hc'
  rw [calls_endCall] at hc'
  by_cases hcc : c' = c
  · rw [if_pos hcc] at hc'
    cases hc'
  · rw [if_neg hcc] at hc'
    obtain ⟨htasks, hs, honly⟩ := h.alone c' place hc'
    refine ⟨htasks, hs, fun c'' hne => honly c'' fun hnone => hne ?_⟩
    rw [calls_endCall]
    by_cases hcc' : c'' = c
    · rw [if_pos hcc']
    · rw [if_neg hcc']
      exact hnone

theorem settled_endCall (h : Settled w) (c : Nat) : Settled (w.endCall c) := by
  refine ⟨h.points, h.one, h.fresh, ?_, alone_endCall h c⟩
  intro c' call hc' hd
  rw [calls_endCall] at hc'
  by_cases hcc : c' = c
  · rw [if_pos hcc] at hc'
    cases hc'
  · rw [if_neg hcc] at hc'
    exact h.stopped c' call hc' hd

theorem settled_closeCall (h : Settled w) (hr : w._running = false) (hp : w._processingTask = none)
    (c : Nat) : Settled (w.closeCall c) := by
  unfold World.closeCall
  split
  · next socket hs =>
    refine h.closing hr hp rfl rfl hr hp (.inr rfl) ?_
    intro c' place hc'
    rw [calls_stand] at hc'
    by_cases hcc : c' = c
    · rw [if_pos hcc] at hc'
      cases hc'
    · rw [if_neg hcc] at hc'
      have hnone := (h.alone c' place hc').2.1
      rw [hs] at hnone
      cases hnone
  · exact h.closing hr hp rfl rfl hr hp (.inl rfl) (alone_endCall h c)

theorem settled_awaited (h : Settled w) (hr : w._running = false) (hp : w._processingTask = none)
    (c task : Nat) : Settled (w.awaited c task) := by
  unfold World.awaited
  split
  · exact settled_endCall h c
  · exact settled_closeCall h hr hp c

/-- `disconnect` stops the loops and takes the processing task, which is gone or
gets cancelled. -/
theorem settled_stop (h : Settled w) (tasks : Nat → Option Processing)
    (hsome : ∀ i t', tasks i = some t' → ∃ t, w.tasks i = some t ∧ t'.point = t.point ∧
      (t'.cancelled = false → t.cancelled = false ∧ w._processingTask ≠ some i))
    (hnone : ∀ i, w.tasks i = none → tasks i = none) :
    Settled { w with _running := false, _processingTask := none, tasks := tasks } := by
  refine ⟨?_, ?_, fun i hi => hnone i (h.fresh i hi), fun _ _ _ _ => ⟨rfl, rfl⟩, ?_⟩
  · intro i t' ht'
    obtain ⟨t, ht, hpoint, hcancelled⟩ := hsome i t' ht'
    unfold TaskOk
    rw [hpoint]
    refine ⟨(h.points i t ht).1, fun hc => ?_⟩
    obtain ⟨hc, hne⟩ := hcancelled hc
    have hok := (h.points i t ht).2 hc
    obtain ⟨point, cancelled⟩ := t
    cases point with
    | start => exact absurd hok.1 hne
    | recv socket => exact absurd hok.1 hne
    | handling => exact absurd hok.1 hne
    | spinning => exact hok
    | leaving place =>
      cases place with
      | closing => exact absurd hok.1 hne
      | sleeping => exact absurd hok.1 hne
      | connecting place => exact absurd hok.1 hne
      | reclosing => exact ⟨.inr rfl, hok.2⟩
      | restoring left => exact nofun
  · have hleaving : ∀ t t' : Processing, t'.point = t.point → t'.isLeaving = t.isLeaving := by
      rintro ⟨point, cancelled⟩ ⟨point', cancelled'⟩ he
      obtain rfl : point' = point := he
      cases point' <;> rfl
    intro i j t t' ht ht' hl hl'
    obtain ⟨u, hu, hpu, -⟩ := hsome i t ht
    obtain ⟨v, hv, hpv, -⟩ := hsome j t' ht'
    rw [hleaving u t hpu] at hl
    rw [hleaving v t' hpv] at hl'
    exact h.one i j u v hu hv hl hl'
  · intro c place hc
    obtain ⟨htasks, hs, honly⟩ := h.alone c place hc
    exact ⟨fun i => hnone i (htasks i), hs, honly⟩

theorem settled_disconnect (h : Settled w) (c : Nat) : Settled (w.disconnect c) := by
  have hkeep : (∀ i t, w.tasks i = some t → w._processingTask ≠ some i) →
      Settled { w with _running := false, _processingTask := none } :=
    fun hne => settled_stop h w.tasks (fun i t ht => ⟨t, ht, rfl, fun hc => ⟨hc, hne i t ht⟩⟩) fun _ => id
  unfold World.disconnect
  cases hp : w._processingTask with
  | none =>
    have hs := hkeep fun _ _ _ he => by rw [hp] at he; cases he
    exact settled_closeCall hs rfl rfl c
  | some task =>
    cases ht : w.tasks task with
    | none =>
      have hs := hkeep fun i t hti he => by
        rw [hp] at he
        cases he
        rw [ht] at hti
        cases hti
      dsimp only
      rw [ht]
      exact settled_awaited hs rfl rfl c task
    | some t =>
      dsimp only
      rw [ht]
      have hget : ∀ i, Function.update w.tasks task (some { t with cancelled := true }) i =
          if i = task then some { t with cancelled := true } else w.tasks i :=
        fun i => Function.update_apply _ _ _ _
      have hs := settled_stop h (Function.update w.tasks task (some { t with cancelled := true })) ?_ ?_
      · refine hs.closing rfl rfl rfl rfl rfl rfl (.inr rfl) ?_
        intro c' place hc'
        rw [calls_stand] at hc'
        by_cases hcc : c' = c
        · rw [if_pos hcc] at hc'
          cases hc'
        · rw [if_neg hcc] at hc'
          exact absurd hc' (h.not_connecting ht c' place)
      · intro i t' ht'
        rw [hget] at ht'
        by_cases hi : i = task
        · rw [if_pos hi] at ht'
          cases ht'
          subst hi
          exact ⟨t, ht, rfl, nofun⟩
        · rw [if_neg hi] at ht'
          refine ⟨t', ht', rfl, fun hc => ⟨hc, fun he => ?_⟩⟩
          rw [hp] at he
          exact hi (Option.some.inj he).symm
      · intro i hi
        rw [hget, if_neg]
        · exact hi
        · rintro rfl
          rw [ht] at hi
          cases hi

/-- A caller's `connect` where there is no task and no other call. -/
theorem settled_connect (h : Settled w) (htasks : ∀ i, w.tasks i = none) (hcalls : ∀ c, w.calls c = none)
    (c : Nat) : Settled (w.connect c) := by
  have halone : ∀ (place : Connecting) c' (call : Call),
      (w.stand c (.connecting place)).calls c' = some call → c' = c ∧ call = .connecting place := by
    intro place c' call hc'
    rw [calls_stand, hcalls] at hc'
    by_cases hcc : c' = c
    · rw [if_pos hcc] at hc'
      exact ⟨hcc, (Option.some.inj hc').symm⟩
    · rw [if_neg hcc] at hc'
      cases hc'
  have hstand : ∀ place, Settled ({ w with _websocket := none }.stand c (.connecting place)) := by
    intro place
    refine ⟨fun i t ht => absurd ht (by simp [World.stand, htasks]), h.one, h.fresh, ?_, ?_⟩
    · intro c' call hc' hd
      obtain ⟨-, rfl⟩ := halone place c' call hc'
      cases hd
    · intro c' place' hc'
      obtain ⟨rfl, -⟩ := halone place c' _ hc'
      refine ⟨htasks, rfl, fun c'' hne => ?_⟩
      cases hcall : (w.stand c' (.connecting place)).calls c'' with
      | none => exact absurd hcall hne
      | some call => exact (halone place c'' call hcall).1
  unfold World.connect
  split
  · exact h
  · split
    · exact hstand .closing
    · next hs =>
      have he : { w with _websocket := none } = w := by
        cases w
        cases hs
        rfl
      have hd := hstand .dialing
      rwa [he] at hd

/-- The caller that connects alone has closed the pools and dials. -/
theorem settled_redials (h : Settled w) {c : Nat} {place : Connecting} (hc : w.calls c = some (.connecting place)) :
    Settled (w.stand c (.connecting .dialing)) := by
  obtain ⟨htasks, hs, honly⟩ := h.alone c place hc
  refine ⟨h.points, h.one, h.fresh, ?_, ?_⟩
  · intro c' call hc' hd
    rw [calls_stand] at hc'
    by_cases hcc : c' = c
    · rw [if_pos hcc] at hc'
      cases hc'
      cases hd
    · rw [if_neg hcc] at hc'
      exact absurd (honly c' (by simp [hc'])) hcc
  · intro c' place' hc'
    have hcalls : ∀ c'', (w.stand c (.connecting .dialing)).calls c'' ≠ none → c'' = c := by
      intro c'' hne
      rw [calls_stand] at hne
      by_cases hcc : c'' = c
      · exact hcc
      · rw [if_neg hcc] at hne
        exact honly c'' hne
    obtain rfl := hcalls c' (by rw [hc']; simp)
    exact ⟨htasks, hs, hcalls⟩

/-- It has a connection. -/
theorem settled_dialed (h : Settled w) {c : Nat} {place : Connecting} (hc : w.calls c = some (.connecting place)) :
    Settled ((w.endCall c).established) := by
  obtain ⟨htasks, -, honly⟩ := h.alone c place hc
  have hgone : ∀ c', (w.endCall c).calls c' = none := by
    intro c'
    rw [calls_endCall]
    by_cases hcc : c' = c
    · rw [if_pos hcc]
    · rw [if_neg hcc]
      by_contra hne
      exact hcc (honly c' hne)
  refine settled_established (settled_endCall h c) ?_ ?_ ?_
  · intro i t ht
    exact absurd ht (by simp [World.endCall, htasks])
  · intro c' call hc'
    rw [hgone] at hc'
    cases hc'
  · intro c' place hc'
    rw [hgone] at hc'
    cases hc'

theorem settled_resumeCall (h : Settled w) {c : Nat} {call : Call} (hc : w.calls c = some call)
    (result : Result) : Settled (w.resumeCall c call result) := by
  cases call with
  | connecting place =>
    cases place with
    | closing => exact settled_redials h hc
    | dialing =>
      cases result with
      | done => exact settled_dialed h hc
      | waits => exact settled_endCall h c
      | lost => exact settled_endCall h c
      | raised => exact settled_endCall h c
  | awaiting task =>
    obtain ⟨hr, hp⟩ := h.stopped c _ hc rfl
    show Settled (if w.tasks task = none then w.awaited c task else w)
    split
    · exact settled_awaited h hr hp c task
    · exact h
  | closing =>
    obtain ⟨hr, hp⟩ := h.stopped c _ hc rfl
    exact h.closing hr hp rfl rfl hr hp (.inl rfl) (alone_endCall h c)

end

/-! ## The runs -/

theorem settled_step {w : World} {l : Label} (h : Settled w) (ho : Orderly w l) : Settled (step w l) := by
  cases l with
  | connect c =>
    simp only [step]
    split
    · rcases ho with hconn | ⟨htasks, hcalls⟩
      · unfold World.connect
        rw [if_pos hconn]
        exact h
      · exact settled_connect h htasks hcalls c
    · exact h
  | disconnect c =>
    simp only [step]
    split
    · exact settled_disconnect h c
    · exact h
  | resume i result subscriptions =>
    simp only [step]
    split
    · exact h
    · next t ht =>
      by_cases hc : t.cancelled = true
      · rw [if_pos hc]
        exact h.endTask ht
      · rw [if_neg hc]
        exact settled_resume h ht (by simpa using hc) result subscriptions ho
  | resumeCall c result =>
    simp only [step]
    split
    · exact h
    · next call hc => exact settled_resumeCall h hc result

/-- In a run of orderly steps one task at most handles a disconnect, and a task at
the head of its loop finds the socket. -/
theorem calm_of_orderly (maxReconnectAttempts : Nat) (labels : List Label)
    (hm : Meets step Orderly (init maxReconnectAttempts) labels) :
    Throughout step Calm (init maxReconnectAttempts) labels := by
  have ht := throughout_of_meets (fun _ _ => settled_step) (settled_init maxReconnectAttempts) hm
  intro pre hp
  exact (ht pre hp).calm

/-- A caller connects; the connection is lost and the task that saw it dials again. -/
def redialed : List Label :=
  [.connect 0, .resumeCall 0 .done, .resume 0 .done 0, .resume 0 .lost 0, .resume 0 .done 0,
    .resume 0 .done 1, .resume 0 .done 1]

theorem calm_redialed :
    Throughout step Calm (init 3) (redialed ++ [.resume 1 .done 0, .resume 0 .done 0]) := by
  refine calm_of_orderly 3 _ ?_
  have hlost : Orderly (run step (init 3) [.connect 0, .resumeCall 0 .done, .resume 0 .done 0])
      (.resume 0 .lost 0) := by
    rintro t ⟨⟩ - j t' ht'
    by_cases hj : j = 0
    · subst hj
      cases ht'
      decide
    · simp [step, World.connect, World.stand, World.resumeCall, World.established, World.endCall,
        World.resume, World.head, World.wait, init, hj] at ht'
  simp only [redialed, List.cons_append, List.nil_append, meets_cons]
  exact ⟨.inr ⟨fun _ => rfl, fun _ => rfl⟩, trivial, trivial, hlost, trivial, trivial, trivial, trivial,
    trivial, meets_nil _ _ _⟩

/-- A send of the restore fails before the new task has run, and it spins; or that
task sees the connection lost while the restore goes on. -/
theorem restore_spins :
    (run step (init 3) (redialed ++ [.resume 0 .lost 0, .resume 1 .done 0])).tasks 1 =
      some ⟨.spinning, false⟩ ∧
    ¬ Throughout step Calm (init 3) (redialed ++ [.resume 0 .lost 0, .resume 1 .done 0]) ∧
    ¬ Throughout step Calm (init 3) (redialed ++ [.resume 1 .done 0, .resume 1 .lost 0]) := by
  have hspins : (run step (init 3) (redialed ++ [.resume 0 .lost 0, .resume 1 .done 0])).tasks 1 =
      some ⟨.spinning, false⟩ := by decide +kernel
  refine ⟨hspins, fun h => ?_, fun h => ?_⟩
  · exact (throughout_last h).turns 1 _ hspins rfl
  · have htwo : (run step (init 3) (redialed ++ [.resume 1 .done 0, .resume 1 .lost 0])).tasks 0 =
        some ⟨.leaving (.restoring 0), false⟩ ∧
        (run step (init 3) (redialed ++ [.resume 1 .done 0, .resume 1 .lost 0])).tasks 1 =
        some ⟨.leaving .closing, false⟩ := by decide +kernel
    have hone := (throughout_last h).one 0 1 _ _ htwo.1 htwo.2 rfl rfl
    cases hone
end WebSocketReconnects
