import BtApiBase.WebSocketReconnects

/-!
# The attempts of a reconnect

`_handle_disconnect` counts its attempts in `_reconnect_attempts`, and `connect`
sets that back to zero before the subscriptions are restored. As long as no
restore fails the counter is the number of attempts since the connection was last
up with all its subscriptions, so that number stays within the maximum, and the
loop that has used it up leaves `_running` false.
-/

namespace ReconnectAttempts

open WebSocketTasks WebSocketReconnects Runs

/-- A connection, and how often `_handle_disconnect` has called `connect` since all
subscriptions were last restored; a record of the run. -/
structure Trials where
  world : World
  attempts : Nat

def start (maxReconnectAttempts : Nat) : Trials := ⟨init maxReconnectAttempts, 0⟩

namespace Trials

variable (t : Trials)

/-- A restore that comes to its end counts from here on, if the connection is up. -/
def restored : Nat := if t.world._connected then 0 else t.attempts

/-- The attempts after task `i` goes on from where it stands. -/
def count (point : Point) (result : Result) (subscriptions : Nat) : Nat :=
  match point, result with
  | .leaving .sleeping, _ => if t.world._connected && subscriptions == 0 then 0 else t.attempts + 1
  | .leaving (.connecting .dialing), .done => if subscriptions = 0 then 0 else t.attempts
  | .leaving (.restoring 0), .done => t.restored
  | _, _ => t.attempts

def step (l : Label) : Trials where
  world := WebSocketTasks.step t.world l
  attempts := match l with
    | .resume i result subscriptions => match t.world.tasks i with
      | some ⟨point, false⟩ => t.count point result subscriptions
      | _ => t.attempts
    | _ => t.attempts

end Trials

/-- The attempts stay within the maximum, a task that sleeps has one left, and where
none attempts anything any more the connection is up as it was restored or stopped. -/
structure Bounded (maxReconnectAttempts : Nat) (t : Trials) : Prop where
  within : t.attempts ≤ maxReconnectAttempts
  left : ∀ i, t.world.tasks i = some ⟨.leaving .sleeping, false⟩ → t.attempts < maxReconnectAttempts
  ended : 0 < t.attempts → (∀ i p, t.world.tasks i = some p → ¬ p.isLeaving) → t.world._running = false

/-- `2**self._reconnect_attempts` can always be multiplied with a float. -/
def WaitsRepresentable (w : World) : Prop := w.maxReconnectAttempts < 1024

/-- The steps are orderly, `websockets.connect` fails with the errors that are caught
and no send of a restore fails; a caller connects when no attempt has been made. -/
def Steady (t : Trials) (l : Label) : Prop :=
  Orderly t.world l ∧ WaitsRepresentable t.world ∧ match l with
    | .resume i result _ => ∀ point, t.world.tasks i = some ⟨point, false⟩ → match point with
      | .leaving (.connecting .dialing) | .leaving (.restoring _) => result = .done ∨ result = .lost
      | _ => True
    | .resumeCall c .done => t.world.calls c = some (.connecting .dialing) → t.attempts = 0
    | _ => True

/-! ## The counter -/

/-- What `_reconnect_attempts` says where a task stands that is not cancelled. -/
def PointTally (w : World) (attempts : Nat) : Point → Prop
  | .start | .recv _ | .handling => w._reconnectAttempts = 0
  | .leaving .closing | .leaving (.connecting _) => w._reconnectAttempts = attempts
  | .leaving .sleeping => w._reconnectAttempts = attempts + 1
  | .leaving .reclosing => w._running = true → w._reconnectAttempts = attempts
  | .leaving (.restoring _) | .spinning => True

structure Tally (maxReconnectAttempts : Nat) (t : Trials) : Prop where
  settled : Settled t.world
  maximum : t.world.maxReconnectAttempts = maxReconnectAttempts
  points : ∀ i point, t.world.tasks i = some ⟨point, false⟩ → PointTally t.world t.attempts point
  stopped : ∀ i point, t.world.tasks i = some ⟨point, true⟩ →
    t.world._running = false ∧ t.world._processingTask = none
  counter : t.world._reconnectAttempts ≤ maxReconnectAttempts
  within : t.attempts ≤ maxReconnectAttempts
  ended : 0 < t.attempts → (∃ i p, t.world.tasks i = some p ∧ p.isLeaving) ∨ t.world._running = false

theorem Tally.bounded {limit : Nat} {t : Trials} (h : Tally limit t) : Bounded limit t where
  within := h.within
  left := fun i hi => by
    have hcount : t.world._reconnectAttempts = t.attempts + 1 := h.points i _ hi
    have hcounter := h.counter
    omega
  ended := fun ha hnone => by
    rcases h.ended ha with ⟨i, p, hi, hp⟩ | hr
    · exact absurd hp (hnone i p hi)
    · exact hr

theorem tally_start (limit : Nat) : Tally limit (start limit) where
  settled := settled_init limit
  maximum := rfl
  points := nofun
  stopped := nofun
  counter := Nat.zero_le _
  within := Nat.zero_le _
  ended := fun h => absurd h (Nat.lt_irrefl 0)

/-! ## One task goes on -/

section

variable {limit : Nat} {t : Trials} {w' : World} {i : Nat}

/-- What a step of one task needs to keep: `x` is what becomes of the task, and the
others stand where they stood. -/
theorem Tally.update (h : Tally limit t) (hs : Settled w') {x : Option Processing} {a : Nat}
    (htasks : w'.tasks = Function.update t.world.tasks i x)
    (hmax : w'.maxReconnectAttempts = t.world.maxReconnectAttempts)
    (hself : ∀ p, x = some p → p.cancelled = false ∧ PointTally w' a p.point)
    (hothers : ∀ j point, j ≠ i → t.world.tasks j = some ⟨point, false⟩ →
      PointTally t.world t.attempts point → PointTally w' a point)
    (hstop : t.world._running = false ∧ t.world._processingTask = none →
      w'._running = false ∧ w'._processingTask = none)
    (hcounter : w'._reconnectAttempts ≤ limit) (hwithin : a ≤ limit)
    (hended : 0 < a → (∃ j p, w'.tasks j = some p ∧ p.isLeaving) ∨ w'._running = false) :
    Tally limit ⟨w', a⟩ := by
  have hget : ∀ j, w'.tasks j = if j = i then x else t.world.tasks j := by
    intro j
    rw [htasks, Function.update_apply]
  refine ⟨hs, hmax.trans h.maximum, fun j p hj => ?_, fun j p hj => ?_, hcounter, hwithin, hended⟩
  · rw [hget] at hj
    split at hj
    · exact (hself _ hj).2
    · next hne => exact hothers j p hne hj (h.points j p hj)
  · rw [hget] at hj
    split at hj
    · have hcan := (hself _ hj).1
      cases hcan
    · exact hstop (h.stopped j p hj)

/-- A task that does not handle a disconnect goes on or ends. -/
theorem Tally.turn (h : Tally limit t) (hs : Settled w') {x : Option Processing} {point : Point}
    (hi : t.world.tasks i = some ⟨point, false⟩) (hlook : ¬ Processing.isLeaving ⟨point, false⟩)
    (htasks : w'.tasks = Function.update t.world.tasks i x)
    (hmax : w'.maxReconnectAttempts = t.world.maxReconnectAttempts)
    (hcounter : w'._reconnectAttempts = t.world._reconnectAttempts) (hrun : w'._running = t.world._running)
    (htask : w'._processingTask = t.world._processingTask)
    (hself : ∀ p, x = some p → p.cancelled = false ∧ PointTally w' t.attempts p.point) :
    Tally limit ⟨w', t.attempts⟩ := by
  refine h.update hs htasks hmax hself (fun j p _ _ hp => ?_) (fun hstop => ?_) (hcounter ▸ h.counter)
    h.within fun ha => ?_
  · unfold PointTally at hp ⊢
    rwa [hcounter, hrun]
  · rw [hrun, htask]
    exact hstop
  · rw [hrun]
    refine (h.ended ha).imp_left ?_
    rintro ⟨j, p, hj, hp⟩
    have hne : j ≠ i := by
      rintro rfl
      rw [hi] at hj
      cases hj
      exact hlook hp
    exact ⟨j, p, by rw [htasks, Function.update_of_ne hne]; exact hj, hp⟩

/-- The task that handles a disconnect goes on or ends. -/
theorem Tally.move (h : Tally limit t) (hs : Settled w') (hno : NoOther t.world i) {x : Option Processing} {a : Nat}
    (htasks : w'.tasks = Function.update t.world.tasks i x)
    (hmax : w'.maxReconnectAttempts = t.world.maxReconnectAttempts)
    (hothers : w'._reconnectAttempts = t.world._reconnectAttempts ∨
      ∀ j p, j ≠ i → t.world.tasks j = some p → p.cancelled = true)
    (hstop : t.world._running = false ∧ t.world._processingTask = none →
      w'._running = false ∧ w'._processingTask = none)
    (hself : ∀ p, x = some p → p.cancelled = false ∧ PointTally w' a p.point)
    (hcounter : w'._reconnectAttempts ≤ limit) (hwithin : a ≤ limit)
    (hended : 0 < a → (∃ p, x = some p ∧ p.isLeaving) ∨ w'._running = false) : Tally limit ⟨w', a⟩ := by
  refine h.update hs htasks hmax hself (fun j p hne hj hp => ?_) hstop hcounter hwithin fun ha => ?_
  · have hlook := hno j _ hne hj
    rcases hothers with heq | hall
    · cases p with
      | start => exact heq.trans hp
      | recv socket => exact heq.trans hp
      | handling => exact heq.trans hp
      | spinning => trivial
      | leaving place => exact absurd rfl hlook
    · have hcan := hall j _ hne hj
      cases hcan
  · refine (hended ha).imp_left ?_
    rintro ⟨p, rfl, hp⟩
    exact ⟨i, p, by rw [htasks, Function.update_self], hp⟩

/-- The head of the loop: one more attempt is counted, or the connection is stopped. -/
theorem Tally.retry (h : Tally limit t) (hno : NoOther t.world i)
    (hp : t.world._processingTask = some i ∨ t.world._running = false)
    (hcount : t.world._running = true → t.world._reconnectAttempts = t.attempts) (b : Bool)
    (hs : Settled ({ t.world with _connected := b }.retry i)) :
    Tally limit ⟨{ t.world with _connected := b }.retry i, t.attempts⟩ := by
  unfold World.retry at hs ⊢
  split
  · next hgo =>
    rw [if_pos hgo] at hs
    obtain ⟨hrun, hlt⟩ := (Bool.and_eq_true ..).mp hgo
    have hlt : t.world._reconnectAttempts < t.world.maxReconnectAttempts := of_decide_eq_true hlt
    rw [h.maximum] at hlt
    have hmine : t.world._processingTask = some i ∨ t.world._running = false := hp
    refine h.move hs hno rfl rfl (.inr fun j p hj => h.settled.cancelled hno hmine hj) ?_ ?_ hlt h.within
      fun _ => .inl ⟨_, rfl, rfl⟩
    · rintro ⟨hstop, -⟩
      rw [show t.world._running = true from hrun] at hstop
      cases hstop
    · rintro _ ⟨⟩
      exact ⟨rfl, congrArg (· + 1) (hcount hrun)⟩
  · next hgo =>
    rw [if_neg hgo] at hs
    exact h.move hs hno rfl rfl (.inl rfl) (fun hstop => ⟨rfl, hstop.2⟩) nofun h.counter h.within fun _ => .inr rfl

/-- The connection is given up for this attempt, or lost. -/
theorem Tally.close (h : Tally limit t) {p : Processing} (hi : t.world.tasks i = some p) (hno : NoOther t.world i)
    (hp : t.world._processingTask = some i ∨ t.world._running = false)
    (hcount : t.world._running = true → t.world._reconnectAttempts = t.attempts) {place : Leaving}
    (hplace : PointTally t.world t.attempts (.leaving place))
    (hs : Settled ({ t.world with _connected := false }.closeAndRetry i place)) :
    Tally limit ⟨{ t.world with _connected := false }.closeAndRetry i place, t.attempts⟩ := by
  unfold World.closeAndRetry at hs ⊢
  dsimp only at hs ⊢
  split
  · next socket hsock =>
    rw [hsock] at hs
    refine h.move hs hno rfl rfl (.inl rfl) id ?_ h.counter h.within fun _ => .inl ⟨_, rfl, rfl⟩
    rintro _ ⟨⟩
    exact ⟨rfl, hplace⟩
  · exact h.retry hno hp hcount false (settled_retry h.settled hi hno hp)

theorem Tally.failed (h : Tally limit t) {p : Processing} (hi : t.world.tasks i = some p) (hno : NoOther t.world i)
    (hp : t.world._processingTask = some i ∨ t.world._running = false)
    (hcount : t.world._running = true → t.world._reconnectAttempts = t.attempts)
    (hs : Settled (t.world.failed i)) : Tally limit ⟨t.world.failed i, t.attempts⟩ :=
  h.close hi hno hp hcount (show PointTally t.world t.attempts (.leaving .reclosing) from hcount) hs

/-- The next subscription of a restore is sent, unless the connection was stopped. -/
theorem tally_send (h : Tally limit t) {p : Processing} (hi : t.world.tasks i = some p) (hno : NoOther t.world i)
    (hok : t.world._running = true → t.world._connected = true ∧ t.world._websocket ≠ none) (left : Nat)
    (hs : Settled (t.world.send i left)) : Tally limit ⟨t.world.send i left, t.attempts⟩ := by
  unfold World.send at hs ⊢
  split
  · next hgo =>
    rw [if_pos hgo] at hs
    refine h.move hs hno rfl rfl (.inl rfl) id ?_ h.counter h.within fun _ => .inl ⟨_, rfl, rfl⟩
    rintro _ ⟨⟩
    exact ⟨rfl, trivial⟩
  · next hgo =>
    rw [if_neg hgo] at hs
    have hrun : t.world._running = false := by
      by_contra hrun
      obtain ⟨hc, hsock⟩ := hok (by simpa using hrun)
      rw [hc, Bool.true_and, Option.isSome_iff_ne_none] at hgo
      exact hgo hsock
    refine h.failed hi hno (.inr hrun) (fun hr => ?_) hs
    rw [hrun] at hr
    cases hr

theorem tally_head (h : Tally limit t) {point : Point} (hi : t.world.tasks i = some ⟨point, false⟩)
    (hlook : ¬ Processing.isLeaving ⟨point, false⟩) (hcount : t.world._reconnectAttempts = 0)
    (hs : Settled (t.world.head i)) : Tally limit ⟨t.world.head i, t.attempts⟩ := by
  unfold World.head at hs ⊢
  split
  · next hrun =>
    rw [if_pos hrun] at hs
    split
    · next socket hsock =>
      rw [hsock] at hs
      refine h.turn hs hi hlook rfl rfl rfl rfl rfl ?_
      rintro _ ⟨⟩
      exact ⟨rfl, hcount⟩
    · next hsock =>
      rw [hsock] at hs
      refine h.turn hs hi hlook rfl rfl rfl rfl rfl ?_
      rintro _ ⟨⟩
      exact ⟨rfl, trivial⟩
  · next hrun =>
    rw [if_neg hrun] at hs
    exact h.turn hs hi hlook rfl rfl rfl rfl rfl nofun

/-- A socket is there again; the counter is back at zero, the attempts are only when
there is nothing to restore. -/
theorem tally_redialed (h : Tally limit t) (hno : NoOther t.world i)
    (hp : t.world._processingTask = some i) (subscriptions : Nat)
    (hs : Settled (t.world.established._restoreSubscriptions i subscriptions)) :
    Tally limit ⟨t.world.established._restoreSubscriptions i subscriptions,
      if subscriptions = 0 then 0 else t.attempts⟩ := by
  have halone : ∀ j, j ≠ i → t.world.tasks j = none := by
    intro j hj
    cases hget : t.world.tasks j with
    | none => rfl
    | some p' =>
      have hcan := h.settled.cancelled hno (.inl hp) hj hget
      obtain ⟨point, cancelled⟩ := p'
      cases hcan
      rw [(h.stopped j point hget).2] at hp
      cases hp
  obtain ⟨x, hx, hworld⟩ : ∃ x, (x = none ∧ subscriptions = 0 ∨
      ∃ left, x = some ⟨.leaving (.restoring left), false⟩ ∧ subscriptions ≠ 0) ∧
      t.world.established._restoreSubscriptions i subscriptions =
        { t.world.established with tasks := Function.update t.world.established.tasks i x } := by
    cases subscriptions with
    | zero => exact ⟨none, .inl ⟨rfl, rfl⟩, rfl⟩
    | succ left => exact ⟨_, .inr ⟨left, rfl, nofun⟩, rfl⟩
  rw [hworld] at hs ⊢
  have htasks : ∀ j p', Function.update t.world.established.tasks i x j = some p' →
      p' = ⟨.start, false⟩ ∨ ∃ left, p' = ⟨.leaving (.restoring left), false⟩ := by
    intro j p' hj
    rw [Function.update_apply] at hj
    split at hj
    · rcases hx with ⟨rfl, -⟩ | ⟨left, rfl, -⟩
      · cases hj
      · exact .inr ⟨left, (Option.some.inj hj).symm⟩
    · next hne =>
      have hnew : t.world.established.tasks =
          Function.update t.world.tasks t.world.nextTask (some ⟨.start, false⟩) := rfl
      rw [hnew, Function.update_apply] at hj
      split at hj
      · exact .inl (Option.some.inj hj).symm
      · rw [halone j hne] at hj
        cases hj
  refine ⟨hs, h.maximum, fun j point hj => ?_, fun j point hj => ?_, Nat.zero_le _, ?_, fun ha => ?_⟩
  · rcases htasks j _ hj with he | ⟨left, he⟩
    · cases he
      rfl
    · cases he
      trivial
  · rcases htasks j _ hj with he | ⟨left, he⟩ <;> cases he
  · show (if subscriptions = 0 then 0 else t.attempts) ≤ limit
    split
    · exact Nat.zero_le _
    · exact h.within
  · rcases hx with ⟨-, hzero⟩ | ⟨left, rfl, -⟩
    · simp [hzero] at ha
    · exact .inl ⟨i, _, Function.update_self .., rfl⟩

/-- The wait before an attempt is over. -/
theorem tally_slept (h : Tally limit t) (hno : NoOther t.world i) (hdown : t.world._connected = false)
    (hcount : t.world._reconnectAttempts = t.attempts + 1) (subscriptions : Nat)
    (hs : Settled (t.world.reconnect i subscriptions)) :
    Tally limit ⟨t.world.reconnect i subscriptions, t.attempts + 1⟩ := by
  have hcounter := h.counter
  unfold World.reconnect at hs ⊢
  rw [if_neg (by simp [hdown])] at hs ⊢
  split
  · next socket hsock =>
    rw [hsock] at hs
    refine h.move hs hno rfl rfl (.inl rfl) id ?_ h.counter (by omega) fun _ => .inl ⟨_, rfl, rfl⟩
    rintro _ ⟨⟩
    exact ⟨rfl, hcount⟩
  · next hsock =>
    rw [hsock] at hs
    refine h.move hs hno rfl rfl (.inl rfl) id ?_ h.counter (by omega) fun _ => .inl ⟨_, rfl, rfl⟩
    rintro _ ⟨⟩
    exact ⟨rfl, hcount⟩

/-- The last subscription has been sent again. -/
theorem tally_restored (h : Tally limit t) (hi : t.world.tasks i = some ⟨.leaving (.restoring 0), false⟩)
    (hno : NoOther t.world i) (subscriptions : Nat)
    (hs : Settled (t.world.resume i (.leaving (.restoring 0)) .done subscriptions)) :
    Tally limit ⟨t.world.resume i (.leaving (.restoring 0)) .done subscriptions,
      t.count (.leaving (.restoring 0)) .done subscriptions⟩ := by
  have hok := (h.settled.points i _ hi).2 rfl
  have hle : t.restored ≤ t.attempts := by
    unfold Trials.restored
    split <;> omega
  refine h.move hs hno rfl rfl (.inl rfl) id nofun h.counter (hle.trans h.within) fun hpos => .inr ?_
  -- a connection that is not up at the end of a restore was stopped
  by_contra hrun
  have hup := (hok (eq_true_of_ne_false hrun)).1
  simp [Trials.count, Trials.restored, hup] at hpos

theorem tally_resume (h : Tally limit t) {point : Point} (hi : t.world.tasks i = some ⟨point, false⟩)
    (result : Result) (subscriptions : Nat) (hst : Steady t (.resume i result subscriptions)) :
    Tally limit ⟨t.world.resume i point result subscriptions, t.count point result subscriptions⟩ := by
  have hs := settled_resume h.settled hi rfl result subscriptions hst.1
  have hok := (h.settled.points i _ hi).2 rfl
  have htally := h.points i point hi
  have hcaught := hst.2.2 point hi
  cases point with
  | start => exact tally_head h hi nofun htally hs
  | spinning => exact h
  | recv socket =>
    cases result with
    | done => exact tally_head h hi nofun htally hs
    | waits =>
      refine h.turn hs hi nofun rfl rfl rfl rfl rfl ?_
      rintro _ ⟨⟩
      exact ⟨rfl, htally⟩
    | raised => exact h.turn hs hi nofun rfl rfl rfl rfl rfl nofun
    | lost =>
      have hnone : ∀ j p, t.world.tasks j = some p → ¬ p.isLeaving := hst.1 _ hi rfl
      have hzero : t.attempts = 0 := by
        by_contra hne
        rcases h.ended (by omega) with ⟨j, p, hj, hp⟩ | hrun
        · exact hnone j p hj hp
        · rw [hok.2.1] at hrun
          cases hrun
      have hcount : t.world._reconnectAttempts = 0 := htally
      exact h.close hi (fun j p _ hj => hnone j p hj) (.inl hok.1) (fun _ => by omega)
        (show t.world._reconnectAttempts = t.attempts by omega) hs
  | handling =>
    cases result with
    | done => exact tally_head h hi nofun htally hs
    | lost => exact tally_head h hi nofun htally hs
    | waits => exact h
    | raised => exact h.turn hs hi nofun rfl rfl rfl rfl rfl nofun
  | leaving place =>
    have hno : NoOther t.world i := h.settled.noOther hi rfl
    cases place with
    | closing => exact h.retry hno (.inl hok.1) (fun _ => htally) t.world._connected hs
    | reclosing => exact h.retry hno hok.1 htally t.world._connected hs
    | sleeping =>
      have hdown : t.world._connected = false := hok.2
      have hcount : t.world._reconnectAttempts = t.attempts + 1 := htally
      have hattempts : t.count (.leaving .sleeping) result subscriptions = t.attempts + 1 := by
        simp [Trials.count, hdown]
      rw [hattempts]
      exact tally_slept h hno hdown hcount subscriptions hs
    | connecting place =>
      cases place with
      | closing =>
        refine h.move hs hno rfl rfl (.inl rfl) id ?_ h.counter h.within fun _ => .inl ⟨_, rfl, rfl⟩
        rintro _ ⟨⟩
        exact ⟨rfl, htally⟩
      | dialing =>
        have hcount : t.world._reconnectAttempts = t.attempts := htally
        rcases hcaught with rfl | rfl
        · exact tally_redialed h hno hok.1 subscriptions hs
        · exact h.failed hi hno (.inl hok.1) (fun _ => hcount) hs
    | restoring left =>
      rcases hcaught with rfl | rfl
      · cases left with
        | zero => exact tally_restored h hi hno subscriptions hs
        | succ left => exact tally_send h hi hno hok left hs
      · have hrun : t.world._running = false := hst.1 _ hi rfl
        have hattempts : t.count (.leaving (.restoring left)) .lost subscriptions = t.attempts := by
          cases left <;> rfl
        rw [hattempts]
        refine h.failed hi hno (.inr hrun) (fun hr => ?_) hs
        rw [hrun] at hr
        cases hr

end

/-! ## What the callers do -/

section

variable {limit : Nat} {t : Trials}

/-- What the calls that do not stop the connection leave alone. -/
structure Keeps (w w' : World) : Prop where
  maximum : w'.maxReconnectAttempts = w.maxReconnectAttempts
  counter : w'._reconnectAttempts = w._reconnectAttempts
  tasks : w'.tasks = w.tasks
  running : w'._running = w._running
  processingTask : w'._processingTask = w._processingTask

theorem keeps_closeCall (w : World) (c : Nat) : Keeps w (w.closeCall c) := by
  unfold World.closeCall
  split <;> exact ⟨rfl, rfl, rfl, rfl, rfl⟩

theorem keeps_awaited (w : World) (c task : Nat) : Keeps w (w.awaited c task) := by
  unfold World.awaited
  split
  · exact ⟨rfl, rfl, rfl, rfl, rfl⟩
  · exact keeps_closeCall w c

theorem keeps_connect (w : World) (c : Nat) : Keeps w (w.connect c) := by
  unfold World.connect
  split
  · exact ⟨rfl, rfl, rfl, rfl, rfl⟩
  · split <;> exact ⟨rfl, rfl, rfl, rfl, rfl⟩

theorem Tally.frame (h : Tally limit t) {w' : World} (hs : Settled w') (hk : Keeps t.world w') :
    Tally limit ⟨w', t.attempts⟩ := by
  refine ⟨hs, hk.maximum.trans h.maximum, fun i point hi => ?_, fun i point hi => ?_,
    hk.counter.trans_le h.counter, h.within, fun ha => ?_⟩
  · rw [hk.tasks] at hi
    have hp := h.points i point hi
    unfold PointTally at hp ⊢
    rwa [hk.counter, hk.running]
  · rw [hk.tasks] at hi
    rw [hk.running, hk.processingTask]
    exact h.stopped i point hi
  · rw [hk.tasks, hk.running]
    exact h.ended ha

theorem tally_disconnect (h : Tally limit t) (c : Nat) : Tally limit ⟨t.world.disconnect c, t.attempts⟩ := by
  have hs := settled_disconnect h.settled c
  obtain ⟨w, htasks, hcounter, hmax, hrun, htask, hk⟩ : ∃ w : World,
      (∀ i point, w.tasks i = some ⟨point, false⟩ → t.world.tasks i = some ⟨point, false⟩) ∧
      w._reconnectAttempts = t.world._reconnectAttempts ∧ w.maxReconnectAttempts = t.world.maxReconnectAttempts ∧
      w._running = false ∧ w._processingTask = none ∧ Keeps w (t.world.disconnect c) := by
    let stopped := { t.world with _running := false, _processingTask := none }
    unfold World.disconnect
    cases htask : t.world._processingTask with
    | none => exact ⟨stopped, fun _ _ => id, rfl, rfl, rfl, rfl, keeps_closeCall stopped c⟩
    | some task =>
      dsimp only
      cases hget : t.world.tasks task with
      | none => exact ⟨stopped, fun _ _ => id, rfl, rfl, rfl, rfl, keeps_awaited stopped c task⟩
      | some p =>
        refine ⟨{ stopped with tasks := Function.update t.world.tasks task (some { p with cancelled := true }) },
          fun i point hi => ?_, rfl, rfl, rfl, rfl, ⟨rfl, rfl, rfl, rfl, rfl⟩⟩
        dsimp only at hi
        rw [Function.update_apply] at hi
        split at hi
        · cases hi
        · exact hi
  refine ⟨hs, (hk.maximum.trans hmax).trans h.maximum, fun i point hi => ?_,
    fun _ _ _ => ⟨hk.running.trans hrun, hk.processingTask.trans htask⟩, ?_, h.within,
    fun _ => .inr (hk.running.trans hrun)⟩
  · rw [hk.tasks] at hi
    have hp := h.points i point (htasks i point hi)
    unfold PointTally at hp ⊢
    rw [hk.counter, hcounter, hk.running, hrun]
    split <;> simp_all
  · rw [hk.counter, hcounter]
    exact h.counter

theorem tally_resumeCall (h : Tally limit t) {c : Nat} {call : Call} (hc : t.world.calls c = some call)
    (result : Result) (hst : Steady t (.resumeCall c result)) :
    Tally limit ⟨t.world.resumeCall c call result, t.attempts⟩ := by
  have hs := settled_resumeCall h.settled hc result
  cases call with
  | connecting place =>
    cases place with
    | closing => exact h.frame hs ⟨rfl, rfl, rfl, rfl, rfl⟩
    | dialing =>
      cases result with
      | waits => exact h.frame hs ⟨rfl, rfl, rfl, rfl, rfl⟩
      | lost => exact h.frame hs ⟨rfl, rfl, rfl, rfl, rfl⟩
      | raised => exact h.frame hs ⟨rfl, rfl, rfl, rfl, rfl⟩
      | done =>
        have hzero : t.attempts = 0 := hst.2.2 hc
        have hnew : ∀ i p, Function.update t.world.tasks t.world.nextTask (some ⟨.start, false⟩) i = some p →
            p = ⟨.start, false⟩ := by
          intro i p hi
          rw [Function.update_apply] at hi
          split at hi
          · exact (Option.some.inj hi).symm
          · rw [(h.settled.alone c _ hc).1] at hi
            cases hi
        refine ⟨hs, h.maximum, fun i point hi => ?_, fun i point hi => ?_, Nat.zero_le _, h.within, fun ha => ?_⟩
        · cases hnew i _ hi
          rfl
        · cases hnew i _ hi
        · exact absurd ha (by show ¬ 0 < t.attempts; omega)
  | awaiting task =>
    change Settled (if t.world.tasks task = none then t.world.awaited c task else t.world) at hs
    show Tally limit ⟨if t.world.tasks task = none then t.world.awaited c task else t.world, t.attempts⟩
    split
    · next hnone =>
      rw [if_pos hnone] at hs
      exact h.frame hs (keeps_awaited _ c task)
    · exact h
  | closing => exact h.frame hs ⟨rfl, rfl, rfl, rfl, rfl⟩

/-! ## The runs -/

theorem tally_step (h : Tally limit t) {l : Label} (hst : Steady t l) : Tally limit (t.step l) := by
  cases l with
  | connect c =>
    have hs := settled_step h.settled hst.1
    unfold Trials.step
    simp only [WebSocketTasks.step] at hs ⊢
    split
    · next hnone =>
      rw [if_pos hnone] at hs
      exact h.frame hs (keeps_connect _ c)
    · exact h
  | disconnect c =>
    unfold Trials.step
    simp only [WebSocketTasks.step]
    split
    · exact tally_disconnect h c
    · exact h
  | resume i result subscriptions =>
    have hs := settled_step h.settled hst.1
    unfold Trials.step
    simp only [WebSocketTasks.step] at hs ⊢
    cases hi : t.world.tasks i with
    | none => exact h
    | some p =>
      obtain ⟨point, cancelled⟩ := p
      cases cancelled with
      | false => exact tally_resume h hi result subscriptions hst
      | true =>
        rw [hi] at hs
        obtain ⟨hrun, htask⟩ := h.stopped i point hi
        have hget : ∀ j p, Function.update t.world.tasks i none j = some p → t.world.tasks j = some p := by
          intro j p hj
          rw [Function.update_apply] at hj
          split at hj
          · cases hj
          · exact hj
        exact ⟨hs, h.maximum, fun j point hj => h.points j point (hget j _ hj), fun _ _ _ => ⟨hrun, htask⟩,
          h.counter, h.within, fun _ => .inr hrun⟩
  | resumeCall c result =>
    unfold Trials.step
    simp only [WebSocketTasks.step]
    split
    · exact h
    · next call hc => exact tally_resumeCall h hc result hst

/-- In a run of steady steps the attempts since all subscriptions were last restored
stay within the maximum, and the loop that has used them up stops the connection. -/
theorem bounded_of_steady (limit : Nat) (labels : List Label) (hm : Meets Trials.step Steady (start limit) labels) :
    Throughout Trials.step (Bounded limit) (start limit) labels := by
  have ht := throughout_of_meets (P := Tally limit) (fun _ _ h hst => tally_step h hst) (tally_start limit) hm
  intro pre hp
  exact (ht pre hp).bounded

end

/-- The one attempt that is allowed succeeds, and the one subscription is restored. -/
theorem bounded_redialed : Throughout Trials.step (Bounded 1) (start 1)
    (redialed ++ [.resume 1 .done 0, .resume 0 .done 0]) := by
  refine bounded_of_steady 1 _ ?_
  have hfits : 1 < 1024 := by decide
  have hlost : Steady (run Trials.step (start 1) [.connect 0, .resumeCall 0 .done, .resume 0 .done 0])
      (.resume 0 .lost 0) := by
    refine ⟨?_, hfits, fun point h => by cases h; trivial⟩
    rintro t ⟨⟩ - j t' ht'
    by_cases hj : j = 0
    · subst hj
      cases ht'
      decide
    · simp [start, Trials.step, WebSocketTasks.step, World.connect, World.stand, World.resumeCall, World.established,
        World.endCall, World.resume, World.head, World.wait, init, hj] at ht'
  simp only [redialed, List.cons_append, List.nil_append, meets_cons]
  refine ⟨⟨.inr ⟨fun _ => rfl, fun _ => rfl⟩, hfits, trivial⟩, ⟨trivial, hfits, fun _ => rfl⟩, ⟨trivial, hfits, ?_⟩,
    hlost, ⟨trivial, hfits, ?_⟩, ⟨trivial, hfits, ?_⟩, ⟨trivial, hfits, ?_⟩, ⟨trivial, hfits, ?_⟩,
    ⟨trivial, hfits, ?_⟩, meets_nil _ _ _⟩
  all_goals
    rintro point ⟨⟩
    trivial

/-- The connection comes up again and the send of its subscription fails: the counter
is back at zero, and there is a second attempt where one is allowed. -/
def failedRestore : List Label :=
  redialed ++ [.resume 1 .done 0, .resume 0 .lost 0, .resume 1 .lost 0, .resume 0 .done 0, .resume 1 .done 1]

theorem second_attempt : (run Trials.step (start 1) failedRestore).attempts = 2 ∧
    ¬ Throughout Trials.step (Bounded 1) (start 1) failedRestore := by
  have htwo : (run Trials.step (start 1) failedRestore).attempts = 2 := by decide +kernel
  refine ⟨htwo, fun h => ?_⟩
  have hwithin := (throughout_last h).within
  omega

end ReconnectAttempts
