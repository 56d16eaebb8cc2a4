import BtApiBase.Registry
import BtApiBase.WebSocketManagers

/-!
# Subscription ids, tables and counters

The tables of all connections are one registry whose owners are the connections.
Only `subscribe` registers and only `unsubscribe` drops, so the tables, the
counters and the live subscriptions agree throughout a run exactly if no
`subscribe` generates an id that is in use.
-/

namespace WebSocketIds

open PyText PyValue PyDict WebSocketMessages WebSocketManagers Registry Runs

/-- Live ids are distinct, an id that is about to be returned is that of no other
subscription, every live subscription is registered with its callback, and the
counters count the live subscriptions. -/
structure Consistent (w : World) : Prop where
  distinct : (w.live.map fun e => e.subscription.id).Nodup
  returning : ∀ c call id, w.calls c = some call → call.returns = some id →
    ∀ e ∈ w.live, e.subscription.id = id → e.call = c
  registered : ∀ e ∈ w.live, ∃ conn, w.connections e.connection = some conn ∧
    conn._subscriptions.get e.subscription.id = some e.subscription
  counted : ∀ i conn, w.connections i = some conn → ∀ topic, conn._subscriptionCount topic =
    w.live.countP fun e => e.connection = i ∧ e.subscription.topic = topic

/-- An id is neither live nor about to be returned by another call. -/
def NotInUse (w : World) (c : Nat) (id : PyStr) : Prop :=
  (∀ e ∈ w.live, e.subscription.id ≠ id) ∧
    ∀ c' call, c' ≠ c → w.calls c' = some call → call.returns ≠ some id

/-- Where a `subscribe` goes on to register, its id is not in use. -/
def Unused (w : World) (g : Got) : Prop :=
  match g.purpose with
  | .connection => True
  | .subscription topic symbol _ _ => ∀ conn, w.connections g.connection = some conn →
    conn.exceeded topic = false → NotInUse w g.call (subscriptionId g.exchange topic symbol g.now)

def UnusedId (w : World) (l : Label) : Prop := ∀ g, (advance w l).2 = some g → Unused (advance w l).1 g

/-! ## The registry -/

def entry (e : Live) : Entry Nat PyStr Subscription := ⟨e.connection, e.subscription.id, e.subscription⟩

/-- The tables and counters of all connections. -/
def books (w : World) : Book Nat PyStr PyStr Subscription where
  table i id := (w.connections i).bind (·._subscriptions.get id)
  count i topic := (w.connections i).elim 0 (·._subscriptionCount topic)
  live := w.live.map entry

def Returning (w : World) : Prop :=
  ∀ c call id, w.calls c = some call → call.returns = some id →
    ∀ e ∈ w.live, e.subscription.id = id → e.call = c

theorem keys_books (w : World) : (books w).live.map Entry.key = w.live.map fun e => e.subscription.id :=
  List.map_map

theorem number_books (w : World) (i : Nat) (topic : PyStr) :
    number Subscription.topic (books w).live i topic =
      w.live.countP fun e => e.connection = i ∧ e.subscription.topic = topic := by
  show List.countP _ (w.live.map entry) = _
  rw [List.countP_map]
  rfl

theorem consistent_iff (w : World) :
    Consistent w ↔ Registry.Consistent Subscription.topic (books w) ∧ Returning w := by
  constructor
  · intro h
    have hreg : ∀ e ∈ w.live, (books w).table e.connection e.subscription.id = some e.subscription := by
      intro e he
      obtain ⟨conn, hconn, hget⟩ := h.registered e he
      simp only [books, hconn, Option.bind_some, hget]
    refine ⟨⟨?_, ?_, ?_⟩, h.returning⟩
    · rw [keys_books]
      exact h.distinct
    · intro x hx
      obtain ⟨e, he, rfl⟩ := List.mem_map.mp hx
      exact hreg e he
    · intro i topic
      rw [number_books]
      cases hconn : w.connections i with
      | some conn => simpa only [books, hconn, Option.elim_some] using h.counted i conn hconn topic
      | none =>
        simp only [books, hconn, Option.elim_none]
        symm
        rw [Int.natCast_eq_zero, List.countP_eq_zero]
        intro e he heq
        obtain ⟨conn, hsome, -⟩ := h.registered e he
        obtain ⟨rfl, -⟩ : e.connection = i ∧ e.subscription.topic = topic := by simpa using heq
        rw [hconn] at hsome
        cases hsome
  · rintro ⟨h, hret⟩
    refine ⟨?_, hret, ?_, ?_⟩
    · rw [← keys_books]
      exact h.distinct
    · intro e he
      have hget := h.registered (entry e) (List.mem_map_of_mem he)
      exact Option.bind_eq_some_iff.mp hget
    · intro i conn hconn topic
      have hcount := h.counted i topic
      rw [number_books] at hcount
      simpa only [books, hconn, Option.elim_some] using hcount

/-! ## What leaves the registry as it is -/

/-- No connection has a number that was not given out. -/
def Fresh (w : World) : Prop := ∀ i, w.nextConnection ≤ i → w.connections i = none

/-- Every id about to be returned in `w'` is so in `w`. -/
def ReturnsKept (w w' : World) : Prop :=
  ∀ c call id, w'.calls c = some call → call.returns = some id →
    ∃ before, w.calls c = some before ∧ before.returns = some id

structure Kept (w w' : World) : Prop where
  registry : books w' = books w
  live : w'.live = w.live
  fresh : Fresh w'
  returns : ReturnsKept w w'

theorem Kept.refl {w : World} (h : Fresh w) : Kept w w :=
  ⟨rfl, rfl, h, fun _ call _ hc hid => ⟨call, hc, hid⟩⟩

theorem ReturnsKept.trans {w w' w'' : World} (h : ReturnsKept w w') (h' : ReturnsKept w' w'') :
    ReturnsKept w w'' := by
  intro c call id hc hid
  obtain ⟨before, hb, hid⟩ := h' c call id hc hid
  exact h c before id hb hid

theorem Kept.trans {w w' w'' : World} (h : Kept w w') (h' : Kept w' w'') : Kept w w'' :=
  ⟨h'.registry.trans h.registry, h'.live.trans h.live, h'.fresh, h.returns.trans h'.returns⟩

theorem calls_stand (w : World) (c c' : Nat) (call : Call) :
    (w.stand c call).calls c' = if c' = c then some call else w.calls c' :=
  Function.update_apply _ _ _ _

theorem calls_endCall (w : World) (c c' : Nat) (outcome : Outcome) :
    (w.endCall c outcome).calls c' = if c' = c then none else w.calls c' :=
  Function.update_apply _ _ _ _

theorem returns_endCall (w : World) (c : Nat) (outcome : Outcome) :
    ReturnsKept w (w.endCall c outcome) := by
  intro c' call id hc hid
  rw [calls_endCall] at hc
  by_cases hcc : c' = c
  · rw [if_pos hcc] at hc
    cases hc
  · rw [if_neg hcc] at hc
    exact ⟨call, hc, hid⟩

/-- A connection and the record of the live subscriptions are written. -/
theorem books_write (w : World) (i : Nat) (conn : WebSocketConnection) (live : List Live) :
    books { w.setConnection i conn with live := live } =
      ⟨Function.update (books w).table i conn._subscriptions.get,
        Function.update (books w).count i conn._subscriptionCount, live.map entry⟩ := by
  unfold books World.setConnection
  congr 1
  · funext j id
    simp only [Function.update_apply]
    by_cases hj : j = i
    · rw [if_pos hj, if_pos hj]
      rfl
    · rw [if_neg hj, if_neg hj]
  · funext j topic
    simp only [Function.update_apply]
    by_cases hj : j = i
    · rw [if_pos hj, if_pos hj]
      rfl
    · rw [if_neg hj, if_neg hj]

theorem table_eq {w : World} {i : Nat} {conn : WebSocketConnection} (hi : w.connections i = some conn) :
    (books w).table i = conn._subscriptions.get := by
  funext id
  simp only [books, hi, Option.bind_some]

theorem count_eq {w : World} {i : Nat} {conn : WebSocketConnection} (hi : w.connections i = some conn) :
    (books w).count i = conn._subscriptionCount := by
  funext topic
  simp only [books, hi, Option.elim_some]

section

variable {w : World} (h : Fresh w)

include h

theorem kept_setPool (p : Nat) (pool : Pool) : Kept w (w.setPool p pool) :=
  ⟨rfl, rfl, h, fun _ call _ hc hid => ⟨call, hc, hid⟩⟩

theorem kept_endCall (c : Nat) (outcome : Outcome) : Kept w (w.endCall c outcome) :=
  ⟨rfl, rfl, h, returns_endCall w c outcome⟩

theorem kept_raised (lock c : Nat) (exc : PyExc) : Kept w ((w.release lock).raise c exc) := by
  have hr : Fresh (w.release lock) := h
  exact (kept_setPool h lock _).trans (kept_endCall hr c (.raised exc))

/-- A call stands where it returns what it returned, or nothing. -/
theorem kept_stand (c : Nat) {call : Call}
    (hret : ∀ id, call.returns = some id → ∃ before, w.calls c = some before ∧ before.returns = some id) :
    Kept w (w.stand c call) := by
  refine ⟨rfl, rfl, h, ?_⟩
  intro c' call' id hc hid
  rw [calls_stand] at hc
  by_cases hcc : c' = c
  · rw [if_pos hcc] at hc
    cases hc
    subst hcc
    exact hret id hid
  · rw [if_neg hcc] at hc
    exact ⟨call', hc, hid⟩

theorem kept_silent (c : Nat) {call : Call} (hret : call.returns = none) : Kept w (w.stand c call) := by
  refine kept_stand h c fun id hid => ?_
  rw [hret] at hid
  cases hid

theorem fresh_setConnection {i : Nat} (hi : i < w.nextConnection) (conn : WebSocketConnection) :
    Fresh (w.setConnection i conn) := by
  intro j hj
  have hj : w.nextConnection ≤ j := hj
  show Function.update w.connections i (some conn) j = none
  rw [Function.update_of_ne (by omega)]
  exact h j hj

/-- A connection with the tables that the registry has for it. -/
theorem kept_tables {i : Nat} (conn : WebSocketConnection)
    (htable : (books w).table i = conn._subscriptions.get)
    (hcount : (books w).count i = conn._subscriptionCount) (hi : i < w.nextConnection) :
    Kept w (w.setConnection i conn) := by
  refine ⟨?_, rfl, fresh_setConnection h hi conn, fun _ call _ hc hid => ⟨call, hc, hid⟩⟩
  have hset : books (w.setConnection i conn) = _ := books_write w i conn w.live
  rw [hset, ← htable, ← hcount, Function.update_eq_self, Function.update_eq_self]
  rfl

theorem Fresh.lt {i : Nat} {conn : WebSocketConnection} (hi : w.connections i = some conn) :
    i < w.nextConnection := by
  by_contra hge
  rw [h i (by omega)] at hi
  cases hi

/-- A step inside one connection. -/
theorem kept_act {i : Nat} {conn : WebSocketConnection} (hi : w.connections i = some conn)
    (l : WebSocketTasks.Label) : Kept w (w.setConnection i (conn.act l)) := by
  have htable := table_eq hi
  have hcount := count_eq hi
  exact kept_tables h (conn.act l) htable hcount (h.lt hi)

/-- A new connection has no subscription. -/
theorem kept_dial (c : Nat) (exchange : PyStr) (purpose : Purpose) (lock : Nat) (e : Exchange) :
    Kept w (w.dial c exchange purpose lock e) := by
  have hnone := h w.nextConnection (Nat.le_refl _)
  have hlarger : Kept w { w with nextConnection := w.nextConnection + 1 } :=
    ⟨rfl, rfl, fun j hj => h j (Nat.le_of_succ_le hj), fun _ call _ hc hid => ⟨call, hc, hid⟩⟩
  have hmade := kept_tables hlarger.fresh ((WebSocketConnection.create e.config).act (.connect 0))
    (by funext id; simp only [books, hnone]; rfl) (by funext id; simp only [books, hnone]; rfl)
    (Nat.lt_succ_self w.nextConnection)
  exact (hlarger.trans hmade).trans (kept_silent hmade.fresh c rfl)

/-! ## The calls -/

theorem kept_getLocked (c : Nat) (exchange : PyStr) (purpose : Purpose) (lock : Nat) (now : Rat) :
    Kept w (w.getLocked c exchange purpose lock now).1 := by
  unfold World.getLocked
  split
  · exact kept_raised h lock c _
  · dsimp only
    split
    · exact kept_setPool h lock _
    · split
      · exact kept_dial h c exchange purpose lock _
      · split
        · exact kept_raised h lock c _
        · exact ⟨rfl, rfl, h, fun _ call _ hc hid => ⟨call, hc, hid⟩⟩

theorem kept_dialed (c : Nat) (exchange : PyStr) (purpose : Purpose) (lock p i : Nat) (reply : Reply)
    (now : Rat) : Kept w (w.dialed c exchange purpose lock p i reply now).1 := by
  unfold World.dialed
  split
  · exact Kept.refl h
  · next conn hconn =>
    have hact := kept_act h hconn (.resumeCall 0 reply.result)
    dsimp only
    split
    · exact hact.trans (kept_raised hact.fresh lock c _)
    · exact hact.trans ⟨rfl, rfl, hact.fresh, fun _ call _ hc hid => ⟨call, hc, hid⟩⟩

/-- The registry is the one before or has lost a key, and nothing else is new. -/
structure Passes (w w' : World) : Prop where
  registry : books w' = books w ∨ ∃ i id s, (books w).table i id = some s ∧
    books w' = (books w).drop Subscription.topic i id s
  live : ∀ e ∈ w'.live, e ∈ w.live
  fresh : Fresh w'
  returns : ReturnsKept w w'

omit h in
theorem Kept.passes {w' : World} (h : Kept w w') : Passes w w' :=
  ⟨.inl h.registry, fun _ he => h.live ▸ he, h.fresh, h.returns⟩

omit h in
theorem Kept.andPasses {w' w'' : World} (h : Kept w w') (h' : Passes w' w'') : Passes w w'' := by
  refine ⟨?_, fun e he => h.live ▸ h'.live e he, h'.fresh, h.returns.trans h'.returns⟩
  rw [← h.registry]
  exact h'.registry

omit h in
theorem Passes.andKept {w' w'' : World} (h : Passes w w') (h' : Kept w' w'') : Passes w w'' := by
  refine ⟨?_, fun e he => h.live e (h'.live ▸ he), h'.fresh, h.returns.trans h'.returns⟩
  rw [h'.registry]
  exact h.registry

theorem passes_pop {i : Nat} {conn : WebSocketConnection} (hi : w.connections i = some conn)
    {id : PyStr} {s : Subscription} (hs : conn._subscriptions.get id = some s) :
    Passes w { w.setConnection i (conn.unsubscribe s id) with
      live := w.live.filter fun e => ¬ (e.connection = i ∧ e.subscription.id = id) } := by
  refine ⟨.inr ⟨i, id, s, ?_, ?_⟩, fun e he => (List.mem_filter.mp he).1,
    fresh_setConnection h (h.lt hi) _, fun _ call _ hc hid => ⟨call, hc, hid⟩⟩
  · rw [table_eq hi]
    exact hs
  · have htable : (conn.unsubscribe s id)._subscriptions.get =
        Function.update ((books w).table i) id none := by
      funext k
      rw [table_eq hi, Function.update_apply]
      exact Dict.get_pop _ _ _
    have hcount : (conn.unsubscribe s id)._subscriptionCount =
        Function.update ((books w).count i) s.topic ((books w).count i s.topic - 1) := by
      rw [count_eq hi]
      rfl
    rw [books_write, htable, hcount]
    unfold Book.drop others
    rw [show (books w).live = w.live.map entry from rfl, List.filter_map]
    rfl

theorem passes_unsubscribeLocked (c : Nat) (exchange id : PyStr) (lock : Nat) :
    Passes w (w.unsubscribeLocked c exchange id lock) := by
  unfold World.unsubscribeLocked
  split
  · exact (kept_raised h lock c _).passes
  · split
    · have hr : Fresh (w.release lock) := h
      exact ((kept_setPool h lock _).trans (kept_silent hr c rfl)).passes
    · split
      · exact (Kept.refl h).passes
      · next conn hconn =>
        split
        · exact (Kept.refl h).passes
        · next s hs =>
          have hpop := passes_pop h hconn hs
          dsimp only
          split
          · exact hpop.andKept (kept_silent hpop.fresh c rfl)
          · exact hpop.andKept (kept_raised hpop.fresh lock c _)

theorem passes_enter (c : Nat) (exchange : PyStr) (request : Request) (lock : Nat) (now : Rat) :
    Passes w (w.enter c exchange request lock now).1 := by
  cases request with
  | get purpose => exact (kept_getLocked h c exchange purpose lock now).passes
  | unsubscribe id => exact passes_unsubscribeLocked h c exchange id lock

theorem passes_begin (exchange : PyStr) (request : Request) (now : Rat) :
    Passes w (w.begin exchange request now).1 := by
  have hbegun : Kept w { w with nextCall := w.nextCall + 1 } :=
    ⟨rfl, rfl, h, fun _ call _ hc hid => ⟨call, hc, hid⟩⟩
  have hpool := fun p pool => hbegun.trans (kept_setPool hbegun.fresh p pool)
  unfold World.begin
  dsimp only
  split
  · exact (hbegun.trans (kept_endCall hbegun.fresh _ _)).passes
  · split
    · exact ((hpool _ _).trans (kept_silent (hpool _ _).fresh _ rfl)).passes
    · exact (hpool _ _).andPasses (passes_enter (hpool _ _).fresh _ _ _ _ _)

theorem passes_resume {c : Nat} {call : Call} (hc : w.calls c = some call) (reply : Reply) (now : Rat) :
    Passes w (w.resume c call reply now).1 := by
  unfold World.resume
  cases call with
  | locking exchange request lock =>
    dsimp only
    split
    · have hlock := kept_setPool h lock { w.pools lock with
        locked := true, waiters := (w.pools lock).waiters.tail }
      exact hlock.andPasses (passes_enter hlock.fresh _ _ _ _ _)
    · exact (Kept.refl h).passes
  | dialing exchange purpose lock pool i => exact (kept_dialed h c exchange purpose lock pool i reply now).passes
  | sending exchange id =>
    dsimp only
    split
    · exact (kept_endCall h c _).passes
    · refine (kept_stand h c fun _ hid => ?_).passes
      exact ⟨_, hc, hid⟩
  | publishing id => cases reply <;> exact (kept_endCall h c _).passes
  | unsending exchange lock =>
    dsimp only
    split
    · exact (kept_raised h lock c _).passes
    · have hr := kept_setPool h lock { w.pools lock with locked := false }
      exact (hr.trans (kept_silent hr.fresh c rfl)).passes
  | unpublishing => cases reply <;> exact (kept_endCall h c _).passes

/-! ## `close_all` -/

theorem kept_disconnect (i d : Nat) (l : WebSocketTasks.Label) : Kept w (w.disconnect i d l).1 := by
  unfold World.disconnect
  split
  · exact Kept.refl h
  · next conn hconn => exact kept_act h hconn l

theorem kept_closing (closing : Closing) : Kept w { w with closing := closing } :=
  ⟨rfl, rfl, h, fun _ call _ hc hid => ⟨call, hc, hid⟩⟩

theorem kept_clear (exchange : PyStr) (p : Nat) : Kept w (w.clear exchange p) :=
  ⟨rfl, rfl, h, fun _ call _ hc hid => ⟨call, hc, hid⟩⟩

omit h in
/-- A connection that is new stays so, through every part of `close_all`. -/
theorem kept_closingSteps : ClosingSteps 1 fun w w' => Fresh w → Kept w w' where
  refl := fun _ => Kept.refl
  trans := fun _ _ _ h h' hw => (h hw).trans (h' (h hw).fresh)
  before := fun _ hw => ⟨rfl, rfl, hw, fun _ call _ hc hid => ⟨call, hc, hid⟩⟩
  called := fun _ i hw => kept_disconnect hw i _ _
  resumed := fun _ i _ hw => kept_disconnect hw i _ _
  closing := fun _ closing hw => kept_closing hw closing
  clear := fun _ exchange p hw => kept_clear hw exchange p

theorem passes_advance (l : Label) : Passes w (advance w l).1 := by
  cases l with
  | addExchange config => exact Kept.passes ⟨rfl, rfl, h, fun _ call _ hc hid => ⟨call, hc, hid⟩⟩
  | call exchange request now => exact passes_begin h exchange request now
  | resume c reply now =>
    simp only [advance]
    split
    · exact (Kept.refl h).passes
    · next call hc => exact passes_resume h hc reply now
  | closeAll =>
    simp only [advance]
    split
    · exact (kept_closingSteps.closeAll w h).passes
    · exact (Kept.refl h).passes
  | resumeCloseAll reply => exact (kept_closingSteps.resumeCloseAll w reply h).passes
  | connection i task result =>
    simp only [advance]
    split
    · exact (Kept.refl h).passes
    · next conn hconn => exact (kept_act h hconn _).passes

end

/-! ## The registration -/

theorem Passes.tracked {w w' : World} (h : Passes w w') (ht : Tracked (books w)) : Tracked (books w') := by
  rcases h.registry with hb | ⟨i, id, s, -, hb⟩
  · rw [hb]
    exact ht
  · rw [hb]
    exact tracked_drop ht i id s

theorem Passes.consistent {w w' : World} (h : Passes w w') (ht : Tracked (books w)) (hc : Consistent w) :
    Consistent w' := by
  rw [consistent_iff] at hc ⊢
  refine ⟨?_, ?_⟩
  · rcases h.registry with hb | ⟨i, id, s, hs, hb⟩
    · rw [hb]
      exact hc.1
    · rw [hb]
      exact consistent_drop ht hc.1 hs
  · intro c call id hcall hid e he heq
    obtain ⟨before, hb, hid⟩ := h.returns c call id hcall hid
    exact hc.2 c before id hb hid e (h.live e he) heq

/-- One more subscription is live, and only its call has moved. -/
structure Registers (w w' : World) (g : Got) (s : Subscription) : Prop where
  registry : books w' = (books w).register Subscription.topic ⟨g.connection, s.id, s⟩
  live : w'.live = w.live ++ [Live.mk g.call g.connection s]
  fresh : Fresh w'
  others : ∀ c, c ≠ g.call → w'.calls c = w.calls c
  own : ∀ call id, w'.calls g.call = some call → call.returns = some id → id = s.id

theorem Registers.consistent_iff {w w' : World} {g : Got} {s : Subscription} (h : Registers w w' g s)
    (hc : Consistent w) : Consistent w' ↔ NotInUse w g.call s.id := by
  rw [WebSocketIds.consistent_iff] at hc
  have hnew : s.id ∉ (books w).live.map Entry.key ↔ ∀ e ∈ w.live, e.subscription.id ≠ s.id := by
    rw [keys_books]
    simp
  rw [WebSocketIds.consistent_iff, h.registry, register_consistent_iff hc.1, hnew]
  refine and_congr_right fun hunused => ?_
  constructor
  · intro hret c call hne hcall hid
    have hmem : Live.mk g.call g.connection s ∈ w'.live := by simp [h.live]
    rw [← h.others c hne] at hcall
    exact hne (hret c call s.id hcall hid _ hmem rfl).symm
  · intro hpending c call id hcall hid e he heq
    rw [h.live, List.mem_append, List.mem_singleton] at he
    by_cases hcc : c = g.call
    · subst hcc
      rcases he with he | rfl
      · rw [h.own call id hcall hid] at heq
        exact absurd heq (hunused e he)
      · rfl
    · rw [h.others c hcc] at hcall
      rcases he with he | rfl
      · exact hc.2 c call id hcall hid e he heq
      · obtain rfl : s.id = id := heq
        exact absurd hid (hpending c call hcc hcall)

theorem books_subscribe {w : World} {i : Nat} {conn : WebSocketConnection} (hi : w.connections i = some conn)
    (c : Nat) (s : Subscription) :
    books { w.setConnection i (conn.subscribe s) with live := w.live ++ [Live.mk c i s] } =
      (books w).register Subscription.topic ⟨i, s.id, s⟩ := by
  have htable : (conn.subscribe s)._subscriptions.get =
      Function.update ((books w).table i) s.id (some s) := by
    funext k
    rw [table_eq hi, Function.update_apply]
    exact Dict.get_set _ _ _ _
  have hcount : (conn.subscribe s)._subscriptionCount =
      Function.update ((books w).count i) s.topic ((books w).count i s.topic + 1) := by
    rw [count_eq hi]
    rfl
  rw [books_write, htable, hcount, List.map_append]
  rfl

/-- After the return of `get_connection` a step registers one subscription or none. -/
theorem proceed_cases {w : World} (h : Fresh w) (g : Got) :
    (Kept w (w.proceed g) ∧ Unused w g) ∨
      ∃ s, Registers w (w.proceed g) g s ∧ (Unused w g ↔ NotInUse w g.call s.id) := by
  unfold World.proceed Unused
  cases g.purpose with
  | connection => exact .inl ⟨kept_endCall h _ _, trivial⟩
  | subscription topic symbol params callback =>
    cases hi : w.connections g.connection with
    | none => exact .inl ⟨Kept.refl h, nofun⟩
    | some conn =>
      dsimp only
      cases he : conn.exceeded topic with
      | true =>
        refine .inl ⟨kept_endCall h _ _, ?_⟩
        rintro _ ⟨⟩ hexceeded
        rw [he] at hexceeded
        cases hexceeded
      | false =>
        refine .inr ⟨⟨subscriptionId g.exchange topic symbol g.now, topic, symbol, params, some callback⟩,
          ?_, ⟨fun hu => hu conn rfl he, fun hu _ _ _ => hu⟩⟩
        have hbooks := books_subscribe hi g.call
          ⟨subscriptionId g.exchange topic symbol g.now, topic, symbol, params, some callback⟩
        have hfresh := fresh_setConnection h (h.lt hi) (conn.subscribe
          ⟨subscriptionId g.exchange topic symbol g.now, topic, symbol, params, some callback⟩)
        rw [if_neg Bool.false_ne_true]
        split
        · refine ⟨hbooks, rfl, hfresh, fun c hne => ?_, fun call id hcall hid => ?_⟩
          · exact Function.update_of_ne hne _ _
          · rw [calls_stand, if_pos rfl] at hcall
            cases hcall
            exact (Option.some.inj hid).symm
        · refine ⟨hbooks, rfl, hfresh, fun c hne => ?_, fun call id hcall hid => ?_⟩
          · exact Function.update_of_ne hne _ _
          · rw [World.raise, calls_endCall, if_pos rfl] at hcall
            cases hcall

/-! ## The runs -/

/-- What holds in every run: the tables and the live subscriptions go together. -/
def Sound (w : World) : Prop := Fresh w ∧ Tracked (books w)

theorem sound_init : Sound init :=
  ⟨fun _ _ => rfl, fun _ _ => ⟨nofun, nofun⟩⟩

theorem sound_step (w : World) (l : Label) (h : Sound w) : Sound (step w l) := by
  have hp := passes_advance h.1 l
  unfold step
  split
  · next next heq =>
    rw [heq] at hp
    exact ⟨hp.fresh, hp.tracked h.2⟩
  · next next g heq =>
    rw [heq] at hp
    rcases proceed_cases hp.fresh g with ⟨hk, -⟩ | ⟨s, hr, -⟩
    · exact ⟨hk.fresh, hk.passes.tracked (hp.tracked h.2)⟩
    · refine ⟨hr.fresh, ?_⟩
      rw [hr.registry]
      exact tracked_register (hp.tracked h.2) _

theorem step_consistent_iff (w : World) (l : Label) (h : Sound w) (hc : Consistent w) :
    Consistent (step w l) ↔ UnusedId w l := by
  have hp := passes_advance h.1 l
  unfold step UnusedId
  split
  · next next heq =>
    rw [heq] at hp ⊢
    exact iff_of_true (hp.consistent h.2 hc) nofun
  · next next g heq =>
    rw [heq] at hp ⊢
    have hnext := hp.consistent h.2 hc
    have hone : (∀ g', some g = some g' → Unused next g') ↔ Unused next g :=
      ⟨fun hu => hu g rfl, fun hu g' hg => by cases hg; exact hu⟩
    rw [hone]
    rcases proceed_cases hp.fresh g with ⟨hk, hu⟩ | ⟨s, hr, hu⟩
    · exact iff_of_true (hk.passes.consistent (hp.tracked h.2) hnext) hu
    · rw [hu]
      exact hr.consistent_iff hnext

theorem consistent_init : Consistent init :=
  ⟨List.nodup_nil, nofun, nofun, nofun⟩

/-- The ids, the tables and the counters agree throughout a run exactly if no
`subscribe` generates an id that is live or about to be returned. -/
theorem consistent_iff_unusedId (labels : List Label) :
    Throughout step Consistent init labels ↔ Meets step UnusedId init labels :=
  throughout_iff_meets (fun w l => sound_step w l) (fun w l => step_consistent_iff w l) sound_init
    consistent_init labels

/-- A `subscribe` of one stream. -/
def ticker (now : Rat) : Label :=
  .call "BINANCE" (.get (.subscription "ticker" "BTCUSDT" [] fun _ => .ok ())) now

/-- The same stream twice in one second, and the id of both unsubscribed. -/
def sameSecond : List Label :=
  [.addExchange (.plain "BINANCE"), ticker 10, .resume 0 .done 10, .resume 0 .done 10, .resume 0 .done 10,
    ticker (21 / 2), .resume 1 .done 11, .resume 1 .done 11]

theorem id_returned_twice :
    (run step init sameSecond).log =
      [(0, .subscribed "BINANCE_ticker_BTCUSDT_10"), (1, .subscribed "BINANCE_ticker_BTCUSDT_10")] ∧
    ((run step init sameSecond).connections 0).map (fun conn =>
      (conn._subscriptions.keys, conn._subscriptionCount "ticker")) =
      some ([u "BINANCE_ticker_BTCUSDT_10"], 2) ∧
    ¬ Throughout step Consistent init sameSecond := by
  refine ⟨by decide +kernel, by decide +kernel, fun h => ?_⟩
  have hids : (run step init sameSecond).live.map (fun e => e.subscription.id) =
      [u "BINANCE_ticker_BTCUSDT_10", u "BINANCE_ticker_BTCUSDT_10"] := by decide +kernel
  have hn := (throughout_last h).distinct
  rw [hids] at hn
  simp at hn

end WebSocketIds
