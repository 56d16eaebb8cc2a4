import BtApiBase.PyDict
import BtApiBase.WebSocketMessages
import BtApiBase.WebSocketTasks

/-!
# The manager of websocket connections

`get_connection` picks or makes a connection under the lock of its pool and
`subscribe` goes on from there without an await; `close_all` walks the pools and
takes no lock. A step takes one call, or one task of a connection, from the await
where it stands to its next one. Every list of connections has a number of its
own, since `add_exchange` replaces the list and a call may hold the old one.
-/

namespace WebSocketManagers

open PyText PyValue PyDict WebSocketMessages

/-- What is read of a `WebSocketConfig`, which checks that `max_connections` is positive. -/
structure WebSocketConfig where
  exchangeName : PyStr
  maxConnections : Nat
  positive : 0 < maxConnections
  maxReconnectAttempts : Nat
  subscriptionLimits : Dict PyStr Int

/-- A configuration with room for two connections. -/
def WebSocketConfig.plain (exchangeName : PyStr) : WebSocketConfig where
  exchangeName := exchangeName
  maxConnections := 2
  positive := Nat.two_pos
  maxReconnectAttempts := 3
  subscriptionLimits := .empty

/-- A connection with its socket and tasks in `state`. -/
structure WebSocketConnection where
  config : WebSocketConfig
  state : WebSocketTasks.World
  _subscriptions : Dict PyStr Subscription
  _subscriptionCount : PyStr → Int

/-- A list of connections with the lock that was made beside it and the calls that
wait for that. -/
structure Pool where
  members : List Nat
  locked : Bool
  waiters : List Nat

/-- What `add_exchange` stores under a name, in `_pool_configs`, and in `_pools` and
`_pool_locks` the pool of this number. -/
structure Exchange where
  config : WebSocketConfig
  pool : Nat

/-- What a call of `get_connection` is for; `subscribe` calls it too. -/
inductive Purpose where
  | connection
  | subscription (topic symbol : PyStr) (params : PyMap) (callback : PyVal → Except PyExc Unit)

inductive Request where
  | get (purpose : Purpose)
  | unsubscribe (subscriptionId : PyStr)

/-- The awaits of the calls: the lock of a pool, `connect` of a new connection for
`pool` with the lock of `lock`, and in `subscribe` and `unsubscribe` the send and
the event bus. -/
inductive Call where
  | locking (exchange : PyStr) (request : Request) (lock : Nat)
  | dialing (exchange : PyStr) (purpose : Purpose) (lock pool connection : Nat)
  | sending (exchange subscriptionId : PyStr)
  | publishing (subscriptionId : PyStr)
  | unsending (exchange : PyStr) (lock : Nat)
  | unpublishing

/-- The id that a `subscribe` past its registration returns. -/
def Call.returns : Call → Option PyStr
  | .sending _ subscriptionId | .publishing subscriptionId => some subscriptionId
  | _ => none

inductive Outcome where
  | connection (connection : Nat)
  | subscribed (subscriptionId : PyStr)
  | unsubscribed
  | raised (exc : PyExc)
  deriving DecidableEq

/-- `close_all` awaits a `disconnect` at a place of a pool that it reached at an
entry of the dictionary, or the monitoring tasks; `size` is how many entries there
were. -/
inductive Closing where
  | idle
  | walking (size entry : Nat) (exchange : PyStr) (pool member connection : Nat)
  | cancelling
  | returned
  | raised
  deriving DecidableEq

/-- A subscription from its registration until its id is unsubscribed. -/
structure Live where
  call : Nat
  connection : Nat
  subscription : Subscription

/-- `WebSocketManager` with all connections it ever created and the calls in
progress; `live` and `log` are records of the run, and `before` is the number of
calls that began before `close_all`. -/
structure World where
  _pools : Dict PyStr Exchange
  pools : Nat → Pool
  nextPool : Nat
  connections : Nat → Option WebSocketConnection
  nextConnection : Nat
  _roundRobin : PyStr → Nat
  calls : Nat → Option Call
  nextCall : Nat
  closing : Closing
  before : Nat
  live : List Live
  log : List (Nat × Outcome)

def init : World where
  _pools := .empty
  pools _ := ⟨[], false, []⟩
  nextPool := 0
  connections _ := none
  nextConnection := 0
  _roundRobin _ := 0
  calls _ := none
  nextCall := 0
  closing := .idle
  before := 0
  live := []
  log := []

/-- What an await of a call comes to. -/
inductive Reply where
  | done
  | lost (detail : PyStr)
  | raised (exc : PyExc)

def Reply.result : Reply → WebSocketTasks.Result
  | .done => .done
  | .lost _ => .lost
  | .raised _ => .raised

/-- A call is made or goes on at the time `now`, `close_all` does, or task `task` of a
connection. -/
inductive Label where
  | addExchange (config : WebSocketConfig)
  | call (exchange : PyStr) (request : Request) (now : Rat)
  | resume (call : Nat) (reply : Reply) (now : Rat)
  | closeAll
  | resumeCloseAll (reply : Reply)
  | connection (connection task : Nat) (result : WebSocketTasks.Result)

/-- A return of `get_connection`. -/
structure Got where
  call : Nat
  exchange : PyStr
  purpose : Purpose
  connection : Nat
  now : Rat

/-! ## The errors -/

def notConfigured (exchange : PyStr) : PyExc :=
  ⟨.valueError, "Exchange " ++ exchange ++ " not configured"⟩

def keyError (exchange : PyStr) : PyExc := ⟨.other "KeyError", exchange⟩

def zeroDivisionError : PyExc := ⟨.other "ZeroDivisionError", "integer modulo by zero"⟩

def rateLimitError (exchange topic : PyStr) : PyExc :=
  ⟨.other "RateLimitError",
    exchange ++ " rate limit exceeded: Subscription limit exceeded for " ++ topic⟩

def webSocketError (exchange detail : PyStr) : PyExc :=
  ⟨.other "WebSocketError",
    exchange ++ " WebSocket error" ++ if detail = [] then [] else u ": " ++ detail⟩

/-- What `except (OSError, WebSocketException)` makes of a reply that is not a result. -/
def Reply.error (exchange : PyStr) : Reply → Option PyExc
  | .done => none
  | .lost detail => some (webSocketError exchange detail)
  | .raised exc => some exc

/-! ## One connection -/

namespace WebSocketConnection

def create (config : WebSocketConfig) : WebSocketConnection where
  config := config
  state := WebSocketTasks.init config.maxReconnectAttempts
  _subscriptions := .empty
  _subscriptionCount _ := 0

/-- A step of `connect`, `disconnect` or a task. -/
def act (conn : WebSocketConnection) (l : WebSocketTasks.Label) : WebSocketConnection :=
  { conn with state := WebSocketTasks.step conn.state l }

def connected (conn : WebSocketConnection) : Bool := conn.state._connected
def running (conn : WebSocketConnection) : Bool := conn.state._running
def subscriptionCount (conn : WebSocketConnection) : Nat := conn._subscriptions.length

def hasSubscription (conn : WebSocketConnection) (subscriptionId : PyStr) : Bool :=
  (conn._subscriptions.get subscriptionId).isSome

/-- The check at the head of `subscribe`. -/
def exceeded (conn : WebSocketConnection) (topic : PyStr) : Bool :=
  decide ((conn.config.subscriptionLimits.get topic).getD 100 ≤ conn._subscriptionCount topic)

/-- `subscribe` after the check and before the send. -/
def subscribe (conn : WebSocketConnection) (s : Subscription) : WebSocketConnection :=
  { conn with
    _subscriptions := conn._subscriptions.set s.id s
    _subscriptionCount :=
      Function.update conn._subscriptionCount s.topic (conn._subscriptionCount s.topic + 1) }

/-- `unsubscribe` of an id that is there, before the send. -/
def unsubscribe (conn : WebSocketConnection) (s : Subscription) (subscriptionId : PyStr) :
    WebSocketConnection :=
  { conn with
    _subscriptions := conn._subscriptions.pop subscriptionId
    _subscriptionCount :=
      Function.update conn._subscriptionCount s.topic (conn._subscriptionCount s.topic - 1) }

/-- The check at the head of `_send_message`. -/
def sendable (conn : WebSocketConnection) : Bool :=
  conn.state._connected && conn.state._websocket.isSome

end WebSocketConnection

/-- `f"{exchange_name}_{topic}_{symbol}_{int(time.time())}"` -/
def subscriptionId (exchange topic symbol : PyStr) (now : Rat) : PyStr :=
  exchange ++ "_" ++ topic ++ "_" ++ symbol ++ "_" ++ intText (now.num.tdiv now.den)

namespace World

variable (w : World)

/-! ## The calls -/

def stand (c : Nat) (call : Call) : World := { w with calls := Function.update w.calls c (some call) }

def endCall (c : Nat) (outcome : Outcome) : World :=
  { w with calls := Function.update w.calls c none, log := w.log ++ [(c, outcome)] }

def raise (c : Nat) (exc : PyExc) : World := w.endCall c (.raised exc)

def setPool (p : Nat) (pool : Pool) : World := { w with pools := Function.update w.pools p pool }

def setConnection (i : Nat) (conn : WebSocketConnection) : World :=
  { w with connections := Function.update w.connections i (some conn) }

/-- The end of `async with` on the lock of pool `p`. -/
def release (p : Nat) : World := w.setPool p { w.pools p with locked := false }

/-- The first connection of the pool that is up and has fewer than 50 subscriptions. -/
def available (members : List Nat) : Option Nat :=
  members.find? fun i => (w.connections i).any fun conn =>
    conn.connected && decide (conn.subscriptionCount < 50)

/-- A new connection, and its `connect` up to the first await. -/
def dial (c : Nat) (exchange : PyStr) (purpose : Purpose) (lock : Nat) (entry : Exchange) : World :=
  { w.setConnection w.nextConnection ((WebSocketConnection.create entry.config).act (.connect 0)) with
    nextConnection := w.nextConnection + 1 }.stand c
    (.dialing exchange purpose lock entry.pool w.nextConnection)

/-- `get_connection` with the lock; it ends with a connection, or it waits or raises. -/
def getLocked (c : Nat) (exchange : PyStr) (purpose : Purpose) (lock : Nat) (now : Rat) :
    World × Option Got :=
  match w._pools.get exchange with
  | none => ((w.release lock).raise c (keyError exchange), none)
  | some entry =>
    let members := (w.pools entry.pool).members
    match w.available members with
    | some i => (w.release lock, some ⟨c, exchange, purpose, i, now⟩)
    | none =>
      if members.length < entry.config.maxConnections then
        (w.dial c exchange purpose lock entry, none)
      else match members[w._roundRobin exchange % members.length]? with
        | none => ((w.release lock).raise c zeroDivisionError, none)
        | some i =>
          let turned := { w with
            _roundRobin := Function.update w._roundRobin exchange (w._roundRobin exchange + 1) }
          (turned.release lock, some ⟨c, exchange, purpose, i, now⟩)

/-- `connect` of the new connection comes back. -/
def dialed (c : Nat) (exchange : PyStr) (purpose : Purpose) (lock p i : Nat) (reply : Reply) (now : Rat) :
    World × Option Got :=
  match w.connections i with
  | none => (w, none)
  | some conn =>
    let tried := w.setConnection i (conn.act (.resumeCall 0 reply.result))
    match reply.error conn.config.exchangeName with
    | some exc => ((tried.release lock).raise c exc, none)
    | none =>
      let pool := tried.pools p
      ((tried.setPool p { pool with members := pool.members ++ [i] }).release lock,
        some ⟨c, exchange, purpose, i, now⟩)

/-- `unsubscribe` with the lock, up to the send or, where no connection has the id,
to the event bus. -/
def unsubscribeLocked (c : Nat) (exchange subscriptionId : PyStr) (lock : Nat) : World :=
  match w._pools.get exchange with
  | none => (w.release lock).raise c (keyError exchange)
  | some entry =>
    match (w.pools entry.pool).members.find? fun i =>
        (w.connections i).any (·.hasSubscription subscriptionId) with
    | none => (w.release lock).stand c .unpublishing
    | some i => match w.connections i with
      | none => w
      | some conn => match conn._subscriptions.get subscriptionId with
        | none => w
        | some s =>
          let popped := { w.setConnection i (conn.unsubscribe s subscriptionId) with
            live := w.live.filter fun e => ¬ (e.connection = i ∧ e.subscription.id = subscriptionId) }
          if conn.sendable then popped.stand c (.unsending conn.config.exchangeName lock)
          else (popped.release lock).raise c (webSocketError conn.config.exchangeName "Not connected")

/-- What a call that has taken the lock does. -/
def enter (c : Nat) (exchange : PyStr) (request : Request) (lock : Nat) (now : Rat) : World × Option Got :=
  match request with
  | .get purpose => w.getLocked c exchange purpose lock now
  | .unsubscribe subscriptionId => (w.unsubscribeLocked c exchange subscriptionId lock, none)

/-- A call begins; it takes the lock if that is free and nobody waits for it. -/
def begin (exchange : PyStr) (request : Request) (now : Rat) : World × Option Got :=
  let c := w.nextCall
  let begun := { w with nextCall := c + 1 }
  match w._pools.get exchange with
  | none => (begun.raise c (notConfigured exchange), none)
  | some entry =>
    let pool := w.pools entry.pool
    if pool.locked || !pool.waiters.isEmpty then
      ((begun.setPool entry.pool { pool with waiters := pool.waiters ++ [c] }).stand c
        (.locking exchange request entry.pool), none)
    else (begun.setPool entry.pool { pool with locked := true }).enter c exchange request entry.pool now

/-- A call goes on from where it stands. -/
def resume (c : Nat) (call : Call) (reply : Reply) (now : Rat) : World × Option Got :=
  match call with
  | .locking exchange request lock =>
    let pool := w.pools lock
    if !pool.locked && pool.waiters.head? == some c then
      (w.setPool lock { pool with locked := true, waiters := pool.waiters.tail }).enter c exchange request
        lock now
    else (w, none)
  | .dialing exchange purpose lock pool i => w.dialed c exchange purpose lock pool i reply now
  | .sending exchange subscriptionId => match reply.error exchange with
    | some exc => (w.raise c exc, none)
    | none => (w.stand c (.publishing subscriptionId), none)
  | .publishing subscriptionId => match reply with
    | .done => (w.endCall c (.subscribed subscriptionId), none)
    | .lost detail => (w.raise c ⟨.osError, detail⟩, none)
    | .raised exc => (w.raise c exc, none)
  | .unsending exchange lock => match reply.error exchange with
    | some exc => ((w.release lock).raise c exc, none)
    | none => ((w.release lock).stand c .unpublishing, none)
  | .unpublishing => match reply with
    | .done => (w.endCall c .unsubscribed, none)
    | .lost detail => (w.raise c ⟨.osError, detail⟩, none)
    | .raised exc => (w.raise c exc, none)

/-- What follows the return of `get_connection`: the end of the call, or the rest
of `subscribe` up to the send. -/
def proceed (g : Got) : World :=
  match g.purpose with
  | .connection => w.endCall g.call (.connection g.connection)
  | .subscription topic symbol params callback => match w.connections g.connection with
    | none => w
    | some conn =>
      if conn.exceeded topic then w.raise g.call (rateLimitError conn.config.exchangeName topic)
      else
        let s : Subscription := ⟨subscriptionId g.exchange topic symbol g.now, topic, symbol,
          params, some callback⟩
        let registered := { w.setConnection g.connection (conn.subscribe s) with
          live := w.live ++ [Live.mk g.call g.connection s] }
        if conn.sendable then registered.stand g.call (.sending conn.config.exchangeName s.id)
        else registered.raise g.call (webSocketError conn.config.exchangeName "Not connected")

/-! ## `add_exchange` and `close_all` -/

def addExchange (config : WebSocketConfig) : World :=
  { w with
    _pools := w._pools.set config.exchangeName ⟨config, w.nextPool⟩
    pools := Function.update w.pools w.nextPool ⟨[], false, []⟩
    nextPool := w.nextPool + 1 }

/-- What a `disconnect` that was called or resumed has come to. -/
inductive Progress where
  | ended | waits | raised

/-- `close_all` calls `disconnect` of connection `i`, which is call `d` there, or that goes on. -/
def disconnect (i d : Nat) (l : WebSocketTasks.Label) : World × Progress :=
  match w.connections i with
  | none => (w, .ended)
  | some conn =>
    let next := conn.act l
    (w.setConnection i next,
      if conn.state.raises d then .raised else if next.state.calls d = none then .ended else .waits)

/-- The connections of a pool from place `m` on; the result tells whether the loop has
come to its end. -/
def closeMembers (d size k : Nat) (exchange : PyStr) (p : Nat) : Nat → List Nat → World → World × Bool
  | _, [], w => (w, true)
  | m, i :: rest, w => match w.disconnect i d (.disconnect d) with
    | (next, .ended) => closeMembers d size k exchange p (m + 1) rest next
    | (next, .waits) => ({ next with closing := .walking size k exchange p m i }, false)
    | (next, .raised) => ({ next with closing := .raised }, false)

/-- `pool.clear()` and the round robin. -/
def clear (exchange : PyStr) (p : Nat) : World :=
  { w.setPool p { w.pools p with members := [] } with
    _roundRobin := Function.update w._roundRobin exchange 0 }

/-- The pools from entry `k` on, and then the monitoring tasks. -/
def closePools (d size : Nat) : Nat → List (PyStr × Exchange) → World → World
  | _, [], w => { w with closing := .cancelling }
  | k, (exchange, entry) :: rest, w =>
    match closeMembers d size k exchange entry.pool 0 (w.pools entry.pool).members w with
    | (next, true) => closePools d size (k + 1) rest (next.clear exchange entry.pool)
    | (next, false) => next

def closeAll (d : Nat) : World :=
  closePools d w._pools.length 0 w._pools.items { w with before := w.nextCall }

/-- `close_all` goes on; a dictionary that has changed size cannot be iterated on. -/
def resumeCloseAll (d : Nat) (reply : Reply) : World :=
  match w.closing with
  | .walking size k exchange p m i => match w.disconnect i d (.resumeCall d reply.result) with
    | (next, .waits) => next
    | (next, .raised) => { next with closing := .raised }
    | (next, .ended) =>
      match closeMembers d size k exchange p (m + 1) ((next.pools p).members.drop (m + 1)) next with
      | (next, false) => next
      | (next, true) =>
        if next._pools.length = size then
          closePools d size (k + 1) (next._pools.items.drop (k + 1)) (next.clear exchange p)
        else { next.clear exchange p with closing := .raised }
  | .cancelling => { w with closing := .returned }
  | _ => w

end World

/-- A step up to the return of `get_connection`, if it comes to that. -/
def advance (w : World) : Label → World × Option Got
  | .addExchange config => (w.addExchange config, none)
  | .call exchange request now => w.begin exchange request now
  | .resume c reply now => match w.calls c with
    | none => (w, none)
    | some call => w.resume c call reply now
  | .closeAll => match w.closing with
    | .idle => (w.closeAll 1, none)
    | _ => (w, none)
  | .resumeCloseAll reply => (w.resumeCloseAll 1 reply, none)
  | .connection i task result => match w.connections i with
    | none => (w, none)
    | some conn =>
      (w.setConnection i (conn.act (.resume task result conn.subscriptionCount)), none)

def step (w : World) (l : Label) : World :=
  match advance w l with
  | (next, none) => next
  | (next, some got) => next.proceed got

/-! ## `close_all` called again -/

/-- A manager whose `close_all` is called again, also while a call of it is in
progress: further call `n` stands at `closings n`, and the `disconnect` that it
awaits is call `n + 2` of the connection. -/
structure Manager where
  world : World
  closings : Nat → Closing
  nextClosing : Nat

namespace Manager

def init : Manager where
  world := WebSocketManagers.init
  closings _ := .idle
  nextClosing := 0

/-- A step of the manager with its first `close_all`, or a further one is called or
goes on. -/
inductive Act where
  | own (l : Label)
  | closeAgain
  | resumeAgain (call : Nat) (reply : Reply)

/-- Further call `n` does a part of `close_all`. -/
def closes (m : Manager) (n : Nat) (part : World → World) : Manager :=
  let next := part { m.world with closing := m.closings n }
  { m with
    world := { next with closing := m.world.closing, before := m.world.before }
    closings := Function.update m.closings n next.closing }

def step (m : Manager) : Act → Manager
  | .own l => { m with world := WebSocketManagers.step m.world l }
  | .closeAgain =>
    { m.closes m.nextClosing fun w => w.closeAll (m.nextClosing + 2) with nextClosing := m.nextClosing + 1 }
  | .resumeAgain n reply => m.closes n fun w => w.resumeCloseAll (n + 2) reply

end Manager

/-! ## The parts of `close_all` -/

/-- What every part of `close_all` may make of a world, with what comes after it. -/
structure ClosingSteps (d : Nat) (R : World → World → Prop) : Prop where
  refl : ∀ w, R w w
  trans : ∀ w w' w'', R w w' → R w' w'' → R w w''
  before : ∀ w, R w { w with before := w.nextCall }
  called : ∀ w i, R w (w.disconnect i d (.disconnect d)).1
  resumed : ∀ w i result, R w (w.disconnect i d (.resumeCall d result)).1
  closing : ∀ w closing, R w { w with closing := closing }
  clear : ∀ w exchange p, R w (w.clear exchange p)

section

variable {d : Nat} {R : World → World → Prop}

theorem ClosingSteps.closeMembers (h : ClosingSteps d R) (size k : Nat) (exchange : PyStr) (p : Nat) (rest : List Nat) :
    ∀ m w, R w (World.closeMembers d size k exchange p m rest w).1 := by
  induction rest with
  | nil => exact fun m w => h.refl w
  | cons i rest ih =>
    intro m w
    have hd := h.called w i
    unfold World.closeMembers
    split
    · next next heq =>
      rw [heq] at hd
      exact h.trans _ _ _ hd (ih (m + 1) next)
    · next next heq =>
      rw [heq] at hd
      exact h.trans _ _ _ hd (h.closing next _)
    · next next heq =>
      rw [heq] at hd
      exact h.trans _ _ _ hd (h.closing next _)

theorem ClosingSteps.closePools (h : ClosingSteps d R) (size : Nat) (rest : List (PyStr × Exchange)) :
    ∀ k w, R w (World.closePools d size k rest w) := by
  induction rest with
  | nil => exact fun k w => h.closing w _
  | cons e rest ih =>
    intro k w
    obtain ⟨exchange, e⟩ := e
    have hm := h.closeMembers size k exchange e.pool (w.pools e.pool).members 0 w
    unfold World.closePools
    split
    · next next heq =>
      rw [heq] at hm
      exact h.trans _ _ _ (h.trans _ _ _ hm (h.clear next exchange e.pool)) (ih (k + 1) _)
    · next next heq =>
      rw [heq] at hm
      exact hm

theorem ClosingSteps.closeAll (h : ClosingSteps d R) (w : World) : R w (w.closeAll d) :=
  h.trans _ _ _ (h.before w) (h.closePools _ _ 0 _)

theorem ClosingSteps.resumeCloseAll (h : ClosingSteps d R) (w : World) (reply : Reply) :
    R w (w.resumeCloseAll d reply) := by
  unfold World.resumeCloseAll
  split
  · next size k exchange p m i _ =>
    have hd := h.resumed w i reply.result
    split
    · next next heq =>
      rw [heq] at hd
      exact hd
    · next next heq =>
      rw [heq] at hd
      exact h.trans _ _ _ hd (h.closing next _)
    · next next heq =>
      rw [heq] at hd
      have hm := h.trans _ _ _ hd (h.closeMembers size k exchange p ((next.pools p).members.drop (m + 1)) (m + 1) next)
      split
      · next last hlast =>
        rw [hlast] at hm
        exact hm
      · next last hlast =>
        rw [hlast] at hm
        have hcleared := h.trans _ _ _ hm (h.clear last exchange p)
        split
        · exact h.trans _ _ _ hcleared (h.closePools size _ (k + 1) _)
        · exact h.trans _ _ _ hcleared (h.closing _ _)
  · exact h.closing w _
  · exact h.refl w

end

end WebSocketManagers
