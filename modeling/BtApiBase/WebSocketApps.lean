import Mathlib.Data.Rat.Floor

/-!
# The streaming socket

`MyWebsocketApp` keeps one socket open and counts its generations. Its callbacks and
its watchdogs share plain attributes, some behind a lock and some not; an action is a
block that holds the lock, or a single assignment, or the emission of an event. What a
call still has to do is a list of actions, and an action can put others in front of it.
-/

namespace WebSocketApps

structure Config where
  readinessTimeout : Rat
  messageIdleTimeout : Rat
  reconnectBaseDelay : Rat
  readiness_nonneg : 0 ≤ readinessTimeout
  idle_nonneg : 0 ≤ messageIdleTimeout

/-- A socket is known by a number. -/
structure App where
  ws : Option Nat := none
  _connectionGeneration : Nat := 0
  _runningFlag : Bool := false
  _stopEvent : Bool := false
  _lastMessageAt : Option Rat := none
  _awaitingReady : Bool := false
  _trackingSubscriptionBatch : Bool := false
  _pendingSubscriptionAcks : Nat := 0
  _subscriptionBatchSendCount : Nat := 0
  _idleCloseRequested : Bool := false
  _readinessDeadline : Option Rat := none
  _readinessGeneration : Nat := 0
  _readinessWs : Option Nat := none
  _reconnectAttempt : Nat := 0
  _currentDelay : Rat := 0
  deriving DecidableEq, Repr

inductive Event where
  /-- `_running_flag` is set to `True`. -/
  | flagged
  | connected
  | subscriptionPending (pending : Nat)
  | subscriptionError (fatal : Bool)
  | messageError
  | disconnected
  | closed (ws : Option Nat)
  deriving DecidableEq, Repr

inductive Action where
  | countGeneration
  | readClock (ws : Nat)
  | open (ws : Nat) (openedAt : Rat)
  | beginBatch
  | endBatch
  | countSubscription (sent : Bool)
  | send (failed : Bool)
  | rollBack
  | acknowledge
  | markReady
  | resetAttempt
  | resetDelay
  | touch
  | clearRunning
  | clearReadiness
  | setStop
  | closeBatch
  | forgetMessage
  | emit (event : Event)
  | emitPending
  | closeSocket
  deriving DecidableEq, Repr

section

variable (a : App)

/-- The locked block of `on_open`. -/
def App.open (cfg : Config) (ws : Nat) (openedAt : Rat) : App := { a with
  _lastMessageAt := some openedAt
  _awaitingReady := true
  _idleCloseRequested := false
  _readinessGeneration := a._connectionGeneration
  _readinessWs := some ws
  _readinessDeadline := if 0 < cfg.readinessTimeout then some (openedAt + cfg.readinessTimeout) else none }

/-- `_begin_subscription_batch` -/
def App.beginBatch : App := { a with
  _awaitingReady := true
  _trackingSubscriptionBatch := true
  _pendingSubscriptionAcks := 0
  _subscriptionBatchSendCount := 0 }

/-- `_end_subscription_batch`; it returns `batchAcknowledged` then. -/
def App.endBatch : App := { a with _trackingSubscriptionBatch := false }

def App.batchAcknowledged : Bool := a._pendingSubscriptionAcks == 0

/-- The first locked block of `subscribe`; the subscription is tracked if a batch is. -/
def App.countSubscription : App :=
  if a._trackingSubscriptionBatch then { a with
    _pendingSubscriptionAcks := a._pendingSubscriptionAcks + 1
    _subscriptionBatchSendCount := a._subscriptionBatchSendCount + 1 }
  else a

/-- The locked block of the handler in `subscribe`. -/
def App.rollBack : App := { a with
  _pendingSubscriptionAcks := a._pendingSubscriptionAcks - 1
  _subscriptionBatchSendCount := a._subscriptionBatchSendCount - 1 }

/-- The locked block of `_subscription_acknowledged`. -/
def App.acknowledge : App := { a with _pendingSubscriptionAcks := a._pendingSubscriptionAcks - 1 }

/-- The acknowledgement is the last one that the socket waits for. -/
def App.lastAcknowledgement : Bool := a._pendingSubscriptionAcks == 1 && !a._trackingSubscriptionBatch

/-- The locked block of `_mark_ready`. -/
def App.markReady (now : Rat) : App := { a with
  _awaitingReady := false
  _idleCloseRequested := false
  _readinessDeadline := none
  _lastMessageAt := some now
  _runningFlag := true }

def App.alreadyReady : Bool := a._runningFlag && !a._awaitingReady

/-- The locked block of `on_close`. -/
def App.closeBatch : App := { a with
  _awaitingReady := false
  _trackingSubscriptionBatch := false
  _pendingSubscriptionAcks := 0
  _subscriptionBatchSendCount := 0
  _idleCloseRequested := false
  _readinessDeadline := none }

/-- The locked block of an exception that a callback handles. -/
def App.clearReadiness : App := { a with _awaitingReady := false, _readinessDeadline := none }

end

/-- What an action makes of the application, what it puts before the rest of the call,
and what it lets others see. -/
structure Effect where
  app : App
  todo : List Action := []
  log : List Event := []

def exec (cfg : Config) (now : Rat) (a : App) : Action → Effect
  | .countGeneration => { app := { a with _connectionGeneration := a._connectionGeneration + 1 } }
  | .readClock ws => { app := a, todo := [.open ws now] }
  | .open ws openedAt => { app := a.open cfg ws openedAt }
  | .beginBatch => { app := a.beginBatch }
  | .endBatch => { app := a.endBatch }
  | .countSubscription sent =>
    { app := a.countSubscription, todo := [.send (a._trackingSubscriptionBatch && !sent)] }
  | .send failed => { app := a, todo := if failed then [.rollBack] else [] }
  | .rollBack => { app := a.rollBack }
  | .acknowledge =>
    { app := a.acknowledge, todo := if a.lastAcknowledgement then [.markReady] else [] }
  | .markReady => {
      app := a.markReady now
      todo := [.resetAttempt, .resetDelay] ++ if a.alreadyReady then [] else [.emit .connected]
      log := [.flagged] }
  | .resetAttempt => { app := { a with _reconnectAttempt := 0 } }
  | .resetDelay => { app := { a with _currentDelay := cfg.reconnectBaseDelay } }
  | .touch => { app := { a with _lastMessageAt := some now } }
  | .clearRunning => { app := { a with _runningFlag := false } }
  | .clearReadiness => { app := a.clearReadiness }
  | .setStop => { app := { a with _stopEvent := true } }
  | .closeBatch => { app := a.closeBatch }
  | .forgetMessage => { app := { a with _lastMessageAt := none } }
  | .emit event => { app := a, log := [event] }
  | .emitPending => { app := a, log := [.subscriptionPending a._pendingSubscriptionAcks] }
  | .closeSocket => { app := a, log := [.closed a.ws] }

/-- The second action is to be done once the first one is. -/
inductive LeadsTo (now : Rat) (a : App) : Action → Action → Prop
  | opens (ws : Nat) : LeadsTo now a (.readClock ws) (.open ws now)
  | sends (sent : Bool) :
    LeadsTo now a (.countSubscription sent) (.send (a._trackingSubscriptionBatch && !sent))
  | rollsBack : LeadsTo now a (.send true) .rollBack
  | marks : a.lastAcknowledgement = true → LeadsTo now a .acknowledge .markReady
  | resetsAttempt : LeadsTo now a .markReady .resetAttempt
  | resetsDelay : LeadsTo now a .markReady .resetDelay
  | connects : a.alreadyReady = false → LeadsTo now a .markReady (.emit .connected)

theorem leadsTo_of_mem {cfg : Config} {now : Rat} {a : App} {x y : Action} (hy : y ∈ (exec cfg now a x).todo) :
    LeadsTo now a x y := by
  cases x with
  | readClock ws =>
    obtain rfl : y = .open ws now := by simpa [exec] using hy
    exact .opens ws
  | countSubscription sent =>
    obtain rfl := List.mem_singleton.mp hy
    exact .sends sent
  | send failed =>
    cases failed with
    | false => simp [exec] at hy
    | true =>
      obtain rfl : y = .rollBack := by simpa [exec] using hy
      exact .rollsBack
  | acknowledge =>
    cases h : a.lastAcknowledgement with
    | false => simp [exec, h] at hy
    | true =>
      obtain rfl : y = .markReady := by simpa [exec, h] using hy
      exact .marks h
  | markReady =>
    rcases List.mem_append.mp hy with hy | hy
    · obtain rfl | rfl : y = .resetAttempt ∨ y = .resetDelay := by simpa using hy
      · exact .resetsAttempt
      · exact .resetsDelay
    · cases h : a.alreadyReady with
      | true => simp [h] at hy
      | false =>
        obtain rfl : y = .emit .connected := by simpa [h] using hy
        exact .connects h
  | _ => simp [exec] at hy

/-! ## The calls -/

/-- `on_open` up to `open_rsp`. -/
def onOpen (ws : Nat) : List Action := [.countGeneration, .readClock ws]

/-- `on_open` after `open_rsp` has returned. -/
def afterOpenRsp (ready : Bool) : List Action := if ready then [.markReady] else [.emitPending]

/-- `on_open` after `open_rsp` has raised, a `WebSocketSubscriptionError` if `fatal`. -/
def openFailed (fatal : Bool) : List Action :=
  [.clearRunning, .clearReadiness] ++ (if fatal then [.setStop] else []) ++
    [.emit (.subscriptionError fatal), .closeSocket]

/-- `on_message` up to `message_rsp`. -/
def onMessage : List Action := [.touch]

/-- `on_message` after `message_rsp` has raised. -/
def messageFailed (fatal : Bool) : List Action :=
  (if fatal then [.setStop, .emit (.subscriptionError true)] else [.emit .messageError]) ++
    [.clearRunning, .clearReadiness, .closeSocket]

def onClose : List Action := [.clearRunning, .closeBatch, .forgetMessage, .emit .disconnected]

/-- `subscribe`, whose `send` succeeds or raises. -/
def subscribe (sent : Bool) : List Action := [.countSubscription sent]

/-- `_subscription_acknowledged` -/
def subscriptionAcknowledged : List Action := [.acknowledge]

end WebSocketApps
