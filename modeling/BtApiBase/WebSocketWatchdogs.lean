import BtApiBase.WebSocketApps
import BtApiBase.Runs

/-!
# The socket thread and its watchdogs

One thread runs `run()` and, inside `run_forever`, the callbacks; two watchdog threads
look at the attributes between any two of its steps. A watchdog takes a snapshot,
compares the clock, looks again under the lock, emits its event and closes the socket
of the snapshot. The library calls `on_close` for an opened socket before `run()`
installs the next one.
-/

namespace WebSocketWatchdogs

open WebSocketApps Runs

inductive Kind where
  | readiness | messageIdle
  deriving DecidableEq, Repr

/-- What a watchdog remembers from its first look; `since` is the deadline, or the time
of the last message. -/
structure Snapshot where
  since : Rat
  ws : Nat
  generation : Nat
  deriving DecidableEq, Repr

section

variable (a : App) (s : Snapshot)

/-- The first look of `_readiness_watchdog`, and the tests on it. -/
def readinessSnapshot : Option Snapshot :=
  if a._awaitingReady then
    a._readinessDeadline.bind fun deadline => a._readinessWs.map fun ws => ⟨deadline, ws, a._readinessGeneration⟩
  else none

/-- The first look of `_message_idle_watchdog`, and the tests on it. -/
def idleSnapshot : Option Snapshot :=
  if a._runningFlag || a._awaitingReady then
    a._lastMessageAt.bind fun last => a.ws.map fun ws => ⟨last, ws, a._connectionGeneration⟩
  else none

/-- The second look of `_readiness_watchdog` finds what the first has found. -/
def readinessHolds : Bool :=
  a._awaitingReady && a._readinessDeadline == some s.since && a._readinessGeneration == s.generation &&
    a._readinessWs == some s.ws && a.ws == some s.ws

/-- The second look of `_message_idle_watchdog` finds what the first has found. -/
def idleHolds : Bool :=
  !a._idleCloseRequested && a.ws == some s.ws && a._connectionGeneration == s.generation &&
    a._lastMessageAt == some s.since

def readinessGiveUp : App := { a with
  _awaitingReady := false
  _runningFlag := false
  _readinessDeadline := none }

def idleGiveUp : App := { a with
  _idleCloseRequested := true
  _runningFlag := false
  _awaitingReady := false
  _readinessDeadline := none }

end

def timeout (cfg : Config) : Kind → Rat
  | .readiness => cfg.readinessTimeout
  | .messageIdle => cfg.messageIdleTimeout

def snapshot : Kind → App → Option Snapshot
  | .readiness => readinessSnapshot
  | .messageIdle => idleSnapshot

def overdue (cfg : Config) (now : Rat) (s : Snapshot) : Kind → Bool
  | .readiness => s.since < now
  | .messageIdle => cfg.messageIdleTimeout < now - s.since

def holds : Kind → App → Snapshot → Bool
  | .readiness => readinessHolds
  | .messageIdle => idleHolds

def giveUp : Kind → App → App
  | .readiness => readinessGiveUp
  | .messageIdle => idleGiveUp

/-- The watchdog `kind` gives the socket up; beside what it knows, what was so then. -/
structure Decision where
  kind : Kind
  ws : Nat
  generation : Nat
  time : Rat
  awaiting : Bool
  /-- When the socket had received its messages. -/
  received : List Rat
  deriving DecidableEq, Repr

/-- In the wait, after it, after the first look, after the clock, after the second look,
after the event. -/
inductive Watchdog where
  | asleep
  | awake
  | looked (s : Snapshot)
  | overdue (s : Snapshot)
  | decided (d : Decision)
  | emitted (d : Decision)
  deriving DecidableEq, Repr

inductive Callback where
  | openRsp | messageRsp
  deriving DecidableEq, Repr

/-- Where `run()` is. In `run_forever` of an open socket, a callback that has not returned
and what is to be done before it goes on. -/
inductive Place where
  | between
  | installed (ws : Nat)
  | running (ws : Nat) (callback : Option Callback) (todo : List Action)
  | closing (todo : List Action)
  deriving DecidableEq, Repr

structure Opening where
  generation : Nat
  ws : Nat
  openedAt : Rat
  deriving DecidableEq, Repr

inductive Entry where
  /-- An event of the callbacks, with its `connection_generation`. -/
  | app (event : Event) (generation : Nat)
  /-- `ws.readiness_timeout` or `ws.message_idle`. -/
  | timedOut (d : Decision)
  | closed (d : Decision)
  deriving DecidableEq, Repr

structure World where
  app : App
  now : Rat := 0
  place : Place := .between
  watchdogs : Kind → Watchdog := fun _ => .asleep
  openings : List Opening := []
  /-- When the open socket has received its messages. -/
  received : List Rat := []
  log : List Entry := []

/-- What `open_rsp` and `message_rsp` may call. -/
inductive Call where
  | begin | endBatch | subscribe (sent : Bool) | acknowledged
  deriving DecidableEq, Repr

def Call.actions : Call → List Action
  | .begin => [.beginBatch]
  | .endBatch => [.endBatch]
  | .subscribe sent => WebSocketApps.subscribe sent
  | .acknowledged => subscriptionAcknowledged

inductive Label where
  | tick (reading : Rat)
  | install (ws : Nat)
  /-- `run_forever` returns without having opened the socket. -/
  | fail
  | onOpen
  | onMessage
  | onClose
  | call (call : Call)
  /-- `open_rsp` or `message_rsp` returns; `ready` unless it is `False`. -/
  | returns (ready : Bool)
  | raises (fatal : Bool)
  | act
  | finish
  | watch (kind : Kind)
  deriving DecidableEq, Repr

variable (cfg : Config) (w : World)

def openings (a : App) : Action → List Opening
  | .open ws openedAt => [⟨a._connectionGeneration, ws, openedAt⟩]
  | _ => []

def received : Action → List Rat
  | .open _ _ => []
  | .touch => w.received ++ [w.now]
  | _ => w.received

def perform (x : Action) (place : List Action → Place) : World :=
  let e := exec cfg w.now w.app x
  { w with
    app := e.app
    place := place e.todo
    openings := w.openings ++ openings w.app x
    received := received w x
    log := w.log ++ e.log.map fun event => .app event w.app._connectionGeneration }

def act : World :=
  match w.place with
  | .running ws callback (x :: rest) => perform cfg w x fun todo => .running ws callback (todo ++ rest)
  | .closing (x :: rest) => perform cfg w x fun todo => .closing (todo ++ rest)
  | .closing [] => { w with place := .between }
  | _ => w

def setWatchdog (kind : Kind) (d : Watchdog) : World :=
  { w with watchdogs := Function.update w.watchdogs kind d }

def decision (kind : Kind) (s : Snapshot) : Decision :=
  ⟨kind, s.ws, s.generation, w.now, w.app._awaitingReady, w.received⟩

def watch (kind : Kind) : World :=
  match w.watchdogs kind with
  | .asleep => if 0 < timeout cfg kind ∧ w.app._stopEvent = false then setWatchdog w kind .awake else w
  | .awake =>
    match snapshot kind w.app with
    | some s => setWatchdog w kind (.looked s)
    | none => setWatchdog w kind .asleep
  | .looked s => setWatchdog w kind (if overdue cfg w.now s kind then .overdue s else .asleep)
  | .overdue s =>
    if holds kind w.app s then
      { setWatchdog w kind (.decided (decision w kind s)) with app := giveUp kind w.app }
    else setWatchdog w kind .asleep
  | .decided d => { setWatchdog w kind (.emitted d) with log := w.log ++ [.timedOut d] }
  | .emitted d => { setWatchdog w kind .asleep with log := w.log ++ [.closed d] }

def install (ws : Nat) : World :=
  if w.place = .between ∧ w.app._stopEvent = false then
    { w with app := { w.app with ws := some ws }, place := .installed ws }
  else w

/-- `run()` ends. -/
def finish : World :=
  if w.place = .between then { w with app := { w.app with _runningFlag := false, _stopEvent := true } } else w

def callOnOpen : World :=
  match w.place with
  | .installed ws => { w with place := .running ws (some .openRsp) (onOpen ws) }
  | _ => w

def callOnMessage : World :=
  match w.place with
  | .running ws none [] => { w with place := .running ws (some .messageRsp) onMessage }
  | _ => w

/-- The library may call `on_close` for a socket that it could not open. -/
def callOnClose : World :=
  match w.place with
  | .installed _ => { w with place := .closing onClose }
  | .running _ none [] => { w with place := .closing onClose }
  | _ => w

def call (c : Call) : World :=
  match w.place with
  | .running ws (some callback) [] => { w with place := .running ws (some callback) c.actions }
  | _ => w

def Callback.afterReturn (ready : Bool) : Callback → List Action
  | .openRsp => afterOpenRsp ready
  | .messageRsp => []

def Callback.afterRaise (fatal : Bool) : Callback → List Action
  | .openRsp => openFailed fatal
  | .messageRsp => messageFailed fatal

def returns (ready : Bool) : World :=
  match w.place with
  | .running ws (some callback) [] => { w with place := .running ws none (callback.afterReturn ready) }
  | _ => w

def raises (fatal : Bool) : World :=
  match w.place with
  | .running ws (some callback) [] => { w with place := .running ws none (callback.afterRaise fatal) }
  | _ => w

def fail : World :=
  match w.place with
  | .installed _ => { w with place := .between }
  | _ => w

def step : Label → World
  | .tick reading => { w with now := max w.now reading }
  | .install ws => install w ws
  | .fail => fail w
  | .onOpen => callOnOpen w
  | .onMessage => callOnMessage w
  | .onClose => callOnClose w
  | .call c => call w c
  | .returns ready => returns w ready
  | .raises fatal => raises w fatal
  | .act => act cfg w
  | .finish => finish w
  | .watch kind => watch cfg w kind

/-- The threads start; whatever an earlier worker has left, its last `on_close` has reset
the rest. -/
def init (a : App) : World where
  app := { a.closeBatch with _lastMessageAt := none, _runningFlag := false, _stopEvent := false }

end WebSocketWatchdogs
