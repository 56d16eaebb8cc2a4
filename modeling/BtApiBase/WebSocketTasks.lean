import Mathlib.Logic.Function.Basic
import BtApiBase.Runs

/-!
# The tasks of one websocket connection

Between two awaits a task has the event loop to itself, so a step takes one task
from the await where it stands to its next one. The processing tasks run
`_process_messages`, and `_handle_disconnect` inside it; callers run `connect`
and `disconnect`. A `connect` that succeeds starts a processing task, also where
it is called by another one that reconnects.
-/

namespace WebSocketTasks

/-- The awaits of `connect`. -/
inductive Connecting where
  | closing | dialing
  deriving DecidableEq

/-- The awaits of `_handle_disconnect`; a task that restores subscriptions has
`left` of them to send after this one. -/
inductive Leaving where
  | closing
  | sleeping
  | connecting (place : Connecting)
  | restoring (left : Nat)
  | reclosing
  deriving DecidableEq

/-- Where a processing task stands: it has not run, or it waits for a frame of a
socket or for a callback, or handles a disconnect. One that spins never comes
to an await again. -/
inductive Point where
  | start
  | recv (socket : Nat)
  | handling
  | spinning
  | leaving (place : Leaving)
  deriving DecidableEq

/-- A task that was cancelled gets a `CancelledError` when it resumes. -/
structure Processing where
  point : Point
  cancelled : Bool
  deriving DecidableEq

/-- The task is inside `_handle_disconnect`. -/
def Processing.isLeaving : Processing → Bool
  | ⟨.leaving _, _⟩ => true
  | _ => false

/-- Where a caller of `connect` or `disconnect` stands. -/
inductive Call where
  | connecting (place : Connecting)
  | awaiting (task : Nat)
  | closing
  deriving DecidableEq

def Call.isDisconnect : Call → Bool
  | .connecting _ => false
  | .awaiting _ | .closing => true

/-- A `WebSocketConnection` with its tasks, the processing tasks that ended by an
exception, and the calls in progress. -/
structure World where
  maxReconnectAttempts : Nat
  _websocket : Option Nat
  _connected : Bool
  _running : Bool
  _processingTask : Option Nat
  _reconnectAttempts : Nat
  tasks : Nat → Option Processing
  crashed : Nat → Bool
  calls : Nat → Option Call
  nextTask : Nat
  nextSocket : Nat

def init (maxReconnectAttempts : Nat) : World where
  maxReconnectAttempts := maxReconnectAttempts
  _websocket := none
  _connected := false
  _running := false
  _processingTask := none
  _reconnectAttempts := 0
  tasks _ := none
  crashed _ := false
  calls _ := none
  nextTask := 0
  nextSocket := 0

/-- What an await comes to: its result, a callback to wait for, a closed
connection or network error, or another exception. -/
inductive Result where
  | done | waits | lost | raised
  deriving DecidableEq

/-- A caller calls, a task resumes, or a call in progress does; `subscriptions`
is how many there are to restore. -/
inductive Label where
  | connect (call : Nat)
  | disconnect (call : Nat)
  | resume (task : Nat) (result : Result) (subscriptions : Nat)
  | resumeCall (call : Nat) (result : Result)

namespace World

variable (w : World)

/-- Processing `i` goes to an await. -/
def wait (i : Nat) (point : Point) : World :=
  { w with tasks := Function.update w.tasks i (some ⟨point, false⟩) }

def endTask (i : Nat) : World := { w with tasks := Function.update w.tasks i none }

def crash (i : Nat) : World :=
  { w with tasks := Function.update w.tasks i none, crashed := Function.update w.crashed i true }

/-- The head of the loop of `_process_messages`. -/
def head (i : Nat) : World :=
  if w._running then
    match w._websocket with
    | some socket => w.wait i (.recv socket)
    | none => w.wait i .spinning
  else w.endTask i

/-- The head of the loop of `_handle_disconnect`, after which the task ends. -/
def retry (i : Nat) : World :=
  if w._running && decide (w._reconnectAttempts < w.maxReconnectAttempts) then
    { w with _reconnectAttempts := w._reconnectAttempts + 1 }.wait i (.leaving .sleeping)
  else { w with _running := false }.endTask i

/-- `_close_websocket` before the head of that loop; without a socket it has no
await. -/
def closeAndRetry (i : Nat) (place : Leaving) : World :=
  match w._websocket with
  | some _ => { w with _websocket := none }.wait i (.leaving place)
  | none => w.retry i

def _handleDisconnect (i : Nat) : World := { w with _connected := false }.closeAndRetry i .closing

/-- `except WebSocketError` in `_handle_disconnect`. -/
def failed (i : Nat) : World := { w with _connected := false }.closeAndRetry i .reclosing

/-- `_send_subscription` with `left` subscriptions after it. -/
def send (i left : Nat) : World :=
  if w._connected && w._websocket.isSome then w.wait i (.leaving (.restoring left))
  else w.failed i

/-- `_restore_subscriptions`, after which the task ends. -/
def _restoreSubscriptions (i : Nat) : Nat → World
  | 0 => w.endTask i
  | left + 1 => w.send i left

/-- `connect` after `websockets.connect` has returned a socket. -/
def established : World :=
  { w with
    _websocket := some w.nextSocket
    _connected := true
    _running := true
    _reconnectAttempts := 0
    _processingTask := some w.nextTask
    tasks := Function.update w.tasks w.nextTask (some ⟨.start, false⟩)
    nextTask := w.nextTask + 1
    nextSocket := w.nextSocket + 1 }

/-- `connect` inside `_handle_disconnect`, up to its first await. -/
def reconnect (i subscriptions : Nat) : World :=
  if w._connected then w._restoreSubscriptions i subscriptions
  else match w._websocket with
    | some _ => { w with _websocket := none }.wait i (.leaving (.connecting .closing))
    | none => w.wait i (.leaving (.connecting .dialing))

/-- Processing `i` goes on from where it stands. -/
def resume (i : Nat) (point : Point) (result : Result) (subscriptions : Nat) : World :=
  match point, result with
  | .start, _ => w.head i
  | .recv _, .done => w.head i
  | .recv _, .waits => w.wait i .handling
  | .recv _, .lost => w._handleDisconnect i
  | .recv _, .raised => w.crash i
  | .handling, .done | .handling, .lost => w.head i
  | .handling, .waits => w
  | .handling, .raised => w.crash i
  | .spinning, _ => w
  | .leaving .closing, _ | .leaving .reclosing, _ => w.retry i
  | .leaving .sleeping, _ => w.reconnect i subscriptions
  | .leaving (.connecting .closing), _ => w.wait i (.leaving (.connecting .dialing))
  | .leaving (.connecting .dialing), .done => w.established._restoreSubscriptions i subscriptions
  | .leaving (.connecting .dialing), .lost => w.failed i
  | .leaving (.connecting .dialing), _ => w.crash i
  | .leaving (.restoring left), .done => w._restoreSubscriptions i left
  | .leaving (.restoring _), .lost => w.failed i
  | .leaving (.restoring _), _ => w.crash i

def stand (call : Nat) (place : Call) : World := { w with calls := Function.update w.calls call (some place) }

def endCall (call : Nat) : World := { w with calls := Function.update w.calls call none }

/-- `connect` of a caller, up to its first await. -/
def connect (call : Nat) : World :=
  if w._connected then w
  else match w._websocket with
    | some _ => { w with _websocket := none }.stand call (.connecting .closing)
    | none => w.stand call (.connecting .dialing)

/-- `disconnect` without a processing task, or after it. -/
def closeCall (call : Nat) : World :=
  match w._websocket with
  | some _ => { w with _websocket := none }.stand call .closing
  | none => { w with _connected := false }.endCall call

/-- `disconnect` when the processing task has ended; what that raised, unless it
was cancelled, is raised here too. -/
def awaited (call task : Nat) : World :=
  if w.crashed task then w.endCall call else w.closeCall call

/-- `disconnect`, up to its first await. -/
def disconnect (call : Nat) : World :=
  let stopped := { w with _running := false, _processingTask := none }
  match w._processingTask with
  | none => stopped.closeCall call
  | some task => match w.tasks task with
    | none => stopped.awaited call task
    | some t => { stopped with
      tasks := Function.update w.tasks task (some { t with cancelled := true }) }.stand call (.awaiting task)

/-- A `disconnect` that is called or goes on now finds that the processing task
has ended by an exception, and raises it. -/
def raises (call : Nat) : Bool :=
  let found := match w.calls call with
    | none => w._processingTask
    | some (.awaiting task) => some task
    | some _ => none
  found.any fun task => (w.tasks task).isNone && w.crashed task

/-- A call goes on from where it stands. -/
def resumeCall (call : Nat) (place : Call) (result : Result) : World :=
  match place, result with
  | .connecting .closing, _ => w.stand call (.connecting .dialing)
  | .connecting .dialing, .done => w.established.endCall call
  | .connecting .dialing, _ => w.endCall call
  | .awaiting task, _ => if w.tasks task = none then w.awaited call task else w
  | .closing, _ => { w with _connected := false }.endCall call

end World

def step (w : World) : Label → World
  | .connect call => if w.calls call = none then w.connect call else w
  | .disconnect call => if w.calls call = none then w.disconnect call else w
  | .resume i result subscriptions => match w.tasks i with
    | none => w
    | some t => if t.cancelled then w.endTask i else w.resume i t.point result subscriptions
  | .resumeCall call result => match w.calls call with
    | none => w
    | some place => w.resumeCall call place result

end WebSocketTasks
