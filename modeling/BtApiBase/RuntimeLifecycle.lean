import BtApiBase.RuntimeSurvival
import BtApiBase.Runs

/-!
# Starting, connecting and stopping

Three threads write the same fields: `start` with its loop, the thread that
connects the adapter, and the caller of `stop`. Each is cut at every access to
a shared field and at every call of the adapter, so that the others can come in
between; one turn of the loop leaves the shared fields alone and is one step.
-/

namespace RuntimeLifecycle

open PyText PyValue Effects Health RuntimeRemote RuntimeFrame Runs

/-- Where `start` is. -/
inductive Main where
  | entry | setStarting | clearFlag | bind | bindFailed (exc : PyExc) | setRunning
  | setRunningState | spawn
  | loop | turn | raised (exc : PyExc)
  | failRunning (exc : PyExc) | failFlag (exc : PyExc) | failState (exc : PyExc)
  | failMarket (exc : PyExc) | failTrade (exc : PyExc) | failRecord (exc : PyExc) | failDisconnect
  | cleanup | ended

def max_retries : Nat := 3

/-- Where the connect thread is; `connecting` is inside `adapter.connect()`. -/
inductive Connect where
  | unborn
  | setConnecting | check (attempt : Nat) | connecting (attempt : Nat)
  | setFlag | setConnected
  | failed (attempt : Nat) (exc : PyExc) | setNext (attempt : Nat) (exc : PyExc) (next : ConnectionState)
  | record (attempt : Nat) (exc : PyExc) | again (attempt : Nat)
  | giveUpFlag | giveUpMarket
  | ended
  deriving DecidableEq

/-- Where the caller of `stop` is. -/
inductive Stop where
  | idle
  | setStopping | clearRunning | clearFlag | disconnect | record (exc : PyExc)
  | clearMarket | clearTrade | join | cleanup | setStopped
  | returned
  deriving DecidableEq

/-- `session` says that the last successful connect of the adapter has not been
followed by a disconnect. -/
structure World where
  runtime : GatewayRuntime
  session : Bool
  main : Main
  connect : Connect
  stop : Stop

/-- A step of one thread, with what the calls it makes give. A call of the
adapter is over when its step is taken, however long it took. -/
inductive Label where
  | main (env : Env) (bound : Except PyExc Unit) (received : Option Message)
  | connect (now : Rat) (outcome : Except PyExc Unit)
  | stop (now : Rat) (outcome : Except PyExc Unit)

section

variable (w : World)

def World.health (f : GatewayHealth → GatewayHealth) : GatewayRuntime :=
  { w.runtime with health := f w.runtime.health }

def stepMain (env : Env) (bound : Except PyExc Unit) (received : Option Message) : World :=
  match w.main with
  | .entry => { w with main := if w.runtime.running then .ended else .setStarting }
  | .setStarting => { w with runtime := w.health (setState · env.now .starting), main := .clearFlag }
  | .clearFlag => { w with runtime := { w.runtime with _adapterConnected := false }, main := .bind }
  | .bind => match bound with
    | .ok () => { w with runtime := { w.runtime with sockets := true }, main := .setRunning }
    | .error exc => { w with main := .bindFailed exc }
  | .bindFailed exc => { w with
    runtime := { w.health fun h => recordError (setState h env.now .error) env.now "runtime_start"
        (excText exc) with sockets := false, running := false }
    main := .ended }
  | .setRunning => { w with runtime := { w.runtime with running := true }, main := .setRunningState }
  | .setRunningState => { w with runtime := w.health (setState · env.now .running), main := .spawn }
  | .spawn => { w with
    runtime := (exec (_refreshRuntimeHeartbeat env true) w.runtime).2
    main := .loop
    connect := .setConnecting }
  | .loop => { w with main := if w.runtime.running then .turn else .cleanup }
  | .turn => { w with
    runtime := (exec (loopBody env received) w.runtime).2
    main := match (exec (loopBody env received) w.runtime).1 with
      | .ok () => .loop
      | .error exc => .raised exc }
  | .raised exc => { w with main := if w.runtime.running then .failRunning exc else .cleanup }
  | .failRunning exc => { w with
    runtime := { w.runtime with running := false }, main := .failFlag exc }
  | .failFlag exc => { w with
    runtime := { w.runtime with _adapterConnected := false }, main := .failState exc }
  | .failState exc => { w with
    runtime := w.health (setState · env.now .error), main := .failMarket exc }
  | .failMarket exc => { w with
    runtime := w.health (updateMarketConnection · .error), main := .failTrade exc }
  | .failTrade exc => { w with
    runtime := w.health (updateTradeConnection · .error), main := .failRecord exc }
  | .failRecord exc => { w with
    runtime := w.health (recordError · env.now "runtime_loop" (excText exc)), main := .failDisconnect }
  | .failDisconnect => { w with
    runtime := { (match env.adapter.disconnect with
      | .ok () => w.runtime
      | .error exc => w.health (recordError · env.now (u "runtime_loop" ++ u "_disconnect")
          (excText exc))) with
      trace := w.runtime.trace ++ [.disconnect] }
    session := false
    main := .cleanup }
  | .cleanup => { w with runtime := { w.runtime with sockets := false }, main := .ended }
  | .ended => w

def stepConnect (now : Rat) (outcome : Except PyExc Unit) : World :=
  match w.connect with
  | .unborn => w
  | .setConnecting => { w with
    runtime := w.health (updateMarketConnection · .connecting), connect := .check 0 }
  | .check attempt =>
    { w with connect := if w.runtime.running then .connecting attempt else .ended }
  | .connecting attempt => match outcome with
    | .ok () => { w with session := true, connect := .setFlag }
    | .error exc => { w with connect := .failed attempt exc }
  | .setFlag => { w with
    runtime := { w.runtime with _adapterConnected := true }, connect := .setConnected }
  | .setConnected => { w with
    runtime := w.health (updateMarketConnection · .connected), connect := .ended }
  | .failed attempt exc =>
    let next : ConnectionState :=
      if attempt + 1 < max_retries ∧ w.runtime.running then .reconnecting else .error
    { w with connect := .setNext attempt exc next }
  | .setNext attempt exc next => { w with
    runtime := w.health (updateMarketConnection · next), connect := .record attempt exc }
  | .record attempt exc => { w with
    runtime := w.health (recordError · now "adapter_connect"
      (u "attempt " ++ intText (attempt + 1) ++ u "/" ++ intText max_retries ++ u " " ++ excText exc))
    connect := .again attempt }
  -- the last attempt leaves the loop; the test before it only decides whether to sleep
  | .again attempt => { w with
    connect := if attempt + 1 < max_retries then .check (attempt + 1) else .giveUpFlag }
  | .giveUpFlag => { w with
    runtime := { w.runtime with _adapterConnected := false }, connect := .giveUpMarket }
  | .giveUpMarket => { w with
    runtime := w.health (updateMarketConnection · .error), connect := .ended }
  | .ended => w

def stepStop (now : Rat) (outcome : Except PyExc Unit) : World :=
  match w.stop with
  | .idle => { w with stop := .setStopping }
  | .setStopping => { w with
    runtime := w.health (setState · now .stopping), stop := .clearRunning }
  | .clearRunning => { w with runtime := { w.runtime with running := false }, stop := .clearFlag }
  | .clearFlag => { w with
    runtime := { w.runtime with _adapterConnected := false }, stop := .disconnect }
  | .disconnect => { w with
    runtime := { w.runtime with trace := w.runtime.trace ++ [.disconnect] }
    session := false
    stop := match outcome with
      | .ok () => .clearMarket
      | .error exc => .record exc }
  | .record exc => { w with
    runtime := w.health (recordError · now "runtime_stop" (excText exc)), stop := .clearMarket }
  | .clearMarket => { w with
    runtime := w.health (updateMarketConnection · .disconnected), stop := .clearTrade }
  | .clearTrade => { w with
    runtime := w.health (updateTradeConnection · .disconnected), stop := .join }
  -- `thread.join(timeout=1.0)` comes back whether the thread has ended or not
  | .join => { w with stop := .cleanup }
  | .cleanup => { w with runtime := { w.runtime with sockets := false }, stop := .setStopped }
  | .setStopped => { w with runtime := w.health (setState · now .stopped), stop := .returned }
  | .returned => w

end

def step (w : World) : Label → World
  | .main env bound received => stepMain w env bound received
  | .connect now outcome => stepConnect w now outcome
  | .stop now outcome => stepStop w now outcome

/-- A runtime that was constructed and not yet started. -/
def init (allocator : Option OrderRef.OrderRefAllocator) : World :=
  ⟨create allocator, false, .entry, .unborn, .idle⟩

/-! ## The threads on their own -/

/-- A connect that nothing comes in between of. -/
theorem connect_uninterrupted (w : World) (now : Rat) (o o' : Except PyExc Unit)
    (h : w.connect = .setFlag) :
    (run step w [.connect now o, .connect now o']).runtime = connectSucceeded w.runtime := by
  obtain ⟨runtime, session, main, connect, stop⟩ := w
  subst h
  rfl

theorem giveUp_uninterrupted (w : World) (now : Rat) (o o' : Except PyExc Unit)
    (h : w.connect = .giveUpFlag) :
    (run step w [.connect now o, .connect now o']).runtime = connectGivenUp w.runtime := by
  obtain ⟨runtime, session, main, connect, stop⟩ := w
  subst h
  rfl

/-- A failure that nothing comes in between of is handled as a whole. -/
theorem failure_uninterrupted (w : World) (env : Env) (bound : Except PyExc Unit) (exc : PyExc)
    (h : w.main = .failRunning exc) :
    (run step w (List.replicate 7 (.main env bound none))).runtime =
      (exec (_handleRuntimeFailure env "runtime_loop" exc) w.runtime).2 := by
  obtain ⟨runtime, session, main, connect, stop⟩ := w
  subst h
  simp only [_handleRuntimeFailure, emit, onHealth, exec_modify_bind]
  simp only [List.replicate, run_cons, run_nil, step, stepMain, World.health]
  cases env.adapter.disconnect <;> rfl

/-! ## What one step does to the shared fields -/

/-- The steps of `start` that write the health state. -/
def Main.writesState : Main → Bool
  | .setStarting | .bindFailed _ | .setRunningState | .failState _ => true
  | _ => false

/-- No step of `start` turns a flag on; only some write the health state. -/
theorem stepMain_spec (w : World) (env : Env) (bound : Except PyExc Unit)
    (received : Option Message) :
    (stepMain w env bound received).stop = w.stop ∧
    ((stepMain w env bound received).session = true → w.session = true) ∧
    ((stepMain w env bound received).runtime._adapterConnected = true →
      w.runtime._adapterConnected = true) ∧
    ((stepMain w env bound received).runtime.health._marketConn = .connected →
      w.runtime.health._marketConn = .connected) ∧
    (w.main.writesState = false →
      (stepMain w env bound received).runtime.health._state = w.runtime.health._state) := by
  obtain ⟨runtime, session, main, connect, stop⟩ := w
  cases main with
  | spawn =>
    have hk := keeps_refreshRuntimeHeartbeat untouched_controls env true runtime
    exact ⟨rfl, id, (congrArg Control.connected hk).symm.trans, (congrArg Control.market hk).symm.trans,
      fun _ => congrArg Control.state hk⟩
  | turn =>
    have hk := RuntimeSurvival.keeps_loopBody env received runtime
    simp only [RuntimeSurvival.steady, Prod.mk.injEq] at hk
    obtain ⟨-, hc, -, hs, hm, -⟩ := hk
    exact ⟨rfl, id, hc.symm.trans, hm.symm.trans, fun _ => hs⟩
  | bind =>
    cases bound with
    | ok _ => exact ⟨rfl, id, id, id, fun _ => rfl⟩
    | error exc => exact ⟨rfl, id, id, id, fun _ => rfl⟩
  | failDisconnect =>
    simp only [stepMain, World.health]
    cases env.adapter.disconnect with
    | ok _ => exact ⟨trivial, fun h => (by cases h), id, id, fun _ => rfl⟩
    | error exc => exact ⟨trivial, fun h => (by cases h), id, id, fun _ => rfl⟩
  | _ => simp [stepMain, World.health, Main.writesState, setState, updateMarketConnection,
      updateTradeConnection, recordError]

/-- A step of the connect thread turns on one of three things, each at its own
place, and never writes the health state. -/
theorem stepConnect_spec (w : World) (now : Rat) (outcome : Except PyExc Unit) :
    (stepConnect w now outcome).stop = w.stop ∧
    ((stepConnect w now outcome).session = true →
      w.session = true ∨ ((∃ attempt, w.connect = .connecting attempt) ∧ outcome = .ok ())) ∧
    ((stepConnect w now outcome).runtime._adapterConnected = true →
      w.runtime._adapterConnected = true ∨ w.connect = .setFlag) ∧
    ((stepConnect w now outcome).runtime.health._marketConn = .connected →
      w.runtime.health._marketConn = .connected ∨ w.connect = .setConnected ∨
        ∃ attempt exc, w.connect = .setNext attempt exc .connected) ∧
    (stepConnect w now outcome).runtime.health._state = w.runtime.health._state := by
  obtain ⟨runtime, session, main, connect, stop⟩ := w
  cases connect with
  | connecting attempt =>
    cases outcome with
    | ok _ => simp [stepConnect]
    | error exc => simp [stepConnect]
  | _ => simp +contextual [stepConnect, World.health, updateMarketConnection, recordError]

/-! ## Stopping -/

/-- How far `stop` has come. -/
def Stop.rank : Stop → Nat
  | .idle => 0
  | .setStopping => 1
  | .clearRunning => 2
  | .clearFlag => 3
  | .disconnect => 4
  | .record _ => 5
  | .clearMarket => 6
  | .clearTrade => 7
  | .join => 8
  | .cleanup => 9
  | .setStopped => 10
  | .returned => 11

/-- The connect thread ends its work before `stop` undoes it: a connect that
succeeds returns before the disconnect, the flag and the market state are set
before they are reset, and `start` writes the health state before `stop` does
so for the last time. -/
def InTime (w : World) : Label → Prop
  | .main _ _ _ => w.main.writesState = true → w.stop ≠ .returned
  | .connect _ outcome => match w.connect, outcome with
    | .connecting _, .ok () => w.stop.rank ≤ Stop.rank .disconnect
    | .setFlag, _ => w.stop.rank ≤ Stop.rank .clearFlag
    | .setConnected, _ => w.stop.rank ≤ Stop.rank .clearMarket
    | _, _ => True
  | .stop _ _ => True

/-- What `stop` has reset stays reset. -/
structure Reset (w : World) : Prop where
  session : Stop.rank .disconnect < w.stop.rank → w.session = false
  flag : Stop.rank .clearFlag < w.stop.rank → w.runtime._adapterConnected = false
  market : Stop.rank .clearMarket < w.stop.rank → w.runtime.health._marketConn ≠ .connected
  state : w.stop = .returned → w.runtime.health._state = .stopped
  next : ∀ attempt exc, w.connect ≠ .setNext attempt exc .connected

/-- Once `stop` has returned and the connect thread has ended or was never
started, the adapter is not left connected and the flags say so. -/
def Settled (w : World) : Prop :=
  w.stop = .returned → w.connect = .ended ∨ w.connect = .unborn →
    w.session = false ∧ w.runtime._adapterConnected = false ∧
      w.runtime.health._state = .stopped ∧ w.runtime.health._marketConn ≠ .connected

theorem Reset.settled {w : World} (h : Reset w) : Settled w := by
  intro hs _
  exact ⟨h.session (by rw [hs]; decide), h.flag (by rw [hs]; decide), h.state hs,
    h.market (by rw [hs]; decide)⟩

theorem next_stepConnect {w : World} (h : ∀ attempt exc, w.connect ≠ .setNext attempt exc .connected)
    (now : Rat) (outcome : Except PyExc Unit) :
    ∀ attempt exc, (stepConnect w now outcome).connect ≠ .setNext attempt exc .connected := by
  obtain ⟨runtime, session, main, connect, stop⟩ := w
  cases connect with
  | check attempt =>
    simp only [stepConnect]
    split <;> simp
  | connecting attempt => cases outcome <;> simp [stepConnect]
  | failed attempt exc =>
    simp only [stepConnect]
    split <;> simp
  | again attempt =>
    simp only [stepConnect]
    split <;> simp
  | setNext attempt exc next => simp [stepConnect]
  | _ => simp [stepConnect]

theorem connect_stepMain {w : World} (h : ∀ attempt exc, w.connect ≠ .setNext attempt exc .connected)
    (env : Env) (bound : Except PyExc Unit) (received : Option Message) :
    ∀ attempt exc, (stepMain w env bound received).connect ≠ .setNext attempt exc .connected := by
  obtain ⟨runtime, session, main, connect, stop⟩ := w
  cases main with
  | bind => cases bound <;> exact h
  | spawn => simp [stepMain]
  | _ => exact h

/-- `stop` resets one thing after the other. -/
theorem reset_stepStop {w : World} (h : Reset w) (now : Rat) (outcome : Except PyExc Unit) :
    Reset (stepStop w now outcome) := by
  obtain ⟨runtime, session, main, connect, stop⟩ := w
  obtain ⟨hs, hf, hm, hst, hn⟩ := h
  cases stop with
  | disconnect =>
    cases outcome with
    | ok _ => exact ⟨fun _ => rfl, fun _ => hf (by simp [Stop.rank]), fun h => absurd h (by simp [stepStop, Stop.rank]),
        fun h => (by cases h), hn⟩
    | error exc => exact ⟨fun _ => rfl, fun _ => hf (by simp [Stop.rank]), fun h => absurd h (by simp [stepStop, Stop.rank]),
        fun h => (by cases h), hn⟩
  | clearFlag =>
    exact ⟨fun h => absurd h (by simp [stepStop, Stop.rank]), fun _ => rfl, fun h => absurd h (by simp [stepStop, Stop.rank]),
      fun h => (by cases h), hn⟩
  | clearMarket =>
    exact ⟨fun _ => hs (by simp [Stop.rank]), fun _ => hf (by simp [Stop.rank]),
      fun _ => (by simp [stepStop, World.health, updateMarketConnection]), fun h => (by cases h), hn⟩
  | setStopped =>
    exact ⟨fun _ => hs (by simp [Stop.rank]), fun _ => hf (by simp [Stop.rank]), fun _ => hm (by simp [Stop.rank]),
      fun _ => rfl, hn⟩
  | returned => exact ⟨hs, hf, hm, hst, hn⟩
  | record exc =>
    exact ⟨fun _ => hs (by simp [Stop.rank]), fun _ => hf (by simp [Stop.rank]),
      fun h => absurd h (by simp [stepStop, Stop.rank]), fun h => (by cases h), hn⟩
  | clearTrade | join | cleanup =>
    exact ⟨fun _ => hs (by simp [Stop.rank]), fun _ => hf (by simp [Stop.rank]), fun _ => hm (by simp [Stop.rank]),
      fun h => (by cases h), hn⟩
  | idle | setStopping | clearRunning =>
    exact ⟨fun h => absurd h (by simp [stepStop, Stop.rank]), fun h => absurd h (by simp [stepStop, Stop.rank]),
      fun h => absurd h (by simp [stepStop, Stop.rank]), fun h => (by cases h), hn⟩

theorem reset_step (w : World) (l : Label) (h : Reset w) (hc : InTime w l) : Reset (step w l) := by
  cases l with
  | main env bound received =>
    obtain ⟨hstop, hs, hf, hm, hst⟩ := stepMain_spec w env bound received
    refine ⟨fun hr => ?_, fun hr => ?_, fun hr hmk => ?_, fun hr => ?_,
      connect_stepMain h.next env bound received⟩
    · exact Bool.eq_false_iff.mpr fun ht =>
        Bool.eq_false_iff.mp (h.session (hstop ▸ hr)) (hs ht)
    · exact Bool.eq_false_iff.mpr fun ht => Bool.eq_false_iff.mp (h.flag (hstop ▸ hr)) (hf ht)
    · exact h.market (hstop ▸ hr) (hm hmk)
    · have hret : w.stop = .returned := hstop ▸ hr
      have hw : w.main.writesState = false := Bool.eq_false_iff.mpr fun hw => hc hw hret
      exact (hst hw).trans (h.state hret)
  | connect now outcome =>
    obtain ⟨hstop, hs, hf, hm, hst⟩ := stepConnect_spec w now outcome
    refine ⟨fun hr => ?_, fun hr => ?_, fun hr hmk => ?_, fun hr => ?_,
      next_stepConnect h.next now outcome⟩
    · have hr : Stop.rank .disconnect < w.stop.rank := hstop ▸ hr
      refine Bool.eq_false_iff.mpr fun ht => ?_
      rcases hs ht with ht | ⟨⟨attempt, ha⟩, rfl⟩
      · exact Bool.eq_false_iff.mp (h.session hr) ht
      · simp only [InTime, ha] at hc
        omega
    · have hr : Stop.rank .clearFlag < w.stop.rank := hstop ▸ hr
      refine Bool.eq_false_iff.mpr fun ht => ?_
      rcases hf ht with ht | ha
      · exact Bool.eq_false_iff.mp (h.flag hr) ht
      · simp only [InTime, ha] at hc
        omega
    · have hr : Stop.rank .clearMarket < w.stop.rank := hstop ▸ hr
      rcases hm hmk with ht | ha | ⟨attempt, exc, ha⟩
      · exact h.market hr ht
      · simp only [InTime, ha] at hc
        omega
      · exact h.next attempt exc ha
    · exact hst.trans (h.state (hstop ▸ hr))
  | stop now outcome => exact reset_stepStop h now outcome

theorem reset_init (allocator : Option OrderRef.OrderRefAllocator) : Reset (init allocator) where
  session h := absurd h (by simp [init, Stop.rank])
  flag _ := rfl
  market h := absurd h (by simp [init, Stop.rank])
  state h := by cases h
  next _ _ h := by cases h

/-- In every interleaving in which each thread's writes come in time, the
runtime is settled in every state. -/
theorem settled_of_inTime (allocator : Option OrderRef.OrderRefAllocator) (labels : List Label)
    (h : Meets step InTime (init allocator) labels) :
    Throughout step Settled (init allocator) labels :=
  fun pre hp => (throughout_of_meets reset_step (reset_init allocator) h pre hp).settled

instance (w : World) (l : Label) : Decidable (InTime w l) := by
  unfold InTime
  split
  · infer_instance
  · split <;> infer_instance
  · infer_instance

/-- `start` up to its loop. -/
def mainUp : List Label := List.replicate 8 (.main (.ascii .silent) (.ok ()) none)

def connects (n : Nat) : List Label := List.replicate n (.connect 0 (.ok ()))

/-- `stop` as a whole. -/
def stops : List Label := List.replicate 11 (.stop 0 (.ok ()))

/-- `start` up to its loop, a connect, and `stop` afterwards: all is reset. -/
theorem settled_of_inTime_sample :
    ∃ labels, (run step (init none) labels).stop = .returned ∧
      (run step (init none) labels).connect = .ended ∧
      Throughout step Settled (init none) labels := by
  let labels := mainUp ++ connects 5 ++ stops
  exact ⟨labels, by decide +kernel, by decide +kernel,
    settled_of_inTime none labels (by decide +kernel)⟩

/-- The connect is under way while `stop` runs as a whole and succeeds after
it: the adapter is left connected. -/
theorem late_connect_left_connected :
    ∃ labels, (run step (init none) labels).stop = .returned ∧
      (run step (init none) labels).connect = .ended ∧
      (run step (init none) labels).session = true ∧
      (run step (init none) labels).runtime._adapterConnected = true ∧
      (run step (init none) labels).runtime.health._marketConn = .connected ∧
      ¬ Throughout step Settled (init none) labels := by
  let labels := mainUp ++ connects 2 ++ stops ++ connects 3
  have hended : (run step (init none) labels).stop = .returned ∧ (run step (init none) labels).connect = .ended ∧
      (run step (init none) labels).session = true ∧
      (run step (init none) labels).runtime._adapterConnected = true ∧
      (run step (init none) labels).runtime.health._marketConn = .connected := by decide +kernel
  obtain ⟨hs, hc, hsession, hadapter, hmarket⟩ := hended
  refine ⟨labels, hs, hc, hsession, hadapter, hmarket, ?_⟩
  intro h
  have hsettled := (throughout_last h hs (.inl hc)).1
  rw [hsession] at hsettled
  cases hsettled

end RuntimeLifecycle
