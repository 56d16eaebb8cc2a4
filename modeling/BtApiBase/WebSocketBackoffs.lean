import BtApiBase.WebSocketApps
import BtApiBase.Runs

/-!
# Reconnecting

`run` opens one socket after another until the stop event is set or so many attempts in a
row have failed. `_mark_ready` sets the attempts and the delay back from inside
`run_forever`; other callbacks and the watchdogs act at any time. An exception that `run`
does not catch leaves it: one that is no `Exception`, what a handler of an event raises
where the bus lets it, or the refusal to wait for as long as the delay.
-/

namespace WebSocketBackoffs

open WebSocketApps (App Action exec)
open Runs

structure Config extends WebSocketApps.Config where
  reconnectMaxDelay : Rat
  maxReconnectAttempts : Nat
  /-- `threading.TIMEOUT_MAX` -/
  timeoutMax : Rat

/-- What `random.random` returns. -/
structure Random where
  value : Rat
  nonneg : 0 ≤ value
  le_one : value ≤ 1

/-- Where `run` is. -/
inductive Phase where
  /-- before the test of the loop -/
  | loop
  /-- in the `try` statement, before `run_forever` -/
  | connecting
  | running
  /-- after the `try` statement -/
  | ended
  | waiting (delay : Rat)
  | returned
  /-- left by an exception -/
  | raised
  deriving DecidableEq, Repr

inductive Event where
  | reconnecting (attempt : Nat) (delay : Rat)
  | maxReconnect (attempts : Nat)
  deriving DecidableEq, Repr

def Event.isMaxReconnect : Event → Bool
  | .reconnecting _ _ => false
  | .maxReconnect _ => true

/-- The record is `stopped`, that somebody else has set the stop event, `unready`, the
calls of `run_forever` in a row without a mark, and the delays since the last reset. -/
structure World where
  app : App
  phase : Phase := .loop
  log : List Event := []
  stopped : Bool := false
  unready : Nat := 0
  delays : List Rat := []
  deriving DecidableEq, Repr

inductive Ending where
  | returned
  /-- with an `Exception` -/
  | raised
  /-- with another exception, such as `SystemExit` -/
  | exited
  deriving DecidableEq, Repr

inductive Label where
  | turn (emitted : Bool)
  | connect (created : Bool)
  | markReady (now : Rat)
  | runForeverEnds (ending : Ending)
  | retry (random : Random) (emitted : Bool)
  | wake
  /-- an action of another callback or of another thread -/
  | act (action : Action) (now : Rat)

section

variable (cfg : Config)

/-- `_reset_backoff` -/
def resetBackoff (a : App) : App := { a with
  _reconnectAttempt := 0
  _currentDelay := cfg.reconnectBaseDelay }

/-- `_mark_ready`, but for its event. -/
def _markReady (now : Rat) (a : App) : App := resetBackoff cfg (a.markReady now)

theorem markReady_exec (now : Rat) (a : App) :
    [Action.markReady, .resetAttempt, .resetDelay].foldl
      (fun a action => (exec cfg.toConfig now a action).app) a = _markReady cfg now a := rfl

/-- The delay that `_backoff_delay` returns. -/
def backoffDelay (random : Random) (current : Rat) : Rat :=
  let jitter := current * (1 / 10) * random.value
  min (current + jitter) cfg.reconnectMaxDelay

/-- What `_backoff_delay` makes of `_current_delay`. -/
def nextDelay (current : Rat) : Rat := min (current * 2) cfg.reconnectMaxDelay

/-- The parts of `_mark_ready` have labels of their own. -/
def Action.isMark : Action → Bool
  | .markReady | .resetAttempt | .resetDelay => true
  | _ => false

variable (w : World)

/-- The end of `run`. -/
def World.finish : World := { w with
  app := { w.app with _runningFlag := false, _stopEvent := true }
  phase := .returned }

def World.turn (emitted : Bool) : World :=
  if w.app._stopEvent then w.finish
  else if 0 < cfg.maxReconnectAttempts ∧ cfg.maxReconnectAttempts ≤ w.app._reconnectAttempt then
    let w := { w with log := w.log ++ [Event.maxReconnect w.app._reconnectAttempt] }
    if emitted then w.finish else { w with phase := .raised }
  else { w with phase := .connecting }

/-- The socket is made, and run if the stop event is still not set. -/
def World.connect (created : Bool) : World :=
  if created && !w.app._stopEvent then { w with phase := .running, unready := w.unready + 1 }
  else { w with phase := .ended }

def World.retry (random : Random) (emitted : Bool) : World :=
  if w.app._stopEvent then w.finish
  else
    let attempt := w.app._reconnectAttempt + 1
    let delay := backoffDelay cfg random w.app._currentDelay
    { w with
      app := { w.app with
        _reconnectAttempt := attempt
        _currentDelay := nextDelay cfg w.app._currentDelay }
      phase := if emitted then .waiting delay else .raised
      log := w.log ++ [.reconnecting attempt delay]
      delays := w.delays ++ [delay] }

/-- `stop_event.wait` raises for a delay that is too long, unless the event is set. -/
def World.wake (delay : Rat) : World :=
  if !w.app._stopEvent && cfg.timeoutMax < delay then { w with phase := .raised }
  else { w with phase := .loop }

def World.mark (now : Rat) : World := { w with
  app := _markReady cfg now w.app
  unready := 0
  delays := [] }

def World.act (action : Action) (now : Rat) : World := { w with
  app := (exec cfg.toConfig now w.app action).app
  stopped := w.stopped || action = .setStop }

end

def step (cfg : Config) (w : World) : Label → World
  | .turn emitted => if w.phase = .loop then w.turn cfg emitted else w
  | .connect created => if w.phase = .connecting then w.connect created else w
  | .markReady now => if w.phase = .running then w.mark cfg now else w
  | .runForeverEnds ending =>
    if w.phase = .running then { w with phase := if ending = .exited then .raised else .ended } else w
  | .retry random emitted => if w.phase = .ended then w.retry cfg random emitted else w
  | .wake =>
    match w.phase with
    | .waiting delay => w.wake cfg delay
    | _ => w
  | .act action now => if Action.isMark action then w else w.act cfg action now

/-- `run` after `__init__`, or as `start` begins it. -/
def World.start (cfg : Config) (a : App) : World where
  app := resetBackoff cfg { a with _stopEvent := false, _runningFlag := false }

/-! ## What is promised -/

/-- The bounds of the delay with this index since the last reset. -/
structure Bounds (cfg : Config) (k : Nat) (delay : Rat) : Prop where
  lower : min (cfg.reconnectBaseDelay * 2 ^ k) cfg.reconnectMaxDelay ≤ delay
  upper : delay ≤ cfg.reconnectMaxDelay

structure Lawful (cfg : Config) (w : World) : Prop where
  unready : w.unready ≤ cfg.maxReconnectAttempts
  gaveUp : w.phase = .returned → w.stopped = false →
    w.log.filter Event.isMaxReconnect = [.maxReconnect cfg.maxReconnectAttempts] ∧
      w.app._stopEvent = true
  backoff : ∀ k delay, w.delays[k]? = some delay → Bounds cfg k delay

/-! ## Delays -/

/-- The delays since the last reset, and the one that is next but for the cap. -/
structure Backoff (cfg : Config) (current : Rat) (delays : List Rat) : Prop where
  pos : 0 < current
  next : min current cfg.reconnectMaxDelay =
    min (cfg.reconnectBaseDelay * 2 ^ delays.length) cfg.reconnectMaxDelay
  bounds : ∀ k delay, delays[k]? = some delay → Bounds cfg k delay

theorem backoff_reset {cfg : Config} (hbase : 0 < cfg.reconnectBaseDelay) :
    Backoff cfg cfg.reconnectBaseDelay [] where
  pos := hbase
  next := by simp
  bounds _ _ h := by cases h

/-- A cap below does not show after doubling and capping again. -/
theorem min_double {cap : Rat} (hcap : 0 < cap) (c : Rat) :
    min (min c cap * 2) cap = min (c * 2) cap := by
  rcases le_total c cap with h | h
  · rw [min_eq_left h]
  · rw [min_eq_right h, min_eq_right (by linarith), min_eq_right (by linarith)]

theorem jitter_nonneg {current : Rat} (h : 0 < current) (random : Random) :
    0 ≤ current * (1 / 10) * random.value :=
  mul_nonneg (by linarith) random.nonneg

theorem Backoff.retry {cfg : Config} (hmax : 0 < cfg.reconnectMaxDelay) {current : Rat}
    {delays : List Rat} (h : Backoff cfg current delays) (random : Random) :
    Backoff cfg (nextDelay cfg current) (delays ++ [backoffDelay cfg random current]) := by
  constructor
  · exact lt_min (by linarith [h.pos]) hmax
  · unfold nextDelay
    rw [min_eq_left (min_le_right _ _), ← min_double hmax, h.next, min_double hmax,
      List.length_append, List.length_singleton, pow_succ, mul_assoc]
  · intro k delay hk
    rcases Nat.lt_trichotomy k delays.length with hlt | rfl | hgt
    · rw [List.getElem?_append_left hlt] at hk
      exact h.bounds k delay hk
    · obtain rfl : backoffDelay cfg random current = delay := by simpa using hk
      constructor
      · rw [← h.next]
        exact min_le_min_right _ (le_add_of_nonneg_right (jitter_nonneg h.pos random))
      · exact min_le_right _ _
    · rw [List.getElem?_eq_none (by simp; omega)] at hk
      cases hk

/-! ## Attempts -/

/-- The attempts and the calls without a mark, wherever `run` is. -/
def Tally (limit attempt unready : Nat) : Phase → Prop
  | .loop | .waiting _ => attempt ≤ limit ∧ unready ≤ attempt
  | .connecting => attempt < limit ∧ unready ≤ attempt
  | .running | .ended => attempt < limit ∧ unready ≤ attempt + 1
  | .returned | .raised => unready ≤ limit

theorem Tally.le {limit attempt unready : Nat} {phase : Phase} (h : Tally limit attempt unready phase) :
    unready ≤ limit := by
  cases phase with
  | loop => exact h.2.trans h.1
  | connecting => exact h.2.trans h.1.le
  | running => exact h.2.trans h.1
  | ended => exact h.2.trans h.1
  | waiting delay => exact h.2.trans h.1
  | returned => exact h
  | raised => exact h

/-- What every step keeps. -/
structure Inv (cfg : Config) (w : World) : Prop where
  tally : Tally cfg.maxReconnectAttempts w.app._reconnectAttempt w.unready w.phase
  stop : w.phase ≠ .returned → w.app._stopEvent = true → w.stopped = true
  quiet : w.phase ≠ .returned → w.phase ≠ .raised → w.log.filter Event.isMaxReconnect = []
  gaveUp : w.phase = .returned → w.stopped = false →
    w.log.filter Event.isMaxReconnect = [.maxReconnect cfg.maxReconnectAttempts] ∧
      w.app._stopEvent = true
  backoff : Backoff cfg w.app._currentDelay w.delays

theorem Inv.lawful {cfg : Config} {w : World} (h : Inv cfg w) : Lawful cfg w :=
  ⟨h.tally.le, h.gaveUp, h.backoff.bounds⟩

section

variable {cfg : Config} {w : World}

/-- A run that ends because the stop event is set was stopped by somebody else. -/
theorem Inv.finish (h : Inv cfg w) (hphase : w.phase ≠ .returned) (hstop : w.app._stopEvent = true) :
    Inv cfg w.finish where
  tally := h.tally.le
  stop hne := absurd rfl hne
  quiet hne := absurd rfl hne
  gaveUp _ hstopped := by
    have := h.stop hphase hstop
    change w.stopped = false at hstopped
    rw [this] at hstopped
    cases hstopped
  backoff := h.backoff

theorem Inv.turn (h : Inv cfg w) (hlimit : 0 < cfg.maxReconnectAttempts) (hphase : w.phase = .loop)
    (emitted : Bool) : Inv cfg (w.turn cfg emitted) := by
  have htally := h.tally
  rw [hphase] at htally
  obtain ⟨hle, hunready⟩ := htally
  have hquiet := h.quiet (by simp [hphase]) (by simp [hphase])
  unfold World.turn
  split
  · next hstop => exact h.finish (by simp [hphase]) hstop
  · next hstop =>
    split
    · next hgiveup =>
      have hattempt : w.app._reconnectAttempt = cfg.maxReconnectAttempts := by omega
      cases emitted with
      | true =>
        refine ⟨hunready.trans hle, fun hne => absurd rfl hne, fun hne => absurd rfl hne, ?_, h.backoff⟩
        intro _ _
        refine ⟨?_, rfl⟩
        change (w.log ++ [Event.maxReconnect w.app._reconnectAttempt]).filter Event.isMaxReconnect = _
        rw [List.filter_append, hquiet, hattempt]
        rfl
      | false =>
        exact ⟨hunready.trans hle, fun _ hset => absurd hset hstop, fun _ hne => absurd rfl hne,
          nofun, h.backoff⟩
    · next hgoon =>
      refine ⟨⟨by dsimp only; omega, hunready⟩, fun _ hset => absurd hset hstop, fun _ _ => hquiet,
        nofun, h.backoff⟩

/-- `run` goes on to another phase, or raises. -/
theorem Inv.moved (h : Inv cfg w) (hreturned : w.phase ≠ .returned) (hraised : w.phase ≠ .raised)
    (phase : Phase) (unready : Nat) (hne : phase ≠ .returned)
    (htally : Tally cfg.maxReconnectAttempts w.app._reconnectAttempt unready phase) :
    Inv cfg { w with phase := phase, unready := unready } where
  tally := htally
  stop _ := h.stop hreturned
  quiet _ _ := h.quiet hreturned hraised
  gaveUp heq := absurd heq hne
  backoff := h.backoff

theorem Inv.connect (h : Inv cfg w) (hphase : w.phase = .connecting) (created : Bool) :
    Inv cfg (w.connect created) := by
  have htally := h.tally
  rw [hphase] at htally
  have hmoved := h.moved (by simp [hphase]) (by simp [hphase])
  unfold World.connect
  split
  · exact hmoved .running (w.unready + 1) nofun ⟨htally.1, Nat.succ_le_succ htally.2⟩
  · exact hmoved .ended w.unready nofun ⟨htally.1, Nat.le_succ_of_le htally.2⟩

theorem Inv.mark (h : Inv cfg w) (hlimit : 0 < cfg.maxReconnectAttempts)
    (hbase : 0 < cfg.reconnectBaseDelay) (hphase : w.phase = .running) (now : Rat) :
    Inv cfg (w.mark cfg now) where
  tally := by
    have : (w.mark cfg now).phase = .running := hphase
    rw [this]
    exact ⟨hlimit, Nat.zero_le _⟩
  stop := h.stop
  quiet := h.quiet
  gaveUp hreturned := by
    have : w.phase = .returned := hreturned
    rw [hphase] at this
    cases this
  backoff := backoff_reset hbase

theorem Inv.runForeverEnds (h : Inv cfg w) (hphase : w.phase = .running) (ending : Ending) :
    Inv cfg { w with phase := if ending = .exited then .raised else .ended } := by
  have htally := h.tally
  rw [hphase] at htally
  have hmoved := h.moved (by simp [hphase]) (by simp [hphase])
  split
  · exact hmoved .raised w.unready nofun (htally.2.trans htally.1)
  · exact hmoved .ended w.unready nofun htally

theorem Inv.retry (h : Inv cfg w) (hmax : 0 < cfg.reconnectMaxDelay) (hphase : w.phase = .ended)
    (random : Random) (emitted : Bool) : Inv cfg (w.retry cfg random emitted) := by
  have htally := h.tally
  rw [hphase] at htally
  have hquiet := h.quiet (by simp [hphase]) (by simp [hphase])
  unfold World.retry
  split
  · next hstop => exact h.finish (by simp [hphase]) hstop
  · next hstop =>
    have hlog : (w.log ++ [Event.reconnecting (w.app._reconnectAttempt + 1)
        (backoffDelay cfg random w.app._currentDelay)]).filter Event.isMaxReconnect = [] := by
      rw [List.filter_append, hquiet]
      rfl
    cases emitted with
    | true =>
      exact ⟨⟨htally.1, htally.2⟩, fun _ hset => absurd hset hstop, fun _ _ => hlog, nofun,
        h.backoff.retry hmax random⟩
    | false =>
      exact ⟨htally.2.trans htally.1, fun _ hset => absurd hset hstop, fun _ _ => hlog, nofun,
        h.backoff.retry hmax random⟩

theorem Inv.wake (h : Inv cfg w) {delay : Rat} (hphase : w.phase = .waiting delay) :
    Inv cfg (w.wake cfg delay) := by
  have htally := h.tally
  rw [hphase] at htally
  have hmoved := h.moved (by simp [hphase]) (by simp [hphase])
  unfold World.wake
  split
  · exact hmoved .raised w.unready nofun (htally.2.trans htally.1)
  · exact hmoved .loop w.unready nofun htally

/-- An action outside `_mark_ready` does not concern the attempts, and sets the stop event
only if that is what it does. -/
structure LeavesAttempts (a a' : App) (action : Action) : Prop where
  attempt : a'._reconnectAttempt = a._reconnectAttempt
  delay : a'._currentDelay = a._currentDelay
  stop : a'._stopEvent = (a._stopEvent || action = .setStop)

theorem exec_leavesAttempts (cfg : WebSocketApps.Config) (now : Rat) (a : App) {action : Action}
    (h : Action.isMark action = false) : LeavesAttempts a (exec cfg now a action).app action := by
  cases action with
  | markReady => cases h
  | resetAttempt => cases h
  | resetDelay => cases h
  | setStop => exact ⟨rfl, rfl, by simp [exec]⟩
  | countSubscription sent =>
    unfold exec App.countSubscription
    dsimp only
    split <;> exact ⟨rfl, rfl, by simp⟩
  | _ => exact ⟨rfl, rfl, by simp [exec, App.open, App.beginBatch, App.endBatch, App.rollBack,
      App.acknowledge, App.closeBatch, App.clearReadiness]⟩

theorem Inv.act (h : Inv cfg w) {action : Action} (hmark : Action.isMark action = false)
    (now : Rat) : Inv cfg (w.act cfg action now) := by
  obtain ⟨hattempt, hdelay, hstop⟩ := exec_leavesAttempts cfg.toConfig now w.app hmark
  have hstopped : (w.act cfg action now).stopped = (w.stopped || action = .setStop) := rfl
  constructor
  · change Tally _ (exec cfg.toConfig now w.app action).app._reconnectAttempt w.unready w.phase
    rw [hattempt]
    exact h.tally
  · intro hphase hset
    change (exec cfg.toConfig now w.app action).app._stopEvent = true at hset
    rw [hstop, Bool.or_eq_true] at hset
    rw [hstopped, Bool.or_eq_true]
    exact hset.imp_left (h.stop hphase)
  · exact h.quiet
  · intro hphase hnot
    rw [hstopped, Bool.or_eq_false_iff] at hnot
    obtain ⟨hlog, hset⟩ := h.gaveUp hphase hnot.1
    refine ⟨hlog, ?_⟩
    change (exec cfg.toConfig now w.app action).app._stopEvent = true
    rw [hstop, hset, Bool.true_or]
  · change Backoff cfg (exec cfg.toConfig now w.app action).app._currentDelay w.delays
    rw [hdelay]
    exact h.backoff

end

/-! ## Runs -/

/-- A label that does not fit the phase changes nothing. -/
theorem Inv.guarded {cfg : Config} {w w' : World} (h : Inv cfg w) {phase : Phase}
    (hstep : w.phase = phase → Inv cfg w') : Inv cfg (if w.phase = phase then w' else w) := by
  split
  · next hphase => exact hstep hphase
  · exact h

theorem inv_start {cfg : Config} (hbase : 0 < cfg.reconnectBaseDelay) (a : App) :
    Inv cfg (.start cfg a) where
  tally := ⟨Nat.zero_le _, Nat.zero_le _⟩
  stop _ hset := by cases hset
  quiet _ _ := rfl
  gaveUp hreturned := by cases hreturned
  backoff := backoff_reset hbase

theorem inv_step {cfg : Config} (hlimit : 0 < cfg.maxReconnectAttempts)
    (hbase : 0 < cfg.reconnectBaseDelay) (hmax : 0 < cfg.reconnectMaxDelay) (w : World) (l : Label)
    (h : Inv cfg w) : Inv cfg (step cfg w l) := by
  cases l with
  | turn emitted => exact h.guarded fun hphase => h.turn hlimit hphase emitted
  | connect created => exact h.guarded fun hphase => h.connect hphase created
  | markReady now => exact h.guarded fun hphase => h.mark hlimit hbase hphase now
  | runForeverEnds ending => exact h.guarded fun hphase => h.runForeverEnds hphase ending
  | retry random emitted => exact h.guarded fun hphase => h.retry hmax hphase random emitted
  | wake =>
    cases hphase : w.phase with
    | waiting delay =>
      have hstep : step cfg w .wake = w.wake cfg delay := by
        unfold step
        rw [hphase]
      rw [hstep]
      exact h.wake hphase
    | _ =>
      have hstep : step cfg w .wake = w := by
        unfold step
        rw [hphase]
      rw [hstep]
      exact h
  | act action now =>
    unfold step
    dsimp only
    split
    · exact h
    · next hmark => exact h.act (by simpa using hmark) now

/-- The attempts are bounded, a run that returns unstopped has given up once, and the
delays double up to the cap. -/
theorem lawful_run (cfg : Config) (hlimit : 0 < cfg.maxReconnectAttempts)
    (hbase : 0 < cfg.reconnectBaseDelay) (hmax : 0 < cfg.reconnectMaxDelay) (a : App)
    (ls : List Label) : Throughout (step cfg) (Lawful cfg) (.start cfg a) ls := by
  intro pre _
  exact (run_induction (inv_step hlimit hbase hmax) (inv_start hbase a) pre).lawful

def twice : Config where
  readinessTimeout := 30
  messageIdleTimeout := 0
  reconnectBaseDelay := 1
  readiness_nonneg := by decide
  idle_nonneg := by decide
  reconnectMaxDelay := 60
  maxReconnectAttempts := 2
  timeoutMax := 9223372036

def noJitter : Random := ⟨0, by decide, by decide⟩

/-- The second call is marked ready, so that another one follows. -/
def marked : List Label :=
  [.turn true, .connect true, .runForeverEnds .raised, .retry noJitter true, .wake,
    .turn true, .connect true, .markReady 7, .runForeverEnds .returned, .retry noJitter true, .wake,
    .turn true, .connect true, .runForeverEnds .returned, .retry noJitter true, .wake, .turn true]

theorem lawful_marked : Throughout (step twice) (Lawful twice) (.start twice {}) marked :=
  lawful_run twice (by decide) (by decide) (by decide) {} marked

example : (run (step twice) (.start twice {}) marked).phase = .returned ∧
    (run (step twice) (.start twice {}) marked).log =
      [.reconnecting 1 1, .reconnecting 1 1, .reconnecting 2 2, .maxReconnect 2] := by
  decide +kernel

/-- A callback leaves `run_forever` with `SystemExit`, which ends `run` as well. -/
theorem left_by_exit :
    ¬ ∀ ls, let w := run (step twice) (.start twice {}) ls
      w.phase = .returned ∨ w.phase = .raised → w.stopped = false →
        w.log.filter Event.isMaxReconnect = [.maxReconnect twice.maxReconnectAttempts] ∧
          w.app._stopEvent = true := by
  intro h
  have hends := h [.turn true, .connect true, .runForeverEnds .exited]
  exact absurd hends (by decide +kernel)

end WebSocketBackoffs
