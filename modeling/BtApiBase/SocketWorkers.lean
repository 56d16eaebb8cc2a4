import Mathlib.Logic.Function.Basic
import Mathlib.Data.Rat.Defs
import Mathlib.Data.List.Basic
import BtApiBase.Runs

/-!
# The worker threads of the streaming socket

`start` runs `run()`, the two watchdogs and the restart timer in threads of their own,
and every `start` that finds no worker makes a new `_stop_event`. A thread takes the
event that it listens to when it begins to run. `stop` is called by any thread at any
time, the workers included; calls of `start` come one after the other. A `join` that
runs into its timeout is a label of its own.
-/

namespace SocketWorkers

open Runs

structure Config where
  restartGap : Rat
  messageIdleTimeout : Rat
  readinessTimeout : Rat

/-- The attribute that holds the thread: `process`, `_restart_process`, `_watchdog_process`
or `_readiness_watchdog_process`. -/
inductive Role where
  | process | restart | watchdog | readiness
  deriving DecidableEq, Repr

inductive Phase where
  | unstarted | running | finished
  deriving DecidableEq, Repr

/-- A thread with its target, and the local `stop_event` once it is assigned. -/
structure Worker where
  role : Role
  phase : Phase := .unstarted
  stopEvent : Option Nat := none
  deriving DecidableEq, Repr

/-- Where a call of `start` is. -/
inductive StartPoint where
  | begun
  | workerRunning
  | joining (left : List Role)
  | installing
  | clearing
  | launching (left : List Role) (waits : Bool)
  | starting (worker : Nat) (left : List Role) (waits : Bool)
  | waiting
  | ready
  | timing
  deriving DecidableEq, Repr

/-- Where a call of `stop` is; `joining` holds the rest of its tuple of workers. -/
inductive StopPoint where
  | begun
  | flagged
  | closing
  | joining (left : List Nat)
  | returned
  | raised
  deriving DecidableEq, Repr

/-- A call of `stop`, and the worker that makes it. -/
structure StopCall where
  caller : Option Nat
  point : StopPoint
  deriving DecidableEq, Repr

structure World where
  workers : Nat → Option Worker
  nextWorker : Nat
  held : Role → Option Nat
  /-- Events are numbered as they are made, and this is the last one. -/
  _stopEvent : Nat
  isSet : Nat → Bool
  _runningFlag : Bool
  starting : Option StartPoint
  stops : Nat → Option StopCall

/-- `MyWebsocketApp.__init__` makes the thread of `process` and does not start it. -/
def init : World where
  workers i := if i = 0 then some ⟨.process, .unstarted, none⟩ else none
  nextWorker := 1
  held r := if r = .process then some 0 else none
  _stopEvent := 0
  isSet _ := false
  _runningFlag := false
  starting := none
  stops _ := none

inductive Label where
  /-- Without effect while another call of `start` is in progress. -/
  | start
  | startStep
  /-- The `join` of `start` comes back from a thread that is alive, or `connect_timeout` is over
  and the call numbered `call` is its `stop`. -/
  | startExpires (call : Nat)
  | stop (call : Nat) (caller : Option Nat)
  | stopStep (call : Nat)
  /-- `ws.close()` raises, or the `join` of `stop` comes back from a thread that is alive. -/
  | stopRaises (call : Nat)
  /-- A worker runs `stop_event = self._stop_event`. -/
  | listen (worker : Nat)
  /-- A callback or a watchdog assigns `_running_flag`. -/
  | flag (worker : Nat) (value : Bool)
  /-- A callback of the socket calls `self._stop_event.set()`. -/
  | setStop (worker : Nat)
  /-- `run()` comes to its last two statements. -/
  | leave (worker : Nat)
  | finish (worker : Nat)
  /-- A thread ends by an exception. -/
  | crash (worker : Nat)
  deriving DecidableEq, Repr

namespace World

variable (w : World)

def running (i : Nat) : Bool := (w.workers i).any fun t => t.phase = .running

/-- `is_alive()` of the thread that the attribute holds. -/
def isAlive (r : Role) : Bool := (w.held r).any w.running

def setEvent (e : Nat) : World := { w with isSet := Function.update w.isSet e true }

def put (i : Nat) (t : Worker) : World := { w with workers := Function.update w.workers i (some t) }

/-- An attribute gets a thread that is not started. -/
def assign (r : Role) : World := { w with
  workers := Function.update w.workers w.nextWorker (some { role := r })
  nextWorker := w.nextWorker + 1
  held := Function.update w.held r (some w.nextWorker) }

def startAt (p : Option StartPoint) : World := { w with starting := p }

def setStop (call : Nat) (s : StopCall) : World :=
  { w with stops := Function.update w.stops call (some s) }

end World

/-- The threads that `start` makes before it waits. -/
def launches (cfg : Config) : List Role :=
  .process :: ((if 0 < cfg.messageIdleTimeout then [.watchdog] else []) ++
    if 0 < cfg.readinessTimeout then [.readiness] else [])

/-- One step of `start`. -/
def startStep (cfg : Config) (w : World) : World := match w.starting with
  | none => w
  | some .begun =>
    if w.isAlive .process then w.startAt (some .workerRunning)
    else w.startAt (some (.joining [.restart, .watchdog, .readiness]))
  | some .workerRunning => if w.isSet w._stopEvent then w.startAt none else w.startAt (some .waiting)
  | some (.joining []) => w.startAt (some .installing)
  | some (.joining (r :: left)) => if w.isAlive r then w else w.startAt (some (.joining left))
  | some .installing => { w with _stopEvent := w._stopEvent + 1, starting := some .clearing }
  | some .clearing => { w with
      _runningFlag := false, starting := some (.launching (launches cfg) true) }
  | some (.launching [] waits) => w.startAt (if waits then some .waiting else none)
  | some (.launching (r :: left) waits) =>
    (w.assign r).startAt (some (.starting w.nextWorker left waits))
  | some (.starting i left waits) => match w.workers i with
    | some t => (w.put i { t with phase := .running }).startAt (some (.launching left waits))
    | none => w
  | some .waiting =>
    if w._runningFlag || w.isSet w._stopEvent then w.startAt (some .ready) else w
  | some .ready => if w._runningFlag then w.startAt (some .timing) else w.startAt none
  | some .timing =>
    if cfg.restartGap ≠ 0 ∧ w.isSet w._stopEvent = false ∧ w.isAlive .restart = false then
      w.startAt (some (.launching [.restart] false))
    else w.startAt none

/-- `start` raises, or begins its own `stop` to raise after it. -/
def startExpires (w : World) (call : Nat) : World := match w.starting with
  | some (.joining (r :: _)) => if w.isAlive r then w.startAt none else w
  | some .waiting =>
    if w._runningFlag || w.isSet w._stopEvent || (w.stops call).isSome then w
    else (w.startAt none).setStop call ⟨none, .begun⟩
  | _ => w

/-- The tuple of workers in `stop`. -/
def tuple (w : World) : List Nat :=
  [.process, .restart, .watchdog, .readiness].filterMap w.held

def stopStep (w : World) (call : Nat) : World := match w.stops call with
  | none => w
  | some s => match s.point with
    | .begun => { w with _runningFlag := false }.setStop call { s with point := .flagged }
    | .flagged => (w.setEvent w._stopEvent).setStop call { s with point := .closing }
    | .closing => w.setStop call { s with point := .joining (tuple w) }
    | .joining [] => w.setStop call { s with point := .returned }
    | .joining (i :: left) =>
      if some i ≠ s.caller ∧ w.running i then w
      else w.setStop call { s with point := .joining left }
    | .returned => w
    | .raised => w

def stopRaises (w : World) (call : Nat) : World := match w.stops call with
  | none => w
  | some s => match s.point with
    | .closing => w.setStop call { s with point := .raised }
    | .joining (i :: _) =>
      if some i ≠ s.caller ∧ w.running i then w.setStop call { s with point := .raised } else w
    | _ => w

/-- One step of a thread that is running. -/
def workerStep (w : World) (i : Nat) (t : Worker) : Label → World
  | .listen _ => if t.stopEvent = none then w.put i { t with stopEvent := some w._stopEvent } else w
  | .flag _ value => if t.stopEvent = none then w else { w with _runningFlag := value }
  | .setStop _ => if t.role = .process then w.setEvent w._stopEvent else w
  | .leave _ => match t.stopEvent with
    | some e => if t.role = .process then { w with _runningFlag := false }.setEvent e else w
    | none => w
  | .finish _ => match t.stopEvent with
    | some e => if w.isSet e then w.put i { t with phase := .finished } else w
    | none => w
  | .crash _ => w.put i { t with phase := .finished }
  | _ => w

def byWorker (w : World) (i : Nat) (l : Label) : World := match w.workers i with
  | some t => if t.phase = .running then workerStep w i t l else w
  | none => w

def step (cfg : Config) (w : World) : Label → World
  | .start => if w.starting = none then w.startAt (some .begun) else w
  | .startStep => startStep cfg w
  | .startExpires call => startExpires w call
  | .stop call caller => if (w.stops call).isSome then w else w.setStop call ⟨caller, .begun⟩
  | .stopStep call => stopStep w call
  | .stopRaises call => stopRaises w call
  | .listen i => byWorker w i (.listen i)
  | .flag i value => byWorker w i (.flag i value)
  | .setStop i => byWorker w i (.setStop i)
  | .leave i => byWorker w i (.leave i)
  | .finish i => byWorker w i (.finish i)
  | .crash i => byWorker w i (.crash i)

/-! ## What a step can do -/

/-- No thread with this target is running. -/
def Dead (w : World) (r : Role) : Prop :=
  ∀ i t, w.workers i = some t → t.phase = .running → t.role ≠ r

/-- Threads begin to listen and end; none begins to run. -/
structure Keeps (w w' : World) : Prop where
  held : w'.held = w.held
  event : w'._stopEvent = w._stopEvent
  next : w'.nextWorker = w.nextWorker
  known : ∀ i, w.workers i = none → w'.workers i = none
  still : ∀ i t, w.workers i = some t → t.phase ≠ .running → w'.workers i = some t
  running : ∀ i t', w'.workers i = some t' → t'.phase = .running →
    ∃ t, w.workers i = some t ∧ t.phase = .running ∧ t.role = t'.role ∧
      (t'.stopEvent = t.stopEvent ∨ t'.stopEvent = some w._stopEvent)

/-- The points of `start` that rest on nothing that it has seen of the threads. -/
def StartPoint.calm : StartPoint → Bool
  | .begun | .workerRunning | .waiting | .ready | .timing => true
  | _ => false

inductive Stepped (w : World) : World → Prop
  | kept (w' : World) (h : Keeps w w')
    (hs : w'.starting = w.starting ∨ ∀ p, w'.starting = some p → p.calm = true) : Stepped w w'
  | looked (hp : w.starting = some .begun) (hd : w.isAlive .process = false) :
    Stepped w (w.startAt (some (.joining [.restart, .watchdog, .readiness])))
  | joined (r : Role) (left : List Role) (hp : w.starting = some (.joining (r :: left)))
    (hd : w.isAlive r = false) : Stepped w (w.startAt (some (.joining left)))
  | allJoined (hp : w.starting = some (.joining [])) : Stepped w (w.startAt (some .installing))
  | installed (hp : w.starting = some .installing) :
    Stepped w { w with _stopEvent := w._stopEvent + 1, starting := some .clearing }
  | cleared (left : List Role) (hp : w.starting = some .clearing) (hn : left.Nodup) :
    Stepped w { w with _runningFlag := false, starting := some (.launching left true) }
  | assigned (r : Role) (left : List Role) (waits : Bool)
    (hp : w.starting = some (.launching (r :: left) waits)) :
    Stepped w ((w.assign r).startAt (some (.starting w.nextWorker left waits)))
  | started (i : Nat) (t : Worker) (left : List Role) (waits : Bool)
    (hp : w.starting = some (.starting i left waits)) (ht : w.workers i = some t) :
    Stepped w ((w.put i { t with phase := .running }).startAt (some (.launching left waits)))
  | timed (hp : w.starting = some .timing) (hd : w.isAlive .restart = false) :
    Stepped w (w.startAt (some (.launching [.restart] false)))

theorem Keeps.refl (w : World) : Keeps w w :=
  ⟨rfl, rfl, rfl, fun _ h => h, fun _ _ h _ => h, fun _ t h hr => ⟨t, h, hr, rfl, Or.inl rfl⟩⟩

/-- A step that leaves the threads, their attributes and the current event as they are. -/
theorem Keeps.of_eq {w w' : World} (hw : w'.workers = w.workers) (hh : w'.held = w.held)
    (he : w'._stopEvent = w._stopEvent) (hn : w'.nextWorker = w.nextWorker) : Keeps w w' := by
  refine ⟨hh, he, hn, ?_, ?_, ?_⟩
  · intro i h
    rw [hw, h]
  · intro i t h _
    rw [hw, h]
  · intro i t h hr
    rw [hw] at h
    exact ⟨t, h, hr, rfl, Or.inl rfl⟩

/-- A running thread begins to listen to the current event, or ends. -/
theorem Keeps.put {w : World} {i : Nat} {t t' : Worker} (ht : w.workers i = some t)
    (hr : t.phase = .running) (hrole : t.role = t'.role)
    (he : t'.stopEvent = t.stopEvent ∨ t'.stopEvent = some w._stopEvent) : Keeps w (w.put i t') := by
  refine ⟨rfl, rfl, rfl, ?_, ?_, ?_⟩
  · intro j h
    have hne : j ≠ i := by
      rintro rfl
      simp [ht] at h
    simpa [World.put, hne] using h
  · intro j u h hu
    have hne : j ≠ i := by
      rintro rfl
      rw [ht] at h
      cases h
      exact hu hr
    simpa [World.put, hne] using h
  · intro j u h hu
    by_cases hj : j = i
    · subst hj
      obtain rfl : t' = u := by simpa [World.put] using h
      exact ⟨t, ht, hr, hrole, he⟩
    · exact ⟨u, by simpa [World.put, hj] using h, hu, rfl, Or.inl rfl⟩

theorem keeps_byWorker (w : World) (i : Nat) (l : Label) :
    Keeps w (byWorker w i l) ∧ (byWorker w i l).starting = w.starting := by
  unfold byWorker
  cases ht : w.workers i with
  | none => exact ⟨.refl w, rfl⟩
  | some t =>
    by_cases hr : t.phase = .running
    · simp only [hr, if_true]
      cases l with
      | listen _ =>
        simp only [workerStep]
        split
        · exact ⟨.put ht hr rfl (Or.inr rfl), rfl⟩
        · exact ⟨.refl w, rfl⟩
      | flag _ value =>
        simp only [workerStep]
        split
        · exact ⟨.refl w, rfl⟩
        · exact ⟨.of_eq rfl rfl rfl rfl, rfl⟩
      | setStop _ =>
        simp only [workerStep]
        split
        · exact ⟨.of_eq rfl rfl rfl rfl, rfl⟩
        · exact ⟨.refl w, rfl⟩
      | leave _ =>
        simp only [workerStep]
        cases t.stopEvent with
        | none => exact ⟨.refl w, rfl⟩
        | some e =>
          dsimp only
          split
          · exact ⟨.of_eq rfl rfl rfl rfl, rfl⟩
          · exact ⟨.refl w, rfl⟩
      | finish _ =>
        simp only [workerStep]
        cases he : t.stopEvent with
        | none => exact ⟨.refl w, rfl⟩
        | some e =>
          dsimp only
          split
          · exact ⟨.put ht hr rfl (Or.inl he.symm), rfl⟩
          · exact ⟨.refl w, rfl⟩
      | crash _ => exact ⟨.put ht hr rfl (Or.inl rfl), rfl⟩
      | start | startStep | startExpires _ | stop _ _ | stopStep _ | stopRaises _ =>
        exact ⟨.refl w, rfl⟩
    · simp only [if_neg hr]
      exact ⟨.refl w, trivial⟩

theorem launches_nodup (cfg : Config) : (launches cfg).Nodup := by
  unfold launches
  split <;> split <;> decide

theorem stepped_startStep (cfg : Config) (w : World) : Stepped w (startStep cfg w) := by
  have hcalm : ∀ p, (∀ q, p = some q → q.calm = true) → Stepped w (w.startAt p) :=
    fun p hp => .kept _ (.of_eq rfl rfl rfl rfl) (Or.inr hp)
  have hstay : Stepped w w := .kept w (.refl w) (Or.inl rfl)
  unfold startStep
  cases hp : w.starting with
  | none => exact hstay
  | some p =>
    cases p with
    | begun =>
      dsimp only
      split
      · exact hcalm _ (by simp [StartPoint.calm])
      · next h => exact .looked hp (by simpa using h)
    | workerRunning =>
      dsimp only
      split
      · exact hcalm _ (by simp)
      · exact hcalm _ (by simp [StartPoint.calm])
    | joining left =>
      cases left with
      | nil => exact .allJoined hp
      | cons r left =>
        dsimp only
        split
        · exact hstay
        · next h => exact .joined r left hp (by simpa using h)
    | installing => exact .installed hp
    | clearing => exact .cleared _ hp (launches_nodup cfg)
    | launching left waits =>
      cases left with
      | nil => exact hcalm _ (by cases waits <;> simp [StartPoint.calm])
      | cons r left => exact .assigned r left waits hp
    | starting i left waits =>
      dsimp only
      cases ht : w.workers i with
      | none => exact hstay
      | some t => exact .started i t left waits hp ht
    | waiting =>
      dsimp only
      split
      · exact hcalm _ (by simp [StartPoint.calm])
      · exact hstay
    | ready =>
      dsimp only
      split
      · exact hcalm _ (by simp [StartPoint.calm])
      · exact hcalm _ (by simp)
    | timing =>
      dsimp only
      split
      · next h => exact .timed hp h.2.2
      · exact hcalm _ (by simp)

theorem keeps_stopStep (w : World) (call : Nat) :
    Keeps w (stopStep w call) ∧ (stopStep w call).starting = w.starting := by
  unfold stopStep
  cases w.stops call with
  | none => exact ⟨.refl w, rfl⟩
  | some s =>
    obtain ⟨caller, p⟩ := s
    cases p with
    | begun | flagged | closing => exact ⟨.of_eq rfl rfl rfl rfl, rfl⟩
    | joining left =>
      cases left with
      | nil => exact ⟨.of_eq rfl rfl rfl rfl, rfl⟩
      | cons i left =>
        dsimp only
        split
        · exact ⟨.refl w, rfl⟩
        · exact ⟨.of_eq rfl rfl rfl rfl, rfl⟩
    | returned | raised => exact ⟨.refl w, rfl⟩

theorem keeps_stopRaises (w : World) (call : Nat) :
    Keeps w (stopRaises w call) ∧ (stopRaises w call).starting = w.starting := by
  unfold stopRaises
  cases w.stops call with
  | none => exact ⟨.refl w, rfl⟩
  | some s =>
    dsimp only
    split
    · exact ⟨.of_eq rfl rfl rfl rfl, rfl⟩
    · split
      · exact ⟨.of_eq rfl rfl rfl rfl, rfl⟩
      · exact ⟨.refl w, rfl⟩
    · exact ⟨.refl w, rfl⟩

theorem stepped_startExpires (w : World) (call : Nat) : Stepped w (startExpires w call) := by
  unfold startExpires
  split
  · split
    · exact .kept _ (.of_eq rfl rfl rfl rfl) (Or.inr (by simp [World.startAt]))
    · exact .kept w (.refl w) (Or.inl rfl)
  · split
    · exact .kept w (.refl w) (Or.inl rfl)
    · exact .kept _ (.of_eq rfl rfl rfl rfl) (Or.inr (by simp [World.startAt, World.setStop]))
  · exact .kept w (.refl w) (Or.inl rfl)

theorem stepped_step (cfg : Config) (w : World) (l : Label) : Stepped w (step cfg w l) := by
  have hkept : ∀ w', Keeps w w' ∧ w'.starting = w.starting → Stepped w w' :=
    fun w' h => .kept w' h.1 (Or.inl h.2)
  cases l with
  | start =>
    simp only [step]
    split
    · exact .kept _ (.of_eq rfl rfl rfl rfl) (Or.inr (by simp [World.startAt, StartPoint.calm]))
    · exact .kept w (.refl w) (Or.inl rfl)
  | startStep => exact stepped_startStep cfg w
  | startExpires call => exact stepped_startExpires w call
  | stop call caller =>
    simp only [step]
    split
    · exact .kept w (.refl w) (Or.inl rfl)
    · exact hkept _ ⟨.of_eq rfl rfl rfl rfl, rfl⟩
  | stopStep call => exact hkept _ (keeps_stopStep w call)
  | stopRaises call => exact hkept _ (keeps_stopRaises w call)
  | listen i => exact hkept _ (keeps_byWorker w i _)
  | flag i value => exact hkept _ (keeps_byWorker w i _)
  | setStop i => exact hkept _ (keeps_byWorker w i _)
  | leave i => exact hkept _ (keeps_byWorker w i _)
  | finish i => exact hkept _ (keeps_byWorker w i _)
  | crash i => exact hkept _ (keeps_byWorker w i _)

/-! ## What holds of the threads -/

/-- What a call of `start` has made sure of. -/
def Placed (w : World) : Option StartPoint → Prop
  | some (.joining left) => ∀ r, r ∉ left → Dead w r
  | some .installing => ∀ r, Dead w r
  | some .clearing => ∀ r, Dead w r
  | some (.launching left _) => left.Nodup ∧ ∀ r ∈ left, Dead w r
  | some (.starting i left _) => left.Nodup ∧ (∀ r ∈ left, Dead w r) ∧
      ∃ r, w.workers i = some { role := r } ∧ r ∉ left ∧ Dead w r ∧ w.held r = some i
  | _ => True

/-- A running thread is the one that its attribute holds, and listens to the current event
or has not begun to listen. -/
structure Sound (w : World) : Prop where
  owned : ∀ i t, w.workers i = some t → t.phase = .running → w.held t.role = some i
  listens : ∀ i t e, w.workers i = some t → t.phase = .running → t.stopEvent = some e →
    e = w._stopEvent
  fresh : ∀ i, w.nextWorker ≤ i → w.workers i = none
  placed : Placed w w.starting

theorem sound_init : Sound init := by
  refine ⟨?_, ?_, ?_, trivial⟩
  · intro i t h hr
    simp only [init] at h
    split at h
    · cases h
      simp at hr
    · simp at h
  · intro i t e h hr
    simp only [init] at h
    split at h
    · cases h
      simp at hr
    · simp at h
  · intro i hi
    simp only [init] at hi ⊢
    rw [if_neg (by omega)]

theorem Sound.dead {w : World} (hw : Sound w) {r : Role} (h : w.isAlive r = false) : Dead w r := by
  intro i t ht hr hrole
  have hown := hw.owned i t ht hr
  simp [World.isAlive, ← hrole, hown, World.running, ht, hr] at h

theorem Keeps.dead {w w' : World} (h : Keeps w w') {r : Role} (hd : Dead w r) : Dead w' r := by
  intro i t' ht' hr'
  obtain ⟨t, ht, hr, hrole, -⟩ := h.running i t' ht' hr'
  rw [← hrole]
  exact hd i t ht hr

theorem Keeps.placed {w w' : World} (h : Keeps w w') {p : Option StartPoint} (hp : Placed w p) :
    Placed w' p := by
  cases p with
  | none => trivial
  | some p =>
    cases p with
    | joining left => exact fun r hr => h.dead (hp r hr)
    | installing | clearing => exact fun r => h.dead (hp r)
    | launching left waits => exact ⟨hp.1, fun r hr => h.dead (hp.2 r hr)⟩
    | starting i left waits =>
      obtain ⟨hn, hl, r, hi, hmem, hd, hheld⟩ := hp
      exact ⟨hn, fun r hr => h.dead (hl r hr), r, h.still i _ hi (by simp), hmem, h.dead hd,
        by rw [h.held, hheld]⟩
    | begun | workerRunning | waiting | ready | timing => trivial

theorem Keeps.sound {w w' : World} (h : Keeps w w') (hw : Sound w)
    (hp : Placed w' w'.starting) : Sound w' := by
  refine ⟨?_, ?_, ?_, hp⟩
  · intro i t' ht' hr'
    obtain ⟨t, ht, hr, hrole, -⟩ := h.running i t' ht' hr'
    rw [h.held, ← hrole]
    exact hw.owned i t ht hr
  · intro i t' e ht' hr' he
    obtain ⟨t, ht, hr, -, he' | he'⟩ := h.running i t' ht' hr'
    · rw [h.event]
      exact hw.listens i t e ht hr (he' ▸ he)
    · rw [he'] at he
      rw [h.event]
      exact (Option.some.inj he).symm
  · intro i hi
    rw [h.next] at hi
    exact h.known i (hw.fresh i hi)

theorem placed_calm (w : World) {p : Option StartPoint} (h : ∀ q, p = some q → q.calm = true) :
    Placed w p := by
  cases p with
  | none => trivial
  | some p =>
    have := h p rfl
    cases p <;> trivial

/-- `start` goes on at another point and leaves the threads alone. -/
theorem Sound.startAt {w : World} (hw : Sound w) {p : Option StartPoint} (hp : Placed w p) :
    Sound (w.startAt p) := by
  have hk : Keeps w (w.startAt p) := .of_eq rfl rfl rfl rfl
  exact hk.sound hw (hk.placed hp)

/-- An attribute whose thread is dead gets a thread that is not started. -/
theorem Sound.assign {w : World} (hw : Sound w) {r : Role} {left : List Role} (waits : Bool)
    (hn : (r :: left).Nodup) (hd : ∀ s ∈ r :: left, Dead w s) :
    Sound ((w.assign r).startAt (some (.starting w.nextWorker left waits))) := by
  have hold : ∀ i t, (w.assign r).workers i = some t → t.phase = .running → w.workers i = some t := by
    intro i t h hr
    by_cases hi : i = w.nextWorker
    · subst hi
      obtain rfl : ({ role := r } : Worker) = t := by simpa [World.assign] using h
      simp at hr
    · simpa [World.assign, hi] using h
  have hdead : ∀ s, Dead w s → Dead (w.assign r) s :=
    fun s hs i t h hr => hs i t (hold i t h hr) hr
  rw [List.nodup_cons] at hn
  refine ⟨?_, ?_, ?_, hn.2, ?_, r, ?_, hn.1, ?_, ?_⟩
  · intro i t h hr
    have hne : t.role ≠ r := hd r List.mem_cons_self i t (hold i t h hr) hr
    simpa [World.startAt, World.assign, hne] using hw.owned i t (hold i t h hr) hr
  · exact fun i t e h hr he => hw.listens i t e (hold i t h hr) hr he
  · intro i hi
    simp only [World.startAt, World.assign] at hi ⊢
    rw [Function.update_of_ne (by omega)]
    exact hw.fresh i (by omega)
  · exact fun s hs => hdead s (hd s (List.mem_cons_of_mem r hs))
  · simp [World.startAt, World.assign]
  · exact hdead r (hd r List.mem_cons_self)
  · simp [World.startAt, World.assign]

/-- The thread that was assigned begins to run. -/
theorem Sound.started {w : World} (hw : Sound w) {i : Nat} {left : List Role} (waits : Bool)
    (hp : Placed w (some (.starting i left waits))) {t : Worker} (ht : w.workers i = some t) :
    Sound ((w.put i { t with phase := .running }).startAt (some (.launching left waits))) := by
  obtain ⟨hn, hl, r, hi, hmem, hd, hheld⟩ := hp
  obtain rfl : ({ role := r } : Worker) = t := Option.some.inj (hi.symm.trans ht)
  refine ⟨?_, ?_, ?_, hn, ?_⟩
  · intro j u h hr
    by_cases hj : j = i
    · subst hj
      obtain rfl : ({ role := r, phase := .running } : Worker) = u := by
        simpa [World.startAt, World.put] using h
      exact hheld
    · exact hw.owned j u (by simpa [World.startAt, World.put, hj] using h) hr
  · intro j u e h hr he
    by_cases hj : j = i
    · subst hj
      obtain rfl : ({ role := r, phase := .running } : Worker) = u := by
        simpa [World.startAt, World.put] using h
      simp at he
    · exact hw.listens j u e (by simpa [World.startAt, World.put, hj] using h) hr he
  · intro j hj
    have hne : j ≠ i := by
      rintro rfl
      have := hw.fresh j (by simpa [World.startAt, World.put] using hj)
      simp [this] at hi
    have := hw.fresh j (by simpa [World.startAt, World.put] using hj)
    simpa [World.startAt, World.put, hne] using this
  · intro s hs j u h hr
    by_cases hj : j = i
    · subst hj
      obtain rfl : ({ role := r, phase := .running } : Worker) = u := by
        simpa [World.startAt, World.put] using h
      rintro rfl
      exact hmem hs
    · exact hl s hs j u (by simpa [World.startAt, World.put, hj] using h) hr

theorem sound_step (cfg : Config) {w : World} (hw : Sound w) (l : Label) : Sound (step cfg w l) := by
  have h := stepped_step cfg w l
  generalize step cfg w l = w' at h ⊢
  have hplaced := hw.placed
  cases h with
  | kept _ hk hs =>
    rcases hs with hs | hs
    · rw [← hs] at hplaced
      exact hk.sound hw (hk.placed hplaced)
    · exact hk.sound hw (placed_calm w' hs)
  | looked hp hd =>
    refine hw.startAt (fun r hr => ?_)
    cases r with
    | process => exact hw.dead hd
    | restart | watchdog | readiness => simp at hr
  | joined r left hp hd =>
    rw [hp] at hplaced
    refine hw.startAt (fun s hs => ?_)
    by_cases hsr : s = r
    · rw [hsr]
      exact hw.dead hd
    · exact hplaced s (by simp [hsr, hs])
  | allJoined hp =>
    rw [hp] at hplaced
    exact hw.startAt (fun r => hplaced r List.not_mem_nil)
  | installed hp =>
    rw [hp] at hplaced
    exact ⟨hw.owned, fun i t e ht hr => absurd rfl (hplaced t.role i t ht hr), hw.fresh, hplaced⟩
  | cleared left hp hn =>
    rw [hp] at hplaced
    exact ⟨hw.owned, hw.listens, hw.fresh, hn, fun r _ => hplaced r⟩
  | assigned r left waits hp =>
    rw [hp] at hplaced
    exact hw.assign waits hplaced.1 hplaced.2
  | started i t left waits hp ht =>
    rw [hp] at hplaced
    exact hw.started waits hplaced ht
  | timed hp hd =>
    refine hw.startAt ⟨by simp, fun r hr => ?_⟩
    rw [List.mem_singleton.mp hr]
    exact hw.dead hd

theorem sound_run (cfg : Config) (as : List Label) : Sound (run (step cfg) init as) :=
  run_induction (P := Sound) (fun _ l h => sound_step cfg h l) sound_init as

/-- One thread of a kind runs at most, all of them listen to the current event, and a new
event is made only when none is running. -/
structure Exclusive (cfg : Config) (w : World) : Prop where
  unique : ∀ i j t u, w.workers i = some t → t.phase = .running → w.workers j = some u →
    u.phase = .running → t.role = u.role → i = j
  listens : ∀ i t e, w.workers i = some t → t.phase = .running → t.stopEvent = some e →
    e = w._stopEvent
  renewed : ∀ l, (step cfg w l)._stopEvent ≠ w._stopEvent → ∀ i, w.running i = false

theorem workers_exclusive (cfg : Config) (as : List Label) :
    Exclusive cfg (run (step cfg) init as) := by
  have hs := sound_run cfg as
  generalize run (step cfg) init as = w at hs ⊢
  refine ⟨?_, hs.listens, ?_⟩
  · intro i j t u ht htr hu hur hrole
    have hi := hs.owned i t ht htr
    have hj := hs.owned j u hu hur
    rw [hrole, hj] at hi
    exact (Option.some.inj hi).symm
  · intro l hne i
    have h := stepped_step cfg w l
    generalize step cfg w l = w' at h hne
    cases h with
    | kept _ hk _ => exact absurd hk.event hne
    | installed hp =>
      have hd := hs.placed
      rw [hp] at hd
      cases ht : w.workers i with
      | none => simp [World.running, ht]
      | some t =>
        have : t.phase ≠ .running := fun hr => hd t.role i t ht hr rfl
        simp [World.running, ht, this]
    | _ => exact absurd rfl hne

/-! ## A call of `stop` -/

/-- The threads that a call of `stop` has still to look at are the only ones that run. -/
def Leaves (w : World) (s : StopCall) : Prop := match s.point with
  | .joining left => ∀ i, w.running i = true → s.caller = some i ∨ i ∈ left
  | .returned => ∀ i, w.running i = true → s.caller = some i
  | _ => True

theorem Keeps.runs {w w' : World} (h : Keeps w w') {i : Nat} (hi : w'.running i = true) :
    w.running i = true := by
  cases ht' : w'.workers i with
  | none => simp [World.running, ht'] at hi
  | some t' =>
    obtain ⟨t, ht, hr, -, -⟩ := h.running i t' ht' (by simpa [World.running, ht'] using hi)
    simp [World.running, ht, hr]

theorem Keeps.leaves {w w' : World} (h : Keeps w w') {s : StopCall} (hs : Leaves w s) :
    Leaves w' s := by
  obtain ⟨caller, p⟩ := s
  cases p with
  | joining left => exact fun i hi => hs i (h.runs hi)
  | returned => exact fun i hi => hs i (h.runs hi)
  | begun | flagged | closing | raised => trivial

/-- With no call of `start` in progress, no thread is made. -/
theorem idle_step (cfg : Config) {w : World} (hw : w.starting = none) {l : Label}
    (hl : l ≠ .start) : Keeps w (step cfg w l) ∧ (step cfg w l).starting = none := by
  have hkept : ∀ w', Keeps w w' ∧ w'.starting = w.starting → Keeps w w' ∧ w'.starting = none :=
    fun w' h => ⟨h.1, h.2.trans hw⟩
  cases l with
  | start => exact absurd rfl hl
  | startStep =>
    have : step cfg w .startStep = w := by simp [step, startStep, hw]
    rw [this]
    exact ⟨.refl w, hw⟩
  | startExpires call =>
    have : step cfg w (.startExpires call) = w := by simp [step, startExpires, hw]
    rw [this]
    exact ⟨.refl w, hw⟩
  | stop call caller =>
    simp only [step]
    split
    · exact ⟨.refl w, hw⟩
    · exact ⟨.of_eq rfl rfl rfl rfl, hw⟩
  | stopStep call => exact hkept _ (keeps_stopStep w call)
  | stopRaises call => exact hkept _ (keeps_stopRaises w call)
  | listen i => exact hkept _ (keeps_byWorker w i _)
  | flag i value => exact hkept _ (keeps_byWorker w i _)
  | setStop i => exact hkept _ (keeps_byWorker w i _)
  | leave i => exact hkept _ (keeps_byWorker w i _)
  | finish i => exact hkept _ (keeps_byWorker w i _)
  | crash i => exact hkept _ (keeps_byWorker w i _)

theorem stops_byWorker (w : World) (i : Nat) (l : Label) : (byWorker w i l).stops = w.stops := by
  unfold byWorker
  cases w.workers i with
  | none => rfl
  | some t =>
    dsimp only
    split
    · unfold workerStep
      split <;> try split
      all_goals first | rfl | (split <;> rfl)
    · rfl

/-- The tuple of `stop` has every thread that runs. -/
theorem mem_tuple {w : World} (hw : Sound w) {i : Nat} (hi : w.running i = true) : i ∈ tuple w := by
  cases ht : w.workers i with
  | none => simp [World.running, ht] at hi
  | some t =>
    have hown := hw.owned i t ht (by simpa [World.running, ht] using hi)
    rw [tuple, List.mem_filterMap]
    refine ⟨t.role, ?_, hown⟩
    cases t.role <;> decide

/-- A step of the call itself. -/
theorem leaves_stopStep {w : World} (hw : Sound w) {call : Nat} {s : StopCall}
    (hc : w.stops call = some s) (hs : Leaves w s) :
    ∃ s', (stopStep w call).stops call = some s' ∧ s'.caller = s.caller ∧
      Leaves (stopStep w call) s' := by
  obtain ⟨caller, p⟩ := s
  unfold stopStep
  rw [hc]
  cases p with
  | begun => exact ⟨⟨caller, .flagged⟩, by simp [World.setStop], rfl, trivial⟩
  | flagged => exact ⟨⟨caller, .closing⟩, by simp [World.setStop], rfl, trivial⟩
  | closing =>
    exact ⟨⟨caller, .joining (tuple w)⟩, by simp [World.setStop], rfl,
      fun i hi => Or.inr (mem_tuple hw hi)⟩
  | joining left =>
    cases left with
    | nil =>
      refine ⟨⟨caller, .returned⟩, by simp [World.setStop], rfl, fun i hi => ?_⟩
      rcases hs i hi with h | h
      · exact h
      · simp at h
    | cons j left =>
      dsimp only
      split
      · exact ⟨_, hc, rfl, hs⟩
      · next h =>
        refine ⟨⟨caller, .joining left⟩, by simp [World.setStop], rfl, fun i hi => ?_⟩
        rcases hs i hi with hi' | hi'
        · exact Or.inl hi'
        · rcases List.mem_cons.mp hi' with rfl | hi'
          · left
            by_contra hne
            exact h ⟨fun he => hne he.symm, hi⟩
          · exact Or.inr hi'
  | returned => exact ⟨_, hc, rfl, hs⟩
  | raised => exact ⟨_, hc, rfl, hs⟩

theorem leaves_stopRaises {w : World} {call : Nat} {s : StopCall} (hc : w.stops call = some s)
    (hs : Leaves w s) : ∃ s', (stopRaises w call).stops call = some s' ∧ s'.caller = s.caller ∧
      Leaves (stopRaises w call) s' := by
  obtain ⟨caller, p⟩ := s
  unfold stopRaises
  rw [hc]
  dsimp only
  split
  · exact ⟨⟨caller, .raised⟩, by simp [World.setStop], rfl, trivial⟩
  · split
    · exact ⟨⟨caller, .raised⟩, by simp [World.setStop], rfl, trivial⟩
    · exact ⟨_, hc, rfl, hs⟩
  · exact ⟨_, hc, rfl, hs⟩

theorem leaves_step (cfg : Config) {w : World} (hw : Sound w) (hi : w.starting = none) {l : Label}
    (hl : l ≠ .start) {call : Nat} {s : StopCall} (hc : w.stops call = some s) (hs : Leaves w s) :
    ∃ s', (step cfg w l).stops call = some s' ∧ s'.caller = s.caller ∧ Leaves (step cfg w l) s' := by
  have hk := (idle_step cfg hi hl).1
  have hother : (step cfg w l).stops call = w.stops call →
      ∃ s', (step cfg w l).stops call = some s' ∧ s'.caller = s.caller ∧ Leaves (step cfg w l) s' :=
    fun h => ⟨s, h.trans hc, rfl, hk.leaves hs⟩
  cases l with
  | start => exact absurd rfl hl
  | startStep => exact hother (by simp [step, startStep, hi])
  | startExpires c => exact hother (by simp [step, startExpires, hi])
  | stop c caller =>
    apply hother
    simp only [step]
    split
    · rfl
    · next h =>
      have hne : call ≠ c := by
        rintro rfl
        simp [hc] at h
      simp [World.setStop, hne]
  | stopStep c =>
    by_cases h : c = call
    · subst h
      exact leaves_stopStep hw hc hs
    · apply hother
      simp only [step]
      unfold stopStep
      cases w.stops c with
      | none => rfl
      | some s =>
        obtain ⟨caller, p⟩ := s
        have hne : call ≠ c := fun he => h he.symm
        cases p with
        | begun | flagged | closing => simp [World.setStop, World.setEvent, hne]
        | joining left =>
          cases left with
          | nil => simp [World.setStop, hne]
          | cons j left =>
            dsimp only
            split <;> simp [World.setStop, hne]
        | returned | raised => rfl
  | stopRaises c =>
    by_cases h : c = call
    · subst h
      exact leaves_stopRaises hc hs
    · apply hother
      simp only [step]
      unfold stopRaises
      have hne : call ≠ c := fun he => h he.symm
      cases w.stops c with
      | none => rfl
      | some s =>
        dsimp only
        split
        · simp [World.setStop, hne]
        · split <;> simp [World.setStop, hne]
        · rfl
  | listen i => exact hother (congrFun (stops_byWorker w i _) call)
  | flag i value => exact hother (congrFun (stops_byWorker w i _) call)
  | setStop i => exact hother (congrFun (stops_byWorker w i _) call)
  | leave i => exact hother (congrFun (stops_byWorker w i _) call)
  | finish i => exact hother (congrFun (stops_byWorker w i _) call)
  | crash i => exact hother (congrFun (stops_byWorker w i _) call)

theorem leaves_run (cfg : Config) {w : World} (hw : Sound w) (hi : w.starting = none)
    {as : List Label} (has : Label.start ∉ as) {call : Nat} {s : StopCall}
    (hc : w.stops call = some s) (hs : Leaves w s) :
    ∃ s', (run (step cfg) w as).stops call = some s' ∧ s'.caller = s.caller ∧
      Leaves (run (step cfg) w as) s' := by
  induction as generalizing w s with
  | nil => exact ⟨s, hc, rfl, hs⟩
  | cons l as ih =>
    have hl : l ≠ .start := fun h => has (by simp [h])
    obtain ⟨s', hc', hcaller, hs'⟩ := leaves_step cfg hw hi hl hc hs
    obtain ⟨s'', hc'', hcaller', hs''⟩ := ih (sound_step cfg hw l) (idle_step cfg hi hl).2
      (fun h => has (List.mem_cons_of_mem l h)) hc' hs'
    exact ⟨s'', hc'', hcaller'.trans hcaller, hs''⟩

/-- Where no call of `start` is in progress, a `stop` that returns leaves no thread running
but the one that has called it. -/
theorem stop_returns (cfg : Config) (pre as : List Label) (call : Nat) (caller : Option Nat)
    (hidle : (run (step cfg) init pre).starting = none)
    (hnew : (run (step cfg) init pre).stops call = none) (has : Label.start ∉ as)
    (hend : (run (step cfg) init (pre ++ .stop call caller :: as)).stops call =
      some ⟨caller, .returned⟩) (i : Nat)
    (hi : (run (step cfg) init (pre ++ .stop call caller :: as)).running i = true) :
    caller = some i := by
  have hw := sound_run cfg pre
  rw [run_append, run_cons] at hend hi
  generalize run (step cfg) init pre = w at hidle hnew hw hend hi
  have hstop : step cfg w (.stop call caller) = w.setStop call ⟨caller, .begun⟩ := by
    simp [step, hnew]
  rw [hstop] at hend hi
  have hw' : Sound (w.setStop call ⟨caller, .begun⟩) := hstop ▸ sound_step cfg hw _
  obtain ⟨s, hs, -, hleaves⟩ := leaves_run cfg hw' hidle has
    (by simp [World.setStop] : (w.setStop call ⟨caller, .begun⟩).stops call =
      some ⟨caller, .begun⟩) trivial
  rw [hs] at hend
  obtain rfl := Option.some.inj hend
  exact hleaves i hi

/-- A `start` that makes the socket thread, numbered 1, and its readiness watchdog. -/
def started : List Label :=
  .start :: List.replicate 12 .startStep ++ [.listen 1, .listen 2, .flag 1 true] ++
    List.replicate 3 .startStep

def stopping : List Label :=
  [.stopStep 0, .stopStep 0, .stopStep 0, .stopStep 0, .finish 2, .stopStep 0, .stopStep 0]

/-- A callback calls `stop`, and is the only one that runs when it has returned. -/
theorem stop_returns_callback :
    (run (step ⟨0, 0, 30⟩) init (started ++ .stop 0 (some 1) :: stopping)).running 1 = true ∧
      some 1 = some 1 := by
  have h : (run (step ⟨0, 0, 30⟩) init (started ++ .stop 0 (some 1) :: stopping)).running 1 = true := by
    decide
  exact ⟨h, stop_returns ⟨0, 0, 30⟩ started stopping 0 (some 1) (by decide) (by decide) (by decide)
    (by decide) 1 h⟩

end SocketWorkers
