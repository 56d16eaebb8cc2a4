import Mathlib.Logic.Function.Basic
import BtApiBase.Runs

/-!
# The life of the forwarding runtime

`start_in_thread` and `stop` run one after the other in one thread; a step is one of
their statements. The threads of `_pump_adapter_output` and what the adapters emit come
between any two of them. The runtime has one stop event for all its starts, and a pump
thread whose `join` ran into its timeout is still there.
-/

namespace ForwardingLifecycle

open Runs

/-- `_state` -/
inductive State where
  | stopped | starting | running | error | stopping
  deriving DecidableEq, Repr

/-- `_command_server`, `_event_publisher` and `_market_publisher`. -/
inductive Resource where
  | commandServer | eventPublisher | marketPublisher
  deriving DecidableEq, Repr

/-- The statement that `start_in_thread` is at; `serverStart` is `_command_server.start()`. -/
inductive Stage where
  | create (r : Resource) | serverStart | adapter | connect | pump
  deriving DecidableEq, Repr

/-- The statement that `_cleanup` is at. -/
inductive Cleaning where
  | setStop | joinPump | close (r : Resource) | disconnect
  deriving DecidableEq, Repr

/-- The method that is in progress; `stopping` tells whether `stop` has called `_cleanup`. -/
inductive Controller where
  | starting (stage : Stage)
  | cleaning (at_ : Cleaning) (stopping : Bool)
  deriving DecidableEq, Repr

variable {α : Type}

/-- A thread of `_pump_adapter_output`: before its test of the event, in `poll_output` of an
adapter, or with an item of it. -/
inductive Pump (α : Type) where
  | unstarted
  | head
  | polling (adapter : Nat)
  | holding (adapter : Nat) (item : α)
  | ended
  deriving DecidableEq, Repr

def live : Pump α → Bool
  | .unstarted | .ended => false
  | .head | .polling _ | .holding _ _ => true

/-- What has become of an item; it is `failed` with an error that is recorded, and `dropped`
without one. -/
inductive Fate where
  | published | failed | dropped
  deriving DecidableEq, Repr

/-- An item that the runtime is done with. -/
structure Handled (α : Type) where
  adapter : Nat
  item : α
  fate : Fate
  deriving DecidableEq, Repr

structure World (α : Type) where
  _state : State
  _adapterConnected : Bool
  _stop : Bool
  _pumpThread : Option Nat
  held : Resource → Option Nat
  adapter : Option Nat
  controller : Option Controller
  pumps : List (Pump α)
  /-- The resources that were made and not closed. -/
  opened : Resource → Nat → Bool
  nextResource : Nat
  nextAdapter : Nat
  /-- `connect` has returned and `disconnect` was not called since. -/
  connected : Nat → Bool
  queues : Nat → List α
  emitted : Nat → List α
  handled : List (Handled α)

def Pump.isUnstarted : Pump α → Bool
  | .unstarted => true
  | _ => false

def init : World α where
  _state := .stopped
  _adapterConnected := false
  _stop := false
  _pumpThread := none
  held _ := none
  adapter := none
  controller := none
  pumps := []
  opened _ _ := false
  nextResource := 0
  nextAdapter := 0
  connected _ := false
  queues _ := []
  emitted _ := []
  handled := []

inductive Outcome where
  | returns
  /-- `consumed`: the adapter has taken an item from its queue before. -/
  | raises (consumed : Bool)
  deriving DecidableEq, Repr

inductive Label (α : Type) where
  /-- `resolved`: the bridge is loaded and the adapter class found. -/
  | startInThread (resolved : Bool)
  | stop
  /-- The controller's next statement, which returns or raises. -/
  | proceed (ok : Bool)
  | joinTimeout
  | pump (i : Nat) (outcome : Outcome)
  | emit (adapter : Nat) (item : α)
  deriving DecidableEq, Repr

/-- The publisher of an item: one for the market, one for everything else. -/
def publisherOf (market : α → Bool) (x : α) : Resource :=
  if market x then .marketPublisher else .eventPublisher

/-- What `start_in_thread` makes after this. -/
def Stage.afterCreate : Resource → Stage
  | .eventPublisher => .create .marketPublisher
  | .marketPublisher => .create .commandServer
  | .commandServer => .serverStart

/-- What `_cleanup` does after it has closed this. -/
def Cleaning.afterClose : Resource → Cleaning
  | .commandServer => .close .eventPublisher
  | .eventPublisher => .close .marketPublisher
  | .marketPublisher => .disconnect

namespace World

variable (w : World α)

/-- The `except` clause of `start_in_thread`. -/
def fail : World α := { w with _state := .error, controller := some (.cleaning .setStop false) }

def create (r : Resource) : World α := { w with
  held := Function.update w.held r (some w.nextResource)
  opened := Function.update w.opened r (Function.update (w.opened r) w.nextResource true)
  nextResource := w.nextResource + 1
  controller := some (.starting (.afterCreate r)) }

def connect : World α := match w.adapter with
  | some a => { w with
    connected := Function.update w.connected a true
    _adapterConnected := true
    _state := .running
    controller := some (.starting .pump) }
  | none => w.fail

/-- The pump thread is made; `p` is `head` if `start()` returns. -/
def makePump (p : Pump α) : World α := { w with
  pumps := w.pumps ++ [p]
  _pumpThread := some w.pumps.length }

def proceedStart (ok : Bool) : Stage → World α
  | .create r => if ok then w.create r else w.fail
  | .serverStart => if ok then { w with controller := some (.starting .adapter) } else w.fail
  | .adapter =>
    if ok then { w with
      adapter := some w.nextAdapter
      nextAdapter := w.nextAdapter + 1
      controller := some (.starting .connect) }
    else w.fail
  | .connect => if ok then w.connect else w.fail
  | .pump =>
    if ok then { w.makePump .head with controller := none } else (w.makePump .unstarted).fail

/-- `_cleanup` raises. -/
def abort : World α := { w with controller := none }

def close (r : Resource) (n : Nat) : World α := { w with
  held := Function.update w.held r none
  opened := Function.update w.opened r (Function.update (w.opened r) n false) }

/-- The end of `_cleanup`, and of `stop`. -/
def disconnect (stopping : Bool) : World α := { w with
  connected := match w.adapter with
    | some a => if w._adapterConnected then Function.update w.connected a false else w.connected
    | none => w.connected
  _adapterConnected := false
  _state := if stopping then .stopped else w._state
  controller := none }

def cleanAt (c : Cleaning) (stopping : Bool) : World α :=
  { w with controller := some (.cleaning c stopping) }

def proceedCleanup (ok stopping : Bool) : Cleaning → World α
  | .setStop => { w with _stop := true }.cleanAt .joinPump stopping
  | .joinPump => match w._pumpThread with
    | none => w.cleanAt (.close .commandServer) stopping
    | some i => match w.pumps[i]? with
      | some .unstarted => w.abort
      | some .ended => { w with _pumpThread := none }.cleanAt (.close .commandServer) stopping
      | _ => w
  | .close r => match w.held r with
    | none => w.cleanAt (.afterClose r) stopping
    | some n => if ok then (w.close r n).cleanAt (.afterClose r) stopping else w.abort
  | .disconnect => w.disconnect stopping

def goTo (i : Nat) (p : Pump α) : World α := { w with pumps := w.pumps.set i p }

/-- `poll_output` takes the first item of the queue. -/
def take (a : Nat) (rest : List α) : World α := { w with queues := Function.update w.queues a rest }

def done (a : Nat) (x : α) (fate : Fate) : World α :=
  { w with handled := w.handled ++ [⟨a, x, fate⟩] }

/-- `_publish_adapter_item`, which does nothing and returns where the publisher is `None`. -/
def publish (market : α → Bool) (x : α) : Outcome → Fate
  | .returns => if (w.held (publisherOf market x)).isSome then .published else .dropped
  | .raises _ => .failed

/-- One step of `_pump_adapter_output`. -/
def pump (market : α → Bool) (i : Nat) (outcome : Outcome) : World α := match w.pumps[i]? with
  | some .head =>
    if w._stop then w.goTo i .ended
    else match w.adapter with
      | some a => w.goTo i (.polling a)
      | none => w
  | some (.polling a) => match outcome, w.queues a with
    | .returns, x :: rest => (w.take a rest).goTo i (.holding a x)
    | .raises true, x :: rest => ((w.take a rest).done a x .failed).goTo i .head
    | _, _ => w.goTo i .head
  | some (.holding a x) => (w.done a x (w.publish market x outcome)).goTo i .head
  | _ => w

end World

def step (market : α → Bool) (w : World α) : Label α → World α
  | .startInThread resolved =>
    if w.controller ≠ none ∨ w._state = .running ∨ resolved = false then w
    else { w with
      _stop := false
      _state := .starting
      controller := some (.starting (.create .eventPublisher)) }
  | .stop =>
    if w.controller ≠ none ∨ w._state = .stopped ∧ w._adapterConnected = false then w
    else { w with _state := .stopping, controller := some (.cleaning .setStop true) }
  | .proceed ok => match w.controller with
    | none => w
    | some (.starting stage) => w.proceedStart ok stage
    | some (.cleaning c stopping) => w.proceedCleanup ok stopping c
  | .joinTimeout => match w.controller, w._pumpThread with
    | some (.cleaning .joinPump stopping), some i =>
      if w.pumps[i]?.any Pump.isUnstarted then w
      else { w with _pumpThread := none }.cleanAt (.close .commandServer) stopping
    | _, _ => w
  | .pump i outcome => w.pump market i outcome
  | .emit a x => { w with
    queues := Function.update w.queues a (w.queues a ++ [x])
    emitted := Function.update w.emitted a (w.emitted a ++ [x]) }

/-! ## Resources -/

/-- The step raises out of `_cleanup`: something refuses to close, or the pump thread was
never started and cannot be joined. -/
def raisesInCleanup (w : World α) : Label α → Bool
  | .proceed ok => match w.controller with
    | some (.cleaning .joinPump _) =>
      w._pumpThread.any fun i => w.pumps[i]?.any Pump.isUnstarted
    | some (.cleaning (.close r) _) => (w.held r).isSome && !ok
    | _ => false
  | _ => false

/-- The `join` gives up on a thread that goes on. -/
def leavesPump (w : World α) : Label α → Bool
  | .joinTimeout => match w.controller with
    | some (.cleaning .joinPump _) => w._pumpThread.any fun i => w.pumps[i]?.any live
    | _ => false
  | _ => false

/-- What `start_in_thread` has made before the statement. -/
def Stage.made : Stage → Resource → Bool
  | .create .eventPublisher, _ => false
  | .create .marketPublisher, r => r = .eventPublisher
  | .create .commandServer, r => r ≠ .commandServer
  | _, _ => true

/-- What `_cleanup` has closed before the statement. -/
def Cleaning.closed : Cleaning → Resource → Bool
  | .close .eventPublisher, r => r = .commandServer
  | .close .marketPublisher, r => r ≠ .marketPublisher
  | .disconnect, _ => true
  | _, _ => false

/-- Where the controller is: in a method, or at rest. -/
def Placed (w : World α) : Option Controller → Prop
  | some (.starting stage) => (∀ r, (w.held r).isSome = stage.made r) ∧
      w._adapterConnected = decide (stage = .pump) ∧ (stage = .pump → w._state = .running) ∧
      w._pumpThread = none
  | some (.cleaning c stopping) => (∀ r, c.closed r = true → w.held r = none) ∧
      (w._state = if stopping then .stopping else .error) ∧
      (c = .setStop ∨ c = .joinPump ∨ w._pumpThread = none)
  | none => w._state = .running ∧ w._adapterConnected = true ∧ (∀ r, (w.held r).isSome = true) ∨
      (w._state = .stopped ∨ w._state = .error) ∧ w._adapterConnected = false ∧ ∀ r, w.held r = none

/-- Open is what the attributes hold, connected the adapter that `_adapter_connected` is about,
and no pump thread goes on but that of `_pump_thread`, which is there only with a connected
adapter. At rest the runtime either runs with all of it or has nothing left. -/
structure Tidy (w : World α) : Prop where
  opened : ∀ r n, w.opened r n = true ↔ w.held r = some n
  connected : ∀ a, w.connected a = true ↔ w._adapterConnected = true ∧ w.adapter = some a
  alone : ∀ i p, w.pumps[i]? = some p → live p = true → w._pumpThread = some i
  pump : w._pumpThread.isSome = true → w._adapterConnected = true
  placed : Placed w w.controller

theorem tidy_init : Tidy (init (α := α)) :=
  ⟨by simp [init], by simp [init], by simp [init], by simp [init], Or.inr ⟨Or.inl rfl, rfl, fun _ => rfl⟩⟩

section

variable {w : World α}

/-- A step that touches neither the resources nor the connection. -/
theorem Tidy.move (h : Tidy w) {w' : World α} (ho : w'.opened = w.opened) (hh : w'.held = w.held)
    (hc : w'.connected = w.connected) (ha : w'._adapterConnected = w._adapterConnected)
    (hd : w'.adapter = w.adapter)
    (hl : ∀ i p, w'.pumps[i]? = some p → live p = true → w'._pumpThread = some i)
    (hp : w'._pumpThread.isSome = true → w._pumpThread.isSome = true)
    (hplaced : Placed w' w'.controller) : Tidy w' := by
  refine ⟨?_, ?_, hl, ?_, hplaced⟩
  · intro r n
    rw [ho, hh]
    exact h.opened r n
  · intro a
    rw [hc, ha, hd]
    exact h.connected a
  · intro hs
    rw [ha]
    exact h.pump (hp hs)

theorem Tidy.fail (h : Tidy w) : Tidy w.fail :=
  h.move rfl rfl rfl rfl rfl h.alone id ⟨by simp [Cleaning.closed], rfl, Or.inl rfl⟩

theorem Tidy.create (h : Tidy w) {r : Resource} (hp : w.controller = some (.starting (.create r))) :
    Tidy (w.create r) := by
  have hplaced := h.placed
  rw [hp] at hplaced
  obtain ⟨hmade, hconn, -, hthread⟩ := hplaced
  have hnone : w.held r = none := by
    have := hmade r
    rw [← Option.not_isSome_iff_eq_none, this]
    cases r <;> simp [Stage.made]
  refine ⟨?_, h.connected, h.alone, h.pump, ?_, ?_, ?_, hthread⟩
  · intro s n
    by_cases hs : s = r
    · subst hs
      by_cases hn : n = w.nextResource
      · simp [World.create, hn]
      · have := h.opened s n
        rw [hnone] at this
        simpa [World.create, hn, Ne.symm hn] using this
    · simpa [World.create, hs] using h.opened s n
  · intro s
    have := hmade s
    by_cases hs : s = r
    · subst hs
      cases s <;> simp [World.create, Stage.made, Stage.afterCreate]
    · simp only [World.create, Function.update_of_ne hs, this]
      cases r <;> cases s <;> simp_all [Stage.made, Stage.afterCreate]
  · simp only [World.create, hconn]
    cases r <;> simp [Stage.afterCreate]
  · cases r <;> simp [Stage.afterCreate]

theorem Tidy.connect (h : Tidy w) (hp : w.controller = some (.starting .connect)) :
    Tidy w.connect := by
  have hplaced := h.placed
  rw [hp] at hplaced
  obtain ⟨hmade, hconn, -, hthread⟩ := hplaced
  unfold World.connect
  cases ha : w.adapter with
  | none => exact h.fail
  | some a =>
    refine ⟨h.opened, ?_, h.alone, fun _ => rfl, hmade, rfl, fun _ => rfl, hthread⟩
    intro b
    have hb := h.connected b
    simp only [hconn, reduceCtorEq, decide_false, Bool.false_eq_true, false_and, iff_false] at hb
    by_cases hab : b = a
    · simp [hab]
    · simp [hab, Ne.symm hab, hb]

/-- A new thread is the only one that goes on, if any does. -/
theorem Tidy.makePump_live (h : Tidy w) (hthread : w._pumpThread = none) (p : Pump α) (i : Nat)
    (q : Pump α) (hq : (w.makePump p).pumps[i]? = some q) (hl : live q = true) :
    (w.makePump p)._pumpThread = some i := by
  rcases Nat.lt_or_ge i w.pumps.length with hi | hi
  · have hold : w.pumps[i]? = some q := by
      rwa [World.makePump, List.getElem?_append_left hi] at hq
    have hown := h.alone i q hold hl
    rw [hthread] at hown
    cases hown
  · have hlt : i < (w.pumps ++ [p]).length := (List.getElem?_eq_some_iff.mp hq).1
    rw [List.length_append, List.length_singleton] at hlt
    exact congrArg some (by omega)

/-- The thread is made, and then either started or not. -/
theorem Tidy.makePump (h : Tidy w) (hp : w.controller = some (.starting .pump)) (p : Pump α) :
    Tidy { w.makePump p with controller := none } ∧ Tidy (w.makePump p).fail := by
  have hplaced := h.placed
  rw [hp] at hplaced
  obtain ⟨hmade, hconn, hrun, hthread⟩ := hplaced
  have hconn' : w._adapterConnected = true := by simpa using hconn
  have hl := h.makePump_live hthread p
  constructor
  · exact ⟨h.opened, h.connected, hl, fun _ => hconn', Or.inl ⟨hrun rfl, hconn', hmade⟩⟩
  · exact ⟨h.opened, h.connected, hl, fun _ => hconn', by simp [Cleaning.closed], rfl, Or.inl rfl⟩

theorem tidy_proceedStart (h : Tidy w) {stage : Stage}
    (hp : w.controller = some (.starting stage)) (ok : Bool) : Tidy (w.proceedStart ok stage) := by
  have hplaced := h.placed
  rw [hp] at hplaced
  obtain ⟨hmade, hconn, hrun, hthread⟩ := hplaced
  cases ok with
  | false =>
    cases stage with
    | pump => exact (h.makePump hp .unstarted).2
    | create r | serverStart | adapter | connect => exact h.fail
  | true =>
    cases stage with
    | create r => exact h.create hp
    | serverStart => exact h.move rfl rfl rfl rfl rfl h.alone id ⟨hmade, hconn, by simp, hthread⟩
    | adapter =>
      refine ⟨h.opened, ?_, h.alone, h.pump, hmade, hconn, by simp, hthread⟩
      intro b
      have hb := h.connected b
      simp only [hconn, reduceCtorEq, decide_false, Bool.false_eq_true, false_and, iff_false] at hb
      simp [World.proceedStart, hconn, hb]
    | connect => exact h.connect hp
    | pump => exact (h.makePump hp .head).1

theorem Tidy.cleanAt (h : Tidy w) {c c' : Cleaning} {stopping : Bool}
    (hp : w.controller = some (.cleaning c stopping))
    (hc : ∀ r, c'.closed r = true → w.held r = none) (hpump : c' = .joinPump ∨ w._pumpThread = none) :
    Tidy (w.cleanAt c' stopping) := by
  have hplaced := h.placed
  rw [hp] at hplaced
  exact h.move rfl rfl rfl rfl rfl h.alone id ⟨hc, hplaced.2.1, Or.inr hpump⟩

/-- `_cleanup` leaves off with something left. -/
theorem not_tidy_abort (h : Tidy w) {c : Cleaning} {stopping : Bool}
    (hp : w.controller = some (.cleaning c stopping))
    (hleft : w._adapterConnected = true ∨ ∃ r, w.held r ≠ none) : ¬ Tidy w.abort := by
  intro ht
  have hplaced := h.placed
  rw [hp] at hplaced
  rcases ht.placed with ⟨hrun, -⟩ | ⟨-, hconn, hnone⟩
  · have hstate : w._state = .running := hrun
    rw [hplaced.2.1] at hstate
    cases stopping <;> simp at hstate
  · rcases hleft with hleft | ⟨r, hr⟩
    · exact Bool.false_ne_true (hconn.symm.trans hleft)
    · exact hr (hnone r)

theorem Tidy.close (h : Tidy w) {r : Resource} {n : Nat} {stopping : Bool}
    (hp : w.controller = some (.cleaning (.close r) stopping)) (hn : w.held r = some n) :
    Tidy (w.close r n) := by
  have hplaced := h.placed
  rw [hp] at hplaced
  refine ⟨?_, h.connected, h.alone, h.pump, ?_⟩
  · intro s m
    by_cases hs : s = r
    · subst hs
      have := h.opened s m
      rw [hn] at this
      by_cases hm : m = n
      · simp [World.close, hm]
      · simpa [World.close, hm, Ne.symm hm] using this
    · simpa [World.close, hs] using h.opened s m
  · rw [World.close, hp]
    refine ⟨fun s hs => ?_, hplaced.2⟩
    by_cases hsr : s = r
    · simp [hsr]
    · simpa [hsr] using hplaced.1 s hs

theorem closed_afterClose {r s : Resource} (hs : (Cleaning.afterClose r).closed s = true) :
    s = r ∨ (Cleaning.close r).closed s = true := by
  cases r <;> cases s <;> simp_all [Cleaning.afterClose, Cleaning.closed]

theorem Tidy.disconnect (h : Tidy w) {stopping : Bool}
    (hp : w.controller = some (.cleaning .disconnect stopping)) : Tidy (w.disconnect stopping) := by
  have hplaced := h.placed
  rw [hp] at hplaced
  have hpump : w._pumpThread = none := by simpa using hplaced.2.2
  refine ⟨h.opened, ?_, h.alone, ?_, Or.inr ⟨?_, rfl, fun r => hplaced.1 r rfl⟩⟩
  · intro b
    have hb := h.connected b
    cases ha : w.adapter with
    | none => simpa [World.disconnect, ha] using hb
    | some a =>
      by_cases hab : b = a
      · subst hab
        cases hc : w._adapterConnected <;> simp_all [World.disconnect]
      · cases hc : w._adapterConnected <;> simp_all [World.disconnect, Ne.symm hab]
  · simp [World.disconnect, hpump]
  · cases stopping with
    | true => exact Or.inl rfl
    | false => exact Or.inr (by simpa [World.disconnect] using hplaced.2.1)

/-- Once the thread has ended none goes on. -/
theorem Tidy.quiet_of_joined (h : Tidy w) {i : Nat} {p : Pump α} (ht : w._pumpThread = some i)
    (hi : w.pumps[i]? = some p) (hp : live p = false) (j : Nat) (q : Pump α) (hj : w.pumps[j]? = some q)
    (hq : live q = true) : (none : Option Nat) = some j := by
  obtain rfl : i = j := Option.some.inj (ht.symm.trans (h.alone j q hj hq))
  obtain rfl : p = q := Option.some.inj (hi.symm.trans hj)
  rw [hp] at hq
  cases hq

theorem tidy_proceedCleanup (h : Tidy w) {c : Cleaning} {stopping : Bool}
    (hp : w.controller = some (.cleaning c stopping)) (ok : Bool) :
    Tidy (w.proceedCleanup ok stopping c) ↔ raisesInCleanup w (.proceed ok) = false := by
  have hplaced := h.placed
  rw [hp] at hplaced
  cases c with
  | setStop =>
    simp only [raisesInCleanup, hp, iff_true]
    exact h.move rfl rfl rfl rfl rfl h.alone id ⟨by simp [Cleaning.closed], hplaced.2.1, Or.inr (Or.inl rfl)⟩
  | joinPump =>
    simp only [World.proceedCleanup, raisesInCleanup, hp]
    cases hpt : w._pumpThread with
    | none => simpa using h.cleanAt hp (by simp [Cleaning.closed]) (Or.inr hpt)
    | some i =>
      dsimp only
      cases hi : w.pumps[i]? with
      | none => simpa [hi] using h
      | some p =>
        cases p with
        | unstarted =>
          have : ¬ Tidy w.abort := not_tidy_abort h hp (Or.inl (h.pump (by simp [hpt])))
          simpa [Pump.isUnstarted, hi] using this
        | ended =>
          have hquiet := h.quiet_of_joined hpt hi rfl
          have : Tidy ({ w with _pumpThread := none }.cleanAt (.close .commandServer) stopping) :=
            h.move rfl rfl rfl rfl rfl hquiet nofun
              ⟨by simp [Cleaning.closed], hplaced.2.1, Or.inr (Or.inr rfl)⟩
          rw [← hp]
          simpa [Pump.isUnstarted, hi] using this
        | head | polling | holding => simpa [Pump.isUnstarted, hi] using h
  | close r =>
    have hpt : w._pumpThread = none := by simpa using hplaced.2.2
    simp only [World.proceedCleanup, raisesInCleanup, hp]
    cases hr : w.held r with
    | none =>
      have : Tidy (w.cleanAt (.afterClose r) stopping) := by
        refine h.cleanAt hp (fun s hs => ?_) (Or.inr hpt)
        rcases closed_afterClose hs with rfl | hs
        · exact hr
        · exact hplaced.1 s hs
      simpa using this
    | some n =>
      cases ok with
      | false =>
        have : ¬ Tidy w.abort := not_tidy_abort h hp (Or.inr ⟨r, by simp [hr]⟩)
        simpa using this
      | true =>
        have : Tidy ((w.close r n).cleanAt (.afterClose r) stopping) := by
          refine (h.close hp hr).cleanAt hp (fun s hs => ?_) (Or.inr hpt)
          rcases closed_afterClose hs with rfl | hs
          · simp [World.close]
          · by_cases hsr : s = r
            · simp [World.close, hsr]
            · simpa [World.close, hsr] using hplaced.1 s hs
        simpa using this
  | disconnect =>
    simp only [raisesInCleanup, hp, iff_true]
    exact h.disconnect hp

theorem tidy_pump (h : Tidy w) (market : α → Bool) (i : Nat) (outcome : Outcome) :
    Tidy (w.pump market i outcome) := by
  have hmove : ∀ (w' : World α) (p q : Pump α), w.pumps[i]? = some p → live p = true →
      w'.pumps = w.pumps.set i q → w'.opened = w.opened ∧ w'.held = w.held ∧
      w'.connected = w.connected ∧ w'._adapterConnected = w._adapterConnected ∧ w'.adapter = w.adapter ∧
      w'._pumpThread = w._pumpThread → w'._state = w._state → w'.controller = w.controller → Tidy w' := by
    rintro w' p q hi hl hpumps ⟨ho, hh, hc, ha, hd, hpt⟩ hs hctl
    refine h.move ho hh hc ha hd ?_ (by rw [hpt]; exact id) ?_
    · intro j r hj hr
      rw [hpt]
      by_cases hij : i = j
      · subst hij
        exact h.alone i p hi hl
      · rw [hpumps, List.getElem?_set_ne hij] at hj
        exact h.alone j r hj hr
    have hplaced := h.placed
    rw [hctl]
    cases hp : w.controller with
    | none =>
      rw [hp] at hplaced
      simpa [Placed, hs, ha, hh] using hplaced
    | some ctl =>
      rw [hp] at hplaced
      cases ctl with
      | starting stage => simpa [Placed, hs, ha, hh, hpt] using hplaced
      | cleaning c stopping => simpa [Placed, hs, hh, hpt] using hplaced
  unfold World.pump
  split
  · next hi =>
    split
    · exact hmove _ _ _ hi rfl rfl ⟨rfl, rfl, rfl, rfl, rfl, rfl⟩ rfl rfl
    · split
      · exact hmove _ _ _ hi rfl rfl ⟨rfl, rfl, rfl, rfl, rfl, rfl⟩ rfl rfl
      · exact h
  · next a hi => split <;> exact hmove _ _ _ hi rfl rfl ⟨rfl, rfl, rfl, rfl, rfl, rfl⟩ rfl rfl
  · next a x hi => exact hmove _ _ _ hi rfl rfl ⟨rfl, rfl, rfl, rfl, rfl, rfl⟩ rfl rfl
  · exact h

theorem joinTimeout_eq (market : α → Bool) {stopping : Bool} {i : Nat}
    (hp : w.controller = some (.cleaning .joinPump stopping)) (ht : w._pumpThread = some i) :
    step market w .joinTimeout = if w.pumps[i]?.any Pump.isUnstarted then w
      else { w with _pumpThread := none }.cleanAt (.close .commandServer) stopping := by
  simp only [step, hp, ht]

theorem isUnstarted_of_live {p : Pump α} (h : live p = true) : p.isUnstarted = false := by
  cases p with
  | unstarted => cases h
  | head | polling | holding | ended => rfl

/-- Giving up on the `join` is tidy if the thread has ended all the same. -/
theorem tidy_joinTimeout (h : Tidy w) (market : α → Bool) :
    Tidy (step market w .joinTimeout) ↔ leavesPump w .joinTimeout = false := by
  by_cases hjoin : ∃ stopping i, w.controller = some (.cleaning .joinPump stopping) ∧ w._pumpThread = some i
  · obtain ⟨stopping, i, hp, ht⟩ := hjoin
    have hplaced := h.placed
    rw [hp] at hplaced
    have hleaves : leavesPump w .joinTimeout = w.pumps[i]?.any live := by simp [leavesPump, hp, ht]
    rw [joinTimeout_eq market hp ht, hleaves]
    by_cases hlive : ∃ p, w.pumps[i]? = some p ∧ live p = true
    · obtain ⟨p, hi, hl⟩ := hlive
      rw [hi, Option.any_some, Option.any_some, hl, isUnstarted_of_live hl, if_neg Bool.false_ne_true]
      refine iff_of_false (fun htidy => ?_) (by simp)
      have hown := htidy.alone i p hi hl
      cases hown
    · have hquiet : ∀ j q, w.pumps[j]? = some q → live q = true → (none : Option Nat) = some j := by
        intro j q hj hq
        obtain rfl : i = j := Option.some.inj (ht.symm.trans (h.alone j q hj hq))
        exact absurd ⟨q, hj, hq⟩ hlive
      refine iff_of_true ?_ ?_
      · split
        · exact h
        · exact h.move rfl rfl rfl rfl rfl hquiet nofun
            ⟨by simp [Cleaning.closed], hplaced.2.1, Or.inr (Or.inr rfl)⟩
      · cases hi : w.pumps[i]? with
        | none => rfl
        | some p =>
          rw [Option.any_some]
          exact Bool.not_eq_true _ ▸ fun hl => hlive ⟨p, hi, hl⟩
  · refine iff_of_true ?_ ?_
    · simp only [step]
      split
      · next stopping i hp ht => exact absurd ⟨stopping, i, hp, ht⟩ hjoin
      · exact h
    · simp only [leavesPump]
      split
      · next stopping hp =>
        cases ht : w._pumpThread with
        | none => rfl
        | some i => exact absurd ⟨stopping, i, hp, ht⟩ hjoin
      · rfl

/-- A step keeps the runtime tidy unless it raises out of `_cleanup` or leaves a thread behind. -/
theorem tidy_step (h : Tidy w) (market : α → Bool) (l : Label α) :
    Tidy (step market w l) ↔ raisesInCleanup w l = false ∧ leavesPump w l = false := by
  have hplaced := h.placed
  cases l with
  | startInThread resolved =>
    simp only [raisesInCleanup, leavesPump, and_self, iff_true, step]
    split
    · exact h
    · next hne =>
      rw [not_or, not_or, not_not] at hne
      rw [hne.1] at hplaced
      rcases hplaced with hrun | ⟨-, hconn, hnone⟩
      · exact absurd hrun.1 hne.2.1
      · refine h.move rfl rfl rfl rfl rfl h.alone id ⟨?_, by simpa using hconn, by simp, ?_⟩
        · intro r
          simp [hnone, Stage.made]
        · refine Option.not_isSome_iff_eq_none.mp fun hsome => ?_
          rw [h.pump hsome] at hconn
          cases hconn
  | stop =>
    simp only [raisesInCleanup, leavesPump, and_self, iff_true, step]
    split
    · exact h
    · exact h.move rfl rfl rfl rfl rfl h.alone id ⟨by simp [Cleaning.closed], rfl, Or.inl rfl⟩
  | proceed ok =>
    have hnone : leavesPump w (.proceed ok) = false := rfl
    rw [and_iff_left hnone]
    simp only [step]
    cases hp : w.controller with
    | none => simpa [raisesInCleanup, hp] using h
    | some ctl =>
      cases ctl with
      | starting stage => simpa [raisesInCleanup, hp] using tidy_proceedStart h hp ok
      | cleaning c stopping => exact tidy_proceedCleanup h hp ok
  | joinTimeout =>
    have hnone : raisesInCleanup w .joinTimeout = false := rfl
    rw [and_iff_right hnone]
    exact tidy_joinTimeout h market
  | pump i outcome => simpa [raisesInCleanup, leavesPump, step] using tidy_pump h market i outcome
  | emit a x =>
    simp only [raisesInCleanup, leavesPump, and_self, iff_true, step]
    exact h.move rfl rfl rfl rfl rfl h.alone id (by
      cases hp : w.controller with
      | none =>
        rw [hp] at hplaced
        exact hplaced
      | some ctl =>
        rw [hp] at hplaced
        cases ctl with
        | starting stage => exact hplaced
        | cleaning c stopping => exact hplaced)

end

end ForwardingLifecycle
