import BtApiBase.Runs
import Mathlib.Data.List.Perm.Basic
import Mathlib.Data.List.ReduceOption

/-!
# The event service

Events go through a queue to one processor task. `publish_async` puts at once;
`publish` leaves its put to a task of its own. The processor tests `_running` before
each event, and `stop` clears it before it puts the end marker behind what is queued.
A step is what the event loop does between two suspensions, or less.
-/

namespace EventServices

open Runs

structure Event (τ δ : Type*) where
  type : τ
  data : δ
  deriving DecidableEq, Repr

/-- One event as it was emitted: the handlers subscribed when the last one was called,
those that were called, and the same for the coroutines. -/
structure Emission (τ δ η : Type*) where
  event : Event τ δ
  due : List η
  called : List η
  asyncDue : List η
  asyncCalled : List η
  deriving DecidableEq, Repr

/-- The task that runs `_process_events`: about to test the flag, inside `queue.get()`,
calling handlers, or awaiting the tasks of the coroutines (those that have not begun
and those under way). -/
inductive Processor (τ δ η : Type*) where
  | absent
  | head
  | waiting
  | calling (event : Event τ δ) (called : List η)
  | gathering (emission : Emission τ δ η) (tasks underWay : List η)
  | ended
  deriving DecidableEq, Repr

/-- What had been accepted when `stop` was called and when it returned, and what had
been emitted by then. -/
structure Return (τ δ η : Type*) where
  calledWith : List (Event τ δ)
  accepted : List (Event τ δ)
  completed : List (Emission τ δ η)

structure EventService (τ δ η : Type*) where
  _handlers : τ → List η := fun _ => []
  _asyncHandlers : τ → List η := fun _ => []
  /-- `None` ends the queue. -/
  _eventQueue : Option (List (Option (Event τ δ))) := none
  _processorTask : Processor τ δ η := .absent
  _running : Bool := false
  /-- How many queues there have been. -/
  generation : Nat := 0
  /-- The puts of `publish` that have not run, each with the queue it is for. -/
  pending : List (Nat × Event τ δ) := []
  /-- The calls of `stop` that wait for the lock, and the one that holds it. -/
  stops : List (List (Event τ δ)) := []
  stopping : Option (List (Event τ δ)) := none
  /-- The events that went to the queue, in the order they were published in. -/
  accepted : List (Event τ δ) := []
  completed : List (Emission τ δ η) := []
  /-- The calls made for events that were published while the service was not running. -/
  direct : List (Event τ δ × η) := []
  returns : List (Return τ δ η) := []

inductive Label (τ δ η : Type*) where
  | start
  | publish (event : Event τ δ)
  | runPut
  | publishAsync (event : Event τ δ)
  | subscribe (type : τ) (handler : η)
  | unsubscribe (type : τ) (handler : η)
  | callStop
  | clear (i : Nat)
  | returnStop
  | test
  | take
  | callHandler
  | callCoroutine (handler : η)
  | endCoroutine (handler : η)
  | gathered

variable {τ δ η : Type*}

section

variable [DecidableEq τ] [DecidableEq η] (isCoroutine : η → Bool) (s : EventService τ δ η)

def start : EventService τ δ η :=
  if s.stopping.isSome || s._running then s
  else { s with
    _eventQueue := some []
    generation := s.generation + 1
    _running := true
    _processorTask := .head }

def publish (event : Event τ δ) : EventService τ δ η :=
  if s._eventQueue.isSome && s._running then { s with
    pending := s.pending ++ [(s.generation, event)]
    accepted := s.accepted ++ [event] }
  else { s with direct := s.direct ++ (s._handlers event.type).map (event, ·) }

def put (entry : Option (Event τ δ)) : Option (List (Option (Event τ δ))) := s._eventQueue.map (· ++ [entry])

/-- The oldest task of `publish` runs; a queue that has been replaced is lost. -/
def runPut : EventService τ δ η :=
  match s.pending with
  | [] => s
  | (queue, event) :: rest => { s with
      pending := rest
      _eventQueue := if queue = s.generation then put s (some event) else s._eventQueue }

def publishAsync (event : Event τ δ) : EventService τ δ η :=
  if s._eventQueue.isSome && s._running then { s with
    _eventQueue := put s (some event)
    accepted := s.accepted ++ [event] }
  else { s with
    direct := s.direct ++ (s._handlers event.type ++ s._asyncHandlers event.type).map (event, ·) }

def subscribe (type : τ) (handler : η) : EventService τ δ η :=
  if isCoroutine handler then
    { s with _asyncHandlers := Function.update s._asyncHandlers type (s._asyncHandlers type ++ [handler]) }
  else { s with _handlers := Function.update s._handlers type (s._handlers type ++ [handler]) }

def unsubscribe (type : τ) (handler : η) : EventService τ δ η := { s with
  _handlers := Function.update s._handlers type ((s._handlers type).erase handler)
  _asyncHandlers := Function.update s._asyncHandlers type ((s._asyncHandlers type).erase handler) }

def callStop : EventService τ δ η := { s with stops := s.stops ++ [s.accepted] }

/-- A call of `stop` gets the lock, clears the flag and puts the end marker. -/
def clear (i : Nat) : EventService τ δ η :=
  match s.stops[i]?, s.stopping with
  | some calledWith, none => { s with
      stops := s.stops.eraseIdx i
      stopping := some calledWith
      _running := false
      _eventQueue := put s none }
  | _, _ => s

/-- The processor has ended, or there was none. -/
def returnStop : EventService τ δ η :=
  match s.stopping, s._processorTask with
  | some calledWith, .ended | some calledWith, .absent => { s with
      stopping := none
      _processorTask := .absent
      _eventQueue := none
      returns := s.returns ++ [⟨calledWith, s.accepted, s.completed⟩] }
  | _, _ => s

def test : EventService τ δ η :=
  match s._processorTask with
  | .head => { s with _processorTask := if s._running then .waiting else .ended }
  | _ => s

def take : EventService τ δ η :=
  match s._processorTask, s._eventQueue with
  | .waiting, some (none :: rest) => { s with _eventQueue := some rest, _processorTask := .ended }
  | .waiting, some (some event :: rest) => { s with
      _eventQueue := some rest
      _processorTask := .calling event [] }
  | _, _ => s

/-- The loop of `_emit_sync` goes over the list itself; at its end the tasks of the
coroutines are made. -/
def callHandler : EventService τ δ η :=
  match s._processorTask with
  | .calling event called => { s with
      _processorTask := match (s._handlers event.type)[called.length]? with
        | some handler => .calling event (called ++ [handler])
        | none =>
          let coroutines := s._asyncHandlers event.type
          .gathering ⟨event, s._handlers event.type, called, coroutines, []⟩ coroutines [] }
  | _ => s

def callCoroutine (handler : η) : EventService τ δ η :=
  match s._processorTask with
  | .gathering m tasks underWay =>
    if handler ∈ tasks then { s with
      _processorTask := .gathering { m with asyncCalled := m.asyncCalled ++ [handler] }
        (tasks.erase handler) (handler :: underWay) }
    else s
  | _ => s

def endCoroutine (handler : η) : EventService τ δ η :=
  match s._processorTask with
  | .gathering m tasks underWay => { s with
      _processorTask := .gathering m tasks (underWay.erase handler) }
  | _ => s

def gathered : EventService τ δ η :=
  match s._processorTask with
  | .gathering m [] [] => { s with
      _processorTask := .head
      completed := s.completed ++ [m] }
  | _ => s

def step : Label τ δ η → EventService τ δ η
  | .start => start s
  | .publish event => publish s event
  | .runPut => runPut s
  | .publishAsync event => publishAsync s event
  | .subscribe type handler => subscribe isCoroutine s type handler
  | .unsubscribe type handler => unsubscribe s type handler
  | .callStop => callStop s
  | .clear i => clear s i
  | .returnStop => returnStop s
  | .test => test s
  | .take => take s
  | .callHandler => callHandler s
  | .callCoroutine handler => callCoroutine s handler
  | .endCoroutine handler => endCoroutine s handler
  | .gathered => gathered s

end

/-! ## What stop promises -/

/-- Every handler that is subscribed was called once. -/
structure Full (m : Emission τ δ η) : Prop where
  called : m.called = m.due
  asyncCalled : m.asyncCalled.Perm m.asyncDue

/-- What had been accepted was emitted, in the order of acceptance, to all handlers. -/
structure Kept (r : Return τ δ η) : Prop where
  before : r.calledWith <+: r.accepted
  emitted : r.completed.map Emission.event = r.accepted
  full : ∀ m ∈ r.completed, Full m

def StopsKept (s : EventService τ δ η) : Prop := ∀ r ∈ s.returns, Kept r

/-- The events in the queue. -/
def queued (s : EventService τ δ η) : List (Event τ δ) := (s._eventQueue.getD []).reduceOption

/-- The processor is calling the handlers of this type. -/
def Processor.calls (type : τ) : Processor τ δ η → Prop
  | .calling event _ => event.type = type
  | _ => False

instance [DecidableEq τ] (type : τ) : (p : Processor τ δ η) → Decidable (p.calls type)
  | .calling event _ => inferInstanceAs (Decidable (event.type = type))
  | .absent | .head | .waiting | .gathering _ _ _ | .ended => isFalse id

/-- When `stop` clears the flag nothing accepted is left but what the processor is about
to get; nothing is put past a put of `publish`; and no handler is taken from the list
that the processor goes over. -/
def Orderly (s : EventService τ δ η) : Label τ δ η → Prop
  | .clear _ => s._running = true →
      s.pending = [] ∧ (queued s = [] ∨ (s._processorTask = .waiting ∧ (queued s).length = 1))
  | .publishAsync _ => s._running = true → s.pending = []
  | .unsubscribe type handler => s._processorTask.calls type → handler ∉ s._handlers type
  | _ => True

instance [DecidableEq τ] [DecidableEq δ] [DecidableEq η] (s : EventService τ δ η) : (l : Label τ δ η) → Decidable (Orderly s l)
  | .clear _ => inferInstanceAs (Decidable (s._running = true →
      s.pending = [] ∧ (queued s = [] ∨ (s._processorTask = .waiting ∧ (queued s).length = 1))))
  | .publishAsync _ => inferInstanceAs (Decidable (s._running = true → s.pending = []))
  | .unsubscribe type handler =>
    inferInstanceAs (Decidable (s._processorTask.calls type → handler ∉ s._handlers type))
  | .start | .publish _ | .runPut | .subscribe _ _ | .callStop | .returnStop | .test | .take
  | .callHandler | .callCoroutine _ | .endCoroutine _ | .gathered => instDecidableTrue

/-! ## The invariant -/

/-- The event that is being emitted. -/
def Processor.current : Processor τ δ η → List (Event τ δ)
  | .calling event _ => [event]
  | .gathering m _ _ => [m.event]
  | _ => []

/-- What the processor has called so far. -/
def Called (handlers : τ → List η) : Processor τ δ η → Prop
  | .calling event called => called <+: handlers event.type
  | .gathering m tasks _ => m.called = m.due ∧ (m.asyncCalled ++ tasks).Perm m.asyncDue
  | _ => True

inductive Phase (s : EventService τ δ η) : Prop where
  | idle : s._running = false → s.stopping = none → s._processorTask = .absent → s._eventQueue = none →
    s.pending = [] → Phase s
  | live (events : List (Event τ δ)) : s._running = true → s.stopping = none →
    s._eventQueue = some (events.map some) → s._processorTask ≠ .absent → s._processorTask ≠ .ended → Phase s
  | draining : s._running = false → s.stopping.isSome = true → s.pending = [] →
    (queued s = [] ∨ (s._processorTask = .waiting ∧ ∃ event, s._eventQueue = some [some event, none])) → Phase s

structure Inv (s : EventService τ δ η) : Prop where
  flow : s.completed.map Emission.event ++ s._processorTask.current ++ queued s ++ s.pending.map Prod.snd =
    s.accepted
  phase : Phase s
  here : ∀ p ∈ s.pending, p.1 = s.generation
  called : Called s._handlers s._processorTask
  full : ∀ m ∈ s.completed, Full m
  stops : ∀ calledWith ∈ s.stops, calledWith <+: s.accepted
  stopping : ∀ calledWith, s.stopping = some calledWith → calledWith <+: s.accepted
  kept : StopsKept s

theorem inv_new : Inv ({} : EventService τ δ η) where
  flow := rfl
  phase := .idle rfl rfl rfl rfl rfl
  here p hp := by cases hp
  called := trivial
  full m hm := by cases hm
  stops c hc := by cases hc
  stopping c hc := by cases hc
  kept r hr := by cases hr

variable {s : EventService τ δ η}

/-- What is queued is what a live service holds. -/
theorem queued_eq {events : List (Event τ δ)} (h : s._eventQueue = some (events.map some)) :
    queued s = events := by
  simp [queued, h, List.reduceOption]

theorem Phase.frame {s s' : EventService τ δ η} (h : Phase s) (hrun : s'._running = s._running)
    (hstop : s'.stopping = s.stopping) (hproc : s'._processorTask = s._processorTask)
    (hqueue : s'._eventQueue = s._eventQueue) (hpending : s'.pending = s.pending) : Phase s' := by
  have hqueued : queued s' = queued s := by rw [queued, hqueue, queued]
  cases h with
  | idle h₁ h₂ h₃ h₄ h₅ =>
    exact .idle (hrun.trans h₁) (hstop.trans h₂) (hproc.trans h₃) (hqueue.trans h₄) (hpending.trans h₅)
  | live events h₁ h₂ h₃ h₄ h₅ =>
    exact .live events (hrun.trans h₁) (hstop.trans h₂) (hqueue.trans h₃) (hproc ▸ h₄) (hproc ▸ h₅)
  | draining h₁ h₂ h₃ h₄ =>
    exact .draining (hrun.trans h₁) (hstop ▸ h₂) (hpending.trans h₃) (by rw [hqueued, hproc, hqueue]; exact h₄)

theorem inv_start (h : Inv s) : Inv (start s) := by
  unfold start
  by_cases hs : (s.stopping.isSome || s._running) = true
  · rw [if_pos hs]
    exact h
  · rw [if_neg hs]
    rcases h.phase with ⟨-, hstop, hproc, hqueue, hpending⟩ | ⟨_, hrun, -, -, -, -⟩ | ⟨-, hstop, -, -⟩
    · have hflow := h.flow
      simp only [hproc, queued, hqueue, hpending] at hflow
      exact {
        flow := by simpa [Processor.current, queued, hpending] using hflow
        phase := .live [] rfl hstop rfl nofun nofun
        here := by simp [hpending]
        called := trivial
        full := h.full
        stops := h.stops
        stopping := h.stopping
        kept := h.kept }
    · simp [hrun] at hs
    · simp [hstop] at hs

/-- A service that is running is not being stopped, and a processor is on its queue. -/
theorem Inv.live (h : Inv s) (hrun : s._running = true) :
    ∃ events : List (Event τ δ), s.stopping = none ∧ s._eventQueue = some (events.map some) ∧
      s._processorTask ≠ .absent ∧ s._processorTask ≠ .ended := by
  cases h.phase with
  | idle hoff => simp [hoff] at hrun
  | live events _ hstop hqueue habsent hended => exact ⟨events, hstop, hqueue, habsent, hended⟩
  | draining hoff => simp [hoff] at hrun

theorem inv_publish (h : Inv s) (event : Event τ δ) : Inv (publish s event) := by
  unfold publish
  by_cases hs : (s._eventQueue.isSome && s._running) = true
  · rw [if_pos hs]
    have hrun : s._running = true := (Bool.and_eq_true_iff.mp hs).2
    obtain ⟨events, hstop, hqueue, habsent, hended⟩ := h.live hrun
    have hflow := h.flow
    exact {
      flow := by simpa [queued, ← List.append_assoc] using hflow
      phase := .live events hrun hstop hqueue habsent hended
      here := by simpa [or_imp, forall_and] using h.here
      called := h.called
      full := h.full
      stops := fun c hc => (h.stops c hc).trans (List.prefix_append _ _)
      stopping := fun c hc => (h.stopping c hc).trans (List.prefix_append _ _)
      kept := h.kept }
  · rw [if_neg hs]
    exact ⟨h.flow, h.phase.frame rfl rfl rfl rfl rfl, h.here, h.called, h.full, h.stops, h.stopping, h.kept⟩

theorem inv_runPut (h : Inv s) : Inv (runPut s) := by
  unfold runPut
  cases hp : s.pending with
  | nil => exact h
  | cons first rest =>
    obtain ⟨queue, event⟩ := first
    have hhere : queue = s.generation := h.here (queue, event) (by simp [hp])
    rcases h.phase with ⟨-, -, -, -, hpending⟩ | ⟨events, hrun, hstop, hqueue, habsent, hended⟩ | ⟨-, -, hpending, -⟩
    · simp [hp] at hpending
    · have hflow := h.flow
      rw [queued_eq hqueue, hp] at hflow
      simp only [if_pos hhere, put, hqueue, Option.map_some]
      have hafter : events.map some ++ [some event] = (events ++ [event]).map some := by simp
      rw [hafter]
      exact {
        flow := by
          rw [queued_eq rfl]
          simpa using hflow
        phase := .live (events ++ [event]) hrun hstop rfl habsent hended
        here := fun p hmem => h.here p (by simp [hp, hmem])
        called := h.called
        full := h.full
        stops := h.stops
        stopping := h.stopping
        kept := h.kept }
    · simp [hp] at hpending

theorem inv_publishAsync (h : Inv s) {event : Event τ δ} (hc : Orderly s (.publishAsync event)) :
    Inv (publishAsync s event) := by
  unfold publishAsync
  by_cases hs : (s._eventQueue.isSome && s._running) = true
  · rw [if_pos hs]
    have hrun : s._running = true := (Bool.and_eq_true_iff.mp hs).2
    have hpending : s.pending = [] := hc hrun
    obtain ⟨events, hstop, hqueue, habsent, hended⟩ := h.live hrun
    have hflow := h.flow
    rw [queued_eq hqueue] at hflow
    simp only [put, hqueue, Option.map_some]
    have hafter : events.map some ++ [some event] = (events ++ [event]).map some := by simp
    rw [hafter]
    exact {
      flow := by
        rw [queued_eq rfl]
        simpa [hpending, ← List.append_assoc] using hflow
      phase := .live (events ++ [event]) hrun hstop rfl habsent hended
      here := h.here
      called := h.called
      full := h.full
      stops := fun c hc => (h.stops c hc).trans (List.prefix_append _ _)
      stopping := fun c hc => (h.stopping c hc).trans (List.prefix_append _ _)
      kept := h.kept }
  · rw [if_neg hs]
    exact ⟨h.flow, h.phase.frame rfl rfl rfl rfl rfl, h.here, h.called, h.full, h.stops, h.stopping, h.kept⟩

theorem called_append {handlers handlers' : τ → List η} {p : Processor τ δ η} (h : Called handlers p)
    (hle : ∀ type, p.calls type → handlers type <+: handlers' type) : Called handlers' p := by
  cases p with
  | calling event called => exact h.trans (hle event.type rfl)
  | _ => exact h

theorem prefix_update [DecidableEq τ] {handlers : τ → List η} {type : τ} {l : List η}
    (h : handlers type <+: l) (t : τ) : handlers t <+: Function.update handlers type l t := by
  by_cases ht : t = type
  · subst ht
    rwa [Function.update_self]
  · rw [Function.update_of_ne ht]

theorem inv_subscribe [DecidableEq τ] (h : Inv s) (isCoroutine : η → Bool) (type : τ) (handler : η) :
    Inv (subscribe isCoroutine s type handler) := by
  unfold subscribe
  split
  · exact ⟨h.flow, h.phase.frame rfl rfl rfl rfl rfl, h.here, h.called, h.full, h.stops, h.stopping, h.kept⟩
  · exact ⟨h.flow, h.phase.frame rfl rfl rfl rfl rfl, h.here,
      called_append h.called fun t _ => prefix_update (List.prefix_append _ _) t, h.full, h.stops, h.stopping,
      h.kept⟩

theorem inv_unsubscribe [DecidableEq τ] [DecidableEq η] (h : Inv s) {type : τ} {handler : η}
    (hc : Orderly s (.unsubscribe type handler)) : Inv (unsubscribe s type handler) where
  flow := h.flow
  phase := h.phase.frame rfl rfl rfl rfl rfl
  here := h.here
  called := called_append h.called fun t ht => by
    by_cases he : t = type
    · subst he
      refine prefix_update ?_ t
      rw [List.erase_of_not_mem (hc ht)]
    · rw [unsubscribe]
      dsimp only
      rw [Function.update_of_ne he]
  full := h.full
  stops := h.stops
  stopping := h.stopping
  kept := h.kept

theorem inv_callStop (h : Inv s) : Inv (callStop s) where
  flow := h.flow
  phase := h.phase.frame rfl rfl rfl rfl rfl
  here := h.here
  called := h.called
  full := h.full
  stops calledWith hc := by
    rcases List.mem_append.mp hc with hc | hc
    · exact h.stops calledWith hc
    · rw [List.mem_singleton.mp hc]
      exact List.prefix_rfl
  stopping := h.stopping
  kept := h.kept

theorem inv_clear (h : Inv s) {i : Nat} (hc : Orderly s (.clear i)) : Inv (clear s i) := by
  unfold clear
  split
  · next calledWith hstop hfree =>
    have hbefore : calledWith <+: s.accepted := h.stops calledWith (List.mem_of_getElem? hstop)
    have hstops : ∀ c ∈ s.stops.eraseIdx i, c <+: s.accepted := fun c hmem =>
      h.stops c (List.mem_of_mem_eraseIdx hmem)
    have hqueued : queued { s with _eventQueue := put s none } = queued s := by
      unfold queued put
      cases s._eventQueue with
      | none => rfl
      | some entries => simp [List.reduceOption_append]
    refine ⟨?_, ?_, h.here, h.called, h.full, hstops, fun c he => Option.some.inj he ▸ hbefore, h.kept⟩
    · exact hqueued ▸ h.flow
    · rcases h.phase with ⟨-, -, -, hqueue, hpending⟩ | ⟨events, hrun, -, hqueue, -, -⟩ | ⟨-, hbusy, -, -⟩
      · exact .draining rfl rfl hpending (.inl (hqueued.trans (by simp [queued, hqueue])))
      · obtain ⟨hpending, hempty | ⟨hwaiting, hone⟩⟩ := hc hrun
        · exact .draining rfl rfl hpending (.inl (hqueued.trans hempty))
        · rw [queued_eq hqueue, List.length_eq_one_iff] at hone
          obtain ⟨event, rfl⟩ := hone
          exact .draining rfl rfl hpending (.inr ⟨hwaiting, event, by simp [put, hqueue]⟩)
      · simp [hfree] at hbusy
  · exact h

/-- A processor that has ended, or never was, has left nothing. -/
theorem Inv.returned (h : Inv s) {calledWith : List (Event τ δ)} (hstop : s.stopping = some calledWith)
    (hproc : s._processorTask = .ended ∨ s._processorTask = .absent) :
    Inv { s with
      stopping := none
      _processorTask := .absent
      _eventQueue := none
      returns := s.returns ++ [⟨calledWith, s.accepted, s.completed⟩] } := by
  have hcurrent : s._processorTask.current = [] := by
    rcases hproc with hproc | hproc <;> rw [hproc] <;> rfl
  rcases h.phase with ⟨-, hnone, -, -, -⟩ | ⟨_, -, hnone, -, -, -⟩ | ⟨hrun, -, hpending, hleft⟩
  · simp [hstop] at hnone
  · simp [hstop] at hnone
  · have hqueued : queued s = [] := by
      rcases hleft with hleft | ⟨hwaiting, -⟩
      · exact hleft
      · simp [hwaiting] at hproc
    have hflow := h.flow
    simp only [hcurrent, hqueued, hpending, List.map_nil, List.append_nil] at hflow
    exact {
      flow := by simpa [Processor.current, queued, hpending] using hflow
      phase := .idle hrun rfl rfl rfl hpending
      here := h.here
      called := trivial
      full := h.full
      stops := h.stops
      stopping := nofun
      kept := fun r hr => by
        rcases List.mem_append.mp hr with hr | hr
        · exact h.kept r hr
        · rw [List.mem_singleton.mp hr]
          exact ⟨h.stopping calledWith hstop, hflow, h.full⟩ }

theorem inv_returnStop (h : Inv s) : Inv (returnStop s) := by
  unfold returnStop
  split
  · next hstop hproc => exact h.returned hstop (.inl hproc)
  · next hstop hproc => exact h.returned hstop (.inr hproc)
  · exact h

theorem inv_test (h : Inv s) : Inv (test s) := by
  unfold test
  cases hproc : s._processorTask with
  | head =>
    have hflow := h.flow
    rw [hproc] at hflow
    rcases h.phase with ⟨-, -, habsent, -, -⟩ | ⟨events, hrun, hstop, hqueue, -, -⟩ | ⟨hrun, hstop, hpending, hleft⟩
    · simp [hproc] at habsent
    · simp only [hrun, if_true]
      exact ⟨hflow, .live events rfl hstop hqueue nofun nofun, h.here, trivial, h.full, h.stops, h.stopping, h.kept⟩
    · have hqueued : queued s = [] := by
        rcases hleft with hleft | ⟨hwaiting, -⟩
        · exact hleft
        · simp [hproc] at hwaiting
      simp only [hrun, Bool.false_eq_true, if_false]
      exact ⟨hflow, .draining rfl hstop hpending (.inl hqueued), h.here, trivial, h.full, h.stops, h.stopping,
        h.kept⟩
  | _ => exact h

theorem inv_take (h : Inv s) : Inv (take s) := by
  unfold take
  have hflow := h.flow
  split
  · next rest hproc hqueue =>
    -- the end marker is put when nothing is behind it
    rcases h.phase with ⟨-, -, habsent, -, -⟩ | ⟨events, -, -, hlive, -, -⟩ | ⟨hrun, hstop, hpending, hleft⟩
    · simp [hproc] at habsent
    · rw [hqueue] at hlive
      cases events with
      | nil => cases hlive
      | cons event events => cases hlive
    · have hrest : rest.reduceOption = [] := by
        rcases hleft with hleft | ⟨-, event, hone⟩
        · simpa [queued, hqueue] using hleft
        · rw [hqueue] at hone
          cases hone
      simp only [hproc, queued, hqueue, Option.getD_some, List.reduceOption_cons_of_none, hrest] at hflow
      exact {
        flow := by simpa [Processor.current, queued, hrest] using hflow
        phase := .draining hrun hstop hpending (.inl hrest)
        here := h.here
        called := trivial
        full := h.full
        stops := h.stops
        stopping := h.stopping
        kept := h.kept }
  · next event rest hproc hqueue =>
    have hflow' : s.completed.map Emission.event ++ [event] ++ rest.reduceOption ++ s.pending.map Prod.snd =
        s.accepted := by
      simpa [hproc, queued, hqueue, Processor.current] using hflow
    refine ⟨hflow', ?_, h.here, List.nil_prefix, h.full, h.stops, h.stopping, h.kept⟩
    rcases h.phase with ⟨-, -, habsent, -, -⟩ | ⟨events, hrun, hstop, hlive, -, -⟩ | ⟨hrun, hstop, hpending, hleft⟩
    · simp [hproc] at habsent
    · rw [hqueue] at hlive
      cases events with
      | nil => cases hlive
      | cons event' events =>
        obtain ⟨-, hrest⟩ : event = event' ∧ rest = events.map some := by simpa using hlive
        exact .live events hrun hstop (congrArg some hrest) nofun nofun
    · refine .draining hrun hstop hpending (.inl ?_)
      rcases hleft with hleft | ⟨-, event', hone⟩
      · simp [queued, hqueue] at hleft
      · rw [hqueue, Option.some.injEq, List.cons.injEq] at hone
        simp [queued, hone.2, List.reduceOption]
  · exact h

/-- The processor goes on with an event. -/
theorem Phase.work (h : Phase s) (habsent : s._processorTask ≠ .absent) (hwaiting : s._processorTask ≠ .waiting)
    {p : Processor τ δ η} (hp : p ≠ .absent) (hp' : p ≠ .ended) : Phase { s with _processorTask := p } := by
  rcases h with ⟨-, -, hproc, -, -⟩ | ⟨events, hrun, hstop, hqueue, -, -⟩ | ⟨hrun, hstop, hpending, hleft⟩
  · exact absurd hproc habsent
  · exact .live events hrun hstop hqueue hp hp'
  · rcases hleft with hleft | ⟨hproc, -⟩
    · exact .draining hrun hstop hpending (.inl hleft)
    · exact absurd hproc hwaiting

theorem inv_callHandler (h : Inv s) : Inv (callHandler s) := by
  unfold callHandler
  cases hproc : s._processorTask with
  | calling event called =>
    have hflow := h.flow
    have hcalled := h.called
    rw [hproc] at hflow hcalled
    dsimp only
    cases hnext : (s._handlers event.type)[called.length]? with
    | some handler =>
      have hmore : called ++ [handler] <+: s._handlers event.type := by
        obtain ⟨rest, hrest⟩ := hcalled
        rw [← hrest, List.getElem?_append_right (Nat.le_refl _), Nat.sub_self] at hnext
        obtain ⟨tail, rfl⟩ : ∃ tail, rest = handler :: tail := by
          cases rest with
          | nil => cases hnext
          | cons head tail => exact ⟨tail, by simpa using hnext⟩
        exact ⟨tail, by simpa using hrest⟩
      exact ⟨hflow, h.phase.work (by simp [hproc]) (by simp [hproc]) nofun nofun, h.here, hmore, h.full, h.stops,
        h.stopping, h.kept⟩
    | none =>
      have hall : called = s._handlers event.type :=
        hcalled.eq_of_length_le (List.getElem?_eq_none_iff.mp hnext)
      exact ⟨hflow, h.phase.work (by simp [hproc]) (by simp [hproc]) nofun nofun, h.here,
        ⟨hall, List.Perm.refl _⟩, h.full, h.stops, h.stopping, h.kept⟩
  | _ => exact h

theorem inv_callCoroutine [DecidableEq η] (h : Inv s) (handler : η) : Inv (callCoroutine s handler) := by
  unfold callCoroutine
  cases hproc : s._processorTask with
  | gathering m tasks underWay =>
    have hflow := h.flow
    have hcalled := h.called
    rw [hproc] at hflow hcalled
    dsimp only
    split
    · next hmem =>
      have hperm : (m.asyncCalled ++ [handler] ++ tasks.erase handler).Perm m.asyncDue := by
        rw [List.append_assoc]
        exact ((List.perm_cons_erase hmem).symm.append_left _).trans hcalled.2
      exact ⟨hflow, h.phase.work (by simp [hproc]) (by simp [hproc]) nofun nofun, h.here, ⟨hcalled.1, hperm⟩,
        h.full, h.stops, h.stopping, h.kept⟩
    · exact h
  | _ => exact h

theorem inv_endCoroutine [DecidableEq η] (h : Inv s) (handler : η) : Inv (endCoroutine s handler) := by
  unfold endCoroutine
  cases hproc : s._processorTask with
  | gathering m tasks underWay =>
    have hflow := h.flow
    have hcalled := h.called
    rw [hproc] at hflow hcalled
    exact ⟨hflow, h.phase.work (by simp [hproc]) (by simp [hproc]) nofun nofun, h.here, hcalled, h.full, h.stops,
      h.stopping, h.kept⟩
  | _ => exact h

theorem inv_gathered (h : Inv s) : Inv (gathered s) := by
  unfold gathered
  split
  · next m hproc =>
    have hflow := h.flow
    have hcalled := h.called
    rw [hproc] at hflow hcalled
    have hfull : Full m := ⟨hcalled.1, by simpa using hcalled.2⟩
    have hphase := h.phase.work (p := .head) (by simp [hproc]) (by simp [hproc]) nofun nofun
    exact {
      flow := by simpa [Processor.current, queued] using hflow
      phase := hphase.frame rfl rfl rfl rfl rfl
      here := h.here
      called := trivial
      full := by simpa [or_imp, forall_and] using ⟨h.full, hfull⟩
      stops := h.stops
      stopping := h.stopping
      kept := h.kept }
  · exact h

/-! ## Runs -/

theorem inv_step [DecidableEq τ] [DecidableEq η] (isCoroutine : η → Bool) (h : Inv s) {l : Label τ δ η}
    (hc : Orderly s l) : Inv (step isCoroutine s l) := by
  cases l with
  | start => exact inv_start h
  | publish event => exact inv_publish h event
  | runPut => exact inv_runPut h
  | publishAsync event => exact inv_publishAsync h hc
  | subscribe type handler => exact inv_subscribe h isCoroutine type handler
  | unsubscribe type handler => exact inv_unsubscribe h hc
  | callStop => exact inv_callStop h
  | clear i => exact inv_clear h hc
  | returnStop => exact inv_returnStop h
  | test => exact inv_test h
  | take => exact inv_take h
  | callHandler => exact inv_callHandler h
  | callCoroutine handler => exact inv_callCoroutine h handler
  | endCoroutine handler => exact inv_endCoroutine h handler
  | gathered => exact inv_gathered h

/-- In an orderly run every `stop` that returns has left nothing behind. -/
theorem stopsKept_of_orderly [DecidableEq τ] [DecidableEq η] (isCoroutine : η → Bool)
    (labels : List (Label τ δ η)) (h : Meets (step isCoroutine) Orderly {} labels) :
    Throughout (step isCoroutine) StopsKept {} labels := by
  have hinv : Throughout (step isCoroutine) Inv {} labels :=
    throughout_of_meets (P := Inv) (fun s l hs hc => inv_step isCoroutine hs hc) inv_new h
  exact fun taken ht => (hinv taken ht).kept

/-- Two events reach a handler and a coroutine; the second is in the queue when the service stops. -/
def twoEvents : List (Label Nat Nat Nat) :=
  [.subscribe 0 7, .subscribe 0 8, .start, .test, .publish ⟨0, 1⟩, .runPut, .take, .callHandler, .callHandler,
    .callCoroutine 8, .endCoroutine 8, .gathered, .test, .publish ⟨0, 2⟩, .runPut, .callStop, .clear 0, .take,
    .callHandler, .callHandler, .callCoroutine 8, .endCoroutine 8, .gathered, .test, .returnStop]

theorem stopsKept_twoEvents :
    StopsKept (run (step (· == 8)) {} twoEvents) ∧
      (run (step (· == 8)) {} twoEvents).returns.map (fun r => (r.accepted, r.completed)) =
        [([⟨0, 1⟩, ⟨0, 2⟩], [⟨⟨0, 1⟩, [7], [7], [8], [8]⟩, ⟨⟨0, 2⟩, [7], [7], [8], [8]⟩])] :=
  ⟨throughout_last (stopsKept_of_orderly (· == 8) twoEvents (by decide +kernel)), by decide +kernel⟩

/-- What was accepted and what was emitted when each call of `stop` returned. -/
def outcomes (labels : List (Label Nat Nat Nat)) :
    List (List (Event Nat Nat) × List (Emission Nat Nat Nat)) :=
  (run (step fun _ => false) {} labels).returns.map fun r => (r.accepted, r.completed)

/-- `stop` drops an event that the processor has not got yet; a put of `publish` comes
after a later event; and a handler that takes itself from the list hides the next one. -/
theorem event_dropped :
    outcomes [.subscribe 0 7, .start, .publishAsync ⟨0, 1⟩, .callStop, .clear 0, .test, .returnStop] =
      [([⟨0, 1⟩], [])] ∧
    outcomes [.start, .publish ⟨0, 1⟩, .publishAsync ⟨0, 2⟩, .runPut, .test, .take, .callHandler, .gathered,
        .test, .take, .callHandler, .gathered, .test, .callStop, .clear 0, .take, .returnStop] =
      [([⟨0, 1⟩, ⟨0, 2⟩], [⟨⟨0, 2⟩, [], [], [], []⟩, ⟨⟨0, 1⟩, [], [], [], []⟩])] ∧
    outcomes [.subscribe 0 7, .subscribe 0 8, .start, .test, .publishAsync ⟨0, 1⟩, .take, .callHandler,
        .unsubscribe 0 7, .callHandler, .gathered, .test, .callStop, .clear 0, .take, .returnStop] =
      [([⟨0, 1⟩], [⟨⟨0, 1⟩, [8], [7], [], []⟩])] := by
  decide +kernel

end EventServices
