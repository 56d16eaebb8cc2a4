import BtApiBase.PyText
import BtApiBase.Runs
import Mathlib.Data.List.Nodup

/-!
# Emissions inside emissions

`EventBus.emit` goes over a copy of the handler list, so its handlers may register and
remove handlers and emit themselves. A label is what the innermost handler under call, or the
program between two emissions, does next; the emissions that have not ended form a stack.
-/

namespace EventBuses

open PyText Runs

inductive ErrorHandlerMode where
  | LOG
  | RAISE
  | COLLECT
  deriving DecidableEq, Repr

inductive ErrorSeverity where
  | USER_ERROR
  | BUSINESS_ERROR
  | SYSTEM_ERROR
  deriving DecidableEq, Repr

variable {η E : Type} [DecidableEq η]

/-- One entry of `_lastErrors`. -/
structure Failure (η E : Type) where
  eventType : PyStr
  handler : η
  exception : E
  deriving DecidableEq, Repr

structure EventBus (η E : Type) where
  _handlers : PyStr → List η
  _lastErrors : List (Failure η E)

inductive Refusal where
  | ValueError (message : PyStr)
  | TypeError (message : PyStr)
  deriving DecidableEq

namespace EventBus

def new : EventBus η E := ⟨fun _ => [], []⟩

def on (callable : η → Bool) (b : EventBus η E) (eventType : PyStr) (handler : η) :
    Except Refusal (EventBus η E) :=
  if eventType = [] then .error (.ValueError "event_type must be a non-empty string")
  else if callable handler = false then .error (.TypeError "handler must be callable")
  else if handler ∈ b._handlers eventType then .ok b
  else .ok { b with
    _handlers := Function.update b._handlers eventType (b._handlers eventType ++ [handler]) }

def off (b : EventBus η E) (eventType : PyStr) : Option η → EventBus η E
  | none => { b with _handlers := Function.update b._handlers eventType [] }
  | some handler => { b with
      _handlers := Function.update b._handlers eventType ((b._handlers eventType).erase handler) }

def getLastErrors (b : EventBus η E) : List (Failure η E) := b._lastErrors

def clearErrors (b : EventBus η E) : EventBus η E := { b with _lastErrors := [] }

def clear (_ : EventBus η E) : EventBus η E := ⟨fun _ => [], []⟩

def record (b : EventBus η E) (failure : Failure η E) : EventBus η E :=
  { b with _lastErrors := b._lastErrors ++ [failure] }

end EventBus

/-- What the bus is built with, and what it meets in the handlers and their exceptions, all of
class `Exception`. -/
structure Setting (η E : Type) where
  errorMode : ErrorHandlerMode
  callable : η → Bool
  isinstance : E → PyStr → Bool
  /-- What naming a handler raises: `repr(handler)` is evaluated even where it has a `__name__`. -/
  naming : η → Option E
  /-- What writing the line about a failure raises itself: its text is that of the exception. -/
  writing : η → E → Option E

def userErrorTypes : List PyStr :=
  ["TypeError", "ValueError", "AttributeError", "KeyError", "IndexError"]

def systemErrorTypes : List PyStr :=
  ["ConnectionError", "OSError", "TimeoutError", "RuntimeError"]

namespace Setting

variable (s : Setting η E)

def _classifyError (error : E) : ErrorSeverity :=
  if s.isinstance error "BtApiError" then .BUSINESS_ERROR
  else if userErrorTypes.any (s.isinstance error) then .USER_ERROR
  else if systemErrorTypes.any (s.isinstance error) then .SYSTEM_ERROR
  else .SYSTEM_ERROR

/-- What leaves the `except` block once the failure is recorded, if the loop does not go on. -/
def leaving (handler : η) (e : E) : Option E :=
  if s.errorMode = .RAISE then some e else s.writing handler e

/-- What leaves the `except` block about a failure, if the loop does not go on after it. -/
def escaping (handler : η) (e : E) : Option E :=
  match s.naming handler with
  | some e' => some e'
  | none => s.leaving handler e

/-- The `except` block raises nothing but, in `RAISE` mode, the failure itself. -/
def Plain (handler : η) (e : E) : Prop :=
  (∀ e', s.naming handler = some e' → s.errorMode = .RAISE ∧ e' = e) ∧
    (s.errorMode = .RAISE ∨ s.writing handler e = none)

end Setting

def severityLabel : ErrorSeverity → PyStr
  | .USER_ERROR => "handler error"
  | .BUSINESS_ERROR => "business error"
  | .SYSTEM_ERROR => "system error"

/-- A line of the log: whether it is an error or a warning, and what it is about. -/
structure LogLine (η E : Type) where
  error : Bool
  severityLabel : PyStr
  failure : Failure η E

def Setting.logLine (s : Setting η E) (failure : Failure η E) : LogLine η E :=
  let severity := s._classifyError failure.exception
  ⟨severity == .SYSTEM_ERROR, EventBuses.severityLabel severity, failure⟩

/-- A call of a handler that has ended, and what it raised. -/
abbrev Call (η E : Type) := η × Option E

def raised (calls : List (Call η E)) : List E := calls.filterMap Prod.snd

def failures (eventType : PyStr) (calls : List (Call η E)) : List (Failure η E) :=
  calls.filterMap (fun c => c.2.map (Failure.mk eventType c.1))

/-- An emission that has not ended. -/
structure Frame (η E : Type) where
  eventType : PyStr
  /-- When the registrations that were current at its start had been made. -/
  registered : η → Option Nat
  calls : List (Call η E)
  running : Option η
  /-- What is left of the copied list. -/
  rest : List η
  errors : List E

def Frame.failures (f : Frame η E) : List (Failure η E) := EventBuses.failures f.eventType f.calls

/-- What the handlers of the outermost emission have failed with. -/
def own : List (Frame η E) → List (Failure η E)
  | [] => []
  | [f] => f.failures
  | _ :: f :: below => own (f :: below)

/-- The handler under call has ended. -/
def Frame.after (f : Frame η E) (handler : η) (outcome : Option E) : Frame η E :=
  { f with
    running := none
    calls := f.calls ++ [(handler, outcome)]
    errors := f.errors ++ outcome.toList }

inductive Ending (E : Type) where
  | returned (errors : List E)
  | raised (e : E)

/-- An emission that has ended, with what `getLastErrors` gave then. -/
structure Emission (η E : Type) where
  eventType : PyStr
  registered : η → Option Nat
  calls : List (Call η E)
  ending : Ending E
  outermost : Bool
  lastErrors : List (Failure η E)
  /-- What the outermost emission had failed with when the list was last emptied. -/
  lost : List (Failure η E)
  /-- What the emissions inside it have failed with since. -/
  foreign : List (Failure η E)

structure World (η E : Type) where
  bus : EventBus η E
  logged : List (LogLine η E) := []
  stack : List (Frame η E) := []
  clock : Nat := 0
  /-- When the current registration of each handler was made. -/
  since : PyStr → η → Option Nat := fun _ _ => none
  lost : List (Failure η E) := []
  foreign : List (Failure η E) := []
  ended : List (Emission η E) := []

/-- `next` is the head of the loop of `emit`; `returns` and `raises` end the running handler. -/
inductive Label (η E : Type) where
  | on (eventType : PyStr) (handler : η)
  | off (eventType : PyStr) (handler : Option η)
  | clear
  | clearErrors
  | emit (eventType : PyStr)
  | next
  | returns
  | raises (e : E)

namespace World

def new : World η E := { bus := .new }

variable (w : World η E)

/-- Between two emissions, or inside a handler. -/
def mayAct : Bool :=
  match w.stack with
  | [] => true
  | f :: _ => f.running.isSome

/-- `_lastErrors` is emptied. -/
def reset (bus : EventBus η E) : World η E :=
  { w with bus := bus, lost := own w.stack, foreign := [] }

/-- A registration that is there stays as old as it is. -/
def register (callable : η → Bool) (eventType : PyStr) (handler : η) : World η E :=
  match w.bus.on callable eventType handler with
  | .error _ => w
  | .ok bus => { w with
      bus := bus
      since := Function.update w.since eventType (Function.update (w.since eventType) handler
        (some ((w.since eventType handler).getD w.clock))) }

def unregister (eventType : PyStr) (handler : Option η) : World η E :=
  { w with
    bus := w.bus.off eventType handler
    since := Function.update w.since eventType (fun h =>
      if handler = none ∨ handler = some h then none else w.since eventType h) }

def begin (eventType : PyStr) : World η E :=
  let handlers := w.bus._handlers eventType
  let opened := w.reset w.bus.clearErrors
  { opened with stack := ⟨eventType, w.since eventType, [], none, handlers, []⟩ :: w.stack }

def finish (f : Frame η E) (below : List (Frame η E)) (ending : Ending E) : World η E :=
  { w with
    stack := below
    ended := w.ended ++ [⟨f.eventType, f.registered, f.calls, ending, below.isEmpty,
      w.bus.getLastErrors, w.lost, w.foreign⟩] }

/-- The loop of the innermost emission goes on. -/
def advance (f : Frame η E) (below : List (Frame η E)) : World η E :=
  match f.rest with
  | [] => w.finish f below (.returned f.errors)
  | handler :: rest => { w with stack := { f with running := some handler, rest := rest } :: below }

/-- The failure is recorded, whatever then becomes of the emission. -/
def note (f : Frame η E) (below : List (Frame η E)) (handler : η) (e : E) : World η E :=
  let failure := Failure.mk f.eventType handler e
  { w with
    bus := w.bus.record failure
    foreign := if below.isEmpty then w.foreign else w.foreign ++ [failure] }

/-- The `except` block of the innermost emission; the handler is named before anything else. -/
def fail (s : Setting η E) (f : Frame η E) (below : List (Frame η E)) (handler : η) (e : E) :
    World η E :=
  match s.naming handler with
  | some e' => w.finish (f.after handler (some e)) below (.raised e')
  | none =>
    match s.leaving handler e with
    | some e' => (w.note f below handler e).finish (f.after handler (some e)) below (.raised e')
    | none => { w.note f below handler e with
        stack := f.after handler (some e) :: below
        logged := w.logged ++ [s.logLine ⟨f.eventType, handler, e⟩] }

/-- What the innermost emission does next, or its handler. -/
def proceed (s : Setting η E) (a : Label η E) : World η E :=
  match w.stack with
  | [] => w
  | f :: below =>
    match a, f.running with
    | .next, none => w.advance f below
    | .returns, some handler => { w with stack := f.after handler none :: below }
    | .raises e, some handler => w.fail s f below handler e
    | _, _ => w

def act (s : Setting η E) : Label η E → World η E
  | .on eventType handler => w.register s.callable eventType handler
  | .off eventType handler => w.unregister eventType handler
  | .clear => { w.reset w.bus.clear with since := fun _ _ => none }
  | .clearErrors => w.reset w.bus.clearErrors
  | .emit eventType => w.begin eventType
  | a => w.proceed s a

/-- Nothing but the loop acts between two calls of an emission. -/
def step (s : Setting η E) (a : Label η E) : World η E :=
  match a with
  | .next => { w.proceed s .next with clock := w.clock + 1 }
  | a => if w.mayAct then { w.act s a with clock := w.clock + 1 } else w

end World

/-- The world after a run from a new bus. -/
def after (s : Setting η E) (ls : List (Label η E)) : World η E :=
  run (fun w a => w.step s a) .new ls

/-! ## What an emission promises -/

/-- The handlers that are registered, as old as their registrations. -/
structure InOrder (since : η → Option Nat) (handlers : List η) : Prop where
  members : ∀ h, h ∈ handlers ↔ (since h).isSome = true
  ascending : handlers.Pairwise (fun a b => ∃ i j, since a = some i ∧ since b = some j ∧ i < j)

/-- Every handler has been called, and the list of what they raised has been returned. -/
def Emission.Complete (m : Emission η E) (order : List η) : Prop :=
  m.calls.map Prod.fst = order ∧ m.ending = .returned (raised m.calls)

/-- The last call is the first that raised, and what it raised has been propagated. -/
def Emission.Stopped (m : Emission η E) (order : List η) : Prop :=
  ∃ before h e, m.calls = before ++ [(h, some e)] ∧ raised before = [] ∧
    m.calls.map Prod.fst <+: order ∧ m.ending = .raised e

/-- What is promised of an emission that has ended. -/
def Emission.Kept (mode : ErrorHandlerMode) (m : Emission η E) : Prop :=
  ∃ order, InOrder m.registered order ∧
    (m.Complete order ∧ (mode = .RAISE → raised m.calls = []) ∨ mode = .RAISE ∧ m.Stopped order)

/-- About every call that failed the `except` block raises nothing of its own. -/
def Emission.Written (s : Setting η E) (m : Emission η E) : Prop :=
  ∀ c ∈ m.calls, ∀ e, c.2 = some e → s.Plain c.1 e

/-- Every handler that failed can be named. -/
def Emission.Named (s : Setting η E) (m : Emission η E) : Prop :=
  ∀ c ∈ m.calls, ∀ e, c.2 = some e → s.naming c.1 = none

/-! ## The registrations -/

omit [DecidableEq η] in
theorem InOrder.nodup {since : η → Option Nat} {handlers : List η} (h : InOrder since handlers) :
    handlers.Nodup := by
  apply h.ascending.imp
  rintro a b ⟨i, j, hi, hj, hlt⟩ rfl
  have hij : i = j := Option.some.inj (hi.symm.trans hj)
  omega

omit [DecidableEq η] in
theorem InOrder.nil : InOrder (fun _ => none) ([] : List η) := by
  constructor <;> simp

theorem InOrder.append {since : η → Option Nat} {handlers : List η} (h : InOrder since handlers)
    {handler : η} (hnew : handler ∉ handlers) {now : Nat} (hnow : ∀ a i, since a = some i → i < now) :
    InOrder (Function.update since handler (some now)) (handlers ++ [handler]) := by
  have hother : ∀ a ∈ handlers, Function.update since handler (some now) a = since a := by
    intro a ha
    exact Function.update_of_ne (ne_of_mem_of_not_mem ha hnew) _ _
  constructor
  · intro a
    by_cases ha : a = handler
    · subst a
      simp
    · simp [h.members, ha]
  · apply List.pairwise_append.mpr
    refine ⟨?_, List.pairwise_singleton _ _, ?_⟩
    · apply h.ascending.imp_of_mem
      rintro a b ha hb ⟨i, j, hi, hj, hlt⟩
      exact ⟨i, j, (hother a ha).trans hi, (hother b hb).trans hj, hlt⟩
    · intro a ha b hb
      obtain rfl := List.mem_singleton.mp hb
      obtain ⟨i, hi⟩ := Option.isSome_iff_exists.mp ((h.members a).mp ha)
      exact ⟨i, now, (hother a ha).trans hi, Function.update_self .., hnow a i hi⟩

theorem InOrder.erase {since : η → Option Nat} {handlers : List η} (h : InOrder since handlers)
    (handler : η) :
    InOrder (fun a => if handler = a then none else since a) (handlers.erase handler) := by
  constructor
  · intro a
    rw [h.nodup.mem_erase_iff, h.members]
    by_cases ha : handler = a
    · simp [ha]
    · simp [ha, Ne.symm ha]
  · apply (h.ascending.sublist List.erase_sublist).imp_of_mem
    rintro a b ha hb ⟨i, j, hi, hj, hlt⟩
    have hane := (h.nodup.mem_erase_iff.mp ha).1
    have hbne := (h.nodup.mem_erase_iff.mp hb).1
    exact ⟨i, j, by rw [if_neg (Ne.symm hane), hi], by rw [if_neg (Ne.symm hbne), hj], hlt⟩

/-- The table holds what is registered, and nothing is registered in the future. -/
structure Registered (w : World η E) : Prop where
  order : ∀ t, InOrder (w.since t) (w.bus._handlers t)
  past : ∀ t h i, w.since t h = some i → i < w.clock

omit [DecidableEq η] in
theorem registered_new : Registered (World.new : World η E) := by
  constructor
  · intro t
    exact InOrder.nil
  · intro t h i hi
    cases hi

theorem Registered.register {w : World η E} (h : Registered w) (callable : η → Bool) (t : PyStr)
    (handler : η) (t' : PyStr) :
    InOrder ((w.register callable t handler).since t')
      ((w.register callable t handler).bus._handlers t') := by
  unfold World.register EventBus.on
  split_ifs with hempty hcallable hmem
  · exact h.order t'
  · exact h.order t'
  · -- the handler is in the list, and its registration keeps its time
    obtain ⟨i, hi⟩ := Option.isSome_iff_exists.mp (((h.order t).members handler).mp hmem)
    have hsame : Function.update (w.since t) handler (some ((w.since t handler).getD w.clock)) = w.since t := by
      rw [hi, Option.getD_some, ← hi, Function.update_eq_self]
    simp only [hsame, Function.update_eq_self]
    exact h.order t'
  · have hnone : w.since t handler = none := by
      rw [← Option.not_isSome_iff_eq_none, ← (h.order t).members handler]
      exact hmem
    by_cases ht : t' = t
    · subst t'
      simp only [Function.update_self, hnone, Option.getD_none]
      exact (h.order t).append hmem (h.past t)
    · simp only [Function.update_of_ne ht]
      exact h.order t'

theorem Registered.unregister {w : World η E} (h : Registered w) (t : PyStr) (handler : Option η)
    (t' : PyStr) :
    InOrder ((w.unregister t handler).since t') ((w.unregister t handler).bus._handlers t') := by
  by_cases ht : t' = t
  · subst t'
    cases handler with
    | none =>
      simp only [World.unregister, EventBus.off, Function.update_self, true_or, if_true]
      exact InOrder.nil
    | some handler =>
      simp only [World.unregister, EventBus.off, Function.update_self, reduceCtorEq, false_or, Option.some.injEq]
      exact (h.order t).erase handler
  · cases handler <;> simp only [World.unregister, EventBus.off, Function.update_of_ne ht] <;> exact h.order t'

theorem World.register_past {w : World η E} (h : Registered w) (callable : η → Bool) (t : PyStr)
    (handler : η) (t' : PyStr) (a : η) (i : Nat)
    (hi : (w.register callable t handler).since t' a = some i) : i < w.clock + 1 := by
  have hold : w.since t' a = some i → i < w.clock + 1 := by
    intro hsince
    have hlt := h.past t' a i hsince
    omega
  unfold World.register at hi
  split at hi
  · exact hold hi
  · by_cases ht : t' = t
    · subst t'
      by_cases ha : a = handler
      · subst a
        simp only [Function.update_self, Option.some.injEq] at hi
        cases hsince : w.since t handler with
        | none =>
          rw [hsince, Option.getD_none] at hi
          omega
        | some j =>
          rw [hsince, Option.getD_some] at hi
          exact hold (hsince.trans (congrArg some hi))
      · simp only [Function.update_self, Function.update_of_ne ha] at hi
        exact hold hi
    · simp only [Function.update_of_ne ht] at hi
      exact hold hi

theorem World.unregister_past {w : World η E} (h : Registered w) (t : PyStr) (handler : Option η)
    (t' : PyStr) (a : η) (i : Nat) (hi : (w.unregister t handler).since t' a = some i) :
    i < w.clock + 1 := by
  have hold : w.since t' a = some i := by
    by_cases ht : t' = t
    · subst t'
      simp only [World.unregister, Function.update_self] at hi
      split at hi
      · cases hi
      · exact hi
    · simpa only [World.unregister, Function.update_of_ne ht] using hi
  have hlt := h.past t' a i hold
  omega

omit [DecidableEq η] in
theorem World.proceed_registrations (w : World η E) (s : Setting η E) (a : Label η E) :
    (w.proceed s a).since = w.since ∧ (w.proceed s a).bus._handlers = w.bus._handlers ∧
      (w.proceed s a).clock = w.clock := by
  unfold World.proceed
  split
  · exact ⟨rfl, rfl, rfl⟩
  · split
    · unfold World.advance
      split <;> exact ⟨rfl, rfl, rfl⟩
    · exact ⟨rfl, rfl, rfl⟩
    · unfold World.fail
      split
      · exact ⟨rfl, rfl, rfl⟩
      · split <;> exact ⟨rfl, rfl, rfl⟩
    · exact ⟨rfl, rfl, rfl⟩

omit [DecidableEq η] in
theorem Registered.of_same {w w' : World η E} (h : Registered w) (hsince : w'.since = w.since)
    (hhandlers : w'.bus._handlers = w.bus._handlers) (hclock : w.clock ≤ w'.clock) : Registered w' := by
  constructor
  · intro t
    rw [hsince, hhandlers]
    exact h.order t
  · intro t a i hi
    have hlt := h.past t a i (by rw [← hsince]; exact hi)
    omega

omit [DecidableEq η] in
theorem Registered.proceed {w : World η E} (h : Registered w) (s : Setting η E) (a : Label η E) :
    Registered { w.proceed s a with clock := w.clock + 1 } := by
  obtain ⟨hsince, hhandlers, -⟩ := w.proceed_registrations s a
  exact h.of_same hsince hhandlers (Nat.le_succ _)

theorem Registered.act {w : World η E} (h : Registered w) (s : Setting η E) (a : Label η E) :
    Registered { w.act s a with clock := w.clock + 1 } := by
  cases a with
  | on t handler => exact ⟨h.register s.callable t handler, w.register_past h s.callable t handler⟩
  | off t handler => exact ⟨h.unregister t handler, w.unregister_past h t handler⟩
  | clear =>
    constructor
    · intro t
      exact InOrder.nil
    · intro t a i hi
      cases hi
  | clearErrors => exact h.of_same rfl rfl (Nat.le_succ _)
  | emit t => exact h.of_same rfl rfl (Nat.le_succ _)
  | next => exact h.proceed s .next
  | returns => exact h.proceed s .returns
  | raises e => exact h.proceed s (.raises e)

theorem Registered.step {w : World η E} (h : Registered w) (s : Setting η E) (a : Label η E) :
    Registered (w.step s a) := by
  unfold World.step
  split
  · exact h.proceed s .next
  · split
    · exact h.act s a
    · exact h

/-! ## The `except` block -/

omit [DecidableEq η] in
theorem Setting.escaping_of_unnamed {s : Setting η E} {handler : η} {e' : E}
    (h : s.naming handler = some e') (e : E) : s.escaping handler e = some e' := by
  simp only [Setting.escaping, h]

omit [DecidableEq η] in
theorem Setting.escaping_of_named {s : Setting η E} {handler : η} (h : s.naming handler = none) (e : E) :
    s.escaping handler e = s.leaving handler e := by
  simp only [Setting.escaping, h]

omit [DecidableEq η] in
theorem Setting.named_of_escaping {s : Setting η E} {handler : η} {e : E}
    (h : s.escaping handler e = none) : s.naming handler = none := by
  cases hnaming : s.naming handler with
  | none => rfl
  | some e' =>
    rw [Setting.escaping_of_unnamed hnaming] at h
    cases h

omit [DecidableEq η] in
theorem Setting.plain_of_escaping {s : Setting η E} {handler : η} {e : E}
    (h : s.escaping handler e = none) : s.errorMode ≠ .RAISE ∧ s.Plain handler e := by
  have hnamed := Setting.named_of_escaping h
  rw [Setting.escaping_of_named hnamed] at h
  unfold Setting.leaving at h
  split at h
  · cases h
  · next hmode =>
    refine ⟨hmode, ?_, .inr h⟩
    intro e' he'
    rw [hnamed] at he'
    cases he'

omit [DecidableEq η] in
/-- Where a failure leaves the block, it is plain exactly if it is the handler's own in `RAISE`. -/
theorem Setting.plain_iff_of_escaping {s : Setting η E} {handler : η} {e e' : E}
    (h : s.escaping handler e = some e') : s.Plain handler e ↔ s.errorMode = .RAISE ∧ e' = e := by
  cases hnaming : s.naming handler with
  | some d =>
    rw [Setting.escaping_of_unnamed hnaming] at h
    obtain rfl := Option.some.inj h
    constructor
    · intro hplain
      exact hplain.1 d hnaming
    · rintro ⟨hmode, rfl⟩
      refine ⟨?_, .inl hmode⟩
      intro c hc
      exact ⟨hmode, Option.some.inj (hc.symm.trans hnaming)⟩
  | none =>
    rw [Setting.escaping_of_named hnaming] at h
    have hnone : ∀ c, s.naming handler = some c → s.errorMode = .RAISE ∧ c = e := by
      intro c hc
      rw [hnaming] at hc
      cases hc
    unfold Setting.leaving at h
    split at h
    · next hmode =>
      obtain rfl := Option.some.inj h
      exact iff_of_true ⟨hnone, .inl hmode⟩ ⟨hmode, rfl⟩
    · next hmode =>
      apply iff_of_false
      · rintro ⟨-, hraise | hwriting⟩
        · exact hmode hraise
        · rw [hwriting] at h
          cases h
      · rintro ⟨hraise, -⟩
        exact hmode hraise

/-! ## The emissions -/

/-- No call has failed in a way that ends the loop. -/
def Passing (s : Setting η E) (calls : List (Call η E)) : Prop :=
  ∀ c ∈ calls, ∀ e, c.2 = some e → s.escaping c.1 e = none

structure Frame.Sound (s : Setting η E) (f : Frame η E) : Prop where
  order : InOrder f.registered (f.calls.map Prod.fst ++ f.running.toList ++ f.rest)
  errors : f.errors = raised f.calls
  passing : Passing s f.calls

/-- How an emission that has ended has gone. -/
def Emission.Sound (s : Setting η E) (m : Emission η E) : Prop :=
  ∃ order, InOrder m.registered order ∧
    (m.Complete order ∧ Passing s m.calls ∨
      ∃ before h e e', m.calls = before ++ [(h, some e)] ∧ Passing s before ∧
        m.calls.map Prod.fst <+: order ∧ s.escaping h e = some e' ∧ m.ending = .raised e')

omit [DecidableEq η] in
theorem passing_concat {s : Setting η E} {calls : List (Call η E)} (h : Passing s calls) {handler : η}
    {outcome : Option E} (hlast : ∀ e, outcome = some e → s.escaping handler e = none) :
    Passing s (calls ++ [(handler, outcome)]) := by
  intro c hc
  rcases List.mem_append.mp hc with hc | hc
  · exact h c hc
  · obtain rfl := List.mem_singleton.mp hc
    exact hlast

omit [DecidableEq η] in
theorem raised_concat (calls : List (Call η E)) (handler : η) (outcome : Option E) :
    raised (calls ++ [(handler, outcome)]) = raised calls ++ outcome.toList := by
  cases outcome <;> simp [raised]

omit [DecidableEq η] in
theorem Frame.Sound.after {s : Setting η E} {f : Frame η E} (h : f.Sound s) {handler : η}
    (hrunning : f.running = some handler) {outcome : Option E}
    (hlast : ∀ e, outcome = some e → s.escaping handler e = none) : (f.after handler outcome).Sound s := by
  constructor
  · have horder := h.order
    simpa [Frame.after, hrunning] using horder
  · simp only [Frame.after, raised_concat, h.errors]
  · exact passing_concat h.passing hlast

omit [DecidableEq η] in
theorem Frame.Sound.take {s : Setting η E} {f : Frame η E} (h : f.Sound s) {handler : η} {rest : List η}
    (hrunning : f.running = none) (hrest : f.rest = handler :: rest) :
    Frame.Sound s { f with running := some handler, rest := rest } := by
  constructor
  · have horder := h.order
    simpa [hrunning, hrest] using horder
  · exact h.errors
  · exact h.passing

/-- The frames that a world has and the emissions that have ended in it. -/
structure Sound (s : Setting η E) (w : World η E) : Prop where
  frames : ∀ f ∈ w.stack, f.Sound s
  ended : ∀ m ∈ w.ended, m.Sound s

omit [DecidableEq η] in
theorem Sound.replace {s : Setting η E} {w : World η E} (h : Sound s w) {f : Frame η E}
    {below : List (Frame η E)} (hstack : w.stack = f :: below) {g : Frame η E} (hg : g.Sound s) :
    ∀ x ∈ g :: below, x.Sound s := by
  intro x hx
  rcases List.mem_cons.mp hx with rfl | hx
  · exact hg
  · exact h.frames x (by rw [hstack]; exact List.mem_cons_of_mem f hx)

omit [DecidableEq η] in
theorem Sound.finish {s : Setting η E} {w : World η E} (h : Sound s w) {f : Frame η E}
    {below : List (Frame η E)} {ending : Ending E} (hbelow : ∀ x ∈ below, x.Sound s)
    (hm : Emission.Sound s ⟨f.eventType, f.registered, f.calls, ending, below.isEmpty,
      w.bus.getLastErrors, w.lost, w.foreign⟩) : Sound s (w.finish f below ending) := by
  constructor
  · exact hbelow
  · intro m hmem
    rcases List.mem_append.mp hmem with hmem | hmem
    · exact h.ended m hmem
    · obtain rfl := List.mem_singleton.mp hmem
      exact hm

omit [DecidableEq η] in
theorem Sound.below {s : Setting η E} {w : World η E} (h : Sound s w) {f : Frame η E}
    {below : List (Frame η E)} (hstack : w.stack = f :: below) : ∀ x ∈ below, x.Sound s := by
  intro x hx
  exact h.frames x (by rw [hstack]; exact List.mem_cons_of_mem f hx)

omit [DecidableEq η] in
theorem Sound.top {s : Setting η E} {w : World η E} (h : Sound s w) {f : Frame η E}
    {below : List (Frame η E)} (hstack : w.stack = f :: below) : f.Sound s :=
  h.frames f (by rw [hstack]; exact List.mem_cons_self)

omit [DecidableEq η] in
theorem Sound.advance {s : Setting η E} {w : World η E} (h : Sound s w) {f : Frame η E}
    {below : List (Frame η E)} (hstack : w.stack = f :: below) (hrunning : f.running = none) :
    Sound s (w.advance f below) := by
  have hf := h.top hstack
  unfold World.advance
  split
  · next hrest =>
    apply Sound.finish h (h.below hstack)
    refine ⟨f.calls.map Prod.fst, ?_, .inl ⟨⟨rfl, congrArg _ hf.errors⟩, hf.passing⟩⟩
    have horder := hf.order
    simpa [hrunning, hrest] using horder
  · next handler rest hrest => exact ⟨h.replace hstack (hf.take hrunning hrest), h.ended⟩

omit [DecidableEq η] in
theorem Sound.fail {s : Setting η E} {w : World η E} (h : Sound s w) {f : Frame η E}
    {below : List (Frame η E)} (hstack : w.stack = f :: below) {handler : η}
    (hrunning : f.running = some handler) (e : E) : Sound s (w.fail s f below handler e) := by
  have hf := h.top hstack
  have hstopped : ∀ e' lastErrors lost foreign, s.escaping handler e = some e' →
      Emission.Sound s ⟨f.eventType, f.registered, f.calls ++ [(handler, some e)], .raised e',
        below.isEmpty, lastErrors, lost, foreign⟩ := by
    intro e' lastErrors lost foreign hescaping
    refine ⟨_, hf.order, .inr ⟨f.calls, handler, e, e', rfl, hf.passing, ?_, hescaping, rfl⟩⟩
    simp [hrunning]
  unfold World.fail
  split
  · next e' hnaming =>
    apply h.finish (h.below hstack)
    exact hstopped _ _ _ _ (Setting.escaping_of_unnamed hnaming e)
  · next hnaming =>
    have hescaping := Setting.escaping_of_named hnaming e
    split
    · next e' hleaving =>
      have hnote : Sound s (w.note f below handler e) := ⟨h.frames, h.ended⟩
      apply hnote.finish (h.below hstack)
      exact hstopped _ _ _ _ (hescaping.trans hleaving)
    · next hleaving =>
      refine ⟨h.replace hstack (hf.after hrunning ?_), h.ended⟩
      rintro e' ⟨⟩
      exact hescaping.trans hleaving

omit [DecidableEq η] in
theorem Sound.proceed {s : Setting η E} {w : World η E} (h : Sound s w) (a : Label η E) :
    Sound s (w.proceed s a) := by
  unfold World.proceed
  split
  · exact h
  · next f below hstack =>
    split
    · next hrunning => exact h.advance hstack hrunning
    · next handler hrunning =>
      refine ⟨h.replace hstack ((h.top hstack).after hrunning ?_), h.ended⟩
      intro e he
      cases he
    · next e handler hrunning => exact h.fail hstack hrunning e
    · exact h

theorem Sound.register {s : Setting η E} {w : World η E} (h : Sound s w) (t : PyStr) (handler : η) :
    Sound s (w.register s.callable t handler) := by
  unfold World.register
  split
  · exact h
  · exact ⟨h.frames, h.ended⟩

omit [DecidableEq η] in
theorem Sound.begin {s : Setting η E} {w : World η E} (h : Sound s w) (hregistered : Registered w)
    (t : PyStr) : Sound s (w.begin t) := by
  refine ⟨?_, h.ended⟩
  intro f hf
  rcases List.mem_cons.mp hf with rfl | hf
  · refine ⟨hregistered.order t, rfl, ?_⟩
    intro c hc
    cases hc
  · exact h.frames f hf

theorem Sound.step {s : Setting η E} {w : World η E} (h : Sound s w) (hregistered : Registered w)
    (a : Label η E) : Sound s (w.step s a) := by
  have hact : Sound s (w.act s a) := by
    cases a with
    | on t handler => exact h.register t handler
    | off t handler => exact ⟨h.frames, h.ended⟩
    | clear => exact ⟨h.frames, h.ended⟩
    | clearErrors => exact ⟨h.frames, h.ended⟩
    | emit t => exact h.begin hregistered t
    | next => exact h.proceed .next
    | returns => exact h.proceed .returns
    | raises e => exact h.proceed (.raises e)
  unfold World.step
  split
  · exact ⟨hact.frames, hact.ended⟩
  · split
    · exact ⟨hact.frames, hact.ended⟩
    · exact h

/-! ## The list of the last errors -/

/-- The failures of an emission's own handlers. -/
def Emission.own (m : Emission η E) : List (Failure η E) := failures m.eventType m.calls

/-- What the list of the last errors promises about an emission when it ends. -/
structure Emission.Listed (m : Emission η E) : Prop where
  own : m.lastErrors = m.own
  returned : ∀ errors, m.ending = .returned errors → m.lastErrors.map Failure.exception = errors

/-- The list holds what the emissions inside the outermost one have failed with since it was last
emptied, and then what the outermost one itself has; a failure before that is gone. -/
def Accounted (w : World η E) : Prop :=
  w.stack ≠ [] → ∃ recent, EventBuses.own w.stack = w.lost ++ recent ∧
    w.bus._lastErrors = w.foreign ++ recent ∧ (1 < w.stack.length → recent = [])

structure AccountedEmission (s : Setting η E) (m : Emission η E) : Prop where
  errors : ∀ errors, m.ending = .returned errors → errors = raised m.calls
  named : ∀ x ∈ m.lastErrors, s.naming x.handler = none
  recent : m.outermost = true → m.Named s →
    ∃ recent, m.own = m.lost ++ recent ∧ m.lastErrors = m.foreign ++ recent

omit [DecidableEq η] in
theorem exceptions_failures (eventType : PyStr) (calls : List (Call η E)) :
    (failures eventType calls).map Failure.exception = raised calls := by
  induction calls with
  | nil => rfl
  | cons c calls ih =>
    obtain ⟨handler, outcome⟩ := c
    cases outcome <;> simpa [failures, raised] using ih

omit [DecidableEq η] in
theorem failures_concat (eventType : PyStr) (calls : List (Call η E)) (handler : η) (outcome : Option E) :
    failures eventType (calls ++ [(handler, outcome)]) =
      failures eventType calls ++ (outcome.map (Failure.mk eventType handler)).toList := by
  cases outcome <;> simp [failures]

omit [DecidableEq η] in
@[simp] theorem own_cons (f g : Frame η E) (below : List (Frame η E)) :
    own (f :: g :: below) = own (g :: below) := rfl

omit [DecidableEq η] in
theorem Accounted.reset {w : World η E} (bus : EventBus η E) (hbus : bus._lastErrors = []) :
    Accounted (w.reset bus) := by
  intro _
  exact ⟨[], (List.append_nil _).symm, hbus, fun _ => rfl⟩

/-- The account of a world, and those of the emissions that have ended in it. -/
structure Balanced (s : Setting η E) (w : World η E) : Prop where
  current : Accounted w
  named : ∀ x ∈ w.bus._lastErrors, s.naming x.handler = none
  ended : ∀ m ∈ w.ended, AccountedEmission s m

omit [DecidableEq η] in
theorem Accounted.replace {w : World η E} (h : Accounted w) {f g : Frame η E} {below : List (Frame η E)}
    (hstack : w.stack = f :: below) (hfailures : g.failures = f.failures) :
    Accounted { w with stack := g :: below } := by
  intro _
  obtain ⟨recent, hown, hlast, hnested⟩ := h (by simp [hstack])
  have hsame : own (g :: below) = own (f :: below) := by
    cases below with
    | nil => exact hfailures
    | cons x below => rfl
  refine ⟨recent, ?_, hlast, ?_⟩
  · rw [hsame, ← hstack]
    exact hown
  · rw [hstack] at hnested
    exact hnested

omit [DecidableEq η] in
theorem Accounted.note {w : World η E} (h : Accounted w) {f : Frame η E} {below : List (Frame η E)}
    (hstack : w.stack = f :: below) (handler : η) (e : E) :
    Accounted { w.note f below handler e with stack := f.after handler (some e) :: below } := by
  intro _
  obtain ⟨recent, hown, hlast, hnested⟩ := h (by simp [hstack])
  rw [hstack] at hown hnested
  cases below with
  | nil =>
    refine ⟨recent ++ [⟨f.eventType, handler, e⟩], ?_, ?_, ?_⟩
    · calc failures f.eventType (f.calls ++ [(handler, some e)])
          = failures f.eventType f.calls ++ [⟨f.eventType, handler, e⟩] := failures_concat ..
        _ = (w.lost ++ recent) ++ [⟨f.eventType, handler, e⟩] := congrArg (· ++ _) hown
        _ = w.lost ++ (recent ++ [⟨f.eventType, handler, e⟩]) := List.append_assoc ..
    · simp [World.note, EventBus.record, hlast]
    · intro hlt
      simp at hlt
  | cons g below =>
    -- the failure of an emission inside the outermost one
    obtain rfl : recent = [] := hnested (by simp)
    refine ⟨[], hown, ?_, fun _ => rfl⟩
    simp [World.note, EventBus.record, hlast]

omit [DecidableEq η] in
/-- The account goes on below an emission that ends. -/
theorem Accounted.finish {w : World η E} (h : Accounted w) {f g : Frame η E} {below : List (Frame η E)}
    (hstack : w.stack = f :: below) (ending : Ending E) : Accounted (w.finish g below ending) := by
  intro hbelow
  obtain ⟨recent, hown, hlast, hnested⟩ := h (by simp [hstack])
  rw [hstack] at hown hnested
  obtain ⟨x, rest, rfl⟩ := List.exists_cons_of_ne_nil hbelow
  exact ⟨recent, hown, hlast, fun _ => hnested (by simp)⟩

omit [DecidableEq η] in
theorem Balanced.finish {s : Setting η E} {w : World η E} (h : Balanced s w) {f : Frame η E}
    {below : List (Frame η E)} (hstack : w.stack = f :: below) {ending : Ending E}
    (hending : ∀ errors, ending = .returned errors → errors = raised f.calls) :
    Balanced s (w.finish f below ending) := by
  refine ⟨h.current.finish hstack ending, h.named, ?_⟩
  intro m hm
  rcases List.mem_append.mp hm with hm | hm
  · exact h.ended m hm
  · obtain rfl := List.mem_singleton.mp hm
    refine ⟨hending, h.named, ?_⟩
    intro houtermost _
    obtain rfl : below = [] := List.isEmpty_iff.mp houtermost
    obtain ⟨recent, hown, hlast, -⟩ := h.current (by simp [hstack])
    rw [hstack] at hown
    exact ⟨recent, hown, hlast⟩

omit [DecidableEq η] in
/-- A handler that cannot be named is not in the list, and its emission is not one of the named. -/
theorem Balanced.unnamed {s : Setting η E} {w : World η E} (h : Balanced s w) {f : Frame η E}
    {below : List (Frame η E)} (hstack : w.stack = f :: below) {handler : η} {e' : E}
    (hnaming : s.naming handler = some e') (e : E) :
    Balanced s (w.finish (f.after handler (some e)) below (.raised e')) := by
  refine ⟨h.current.finish hstack _, h.named, ?_⟩
  intro m hm
  rcases List.mem_append.mp hm with hm | hm
  · exact h.ended m hm
  · obtain rfl := List.mem_singleton.mp hm
    refine ⟨?_, h.named, ?_⟩
    · intro errors herrors
      cases herrors
    · intro _ hnamed
      have hnone := hnamed (handler, some e) (List.mem_append_right _ (List.mem_singleton.mpr rfl)) e rfl
      rw [hnaming] at hnone
      cases hnone

omit [DecidableEq η] in
theorem Balanced.fail {s : Setting η E} {w : World η E} (h : Balanced s w) {f : Frame η E}
    {below : List (Frame η E)} (hstack : w.stack = f :: below) (handler : η) (e : E) :
    Balanced s (w.fail s f below handler e) := by
  unfold World.fail
  split
  · next e' hnaming => exact h.unnamed hstack hnaming e
  · next hnaming =>
    have hnote : Balanced s { w.note f below handler e with stack := f.after handler (some e) :: below } := by
      refine ⟨h.current.note hstack handler e, ?_, h.ended⟩
      intro x hx
      rcases List.mem_append.mp hx with hx | hx
      · exact h.named x hx
      · obtain rfl := List.mem_singleton.mp hx
        exact hnaming
    split
    · apply hnote.finish rfl
      intro errors herrors
      cases herrors
    · exact ⟨hnote.current, hnote.named, hnote.ended⟩

omit [DecidableEq η] in
theorem Balanced.proceed {s : Setting η E} {w : World η E} (h : Balanced s w) (hsound : Sound s w)
    (a : Label η E) : Balanced s (w.proceed s a) := by
  unfold World.proceed
  split
  · exact h
  · next f below hstack =>
    split
    · unfold World.advance
      split
      · apply h.finish hstack
        rintro errors ⟨⟩
        exact (hsound.top hstack).errors
      · exact ⟨h.current.replace hstack rfl, h.named, h.ended⟩
    · next handler _ =>
      refine ⟨h.current.replace hstack ?_, h.named, h.ended⟩
      exact (failures_concat f.eventType f.calls handler none).trans (List.append_nil _)
    · next e handler _ => exact h.fail hstack handler e
    · exact h

omit [DecidableEq η] in
theorem Accounted.begin {w : World η E} (t : PyStr) : Accounted (w.begin t) := by
  intro _
  refine ⟨[], ?_, rfl, fun _ => rfl⟩
  rw [List.append_nil]
  change own (_ :: w.stack) = own w.stack
  cases w.stack with
  | nil => rfl
  | cons f below => rfl

theorem EventBus.on_last_errors {callable : η → Bool} {b c : EventBus η E} {t : PyStr} {handler : η}
    (h : b.on callable t handler = .ok c) : c._lastErrors = b._lastErrors := by
  unfold EventBus.on at h
  split_ifs at h <;> cases h <;> rfl

theorem Balanced.register {s : Setting η E} {w : World η E} (h : Balanced s w) (callable : η → Bool)
    (t : PyStr) (handler : η) : Balanced s (w.register callable t handler) := by
  unfold World.register
  split
  · exact h
  · next bus hon =>
    have hsame := EventBus.on_last_errors hon
    refine ⟨?_, ?_, h.ended⟩
    · intro hne
      obtain ⟨recent, hown, hlast, hnested⟩ := h.current hne
      exact ⟨recent, hown, hsame.trans hlast, hnested⟩
    · intro x hx
      exact h.named x (hsame ▸ hx)

theorem EventBus.off_last_errors (b : EventBus η E) (t : PyStr) (handler : Option η) :
    (b.off t handler)._lastErrors = b._lastErrors := by
  cases handler <;> rfl

theorem Balanced.unregister {s : Setting η E} {w : World η E} (h : Balanced s w) (t : PyStr)
    (handler : Option η) : Balanced s (w.unregister t handler) := by
  have hsame := w.bus.off_last_errors t handler
  refine ⟨?_, ?_, h.ended⟩
  · intro hne
    obtain ⟨recent, hown, hlast, hnested⟩ := h.current hne
    exact ⟨recent, hown, hsame.trans hlast, hnested⟩
  · intro x hx
    exact h.named x (hsame ▸ hx)

omit [DecidableEq η] in
theorem Balanced.emptied {s : Setting η E} {w w' : World η E} (h : Balanced s w)
    (hcurrent : Accounted w') (hbus : w'.bus._lastErrors = []) (hended : w'.ended = w.ended) :
    Balanced s w' := by
  refine ⟨hcurrent, ?_, by rw [hended]; exact h.ended⟩
  intro x hx
  rw [hbus] at hx
  cases hx

theorem Balanced.step {s : Setting η E} {w : World η E} (h : Balanced s w) (hsound : Sound s w)
    (a : Label η E) : Balanced s (w.step s a) := by
  have hact : Balanced s (w.act s a) := by
    cases a with
    | on t handler => exact h.register s.callable t handler
    | off t handler => exact h.unregister t handler
    | clear => exact h.emptied (Accounted.reset w.bus.clear rfl) rfl rfl
    | clearErrors => exact h.emptied (Accounted.reset w.bus.clearErrors rfl) rfl rfl
    | emit t => exact h.emptied (Accounted.begin t) rfl rfl
    | next => exact h.proceed hsound .next
    | returns => exact h.proceed hsound .returns
    | raises e => exact h.proceed hsound (.raises e)
  unfold World.step
  split
  · exact ⟨hact.current, hact.named, hact.ended⟩
  · split
    · exact ⟨hact.current, hact.named, hact.ended⟩
    · exact h

/-! ## Runs -/

/-- What every run keeps. -/
structure Inv (s : Setting η E) (w : World η E) : Prop where
  registered : Registered w
  sound : Sound s w
  balanced : Balanced s w

omit [DecidableEq η] in
theorem inv_new (s : Setting η E) : Inv s (.new : World η E) := by
  refine ⟨registered_new, ⟨?_, ?_⟩, ⟨?_, ?_, ?_⟩⟩
  · intro f hf
    cases hf
  · intro m hm
    cases hm
  · intro hne
    exact absurd rfl hne
  · intro x hx
    cases hx
  · intro m hm
    cases hm

theorem inv_after (s : Setting η E) (ls : List (Label η E)) : Inv s (after s ls) := by
  apply run_induction _ (inv_new s)
  intro w a h
  exact ⟨h.registered.step s a, h.sound.step h.registered a, h.balanced.step h.sound a⟩

omit [DecidableEq η] in
theorem Passing.plain {s : Setting η E} {calls : List (Call η E)} (h : Passing s calls) :
    ∀ c ∈ calls, ∀ e, c.2 = some e → s.Plain c.1 e := by
  intro c hc e he
  exact (Setting.plain_of_escaping (h c hc e he)).2

omit [DecidableEq η] in
theorem Passing.raised_nil {s : Setting η E} {calls : List (Call η E)} (h : Passing s calls)
    (hmode : s.errorMode = .RAISE) : raised calls = [] := by
  apply List.filterMap_eq_nil_iff.mpr
  intro c hc
  cases hraised : c.2 with
  | none => rfl
  | some e => exact absurd hmode (Setting.plain_of_escaping (h c hc e hraised)).1

omit [DecidableEq η] in
/-- A failure that ends the loop is the last of an emission, so the others have been logged. -/
theorem Emission.Sound.kept_iff {s : Setting η E} {m : Emission η E} (h : m.Sound s) :
    m.Kept s.errorMode ↔ m.Written s := by
  obtain ⟨order, horder, ⟨hcomplete, hpassing⟩ | ⟨before, h, e, e', hcalls, hpassing, hprefix, hescaping, hend⟩⟩ := h
  · apply iff_of_true
    · exact ⟨order, horder, .inl ⟨hcomplete, hpassing.raised_nil⟩⟩
    · exact hpassing.plain
  · have hplain := Setting.plain_iff_of_escaping hescaping
    constructor
    · rintro ⟨order', _, ⟨⟨_, hreturned⟩, _⟩ | ⟨hmode, before', h', c, hcalls', _, _, hend'⟩⟩
      · rw [hend] at hreturned
        cases hreturned
      · -- the last call is the one that has failed
        obtain ⟨-, hlast⟩ := List.append_inj' (hcalls.symm.trans hcalls') rfl
        obtain ⟨rfl, rfl⟩ : h = h' ∧ e = c := by simpa using hlast
        obtain rfl : e' = e := by
          rw [hend] at hend'
          exact Ending.raised.inj hend'
        intro x hx d hd
        rw [hcalls] at hx
        rcases List.mem_append.mp hx with hx | hx
        · exact hpassing.plain x hx d hd
        · obtain rfl := List.mem_singleton.mp hx
          obtain rfl := Option.some.inj hd
          exact hplain.mpr ⟨hmode, rfl⟩
    · intro hwritten
      obtain ⟨hmode, rfl⟩ := hplain.mp (hwritten (h, some e) (by rw [hcalls]; simp) e rfl)
      exact ⟨order, horder, .inr ⟨hmode, before, h, e', hcalls, hpassing.raised_nil hmode, hprefix, hend⟩⟩

omit [DecidableEq η] in
theorem Frame.Sound.called {s : Setting η E} {f : Frame η E} (h : f.Sound s) :
    ∃ order, InOrder f.registered order ∧ f.calls.map Prod.fst ++ f.running.toList <+: order :=
  ⟨_, h.order, List.prefix_append _ _⟩

/-- In every run the table holds every registered handler once and in the order of the
registrations; an emission under way has called the first of those it found; and one that has
ended keeps what is promised exactly if the `except` block raised nothing of its own. -/
theorem emissions_kept_iff (s : Setting η E) (ls : List (Label η E)) :
    (∀ t, ((after s ls).bus._handlers t).Nodup ∧ InOrder ((after s ls).since t) ((after s ls).bus._handlers t)) ∧
    (∀ f ∈ (after s ls).stack, ∃ order, InOrder f.registered order ∧
      f.calls.map Prod.fst ++ f.running.toList <+: order) ∧
    ∀ m ∈ (after s ls).ended, (m.Kept s.errorMode ↔ m.Written s) := by
  have h := inv_after s ls
  refine ⟨?_, ?_, ?_⟩
  · intro t
    exact ⟨(h.registered.order t).nodup, h.registered.order t⟩
  · intro f hf
    exact (h.sound.frames f hf).called
  · intro m hm
    exact (h.sound.ended m hm).kept_iff

/-- Two handlers, the first of which raises an exception that has no text. -/
def unwritable : Setting Nat Nat :=
  ⟨.COLLECT, fun _ => true, fun _ _ => false, fun _ => none, fun _ _ => some 1⟩

def unwritableRun : List (Label Nat Nat) :=
  [.on "tick" 1, .on "tick" 2, .emit "tick", .next, .raises 0]

theorem second_handler_skipped :
    ¬ ∀ m ∈ (after unwritable unwritableRun).ended, m.Kept unwritable.errorMode := by
  intro h
  have hmem : ∃ m ∈ (after unwritable unwritableRun).ended, m.calls = [(1, some 0)] ∧ m.ending = .raised 1 :=
    ⟨_, List.mem_singleton.mpr rfl, rfl, rfl⟩
  obtain ⟨m, hm, -, hending⟩ := hmem
  obtain ⟨_, _, ⟨⟨_, hreturned⟩, _⟩ | ⟨hraise, _⟩⟩ := h m hm
  · rw [hending] at hreturned
    cases hreturned
  · cases hraise

/-- When an outermost emission ends, the list of the last errors is that of its own failures
exactly if as much was lost of them as emissions inside it have put in their place, and each of
its handlers that failed could be named. -/
theorem last_errors_iff (s : Setting η E) (ls : List (Label η E)) :
    ∀ m ∈ (after s ls).ended, m.outermost = true → (m.Listed ↔ m.lost = m.foreign ∧ m.Named s) := by
  intro m hm houtermost
  have h := (inv_after s ls).balanced.ended m hm
  constructor
  · intro hlisted
    have hnamed : m.Named s := by
      intro c hc e he
      apply h.named ⟨m.eventType, c.1, e⟩
      rw [hlisted.own]
      exact List.mem_filterMap.mpr ⟨c, hc, by rw [he]; rfl⟩
    obtain ⟨recent, hown, hlast⟩ := h.recent houtermost hnamed
    have heq : m.foreign ++ recent = m.lost ++ recent := by
      rw [← hlast, ← hown]
      exact hlisted.own
    exact ⟨(List.append_cancel_right heq).symm, hnamed⟩
  · rintro ⟨heq, hnamed⟩
    obtain ⟨recent, hown, hlast⟩ := h.recent houtermost hnamed
    have hown' : m.lastErrors = m.own := by rw [hlast, hown, heq]
    refine ⟨hown', ?_⟩
    intro errors hending
    rw [hown', Emission.own, exceptions_failures, h.errors errors hending]

def logged : Setting Nat Nat :=
  ⟨.LOG, fun _ => true, fun _ _ => false, fun _ => none, fun _ _ => none⟩

def failingRun : List (Label Nat Nat) := [.on "tick" 1, .emit "tick", .next, .raises 0, .next]

theorem last_errors_iff_failing :
    ∃ m ∈ (after logged failingRun).ended, m.outermost = true ∧
      (m.Listed ↔ m.lost = m.foreign ∧ m.Named logged) :=
  ⟨_, List.mem_singleton.mpr rfl, rfl,
    last_errors_iff logged failingRun _ (List.mem_singleton.mpr rfl) rfl⟩

/-- The first handler fails, and the second emits another event. -/
def emittingRun : List (Label Nat Nat) :=
  [.on "tick" 1, .on "tick" 2, .emit "tick", .next, .raises 0, .next, .emit "trade", .next, .returns, .next]

theorem own_failure_lost :
    ¬ ∀ m ∈ (after logged emittingRun).ended, m.outermost = true → m.Listed := by
  intro h
  have hmem : ∃ m ∈ (after logged emittingRun).ended,
      m.outermost = true ∧ m.ending = .returned [0] ∧ m.lastErrors = [] :=
    ⟨_, List.mem_cons_of_mem _ (List.mem_singleton.mpr rfl), rfl, rfl, rfl⟩
  obtain ⟨m, hm, houtermost, hending, hlast⟩ := hmem
  have hreturned := (h m hm houtermost).returned [0] hending
  rw [hlast] at hreturned
  cases hreturned

end EventBuses
