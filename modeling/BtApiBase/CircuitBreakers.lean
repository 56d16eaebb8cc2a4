import BtApiBase.PyValue
import BtApiBase.Runs
import Mathlib.Data.Rat.Floor

/-!
# The circuit breaker

`async_circuit_breaker` decides before it awaits the function and records the
outcome after it, so calls that began in one state report in another. The three
states say no more than two numbers do: the expected failures since the last
success, and the time of the last one.
-/

namespace CircuitBreakers

open PyText PyValue Runs

inductive State where
  | CLOSED | OPEN | HALF_OPEN
  deriving DecidableEq, Repr

structure CircuitState where
  failures : Nat := 0
  lastFailure : Option Rat := none
  state : State := .CLOSED
  deriving DecidableEq, Repr

/-- The arguments of the decorator that it accepts. -/
structure Config where
  failureThreshold : Nat
  recoveryTimeout : Rat
  expectedException : PyExc → Bool
  threshold_pos : 0 < failureThreshold
  timeout_nonneg : 0 ≤ recoveryTimeout

variable {α : Type*} (c : Config)

/-- `should_attempt`: whether the function is called, and the state then. -/
def shouldAttempt (now : Rat) (s : CircuitState) : Bool × CircuitState :=
  match s.state with
  | .CLOSED => (true, s)
  | .OPEN =>
    if s.lastFailure.any fun last => c.recoveryTimeout < now - last then
      (true, { s with state := .HALF_OPEN })
    else (false, s)
  | .HALF_OPEN => (true, s)

def onSuccess (s : CircuitState) : CircuitState := { s with failures := 0, state := .CLOSED }

def onFailure (now : Rat) (s : CircuitState) : CircuitState where
  failures := s.failures + 1
  lastFailure := some now
  state := if c.failureThreshold ≤ s.failures + 1 then .OPEN else s.state

/-- What is recorded of the outcome of the function. -/
def record (now : Rat) (result : Except PyExc α) (s : CircuitState) : CircuitState :=
  match result with
  | .ok _ => onSuccess s
  | .error e => if c.expectedException e then onFailure c now s else s

/-- What a call comes to, and whether it has run the function. -/
structure Answer (α : Type*) where
  executed : Bool
  result : Except PyExc α

def rejection : Answer α := ⟨false, .error ⟨.runtimeError, "Circuit breaker is OPEN"⟩⟩

/-- One call as a whole. The clock reads `arrived` before the function and `ended`
after it. -/
def wrapper (s : CircuitState) (arrived : Rat) (result : Except PyExc α) (ended : Rat) :
    Answer α × CircuitState :=
  let r := shouldAttempt c arrived s
  if r.1 then (⟨true, result⟩, record c ended result r.2) else (rejection, r.2)

/-! ## The two numbers -/

/-- The outcomes of the calls that ran the function, the newest first, each with the
time it was recorded at. -/
abbrev History (α : Type*) := List (Except PyExc α × Rat)

/-- The expected failures since the last success. -/
def failuresSince : History α → Nat
  | [] => 0
  | (.ok _, _) :: _ => 0
  | (.error e, _) :: older => if c.expectedException e then failuresSince older + 1 else failuresSince older

/-- The time of the last expected failure. -/
def lastFailure : History α → Option Rat
  | [] => none
  | (.ok _, _) :: older => lastFailure older
  | (.error e, t) :: older => if c.expectedException e then some t else lastFailure older

/-- The failures since the last success reach the threshold, and the recovery timeout
has not passed since the last failure. -/
def Tripped (history : History α) (now : Rat) : Prop :=
  c.failureThreshold ≤ failuresSince c history ∧
    ∃ last, lastFailure c history = some last ∧ now - last ≤ c.recoveryTimeout

variable {c}

theorem lastFailure_isSome {history : History α} (h : 0 < failuresSince c history) :
    ∃ last, lastFailure c history = some last := by
  induction history with
  | nil => cases h
  | cons entry older ih =>
    obtain ⟨result, t⟩ := entry
    cases result with
    | ok a => cases h
    | error e =>
      simp only [failuresSince] at h
      simp only [lastFailure]
      by_cases he : c.expectedException e = true
      · exact ⟨t, if_pos he⟩
      · rw [if_neg he] at h ⊢
        exact ih h

/-- The state of the breaker says what the history says. -/
structure Agrees (c : Config) (now : Rat) (history : History α) (s : CircuitState) : Prop where
  failures : s.failures = failuresSince c history
  last : s.lastFailure = lastFailure c history
  closed : s.state = .CLOSED → s.failures < c.failureThreshold
  opened : s.state ≠ .CLOSED → c.failureThreshold ≤ s.failures
  recovered : s.state = .HALF_OPEN → ∃ t, s.lastFailure = some t ∧ c.recoveryTimeout < now - t

theorem agrees_new (c : Config) (now : Rat) : Agrees c now ([] : History α) {} where
  failures := rfl
  last := rfl
  closed _ := c.threshold_pos
  opened h := absurd rfl h
  recovered h := by cases h

/-- Time passes. -/
theorem Agrees.wait {now later : Rat} {history : History α} {s : CircuitState}
    (h : Agrees c now history s) (ht : now ≤ later) : Agrees c later history s where
  failures := h.failures
  last := h.last
  closed := h.closed
  opened := h.opened
  recovered hs := by
    obtain ⟨t, hlast, hlt⟩ := h.recovered hs
    exact ⟨t, hlast, lt_of_lt_of_le hlt (sub_le_sub_right ht t)⟩

/-- A call is let through exactly when the history does not forbid it. -/
theorem Agrees.attempt_iff {now : Rat} {history : History α} {s : CircuitState}
    (h : Agrees c now history s) : (shouldAttempt c now s).1 = true ↔ ¬ Tripped c history now := by
  unfold shouldAttempt Tripped
  rw [← h.failures, ← h.last]
  cases hs : s.state with
  | CLOSED =>
    have hlt := h.closed hs
    simp only [true_iff]
    rintro ⟨hle, -⟩
    omega
  | OPEN =>
    have hle := h.opened (by simp [hs])
    have hpos : 0 < failuresSince c history := by
      have := c.threshold_pos
      have := h.failures
      omega
    obtain ⟨last, hlast⟩ := lastFailure_isSome hpos
    simp only [h.last, hlast, Option.any_some, Option.some.injEq, exists_eq_left', hle, true_and, not_le]
    split
    · next ht => simpa using ht
    · next ht => simpa using ht
  | HALF_OPEN =>
    obtain ⟨t, hlast, hlt⟩ := h.recovered hs
    simp only [true_iff, hlast, Option.some.injEq, exists_eq_left', not_and, not_le]
    exact fun _ => hlt

theorem Agrees.attempt {now : Rat} {history : History α} {s : CircuitState}
    (h : Agrees c now history s) : Agrees c now history (shouldAttempt c now s).2 := by
  unfold shouldAttempt
  cases hs : s.state with
  | CLOSED => exact h
  | HALF_OPEN => exact h
  | OPEN =>
    dsimp only
    split
    · next ht =>
      obtain ⟨t, hlast, hlt⟩ := (Option.any_eq_true _ _).mp ht
      exact {
        failures := h.failures
        last := h.last
        closed := fun hc => by cases hc
        opened := fun _ => h.opened (by simp [hs])
        recovered := fun _ => ⟨t, hlast, by simpa using hlt⟩ }
    · exact h

theorem Agrees.success {now : Rat} {history : History α} {s : CircuitState}
    (h : Agrees c now history s) (a : α) : Agrees c now ((.ok a, now) :: history) (onSuccess s) where
  failures := rfl
  last := h.last
  closed _ := c.threshold_pos
  opened hs := absurd rfl hs
  recovered hs := by cases hs

/-- A failure of a trial opens the breaker again, because the count still stands at the
threshold. -/
theorem Agrees.failure {now : Rat} {history : History α} {s : CircuitState}
    (h : Agrees c now history s) {e : PyExc} (he : c.expectedException e = true) :
    Agrees c now ((.error e, now) :: history) (onFailure c now s) := by
  have hfailures : (onFailure c now s).failures = failuresSince c ((.error e, now) :: history) := by
    simp [onFailure, failuresSince, he, h.failures]
  have hlast : (onFailure c now s).lastFailure = lastFailure c ((.error e, now) :: history) := by
    simp [onFailure, lastFailure, he]
  by_cases hle : c.failureThreshold ≤ s.failures + 1
  · have hstate : (onFailure c now s).state = .OPEN := if_pos hle
    exact {
      failures := hfailures
      last := hlast
      closed := fun hs => by rw [hstate] at hs; cases hs
      opened := fun _ => hle
      recovered := fun hs => by rw [hstate] at hs; cases hs }
  · have hstate : (onFailure c now s).state = s.state := if_neg hle
    have hclosed : s.state = .CLOSED := by
      by_contra hs
      have := h.opened hs
      omega
    exact {
      failures := hfailures
      last := hlast
      closed := fun _ => Nat.lt_of_not_le hle
      opened := fun hs => absurd (hstate.trans hclosed) hs
      recovered := fun hs => by rw [hstate, hclosed] at hs; cases hs }

theorem Agrees.record {now : Rat} {history : History α} {s : CircuitState}
    (h : Agrees c now history s) (result : Except PyExc α) :
    Agrees c now ((result, now) :: history) (record c now result s) := by
  cases result with
  | ok a => exact h.success a
  | error e =>
    unfold CircuitBreakers.record
    by_cases he : c.expectedException e = true
    · simpa [he] using h.failure he
    · simp only [he, Bool.false_eq_true, if_false]
      exact {
        failures := by simpa [failuresSince, he] using h.failures
        last := by simpa [lastFailure, he] using h.last
        closed := h.closed
        opened := h.opened
        recovered := h.recovered }

/-! ## Calls one after the other -/

variable (c)

/-- A call: what the function would come to, and what the clock reads before and after
it. A reading is never behind an earlier one. -/
structure Call (α : Type*) where
  arrived : Rat
  result : Except PyExc α
  ended : Rat

structure Session (α : Type*) where
  circuit : CircuitState := {}
  now : Rat := 0
  history : History α := []

def Session.call (s : Session α) (call : Call α) : Answer α × Session α :=
  let arrived := max s.now call.arrived
  let ended := max arrived call.ended
  let r := wrapper c s.circuit arrived call.result ended
  (r.1, if r.1.executed then ⟨r.2, ended, (call.result, ended) :: s.history⟩
    else ⟨r.2, arrived, s.history⟩)

def Session.step (s : Session α) (call : Call α) : Session α := (s.call c call).2

variable {c}

theorem agrees_call {s : Session α} (h : Agrees c s.now s.history s.circuit) (call : Call α) :
    Agrees c (s.step c call).now (s.step c call).history (s.step c call).circuit := by
  have harrived := h.wait (le_max_left s.now call.arrived)
  simp only [Session.step, Session.call, wrapper]
  by_cases hr : (shouldAttempt c (max s.now call.arrived) s.circuit).1 = true
  · simp only [hr, if_true]
    exact (harrived.attempt.wait (le_max_left _ _)).record call.result
  · simp only [hr, Bool.false_eq_true, if_false, rejection]
    exact harrived.attempt

/-- After every sequence of calls, the next is rejected without running the function
exactly when the breaker is tripped. -/
theorem rejects_iff_tripped (c : Config) (calls : List (Call α)) (call : Call α) :
    let s := run (Session.step c) {} calls
    let answer := (s.call c call).1
    let tripped := Tripped c s.history (max s.now call.arrived)
    (answer = rejection ↔ tripped) ∧ (answer = ⟨true, call.result⟩ ↔ ¬ tripped) := by
  intro s answer tripped
  have h : Agrees c s.now s.history s.circuit :=
    run_induction (P := fun s : Session α => Agrees c s.now s.history s.circuit)
      (fun _ call hs => agrees_call hs call) (agrees_new c 0) calls
  have hiff := (h.wait (le_max_left s.now call.arrived)).attempt_iff
  by_cases ht : tripped
  · have hno := mt hiff.mp (not_not_intro ht)
    have hanswer : answer = rejection := by simp [answer, Session.call, wrapper, hno]
    rw [hanswer]
    simp [ht, rejection]
  · have hyes := hiff.mpr ht
    have hanswer : answer = ⟨true, call.result⟩ := by simp [answer, Session.call, wrapper, hyes]
    rw [hanswer]
    simp [ht, rejection]

/-! ## Calls at the same time -/

/-- A call arrives and the function is started or not; a call in progress ends. -/
inductive Action (α : Type*) where
  | arrive (id : Nat) (reading : Rat)
  | finish (id : Nat) (result : Except PyExc α) (reading : Rat)

structure Loop (α : Type*) where
  circuit : CircuitState := {}
  now : Rat := 0
  inProgress : List Nat := []
  history : History α := []

variable (c)

/-- Whether a call that arrives at this reading starts the function. -/
def Loop.starts (w : Loop α) (reading : Rat) : Bool := (shouldAttempt c (max w.now reading) w.circuit).1

def Loop.step (w : Loop α) : Action α → Loop α
  | .arrive id reading => { w with
      circuit := (shouldAttempt c (max w.now reading) w.circuit).2
      now := max w.now reading
      inProgress := if w.starts c reading then id :: w.inProgress else w.inProgress }
  | .finish id result reading =>
    if id ∈ w.inProgress then {
      circuit := record c (max w.now reading) result w.circuit
      now := max w.now reading
      inProgress := w.inProgress.erase id
      history := (result, max w.now reading) :: w.history }
    else w

variable {c}

theorem step_finish {w : Loop α} {id : Nat} (h : id ∈ w.inProgress) (result : Except PyExc α)
    (reading : Rat) : w.step c (.finish id result reading) = {
      circuit := record c (max w.now reading) result w.circuit
      now := max w.now reading
      inProgress := w.inProgress.erase id
      history := (result, max w.now reading) :: w.history } := if_pos h

theorem step_absent {w : Loop α} {id : Nat} (h : id ∉ w.inProgress) (result : Except PyExc α)
    (reading : Rat) : w.step c (.finish id result reading) = w := if_neg h

theorem agrees_step {w : Loop α} (h : Agrees c w.now w.history w.circuit) (a : Action α) :
    Agrees c (w.step c a).now (w.step c a).history (w.step c a).circuit := by
  cases a with
  | arrive id reading => exact (h.wait (le_max_left _ _)).attempt
  | finish id result reading =>
    by_cases hid : id ∈ w.inProgress
    · rw [step_finish hid]
      exact (h.wait (le_max_left _ _)).record result
    · rw [step_absent hid]
      exact h

theorem agrees_loop (c : Config) (as : List (Action α)) :
    let w := run (Loop.step c) {} as
    Agrees c w.now w.history w.circuit :=
  run_induction (P := fun w : Loop α => Agrees c w.now w.history w.circuit)
    (fun _ a h => agrees_step h a) (agrees_new c 0) as

def Action.succeeds : Action α → Bool
  | .finish _ (.ok _) _ => true
  | _ => false

/-- Only a success takes failures away. -/
theorem failuresSince_le (w : Loop α) {a : Action α} (ha : a.succeeds = false) :
    failuresSince c w.history ≤ failuresSince c (w.step c a).history := by
  cases a with
  | arrive id reading => exact le_rfl
  | finish id result reading =>
    by_cases hid : id ∈ w.inProgress
    · rw [step_finish hid]
      cases result with
      | ok a => cases ha
      | error e =>
        dsimp only [failuresSince]
        split <;> omega
    · rw [step_absent hid]

theorem failuresSince_le_run (w : Loop α) {as : List (Action α)} (h : ∀ a ∈ as, a.succeeds = false) :
    failuresSince c w.history ≤ failuresSince c (run (Loop.step c) w as).history := by
  induction as generalizing w with
  | nil => exact le_rfl
  | cons a as ih =>
    have hhead := failuresSince_le (c := c) w (h a List.mem_cons_self)
    exact hhead.trans (ih (w.step c a) fun b hb => h b (List.mem_cons_of_mem a hb))

/-- In every interleaving an arriving call starts the function unless the breaker is
tripped. Once it has opened, and until a call in progress succeeds, that is when the
recovery timeout has passed since the last failure; a success of any call in progress
lets every call through, and another failure none until the timeout has passed again. -/
theorem starts_iff_not_tripped (c : Config) (as : List (Action α)) :
    let w := run (Loop.step c) {} as
    (∀ reading, w.starts c reading = true ↔ ¬ Tripped c w.history (max w.now reading)) ∧
    (∀ bs, c.failureThreshold ≤ failuresSince c w.history → (∀ b ∈ bs, b.succeeds = false) →
      ∃ last, lastFailure c (run (Loop.step c) w bs).history = some last ∧
        ∀ reading, (run (Loop.step c) w bs).starts c reading = true ↔
          c.recoveryTimeout < max (run (Loop.step c) w bs).now reading - last) ∧
    (∀ id ∈ w.inProgress, ∀ reading later,
      (∀ a, (w.step c (.finish id (.ok a) reading)).starts c later = true) ∧
      ∀ e, c.expectedException e = true → c.failureThreshold ≤ failuresSince c w.history →
        ((w.step c (.finish id (.error e) reading)).starts c later = true ↔
          c.recoveryTimeout < max (max w.now reading) later - max w.now reading)) := by
  intro w
  have starts_iff : ∀ bs reading, (run (Loop.step c) w bs).starts c reading = true ↔
      ¬ Tripped c (run (Loop.step c) w bs).history (max (run (Loop.step c) w bs).now reading) := by
    intro bs reading
    have h := agrees_loop c (as ++ bs)
    rw [run_append] at h
    exact (h.wait (le_max_left _ reading)).attempt_iff
  refine ⟨starts_iff [], fun bs hopen hbs => ?_, fun id hid reading later => ⟨fun a => ?_, fun e he hopen => ?_⟩⟩
  · have hthreshold := hopen.trans (failuresSince_le_run w hbs)
    obtain ⟨last, hlast⟩ := lastFailure_isSome (c.threshold_pos.trans_le hthreshold)
    refine ⟨last, hlast, fun reading => ?_⟩
    simp only [starts_iff, Tripped, hthreshold, hlast, true_and, Option.some.injEq, exists_eq_left', not_le]
  · rw [show w.step c (.finish id (.ok a) reading) = run (Loop.step c) w [.finish id (.ok a) reading] from rfl,
      starts_iff, run_cons, run_nil, step_finish hid]
    rintro ⟨hle, -⟩
    exact absurd hle (Nat.not_le.mpr c.threshold_pos)
  · rw [show w.step c (.finish id (.error e) reading) = run (Loop.step c) w [.finish id (.error e) reading] from rfl,
      starts_iff, run_cons, run_nil, step_finish hid]
    have hle : c.failureThreshold ≤ failuresSince c w.history + 1 := Nat.le_succ_of_le hopen
    simp only [Tripped, failuresSince, lastFailure, he, if_true, hle, true_and, Option.some.injEq,
      exists_eq_left', not_le]

/-- One failure opens the breaker for a minute. -/
def oneFailure : Config where
  failureThreshold := 1
  recoveryTimeout := 60
  expectedException _ := true
  threshold_pos := by decide
  timeout_nonneg := by decide

/-- A call that began before the breaker opened succeeds and closes it, so that another
starts two seconds after the failure; and two trials are in progress after the timeout. -/
theorem early_start_and_two_trials :
    let refused : Except PyExc Unit := .error ⟨.runtimeError, "refused"⟩
    let opened := run (Loop.step oneFailure) {} [.arrive 0 0, .arrive 1 0, .finish 0 refused 1]
    let trials := run (Loop.step oneFailure) opened [.finish 1 refused 2, .arrive 2 100, .arrive 3 100]
    opened.circuit.state = .OPEN ∧ lastFailure oneFailure opened.history = some 1 ∧
      (opened.step oneFailure (.finish 1 (.ok ()) 2)).starts oneFailure 3 = true ∧
      trials.inProgress = [3, 2] := by
  decide +kernel

end CircuitBreakers
