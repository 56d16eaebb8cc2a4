import Mathlib.Data.Finset.Card
import BtApiBase.Ownership
import BtApiBase.PyValue
import BtApiBase.Runs

/-!
# The asynchronous connection pool

`acquire` waits for a permit of the semaphore, then for the lock, and then for
the factory, if that is a coroutine function. It holds the lock while it waits
for the factory, and a task never waits anywhere else with the lock held, so the
lock is taken between two steps exactly while a connection is being made. A
task may take a permit or the lock whenever it is free; the order of the waiting
tasks that asyncio keeps is one of the orders that this allows.
-/

namespace AsyncPools

open PyValue Ownership Runs

/-- `AsyncConnectionPool`; `_semaphore` is the number of free permits, and
`coroutine` is what `asyncio.iscoroutinefunction` says of the factory. -/
structure AsyncConnectionPool (α : Type) where
  coroutine : Bool
  _maxSize : Nat
  _pool : List (α × Rat)
  _inUse : Finset α
  _semaphore : Nat

/-- The pool and the tasks at their awaits: those that wait for a permit, for the
lock with a permit, the one in the factory, and those that wait for the lock in
`release`. -/
structure World (α : Type) where
  pool : AsyncConnectionPool α
  waitingPermit : List Nat
  waitingLock : List Nat
  creating : Option Nat
  releasing : List (Nat × α)
  made : List α
  log : List (Event Nat α)

variable {α : Type}

/-- `AsyncConnectionPool.__init__`; the semaphore refuses a negative `max_size`. -/
def create (coroutine : Bool) (maxSize : Nat) : AsyncConnectionPool α where
  coroutine := coroutine
  _maxSize := maxSize
  _pool := []
  _inUse := ∅
  _semaphore := maxSize

def init (coroutine : Bool) (maxSize : Nat) : World α :=
  ⟨create coroutine maxSize, [], [], none, [], [], []⟩

def idle (s : AsyncConnectionPool α) : List α := s._pool.map Prod.fst

/-- What happens between two awaits of a task; `result` is what the factory
returns or raises. A task that is cancelled leaves where it waits. -/
inductive Label (α : Type) where
  | acquire (task : Nat)
  | takePermit (task : Nat)
  | enter (task : Nat) (result : Except PyExc α)
  | created (task : Nat) (result : Except PyExc α)
  | release (task : Nat) (conn : α)
  | giveBack (task : Nat) (now : Rat)
  | cancel (task : Nat)

/-- The tasks that are in a call of the pool. -/
def World.tasks (w : World α) : List Nat :=
  w.waitingPermit ++ w.waitingLock ++ w.creating.toList ++ w.releasing.map Prod.fst

/-- The factory is called in this step, or comes back. -/
inductive Makes (w : World α) : Label α → Nat → Except PyExc α → Prop
  | now (task : Nat) (result : Except PyExc α) (h : task ∈ w.waitingLock) (hc : w.creating = none)
    (hp : w.pool._pool = []) (hf : w.pool.coroutine = false) :
    Makes w (.enter task result) task result
  | later (task : Nat) (result : Except PyExc α) (h : w.creating = some task) :
    Makes w (.created task result) task result

theorem not_makes {w : World α} {l : Label α} (he : ∀ task result, l ≠ .enter task result)
    (hc : ∀ task result, l ≠ .created task result) (task : Nat) (result : Except PyExc α) :
    ¬ Makes w l task result := by
  intro h
  cases h with
  | now => exact he task result rfl
  | later => exact hc task result rfl

/-- A step has one result of the factory. -/
theorem Makes.unique {w : World α} {l : Label α} {task task' : Nat} {result result' : Except PyExc α}
    (h : Makes w l task result) (h' : Makes w l task' result') : result = result' := by
  cases h with
  | now => cases h'; rfl
  | later => cases h'; rfl

/-! ## The containers -/

/-- No connection is idle twice, or idle and in use; while a connection is being
made none is idle. -/
structure Sound (w : World α) : Prop where
  nodup : (idle w.pool).Nodup
  disjoint : ∀ conn ∈ idle w.pool, conn ∉ w.pool._inUse
  empty : w.creating ≠ none → w.pool._pool = []

theorem sound_init (coroutine : Bool) (maxSize : Nat) : Sound (init (α := α) coroutine maxSize) :=
  ⟨List.nodup_nil, nofun, fun _ => rfl⟩

/-- The factory comes back to an empty queue. -/
theorem Makes.empty {w : World α} {l : Label α} {task : Nat} {result : Except PyExc α}
    (h : Makes w l task result) (hw : Sound w) : w.pool._pool = [] := by
  cases h with
  | now _ _ _ _ hp _ => exact hp
  | later _ _ h => exact hw.empty (by simp [h])

section

variable [DecidableEq α]

/-- `self._in_use.add(conn)` and the return. -/
def World.handOut (w : World α) (task : Nat) (conn : α) : World α :=
  { w with
    pool := { w.pool with _inUse := insert conn w.pool._inUse }
    log := w.log ++ [.acquired task conn] }

/-- The end of `acquire` after the factory. -/
def World.finish (w : World α) (task : Nat) : Except PyExc α → World α
  | .error _ => w
  | .ok conn => { w with made := w.made ++ [conn] }.handOut task conn

/-- `acquire` under the lock. -/
def World.acquireLocked (w : World α) (task : Nat) (result : Except PyExc α) : World α :=
  match w.pool._pool with
  | (conn, _) :: rest => { w with pool := { w.pool with _pool := rest } }.handOut task conn
  | [] => if w.pool.coroutine then { w with creating := some task } else w.finish task result

/-- `release` under the lock. -/
def World.releaseLocked (w : World α) (conn : α) (now : Rat) : World α :=
  if conn ∈ w.pool._inUse then { w with
    pool := { w.pool with
      _inUse := w.pool._inUse.erase conn
      _pool := w.pool._pool ++ [(conn, now)]
      _semaphore := w.pool._semaphore + 1 }
    log := w.log ++ [.released conn] }
  else w

def step (w : World α) : Label α → World α
  | .acquire task =>
    if task ∈ w.tasks then w else { w with waitingPermit := w.waitingPermit ++ [task] }
  | .takePermit task =>
    if task ∈ w.waitingPermit ∧ 0 < w.pool._semaphore then { w with
      waitingPermit := w.waitingPermit.erase task
      waitingLock := w.waitingLock ++ [task]
      pool := { w.pool with _semaphore := w.pool._semaphore - 1 } }
    else w
  | .enter task result =>
    if task ∈ w.waitingLock ∧ w.creating = none then
      { w with waitingLock := w.waitingLock.erase task }.acquireLocked task result
    else w
  | .created task result =>
    if w.creating = some task then { w with creating := none }.finish task result else w
  | .release task conn =>
    if task ∈ w.tasks then w else { w with releasing := w.releasing ++ [(task, conn)] }
  | .giveBack task now => match w.releasing.find? fun call => call.1 = task with
    | none => w
    | some (_, conn) =>
      if w.creating = none then { w with
        releasing := w.releasing.filter fun call => call.1 ≠ task }.releaseLocked conn now
      else w
  | .cancel task => { w with
    waitingPermit := w.waitingPermit.erase task
    waitingLock := w.waitingLock.erase task
    releasing := w.releasing.filter fun call => call.1 ≠ task }

/-! ## What a step can do -/

/-- The effect of a step on the pool, the lock and the permits. -/
inductive Stepped (w : World α) (l : Label α) : World α → Prop
  | queued (waiting : List Nat) (calls : List (Nat × α)) (hmakes : ∀ task result, ¬ Makes w l task result)
    (hleaves : ∀ task, l = .cancel task → task ∉ w.waitingLock) :
    Stepped w l { w with waitingPermit := waiting, releasing := calls }
  | permitted (task : Nat) (hl : l = .takePermit task) (h : 0 < w.pool._semaphore) :
    Stepped w l { w with
      waitingPermit := w.waitingPermit.erase task
      waitingLock := w.waitingLock ++ [task]
      pool := { w.pool with _semaphore := w.pool._semaphore - 1 } }
  | reused (task : Nat) (conn : α) (last : Rat) (rest : List (α × Rat))
    (hmakes : ∀ task result, ¬ Makes w l task result) (hl : ∀ task, l ≠ .cancel task)
    (h : task ∈ w.waitingLock) (hc : w.creating = none) (hp : w.pool._pool = (conn, last) :: rest) :
    Stepped w l ({ w with
      waitingLock := w.waitingLock.erase task
      pool := { w.pool with _pool := rest } }.handOut task conn)
  | suspended (task : Nat) (hmakes : ∀ task result, ¬ Makes w l task result)
    (hl : ∀ task, l ≠ .cancel task) (h : task ∈ w.waitingLock) (hc : w.creating = none)
    (hp : w.pool._pool = []) :
    Stepped w l { w with waitingLock := w.waitingLock.erase task, creating := some task }
  | made (task : Nat) (result : Except PyExc α) (lock : List Nat) (h : Makes w l task result)
    (hlock : lock.length + 1 = w.waitingLock.length + w.creating.toList.length) :
    Stepped w l ({ w with waitingLock := lock, creating := none }.finish task result)
  | returned (conn : α) (now : Rat) (calls : List (Nat × α))
    (hmakes : ∀ task result, ¬ Makes w l task result) (hl : ∀ task, l ≠ .cancel task)
    (hc : w.creating = none) (h : conn ∈ w.pool._inUse) :
    Stepped w l ({ w with releasing := calls }.releaseLocked conn now)
  | left (task : Nat) (calls : List (Nat × α)) (hl : l = .cancel task) (h : task ∈ w.waitingLock) :
    Stepped w l { w with
      waitingPermit := w.waitingPermit.erase task
      waitingLock := w.waitingLock.erase task
      releasing := calls }

/-- A task that has the lock is given a connection of the pool, or makes one. -/
theorem stepped_enter {w : World α} {task : Nat} (hmem : task ∈ w.waitingLock) (hc : w.creating = none)
    (result : Except PyExc α) : Stepped w (.enter task result)
      ({ w with waitingLock := w.waitingLock.erase task }.acquireLocked task result) := by
  unfold World.acquireLocked
  cases hp : w.pool._pool with
  | nil =>
    cases hf : w.pool.coroutine with
    | true =>
      refine .suspended task ?_ (by simp) hmem hc hp
      intro _ _ hm
      cases hm with
      | now _ _ _ _ _ hf' => simp [hf] at hf'
    | false =>
      have hlen := List.length_erase_of_mem hmem
      have hpos := List.length_pos_of_mem hmem
      have hst := Stepped.made task result (w.waitingLock.erase task)
        (.now task result hmem hc hp hf) (by simp only [hc, Option.toList_none, List.length_nil]; omega)
      simpa [hf, hc, hp] using hst
  | cons item rest =>
    obtain ⟨conn, last⟩ := item
    refine .reused task conn last rest ?_ (by simp) hmem hc hp
    intro _ _ hm
    cases hm with
    | now _ _ _ _ hp' _ => simp [hp] at hp'

theorem stepped_step (w : World α) (l : Label α) : Stepped w l (step w l) := by
  cases l with
  | acquire task =>
    simp only [step]
    split
    · exact .queued _ _ (not_makes (by simp) (by simp)) (by simp)
    · exact .queued _ _ (not_makes (by simp) (by simp)) (by simp)
  | takePermit task =>
    simp only [step]
    split
    · next h => exact .permitted task rfl h.2
    · exact .queued _ _ (not_makes (by simp) (by simp)) (by simp)
  | enter task result =>
    simp only [step]
    split
    · next h => exact stepped_enter h.1 h.2 result
    · next h =>
      refine .queued _ _ ?_ (by simp)
      intro _ _ hm
      cases hm with
      | now _ _ hmem hc _ _ => exact h ⟨hmem, hc⟩
  | created task result =>
    simp only [step]
    split
    · next h => exact .made task result w.waitingLock (.later task result h) (by simp [h])
    · next h =>
      refine .queued _ _ ?_ (by simp)
      intro _ _ hm
      cases hm with
      | later _ _ hc => exact h hc
  | release task conn =>
    simp only [step]
    split
    · exact .queued _ _ (not_makes (by simp) (by simp)) (by simp)
    · exact .queued _ _ (not_makes (by simp) (by simp)) (by simp)
  | giveBack task now =>
    simp only [step]
    split
    · exact .queued _ _ (not_makes (by simp) (by simp)) (by simp)
    · next conn _ =>
      split
      · next hc =>
        by_cases hmem : conn ∈ w.pool._inUse
        · exact .returned conn now _ (not_makes (by simp) (by simp)) (by simp) hc hmem
        · unfold World.releaseLocked
          rw [if_neg hmem]
          exact .queued _ _ (not_makes (by simp) (by simp)) (by simp)
      · exact .queued _ _ (not_makes (by simp) (by simp)) (by simp)
  | cancel task =>
    simp only [step]
    by_cases h : task ∈ w.waitingLock
    · exact .left task _ rfl h
    · rw [List.erase_of_not_mem h]
      refine .queued _ _ (not_makes (by simp) (by simp)) ?_
      rintro _ ⟨⟩
      exact h

theorem sound_step {w : World α} (hw : Sound w) (l : Label α) : Sound (step w l) := by
  have h := stepped_step w l
  generalize step w l = w' at h ⊢
  cases h with
  | queued waiting calls hmakes hleaves => exact ⟨hw.nodup, hw.disjoint, hw.empty⟩
  | permitted task hl h => exact ⟨hw.nodup, hw.disjoint, hw.empty⟩
  | reused task conn last rest hmakes hl h hc hp =>
    have hnodup := hw.nodup
    have hdisj := hw.disjoint
    simp only [idle, hp, List.map_cons, List.nodup_cons] at hnodup hdisj
    refine ⟨hnodup.2, ?_, fun hne => absurd hc hne⟩
    intro c hmem hu
    rcases Finset.mem_insert.mp hu with rfl | hu
    · exact hnodup.1 hmem
    · exact hdisj c (List.mem_cons_of_mem _ hmem) hu
  | suspended task hmakes hl h hc hp => exact ⟨hw.nodup, hw.disjoint, fun _ => hp⟩
  | made task result lock h hlock =>
    have hp := h.empty hw
    cases result with
    | error exc => exact ⟨hw.nodup, hw.disjoint, fun hne => absurd rfl hne⟩
    | ok conn =>
      refine ⟨hw.nodup, ?_, fun hne => absurd rfl hne⟩
      intro c hmem
      simp [World.finish, World.handOut, idle, hp] at hmem
  | returned conn now calls hmakes hl hc h =>
    have hnot : conn ∉ idle w.pool := fun hi => hw.disjoint conn hi h
    unfold World.releaseLocked
    rw [if_pos h]
    refine ⟨?_, ?_, fun hne => absurd hc hne⟩
    · simp only [idle, List.map_append, List.map_cons, List.map_nil]
      exact hw.nodup.append (List.nodup_singleton _) (by simpa [idle] using hnot)
    · intro c hmem hu
      rw [Finset.mem_erase] at hu
      simp only [idle, List.map_append, List.map_cons, List.map_nil, List.mem_append,
        List.mem_singleton] at hmem
      rcases hmem with hmem | rfl
      · exact hw.disjoint c hmem hu.2
      · exact hu.1 rfl
  | left task calls hl h => exact ⟨hw.nodup, hw.disjoint, hw.empty⟩

end

end AsyncPools
