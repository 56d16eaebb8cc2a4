import Mathlib.Logic.Function.Basic
import BtApiBase.PyDict
import BtApiBase.Runs

/-!
# The connection service

`get_connection` waits for a permit of the exchange with the lock of the service held;
`release_connection` takes no lock. A pool is empty until it is configured from outside.
Semaphores are known by numbers, because a call of `get_connection` keeps the one it has
read. The tasks that wait for the lock may take it in any order.
-/

namespace ConnectionServices

open PyDict Runs

variable {K C : Type}

/-- The entries under `"session"` and `"connection"`; a key may be missing, and may have `None`. -/
structure Pool (C : Type) where
  session : Option (Option C) := none
  connection : Option (Option C) := none
  deriving DecidableEq, Repr

/-- What `get_connection` returns. -/
def Pool.handOut (p : Pool C) : Option C := (p.session.bind id).or (p.connection.bind id)

/-- `managed_connection` of `release_connection`. -/
def Pool.managed (p : Pool C) : Option C := match p.session with
  | some session => session
  | none => p.connection.bind id

inductive Request (K : Type) where
  | getConnection (name : K)
  | closeAll
  deriving DecidableEq, Repr

/-- The call that has the lock: it waits for a permit, or is at an item of `_pools.items()`. -/
inductive Holder (K C : Type) where
  | acquiring (task : Nat) (name : K) (pool : Pool C) (semaphore : Nat)
  | closing (task : Nat) (index size : Nat)
  deriving DecidableEq, Repr

inductive Entry (K C : Type) where
  | got (task : Nat) (name : K) (semaphore : Nat) (conn : C)
  | failed (task : Nat)
  | closed (task : Nat)
  /-- A `release_connection` that has passed its tests. -/
  | gaveBack (semaphore : Nat)
  deriving DecidableEq, Repr

structure World (K C : Type) where
  _pools : Dict K (Pool C)
  _semaphores : Dict K Nat
  /-- `_stats[name]["active_connections"]` -/
  active : K → Nat
  permits : Nat → Nat
  /-- `max_concurrent` of a semaphore. -/
  limit : Nat → Nat
  nextSemaphore : Nat
  _lock : Option (Holder K C)
  waiting : List (Nat × Request K)
  log : List (Entry K C)

def init : World K C := ⟨.empty, .empty, fun _ => 0, fun _ => 0, fun _ => 0, 0, none, [], []⟩

inductive Label (K C : Type) where
  /-- The entries of an exchange are set from outside. Without effect where the exchange already has
  a semaphore: nobody replaces one. -/
  | configure (name : K) (pool : Pool C) (limit : Nat)
  | call (task : Nat) (request : Request K)
  /-- A task takes the lock. -/
  | enter (task : Nat)
  /-- The task that waits for a permit gets one. -/
  | wake (task : Nat)
  | release (name : K) (conn : Option C)
  /-- `close_all` comes to the next pool, or to the end. -/
  | closeNext (task : Nat)
  | cancel (task : Nat)
  deriving DecidableEq, Repr

section

variable [DecidableEq K] (w : World K C)

/-- An exchange gets a pool and a semaphore. -/
def World.install (name : K) (pool : Pool C) (limit : Nat) : World K C := { w with
  _pools := w._pools.set name pool
  _semaphores := w._semaphores.set name w.nextSemaphore
  permits := Function.update w.permits w.nextSemaphore limit
  limit := Function.update w.limit w.nextSemaphore limit
  nextSemaphore := w.nextSemaphore + 1 }

/-- `_create_pool` -/
def World.createPool (name : K) : World K C := w.install name {} 10

/-- `get_connection` with a free permit; it gives the permit back where it raises. -/
def World.serve (task : Nat) (name : K) (pool : Pool C) (semaphore : Nat) : World K C :=
  match pool.handOut with
  | some conn => { w with
    permits := Function.update w.permits semaphore (w.permits semaphore - 1)
    active := Function.update w.active name (w.active name + 1)
    _lock := none
    log := w.log ++ [.got task name semaphore conn] }
  | none => { w with _lock := none, log := w.log ++ [.failed task] }

/-- `get_connection` under the lock. -/
def World.getConnection (task : Nat) (name : K) : World K C :=
  let w := if (w._pools.get name).isSome then w else w.createPool name
  match w._pools.get name, w._semaphores.get name with
  | some pool, some semaphore =>
    if 0 < w.permits semaphore then w.serve task name pool semaphore
    else { w with _lock := some (.acquiring task name pool semaphore) }
  | _, _ => { w with log := w.log ++ [.failed task] }

/-- The semaphore that `release_connection` releases, if its tests pass. -/
def World.released [DecidableEq C] (name : K) (conn : Option C) : Option Nat :=
  if ((w._pools.get name).bind Pool.managed) = conn then w._semaphores.get name else none

def World.releaseConnection [DecidableEq C] (name : K) (conn : Option C) : World K C :=
  match w.released name conn with
  | none => w
  | some semaphore => { w with
    permits := Function.update w.permits semaphore (w.permits semaphore + 1)
    active := Function.update w.active name (w.active name - 1)
    log := w.log ++ [.gaveBack semaphore] }

/-- `close_all` at the item of this index; the iterator refuses a dictionary that has grown. -/
def World.closeNext (task index size : Nat) : World K C :=
  if w._pools.length ≠ size then { w with _lock := none, log := w.log ++ [.failed task] }
  else match w._pools.items[index]? with
    | some (name, _) => { w with
      active := Function.update w.active name 0
      _lock := some (.closing task (index + 1) size) }
    | none => { w with
      _pools := .empty, _semaphores := .empty, _lock := none, log := w.log ++ [.closed task] }

def World.enter (task : Nat) : World K C :=
  match w._lock, w.waiting.find? fun call => call.1 = task with
  | none, some (_, request) =>
    let w := { w with waiting := w.waiting.filter fun call => call.1 ≠ task }
    match request with
    | .getConnection name => w.getConnection task name
    | .closeAll => { w with _lock := some (.closing task 0 w._pools.length) }
  | _, _ => w

/-- A cancelled task leaves the lock; `close_all` has set the count of its pool to zero. -/
def World.cancel (task : Nat) : World K C :=
  let w := { w with waiting := w.waiting.filter fun call => call.1 ≠ task }
  match w._lock with
  | some (.acquiring t _ _ _) =>
    if t = task then { w with _lock := none, log := w.log ++ [.failed task] } else w
  | some (.closing t index _) =>
    if t = task then { w with
      active := match w._pools.items[index]? with
        | some (name, _) => Function.update w.active name 0
        | none => w.active
      _lock := none
      log := w.log ++ [.failed task] }
    else w
  | none => w

def Holder.task : Holder K C → Nat
  | .acquiring task _ _ _ => task
  | .closing task _ _ => task

/-- The task is in a call of the service. -/
def World.busy (task : Nat) : Bool :=
  w.waiting.any (fun call => call.1 = task) || w._lock.any fun h => h.task = task

def step [DecidableEq C] (w : World K C) : Label K C → World K C
  | .configure name pool limit =>
    if (w._semaphores.get name).isSome ∨ limit = 0 then w else w.install name pool limit
  | .call task request =>
    if w.busy task then w else { w with waiting := w.waiting ++ [(task, request)] }
  | .enter task => w.enter task
  | .wake task => match w._lock with
    | some (.acquiring t name pool semaphore) =>
      if t = task ∧ 0 < w.permits semaphore then w.serve task name pool semaphore else w
    | _ => w
  | .release name conn => w.releaseConnection name conn
  | .closeNext task => match w._lock with
    | some (.closing t index size) => if t = task then w.closeNext task index size else w
    | _ => w
  | .cancel task => w.cancel task

end

/-! ## Permits -/

def Entry.hands (semaphore : Nat) : Entry K C → Bool
  | .got _ _ s _ => s = semaphore
  | _ => false

def Entry.returns (semaphore : Nat) : Entry K C → Bool
  | .gaveBack s => s = semaphore
  | _ => false

/-- How many connections have been handed out under the semaphore. -/
def handedOut (w : World K C) (semaphore : Nat) : Nat := w.log.countP (Entry.hands semaphore)

def givenBack (w : World K C) (semaphore : Nat) : Nat := w.log.countP (Entry.returns semaphore)

section

variable [DecidableEq K]

/-- The permits are accounted for, and semaphores that are not made have none. -/
structure Accounted (w : World K C) : Prop where
  sum : ∀ s, w.permits s + handedOut w s = w.limit s + givenBack w s
  fresh : ∀ s, w.nextSemaphore ≤ s → w.limit s = 0 ∧ handedOut w s = 0 ∧ givenBack w s = 0
  known : ∀ name s, w._semaphores.get name = some s → s < w.nextSemaphore

variable {w : World K C}

theorem accounted_init : Accounted (init (K := K) (C := C)) :=
  ⟨fun _ => rfl, fun _ _ => ⟨rfl, rfl, rfl⟩, fun name s h => by simp [init] at h⟩

/-- Neither permits nor the entries that count change. -/
theorem Accounted.congr (h : Accounted w) {w' : World K C}
    (hsame : w'.permits = w.permits ∧ w'.limit = w.limit ∧ w'.nextSemaphore = w.nextSemaphore)
    (hk : w'._semaphores = w._semaphores ∨ w'._semaphores = .empty)
    (hcount : ∀ s, handedOut w' s = handedOut w s ∧ givenBack w' s = givenBack w s) :
    Accounted w' := by
  obtain ⟨hp, hl, hn⟩ := hsame
  refine ⟨?_, ?_, ?_⟩
  · intro s
    rw [hp, hl, (hcount s).1, (hcount s).2]
    exact h.sum s
  · intro s hs
    rw [hn] at hs
    rw [hl, (hcount s).1, (hcount s).2]
    exact h.fresh s hs
  · intro name s hs
    rw [hn]
    rcases hk with hk | hk
    · exact h.known name s (hk ▸ hs)
    · simp [hk] at hs

/-- An entry that neither hands out nor gives back is added. -/
theorem Accounted.note (h : Accounted w) {w' : World K C}
    (hsame : w'.permits = w.permits ∧ w'.limit = w.limit ∧ w'.nextSemaphore = w.nextSemaphore)
    (hk : w'._semaphores = w._semaphores ∨ w'._semaphores = .empty)
    {e : Entry K C} (hlog : w'.log = w.log ++ [e]) (hh : ∀ s, e.hands s = false)
    (hg : ∀ s, e.returns s = false) : Accounted w' :=
  h.congr hsame hk fun s => by simp [handedOut, givenBack, hlog, hh, hg]

theorem Accounted.install (h : Accounted w) (name : K) (pool : Pool C) (limit : Nat) :
    Accounted (w.install name pool limit) := by
  have hnext := h.fresh w.nextSemaphore (Nat.le_refl _)
  refine ⟨?_, ?_, ?_⟩
  · intro s
    have hh : handedOut (w.install name pool limit) s = handedOut w s := rfl
    have hg : givenBack (w.install name pool limit) s = givenBack w s := rfl
    rw [hh, hg]
    by_cases hs : s = w.nextSemaphore
    · subst hs
      simp [World.install, hnext.2.1, hnext.2.2]
    · simpa [World.install, hs] using h.sum s
  · intro s hs
    simp only [World.install] at hs
    have hne : s ≠ w.nextSemaphore := by omega
    have := h.fresh s (by omega)
    simpa [World.install, handedOut, givenBack, hne] using this
  · intro other s hs
    simp only [World.install, Dict.get_set] at hs ⊢
    split at hs
    · cases hs
      omega
    · have := h.known other s hs
      omega

theorem Accounted.serve (h : Accounted w) (task : Nat) (name : K) (pool : Pool C) {semaphore : Nat}
    (hpos : 0 < w.permits semaphore) : Accounted (w.serve task name pool semaphore) := by
  unfold World.serve
  cases pool.handOut with
  | none => exact h.note ⟨rfl, rfl, rfl⟩ (Or.inl rfl) rfl (fun _ => rfl) (fun _ => rfl)
  | some conn =>
    refine ⟨?_, ?_, h.known⟩
    · intro s
      have := h.sum s
      by_cases hs : semaphore = s
      · subst hs
        simp [handedOut, givenBack, Entry.hands, Entry.returns] at this ⊢
        omega
      · simpa [handedOut, givenBack, Entry.hands, Entry.returns, hs, Ne.symm hs] using this
    · intro s hs
      have hf := h.fresh s hs
      have hne : semaphore ≠ s := by
        rintro rfl
        have := h.sum semaphore
        omega
      simpa [handedOut, givenBack, Entry.hands, Entry.returns, hne] using hf

theorem Accounted.getConnection (h : Accounted w) (task : Nat) (name : K) :
    Accounted (w.getConnection task name) := by
  unfold World.getConnection
  have hw : Accounted (if (w._pools.get name).isSome then w else w.createPool name) := by
    split
    · exact h
    · exact h.install name {} 10
  generalize (if (w._pools.get name).isSome then w else w.createPool name) = w' at hw
  dsimp only
  split
  · split
    · next hpos => exact hw.serve task name _ hpos
    · exact hw.congr ⟨rfl, rfl, rfl⟩ (Or.inl rfl) (fun _ => ⟨rfl, rfl⟩)
  · exact hw.note ⟨rfl, rfl, rfl⟩ (Or.inl rfl) rfl (fun _ => rfl) (fun _ => rfl)

theorem Accounted.enter (h : Accounted w) (task : Nat) : Accounted (w.enter task) := by
  unfold World.enter
  split
  · next request _ _ =>
    have hw : Accounted { w with waiting := w.waiting.filter fun call => call.1 ≠ task } :=
      h.congr ⟨rfl, rfl, rfl⟩ (Or.inl rfl) (fun _ => ⟨rfl, rfl⟩)
    cases request with
    | getConnection name => exact hw.getConnection task name
    | closeAll => exact hw.congr ⟨rfl, rfl, rfl⟩ (Or.inl rfl) (fun _ => ⟨rfl, rfl⟩)
  · exact h

theorem Accounted.closeNext (h : Accounted w) (task index size : Nat) :
    Accounted (w.closeNext task index size) := by
  unfold World.closeNext
  split
  · exact h.note ⟨rfl, rfl, rfl⟩ (Or.inl rfl) rfl (fun _ => rfl) (fun _ => rfl)
  · split
    · exact h.congr ⟨rfl, rfl, rfl⟩ (Or.inl rfl) (fun _ => ⟨rfl, rfl⟩)
    · exact h.note ⟨rfl, rfl, rfl⟩ (Or.inr rfl) rfl (fun _ => rfl) (fun _ => rfl)

theorem Accounted.cancel (h : Accounted w) (task : Nat) : Accounted (w.cancel task) := by
  have hw : Accounted { w with waiting := w.waiting.filter fun call => call.1 ≠ task } :=
    h.congr ⟨rfl, rfl, rfl⟩ (Or.inl rfl) (fun _ => ⟨rfl, rfl⟩)
  unfold World.cancel
  dsimp only
  split
  · split
    · exact hw.note ⟨rfl, rfl, rfl⟩ (Or.inl rfl) rfl (fun _ => rfl) (fun _ => rfl)
    · exact hw
  · split
    · exact hw.note ⟨rfl, rfl, rfl⟩ (Or.inl rfl) rfl (fun _ => rfl) (fun _ => rfl)
    · exact hw
  · exact hw

variable [DecidableEq C]

theorem Accounted.releaseConnection (h : Accounted w) (name : K) (conn : Option C) :
    Accounted (w.releaseConnection name conn) := by
  unfold World.releaseConnection
  cases hr : w.released name conn with
  | none => exact h
  | some semaphore =>
    have hknown : semaphore < w.nextSemaphore := by
      unfold World.released at hr
      split at hr
      · exact h.known name semaphore hr
      · cases hr
    refine ⟨?_, ?_, h.known⟩
    · intro s
      have := h.sum s
      by_cases hs : semaphore = s
      · subst hs
        simp [handedOut, givenBack, Entry.hands, Entry.returns] at this ⊢
        omega
      · simpa [handedOut, givenBack, Entry.hands, Entry.returns, hs, Ne.symm hs] using this
    · intro s hs
      have hf := h.fresh s hs
      have hne : semaphore ≠ s := by
        rintro rfl
        exact absurd hs (Nat.not_le.mpr hknown)
      simpa [handedOut, givenBack, Entry.hands, Entry.returns, hne] using hf

theorem accounted_step (h : Accounted w) (l : Label K C) : Accounted (step w l) := by
  have hsame : ∀ w' : World K C, w'.permits = w.permits ∧ w'.limit = w.limit ∧
      w'.nextSemaphore = w.nextSemaphore → w'._semaphores = w._semaphores → w'.log = w.log →
      Accounted w' := by
    intro w' hs hk hlog
    refine h.congr hs (Or.inl hk) fun s => ?_
    simp [handedOut, givenBack, hlog]
  cases l with
  | configure name pool limit =>
    simp only [step]
    split
    · exact h
    · exact h.install name pool limit
  | call task request =>
    simp only [step]
    split
    · exact h
    · exact hsame _ ⟨rfl, rfl, rfl⟩ rfl rfl
  | enter task => exact h.enter task
  | wake task =>
    simp only [step]
    split
    · split
      · next hpos => exact h.serve task _ _ hpos.2
      · exact h
    · exact h
  | release name conn => exact h.releaseConnection name conn
  | closeNext task =>
    simp only [step]
    split
    · split
      · exact h.closeNext task _ _
      · exact h
    · exact h
  | cancel task => exact h.cancel task

/-! ## Releases -/

/-- The log has grown, and not by a release. -/
def Extends (w w' : World K C) : Prop := ∃ es, w'.log = w.log ++ es ∧ ∀ s, Entry.gaveBack s ∉ es

omit [DecidableEq K] [DecidableEq C] in
theorem extends_of_eq {w' : World K C} (h : w'.log = w.log) : Extends w w' :=
  ⟨[], by simp [h], by simp⟩

omit [DecidableEq K] [DecidableEq C] in
theorem extends_entry {w' : World K C} {e : Entry K C} (h : w'.log = w.log ++ [e])
    (he : ∀ s, Entry.gaveBack s ≠ e) : Extends w w' :=
  ⟨[e], h, by simpa using he⟩

omit [DecidableEq C] in
theorem extends_serve (w : World K C) (task : Nat) (name : K) (pool : Pool C) (semaphore : Nat) :
    Extends w (w.serve task name pool semaphore) := by
  unfold World.serve
  split
  · exact extends_entry rfl (by simp)
  · exact extends_entry rfl (by simp)

omit [DecidableEq C] in
theorem extends_getConnection (w : World K C) (task : Nat) (name : K) :
    Extends w (w.getConnection task name) := by
  unfold World.getConnection
  have hlog : (if (w._pools.get name).isSome then w else w.createPool name).log = w.log := by
    split <;> rfl
  generalize (if (w._pools.get name).isSome then w else w.createPool name) = w' at hlog
  have hext : ∀ v, Extends w' v → Extends w v := by
    rintro v ⟨es, h, hes⟩
    exact ⟨es, by rw [h, hlog], hes⟩
  dsimp only
  split
  · split
    · exact hext _ (extends_serve _ _ _ _ _)
    · exact hext _ (extends_of_eq rfl)
  · exact hext _ (extends_entry rfl (by simp))

omit [DecidableEq C] in
theorem extends_enter (w : World K C) (task : Nat) : Extends w (w.enter task) := by
  unfold World.enter
  split
  · next request _ _ =>
    cases request with
    | getConnection name =>
      exact extends_getConnection
        { w with waiting := w.waiting.filter fun call => call.1 ≠ task } task name
    | closeAll => exact extends_of_eq rfl
  · exact extends_of_eq rfl

omit [DecidableEq C] in
theorem extends_closeNext (w : World K C) (task index size : Nat) :
    Extends w (w.closeNext task index size) := by
  unfold World.closeNext
  split
  · exact extends_entry rfl (by simp)
  · split
    · exact extends_of_eq rfl
    · exact extends_entry rfl (by simp)

omit [DecidableEq C] in
theorem extends_cancel (w : World K C) (task : Nat) : Extends w (w.cancel task) := by
  unfold World.cancel
  dsimp only
  split
  · split
    · exact extends_entry rfl (by simp)
    · exact extends_of_eq rfl
  · split
    · exact extends_entry rfl (by simp)
    · exact extends_of_eq rfl
  · exact extends_of_eq rfl

/-- A step is a release that takes effect, or one that logs none. -/
theorem log_step (w : World K C) (l : Label K C) :
    (∃ name conn s, l = .release name conn ∧ w.released name conn = some s ∧
      (step w l).log = w.log ++ [.gaveBack s]) ∨
    (∀ name conn, l = .release name conn → w.released name conn = none) ∧ Extends w (step w l) := by
  cases l with
  | release name conn =>
    cases hr : w.released name conn with
    | none =>
      right
      refine ⟨?_, extends_of_eq (by simp [step, World.releaseConnection, hr])⟩
      rintro _ _ ⟨⟩
      exact hr
    | some s =>
      left
      exact ⟨name, conn, s, rfl, hr, by simp [step, World.releaseConnection, hr]⟩
  | configure name pool limit =>
    refine Or.inr ⟨by simp, ?_⟩
    simp only [step]
    split
    · exact extends_of_eq rfl
    · exact extends_of_eq rfl
  | call task request =>
    refine Or.inr ⟨by simp, ?_⟩
    simp only [step]
    split
    · exact extends_of_eq rfl
    · exact extends_of_eq rfl
  | enter task => exact Or.inr ⟨by simp, extends_enter w task⟩
  | wake task =>
    refine Or.inr ⟨by simp, ?_⟩
    simp only [step]
    split
    · split
      · exact extends_serve _ _ _ _ _
      · exact extends_of_eq rfl
    · exact extends_of_eq rfl
  | closeNext task =>
    refine Or.inr ⟨by simp, ?_⟩
    simp only [step]
    split
    · split
      · exact extends_closeNext _ _ _ _
      · exact extends_of_eq rfl
    · exact extends_of_eq rfl
  | cancel task => exact Or.inr ⟨by simp, extends_cancel w task⟩

/-- No semaphore has more permits than it was made with. -/
def Limited (w : World K C) : Prop := ∀ s, w.permits s ≤ w.limit s

/-- A release that takes effect follows a connection that is still out. -/
def Matched (w : World K C) (l : Label K C) : Prop :=
  ∀ name conn s, l = .release name conn → w.released name conn = some s →
    givenBack w s < handedOut w s

omit [DecidableEq C] in
theorem Accounted.limited_iff (h : Accounted w) :
    Limited w ↔ ∀ s, givenBack w s ≤ handedOut w s := by
  constructor
  · intro hl s
    have := h.sum s
    have := hl s
    omega
  · intro hl s
    have := h.sum s
    have := hl s
    omega

theorem limited_step (h : Accounted w) (hl : Limited w) (l : Label K C) :
    Limited (step w l) ↔ Matched w l := by
  rw [(accounted_step h l).limited_iff]
  rw [h.limited_iff] at hl
  rcases log_step w l with ⟨name, conn, s, rfl, hr, hlog⟩ | ⟨hnone, es, hlog, hes⟩
  · have hh : ∀ t, handedOut (step w (.release name conn)) t = handedOut w t := by
      intro t
      simp [handedOut, hlog, Entry.hands]
    have hg : ∀ t, givenBack (step w (.release name conn)) t =
        givenBack w t + if s = t then 1 else 0 := by
      intro t
      by_cases ht : s = t <;> simp [givenBack, hlog, Entry.returns, ht]
    constructor
    · rintro hle _ _ t ⟨⟩ hrt
      obtain rfl : s = t := Option.some.inj (hr.symm.trans hrt)
      have := hle s
      rw [hh, hg, if_pos rfl] at this
      omega
    · intro hm t
      rw [hh, hg]
      split
      · next ht =>
        subst ht
        exact hm name conn s rfl hr
      · exact hl t
  · have hback : ∀ t, givenBack (step w l) t = givenBack w t := by
      intro t
      have : es.countP (Entry.returns t) = 0 := by
        rw [List.countP_eq_zero]
        intro e he hret
        cases e with
        | gaveBack s => exact hes s he
        | got | failed | closed => simp [Entry.returns] at hret
      simp [givenBack, hlog, this]
    constructor
    · intro _ name conn s hrel hr
      rw [hnone name conn hrel] at hr
      cases hr
    · intro _ t
      have := hl t
      have : handedOut w t ≤ handedOut (step w l) t := by simp [handedOut, hlog]
      rw [hback]
      omega

/-- The permits of every exchange stay within its limit exactly when every release that the
service accepts is one of a connection that is out. -/
theorem limited_iff_matched (as : List (Label K C)) :
    Throughout step Limited init as ↔ Meets step Matched init as :=
  throughout_iff_meets (Q := Accounted) (fun _ l h => accounted_step h l)
    (fun _ l h hl => limited_step h hl l) accounted_init (fun _ => Nat.le_refl _) as

/-! ## A call that waits for a permit -/

/-- The step neither cancels the task nor releases the semaphore. -/
def Withholds (task semaphore : Nat) (w : World K C) (l : Label K C) : Prop :=
  l ≠ .cancel task ∧ ∀ name conn, l = .release name conn → w.released name conn ≠ some semaphore

/-- The task waits for a permit of the semaphore, and there is none. -/
def Starved (task semaphore : Nat) (w : World K C) : Prop :=
  (∃ name pool, w._lock = some (.acquiring task name pool semaphore)) ∧ w.permits semaphore = 0 ∧
    semaphore < w.nextSemaphore

/-- What a step leaves behind while the lock is held by a starved task. -/
theorem starved_step {task semaphore : Nat} (h : Starved task semaphore w) {l : Label K C}
    (hl : Withholds task semaphore w l) :
    Starved task semaphore (step w l) ∧ (step w l)._lock = w._lock ∧
      ((step w l).log = w.log ∨ ∃ s, s ≠ semaphore ∧ (step w l).log = w.log ++ [.gaveBack s]) := by
  obtain ⟨⟨name, pool, hlock⟩, hp, hn⟩ := h
  have hstay : ∀ w' : World K C, w'._lock = w._lock → w'.permits semaphore = w.permits semaphore →
      w.nextSemaphore ≤ w'.nextSemaphore → Starved task semaphore w' ∧ w'._lock = w._lock := by
    intro w' hw' hp' hn'
    exact ⟨⟨⟨name, pool, hw'.trans hlock⟩, hp'.trans hp, Nat.lt_of_lt_of_le hn hn'⟩, hw'⟩
  have hself := hstay w rfl rfl (Nat.le_refl _)
  cases l with
  | configure other pool' limit =>
    simp only [step]
    split
    · exact ⟨hself.1, hself.2, Or.inl rfl⟩
    · have := hstay (w.install other pool' limit) rfl
        (by simp [World.install, Nat.ne_of_lt hn]) (by simp [World.install])
      exact ⟨this.1, this.2, Or.inl rfl⟩
  | call t request =>
    simp only [step]
    split
    · exact ⟨hself.1, hself.2, Or.inl rfl⟩
    · have := hstay { w with waiting := w.waiting ++ [(t, request)] } rfl rfl (Nat.le_refl _)
      exact ⟨this.1, this.2, Or.inl rfl⟩
  | enter t =>
    have : step w (.enter t) = w := by simp [step, World.enter, hlock]
    rw [this]
    exact ⟨hself.1, hself.2, Or.inl rfl⟩
  | wake t =>
    have : step w (.wake t) = w := by simp [step, hlock, hp]
    rw [this]
    exact ⟨hself.1, hself.2, Or.inl rfl⟩
  | release other conn =>
    cases hr : w.released other conn with
    | none =>
      have : step w (.release other conn) = w := by simp [step, World.releaseConnection, hr]
      rw [this]
      exact ⟨hself.1, hself.2, Or.inl rfl⟩
    | some s =>
      have hne : s ≠ semaphore := by
        rintro rfl
        exact hl.2 other conn rfl hr
      have hrelease : step w (.release other conn) = { w with
          permits := Function.update w.permits s (w.permits s + 1)
          active := Function.update w.active other (w.active other - 1)
          log := w.log ++ [.gaveBack s] } := by simp [step, World.releaseConnection, hr]
      have := hstay (step w (.release other conn)) (by rw [hrelease]) (by rw [hrelease]; simp [hne.symm])
        (by rw [hrelease])
      exact ⟨this.1, this.2, Or.inr ⟨s, hne, by rw [hrelease]⟩⟩
  | closeNext t =>
    have : step w (.closeNext t) = w := by simp [step, hlock]
    rw [this]
    exact ⟨hself.1, hself.2, Or.inl rfl⟩
  | cancel t =>
    have hne : task ≠ t := by
      rintro rfl
      exact hl.1 rfl
    have hcancel : step w (.cancel t) =
        { w with waiting := w.waiting.filter fun call => call.1 ≠ t } := by
      simp [step, World.cancel, hlock, hne]
    rw [hcancel]
    have := hstay { w with waiting := w.waiting.filter fun call => call.1 ≠ t } rfl rfl (Nat.le_refl _)
    exact ⟨this.1, this.2, Or.inl rfl⟩

/-- While a call waits for a permit of one exchange, nobody gets a connection of any exchange
and no `close_all` ends, until the semaphore is released or the call cancelled. -/
theorem starved_run {task semaphore : Nat} (h : Starved task semaphore w) {as : List (Label K C)}
    (has : Meets step (Withholds task semaphore) w as) :
    (run step w as)._lock = w._lock ∧ ∃ back : List Nat, semaphore ∉ back ∧
      (run step w as).log = w.log ++ back.map .gaveBack := by
  induction as generalizing w with
  | nil => exact ⟨rfl, [], List.not_mem_nil, by simp⟩
  | cons l as ih =>
    obtain ⟨hl, has⟩ := (meets_cons step _ w l as).mp has
    obtain ⟨hs, hlock, hlog⟩ := starved_step h hl
    obtain ⟨hlock', back, hback, hlog'⟩ := ih hs has
    refine ⟨hlock'.trans hlock, ?_⟩
    rcases hlog with hlog | ⟨s, hne, hlog⟩
    · exact ⟨back, hback, by rw [run_cons, hlog', hlog]⟩
    · refine ⟨s :: back, ?_, by rw [run_cons, hlog', hlog]; simp⟩
      rw [List.mem_cons, not_or]
      exact ⟨hne.symm, hback⟩

end

/-- One exchange has one connection and two tasks; another exchange is free. -/
def saturated : World Nat Nat := run step init
  [.configure 0 { session := some (some 7) } 1, .configure 1 { session := some (some 8) } 1,
    .call 0 (.getConnection 0), .enter 0, .call 1 (.getConnection 0), .enter 1]

theorem starved_run_saturated :
    (run step saturated [.call 2 (.getConnection 1), .enter 2, .call 3 .closeAll, .enter 3])._lock =
        saturated._lock ∧
      ∃ back : List Nat, 0 ∉ back ∧
        (run step saturated [.call 2 (.getConnection 1), .enter 2, .call 3 .closeAll, .enter 3]).log =
          saturated.log ++ back.map .gaveBack := by
  have h : Starved 1 0 saturated :=
    ⟨⟨0, { session := some (some 7) }, by decide⟩, by decide, by decide⟩
  exact starved_run h (by simp [meets_cons, meets_nil, Withholds])

end ConnectionServices
