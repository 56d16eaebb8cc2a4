import BtApiBase.AsyncPools

/-!
# The permits of the asynchronous pool

A permit is free, or behind a connection in use, or with a task between the
semaphore and the end of `acquire`. What is missing from the sum is lost: a call
of the factory that raises or comes back with a connection in use takes one, and
so does a task that is cancelled while it waits for the lock.
-/

namespace AsyncPermits

open PyValue Ownership AsyncPools Runs

variable {α : Type}

/-- The permits that are free or will be. -/
def accounted (w : World α) : Nat :=
  w.pool._semaphore + w.pool._inUse.card + w.waitingLock.length + w.creating.toList.length

/-- Every call of the factory that ends here returns a connection that is not in
use, and no task with a permit is cancelled. -/
def KeepsPermit (w : World α) (l : Label α) : Prop :=
  (∀ task result, Makes w l task result → ∃ conn, result = .ok conn ∧ conn ∉ w.pool._inUse) ∧
  ∀ task, l = .cancel task → task ∉ w.waitingLock

/-- No call of `acquire` is in progress. -/
def NoAcquire (w : World α) : Prop := w.waitingPermit = [] ∧ w.waitingLock = [] ∧ w.creating = none

section

variable [DecidableEq α]

/-- A step that keeps its permit keeps the sum, and any other takes one off. -/
theorem accounted_step {w : World α} (hw : Sound w) (l : Label α) :
    KeepsPermit w l ∧ accounted (step w l) = accounted w ∨
    ¬ KeepsPermit w l ∧ accounted (step w l) + 1 = accounted w := by
  have h := stepped_step w l
  generalize step w l = w' at h ⊢
  cases h with
  | queued waiting calls hmakes hleaves =>
    exact .inl ⟨⟨fun task result hm => absurd hm (hmakes task result), hleaves⟩, rfl⟩
  | permitted task hl h =>
    subst hl
    refine .inl ⟨⟨fun _ _ hm => (by cases hm), nofun⟩, ?_⟩
    simp only [accounted, List.length_append, List.length_cons, List.length_nil]
    omega
  | reused task conn last rest hmakes hl h hc hp =>
    have hnot : conn ∉ w.pool._inUse := hw.disjoint conn (by simp [idle, hp])
    have hcard := Finset.card_insert_of_notMem hnot
    have hlen := List.length_erase_of_mem h
    have hpos := List.length_pos_of_mem h
    refine .inl ⟨⟨fun task result hm => absurd hm (hmakes task result), fun _ he => absurd he (hl _)⟩, ?_⟩
    simp only [accounted, World.handOut]
    omega
  | suspended task hmakes hl h hc hp =>
    have hlen := List.length_erase_of_mem h
    have hpos := List.length_pos_of_mem h
    refine .inl ⟨⟨fun task result hm => absurd hm (hmakes task result), fun _ he => absurd he (hl _)⟩, ?_⟩
    simp only [accounted, hc, Option.toList_some, Option.toList_none, List.length_cons, List.length_nil]
    omega
  | made task result lock h hlock =>
    have hcancel : ∀ task', l = .cancel task' → task' ∉ w.waitingLock := by
      rintro task' rfl
      cases h
    cases result with
    | error exc =>
      refine .inr ⟨fun hk => ?_, ?_⟩
      · obtain ⟨conn, he, -⟩ := hk.1 task _ h
        cases he
      · simp only [accounted, World.finish, Option.toList_none, List.length_nil]
        omega
    | ok conn =>
      by_cases hu : conn ∈ w.pool._inUse
      · refine .inr ⟨fun hk => ?_, ?_⟩
        · obtain ⟨conn', he, hnot⟩ := hk.1 task _ h
          cases he
          exact hnot hu
        · simp only [accounted, World.finish, World.handOut, Finset.insert_eq_of_mem hu,
            Option.toList_none, List.length_nil]
          omega
      · have hcard := Finset.card_insert_of_notMem hu
        refine .inl ⟨⟨fun task' result' hm => ⟨conn, (h.unique hm).symm, hu⟩, hcancel⟩, ?_⟩
        simp only [accounted, World.finish, World.handOut, Option.toList_none, List.length_nil]
        omega
  | returned conn now calls hmakes hl hc h =>
    have hcard := Finset.card_erase_add_one h
    refine .inl ⟨⟨fun task result hm => absurd hm (hmakes task result), fun _ he => absurd he (hl _)⟩, ?_⟩
    unfold World.releaseLocked
    rw [if_pos h]
    simp only [accounted]
    omega
  | left task calls hl h =>
    have hlen := List.length_erase_of_mem h
    have hpos := List.length_pos_of_mem h
    refine .inr ⟨fun hk => hk.2 task hl h, ?_⟩
    simp only [accounted]
    omega

/-- The sum is the whole exactly after runs in which every step keeps its permit. -/
theorem accounted_run {w : World α} (hw : Sound w) (labels : List (Label α)) :
    accounted (run step w labels) ≤ accounted w ∧
      (accounted (run step w labels) = accounted w ↔ Meets step KeepsPermit w labels) := by
  induction labels generalizing w with
  | nil => exact ⟨le_rfl, iff_of_true rfl (meets_nil step KeepsPermit w)⟩
  | cons l labels ih =>
    obtain ⟨hle, hiff⟩ := ih (sound_step hw l)
    rw [run_cons, meets_cons]
    rcases accounted_step hw l with ⟨hk, he⟩ | ⟨hk, he⟩
    · rw [he] at hle hiff
      exact ⟨hle, hiff.trans (iff_and_self.mpr fun _ => hk)⟩
    · refine ⟨by omega, iff_of_false (by omega) fun h => hk h.1⟩

/-- After a run that leaves no `acquire` in progress, the free permits are those
that no connection in use stands for, exactly if every step of it keeps its
permit. -/
theorem permits_iff_keepsPermit (coroutine : Bool) (maxSize : Nat) (labels : List (Label α))
    (hno : NoAcquire (run step (init coroutine maxSize) labels)) :
    ((run step (init coroutine maxSize) labels).pool._semaphore : Int) =
        maxSize - (run step (init coroutine maxSize) labels).pool._inUse.card ↔
      Meets step KeepsPermit (init coroutine maxSize) labels := by
  have hrun := accounted_run (sound_init (α := α) coroutine maxSize) labels
  have hinit : accounted (init (α := α) coroutine maxSize) = maxSize := rfl
  obtain ⟨-, hlock, hcreating⟩ := hno
  have hlast : accounted (run step (init coroutine maxSize) labels) =
      (run step (init coroutine maxSize) labels).pool._semaphore +
        (run step (init coroutine maxSize) labels).pool._inUse.card := by
    simp [accounted, hlock, hcreating]
  rw [hinit] at hrun
  rw [← hrun.2, hlast]
  omega

/-! ## How many connections there are -/

/-- The idle connections and those in use fit into the pool, and so do the permits
that are accounted for. -/
structure Bounded (w : World α) : Prop where
  sound : Sound w
  accounted : accounted w ≤ w.pool._maxSize
  connections : (idle w.pool).length + w.pool._inUse.card ≤ w.pool._maxSize

theorem maxSize_step (w : World α) (l : Label α) : (step w l).pool._maxSize = w.pool._maxSize := by
  have h := stepped_step w l
  generalize step w l = w' at h ⊢
  cases h with
  | made task result lock h hlock => cases result <;> rfl
  | returned conn now calls hmakes hl hc h =>
    unfold World.releaseLocked
    rw [if_pos h]
  | _ => rfl

omit [DecidableEq α] in
theorem bounded_init (coroutine : Bool) (maxSize : Nat) : Bounded (init (α := α) coroutine maxSize) :=
  ⟨sound_init coroutine maxSize, le_rfl, Nat.zero_le _⟩

/-- A connection is made only while none is idle, and behind it is a permit. -/
theorem bounded_step (w : World α) (l : Label α) (hw : Bounded w) : Bounded (step w l) := by
  have hacc : accounted (step w l) ≤ (step w l).pool._maxSize := by
    have hle := hw.accounted
    rw [maxSize_step]
    rcases accounted_step hw.sound l with ⟨-, he⟩ | ⟨-, he⟩ <;> omega
  refine ⟨sound_step hw.sound l, hacc, ?_⟩
  have hconn := hw.connections
  have h := stepped_step w l
  generalize step w l = w' at h hacc ⊢
  cases h with
  | queued waiting calls hmakes hleaves => exact hconn
  | permitted task hl h => exact hconn
  | reused task conn last rest hmakes hl h hc hp =>
    have hcard := Finset.card_insert_le conn w.pool._inUse
    simp only [idle, hp, List.map_cons, List.length_cons, World.handOut] at hconn ⊢
    omega
  | suspended task hmakes hl h hc hp => exact hconn
  | made task result lock h hlock =>
    have hidle : idle w.pool = [] := by rw [idle, h.empty hw.sound, List.map_nil]
    cases result with
    | error exc => exact hconn
    | ok conn =>
      have hnone : idle (({ w with waitingLock := lock, creating := none } : World α).finish task (.ok conn)).pool = [] :=
        hidle
      rw [hnone, List.length_nil]
      simp only [AsyncPermits.accounted] at hacc
      omega
  | returned conn now calls hmakes hl hc h =>
    have hcard := Finset.card_erase_add_one h
    unfold World.releaseLocked
    rw [if_pos h]
    simp only [idle, List.map_append, List.map_cons, List.map_nil, List.length_append, List.length_cons,
      List.length_nil] at hconn ⊢
    omega
  | left task calls hl h => exact hconn

/-- In every reachable state the idle connections and those in use are at most
`max_size`. -/
theorem connections_within_maxSize (coroutine : Bool) (maxSize : Nat) (labels : List (Label α)) :
    (idle (run step (init (α := α) coroutine maxSize) labels).pool).length +
      (run step (init (α := α) coroutine maxSize) labels).pool._inUse.card ≤ maxSize := by
  have hsize : (run step (init (α := α) coroutine maxSize) labels).pool._maxSize = maxSize :=
    run_induction (P := fun w : World α => w.pool._maxSize = maxSize)
      (fun w l h => (maxSize_step w l).trans h) rfl labels
  have hb := run_induction bounded_step (bounded_init (α := α) coroutine maxSize) labels
  exact hb.connections.trans hsize.le

end

/-! ## A factory that raises -/

instance (w : World α) : Decidable (NoAcquire w) :=
  inferInstanceAs (Decidable (w.waitingPermit = [] ∧ w.waitingLock = [] ∧ w.creating = none))

/-- A connection is made, handed out and given back. -/
def returnedRun : List (Label Nat) :=
  [.acquire 0, .takePermit 0, .enter 0 (.ok 1), .release 1 1, .giveBack 1 5]

theorem permits_returnedRun :
    ((run step (init false 1) returnedRun).pool._semaphore : Int) =
        (1 : Nat) - (run step (init false 1) returnedRun).pool._inUse.card ↔
      Meets step KeepsPermit (init false 1) returnedRun :=
  permits_iff_keepsPermit false 1 returnedRun (by decide +kernel)

/-- The only permit is taken and the factory raises. -/
def raisedRun : List (Label Nat) :=
  [.acquire 0, .takePermit 0, .enter 0 (.error ⟨.runtimeError, "refused"⟩)]

theorem permit_lost :
    NoAcquire (run step (init false 1) raisedRun) ∧
    (run step (init false 1) raisedRun).pool._semaphore = 0 ∧
    ¬ ((run step (init false 1) raisedRun).pool._semaphore : Int) =
      (1 : Nat) - (run step (init false 1) raisedRun).pool._inUse.card := by
  decide +kernel

end AsyncPermits
