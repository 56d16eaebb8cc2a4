import BtApiBase.ConnectionServices

/-!
# Where a connection of the service comes from

A call that has a connection got it under the semaphore of its exchange. As long as a new
pool brings a new connection, a connection that comes back finds either that semaphore, or a
pool that is another one.
-/

namespace ConnectionOrigins

open PyDict Runs ConnectionServices

variable {K C : Type}

def request : Holder K C → Request K
  | .acquiring _ name _ _ => .getConnection name
  | .closing _ _ _ => .closeAll

/-- The task is in a call of the service. -/
def Pending (w : World K C) (task : Nat) (r : Request K) : Prop :=
  (task, r) ∈ w.waiting ∨ ∃ h, w._lock = some h ∧ h.task = task ∧ request h = r

/-- The holder of the lock does not wait for it, and has read the pool and the semaphore of its
exchange as they are. -/
structure Locked [DecidableEq K] (w : World K C) : Prop where
  apart : ∀ h r, w._lock = some h → (h.task, r) ∉ w.waiting
  current : ∀ task name pool s, w._lock = some (.acquiring task name pool s) →
    w._pools.get name = some pool ∧ w._semaphores.get name = some s

/-- The connections that were handed out under a semaphore are those of its pool, while there is
one, and no other pool of the exchange has them. -/
structure Sourced [DecidableEq K] (w : World K C) : Prop where
  known : ∀ name s, w._semaphores.get name = some s → s < w.nextSemaphore
  names : ∀ name name' s, w._semaphores.get name = some s → w._semaphores.get name' = some s →
    name = name'
  managed : ∀ name pool, w._pools.get name = some pool → pool.managed = pool.handOut
  made : ∀ task name s conn, .got task name s conn ∈ w.log → s < w.nextSemaphore
  source : ∀ task name s conn, .got task name s conn ∈ w.log → ∀ name',
    w._semaphores.get name' = some s → name' = name ∧
      ∃ pool, w._pools.get name = some pool ∧ pool.handOut = some conn
  fresh : ∀ task name s conn, .got task name s conn ∈ w.log → ∀ pool,
    w._pools.get name = some pool → pool.handOut = some conn → w._semaphores.get name = some s

/-- A pool that is set from outside manages the connection that it hands out, and the exchange has
not handed it out before. -/
def Fresh (w : World K C) (l : Label K C) : Prop :=
  ∀ name pool limit, l = .configure name pool limit → pool.managed = pool.handOut ∧
    ∀ task s conn, pool.handOut = some conn → .got task name s conn ∉ w.log

/-- What an entry of the log says of the step that made it. -/
def Ends [DecidableEq K] (w w' : World K C) : Entry K C → Prop
  | .got task name s conn => Pending w task (.getConnection name) ∧ (∀ r, ¬ Pending w' task r) ∧
      w'._semaphores.get name = some s ∧ ∃ pool, w'._pools.get name = some pool ∧ pool.handOut = some conn
  | .failed task | .closed task => (∃ r, Pending w task r) ∧ ∀ r, ¬ Pending w' task r
  | .gaveBack _ => False

/-- A step of the calls that are in the service: nobody comes to wait, a semaphore is an old or a
new one, and one entry is made at most. -/
structure Advances [DecidableEq K] (w w' : World K C) : Prop where
  pending : ∀ task r, Pending w' task r → Pending w task r
  semaphores : ∀ name s, w'._semaphores.get name = some s →
    w._semaphores.get name = some s ∨ w.nextSemaphore ≤ s
  log : w'.log = w.log ∨ ∃ e, w'.log = w.log ++ [e] ∧ Ends w w' e

section

variable [DecidableEq K] {w : World K C}

theorem sourced_init : Sourced (init (K := K) (C := C)) := by
  refine ⟨?_, ?_, ?_, ?_, ?_, ?_⟩ <;> simp [init]

theorem locked_init : Locked (init (K := K) (C := C)) :=
  ⟨fun _ _ h => by simp [init] at h, fun _ _ _ _ h => by simp [init] at h⟩

/-- The pools stay, and the log has no connection more. -/
theorem Sourced.congr (h : Sourced w) {w' : World K C}
    (hsame : w'._pools = w._pools ∧ w'._semaphores = w._semaphores ∧ w'.nextSemaphore = w.nextSemaphore)
    (hlog : ∀ task name s conn, .got task name s conn ∈ w'.log → .got task name s conn ∈ w.log) :
    Sourced w' := by
  obtain ⟨hp, hs, hn⟩ := hsame
  refine ⟨?_, ?_, ?_, ?_, ?_, ?_⟩
  · rw [hs, hn]
    exact h.known
  · rw [hs]
    exact h.names
  · rw [hp]
    exact h.managed
  · intro task name s conn hgot
    rw [hn]
    exact h.made task name s conn (hlog _ _ _ _ hgot)
  · intro task name s conn hgot
    rw [hs, hp]
    exact h.source task name s conn (hlog _ _ _ _ hgot)
  · intro task name s conn hgot
    rw [hs, hp]
    exact h.fresh task name s conn (hlog _ _ _ _ hgot)

theorem semaphores_install {name other : K} {pool : Pool C} {limit s : Nat}
    (h : (w.install name pool limit)._semaphores.get other = some s) :
    w._semaphores.get other = some s ∨ w.nextSemaphore ≤ s := by
  simp only [World.install, Dict.get_set] at h
  split at h
  · exact Or.inr (by simpa using Nat.le_of_eq (Option.some.inj h))
  · exact Or.inl h

/-- A new pool comes with a semaphore of its own and a connection of its own. -/
theorem Sourced.install (h : Sourced w) {name : K} {pool : Pool C} (limit : Nat)
    (hm : pool.managed = pool.handOut)
    (hfresh : ∀ task s conn, pool.handOut = some conn → .got task name s conn ∉ w.log) :
    Sourced (w.install name pool limit) := by
  have hold : ∀ other s, other ≠ name → (w.install name pool limit)._semaphores.get other = some s →
      w._semaphores.get other = some s := by
    intro other s hne hs
    simpa [World.install, Dict.get_set_other _ _ hne] using hs
  have hnew : ∀ s, (w.install name pool limit)._semaphores.get name = some s → s = w.nextSemaphore := by
    intro s hs
    have : some w.nextSemaphore = some s := by simpa [World.install] using hs
    exact (Option.some.inj this).symm
  refine ⟨?_, ?_, ?_, ?_, ?_, ?_⟩
  · intro other s hs
    have hnext : (w.install name pool limit).nextSemaphore = w.nextSemaphore + 1 := rfl
    by_cases hne : other = name
    · subst hne
      have := hnew s hs
      omega
    · have := h.known other s (hold other s hne hs)
      omega
  · intro a b s ha hb
    by_cases hne : a = name
    · subst hne
      by_cases hne' : b = a
      · exact hne'.symm
      · have := h.known b s (hold b s hne' hb)
        have := hnew s ha
        omega
    · by_cases hne' : b = name
      · subst hne'
        have := h.known a s (hold a s hne ha)
        have := hnew s hb
        omega
      · exact h.names a b s (hold a s hne ha) (hold b s hne' hb)
  · intro other p hp
    by_cases hne : other = name
    · subst hne
      obtain rfl : pool = p := by simpa [World.install] using hp
      exact hm
    · exact h.managed other p (by simpa [World.install, Dict.get_set_other _ _ hne] using hp)
  · intro task other s conn hgot
    have := h.made task other s conn hgot
    simp only [World.install]
    omega
  · intro task other s conn hgot name' hs
    have hlt := h.made task other s conn hgot
    have hne : name' ≠ name := by
      rintro rfl
      have := hnew s hs
      omega
    obtain ⟨rfl, p, hp, hc⟩ := h.source task other s conn hgot name' (hold name' s hne hs)
    exact ⟨rfl, p, by simpa [World.install, Dict.get_set_other _ _ hne] using hp, hc⟩
  · intro task other s conn hgot p hp hc
    by_cases hne : other = name
    · subst hne
      obtain rfl : pool = p := by simpa [World.install] using hp
      exact absurd hgot (hfresh task s conn hc)
    · have hp' : w._pools.get other = some p := by
        simpa [World.install, Dict.get_set_other _ _ hne] using hp
      simpa [World.install, Dict.get_set_other _ _ hne] using h.fresh task other s conn hgot p hp' hc

/-- A connection is handed out under the semaphore that is there. -/
theorem Sourced.got (h : Sourced w) {w' : World K C} {task : Nat} {name : K} {s : Nat} {conn : C}
    {pool : Pool C} (hp : w._pools.get name = some pool) (hs : w._semaphores.get name = some s)
    (hc : pool.handOut = some conn)
    (hsame : w'._pools = w._pools ∧ w'._semaphores = w._semaphores ∧ w'.nextSemaphore = w.nextSemaphore)
    (hlog : w'.log = w.log ++ [.got task name s conn]) : Sourced w' := by
  obtain ⟨hp', hs', hn'⟩ := hsame
  have hcases : ∀ t n u c, .got t n u c ∈ w'.log →
      .got t n u c ∈ w.log ∨ (n = name ∧ u = s ∧ c = conn) := by
    intro t n u c hgot
    rw [hlog, List.mem_append, List.mem_singleton] at hgot
    rcases hgot with hgot | hgot
    · exact Or.inl hgot
    · obtain ⟨-, hname, hsem, hconn⟩ := Entry.got.inj hgot
      exact Or.inr ⟨hname, hsem, hconn⟩
  refine ⟨?_, ?_, ?_, ?_, ?_, ?_⟩
  · rw [hs', hn']
    exact h.known
  · rw [hs']
    exact h.names
  · rw [hp']
    exact h.managed
  · intro t n u c hgot
    rw [hn']
    rcases hcases t n u c hgot with hold | ⟨-, rfl, -⟩
    · exact h.made t n u c hold
    · exact h.known name u hs
  · intro t n u c hgot n' hu
    rw [hs'] at hu
    rw [hp']
    rcases hcases t n u c hgot with hold | ⟨rfl, rfl, rfl⟩
    · exact h.source t n u c hold n' hu
    · exact ⟨h.names n' n u hu hs, pool, hp, hc⟩
  · intro t n u c hgot p hpn hpc
    rw [hp'] at hpn
    rw [hs']
    rcases hcases t n u c hgot with hold | ⟨rfl, rfl, rfl⟩
    · exact h.fresh t n u c hold p hpn hpc
    · exact hs

/-- `close_all` at its end. -/
theorem Sourced.cleared (h : Sourced w) {w' : World K C} (hp : w'._pools = .empty)
    (hs : w'._semaphores = .empty) (hn : w'.nextSemaphore = w.nextSemaphore)
    (hlog : ∀ task name s conn, .got task name s conn ∈ w'.log → .got task name s conn ∈ w.log) :
    Sourced w' := by
  refine ⟨?_, ?_, ?_, ?_, ?_, ?_⟩
  · simp [hs]
  · simp [hs]
  · simp [hp]
  · intro task name s conn hgot
    rw [hn]
    exact h.made task name s conn (hlog _ _ _ _ hgot)
  · simp [hs]
  · simp [hp]

/-! ## One step of the service -/

/-- The entry of a `get_connection` that is over: it has the connection of the pool, or raised. -/
def Served (w : World K C) (task : Nat) (name : K) (e : Entry K C) : Prop :=
  (∀ r, ¬ Pending w task r) ∧ (e = .failed task ∨ ∃ s conn, e = .got task name s conn ∧
    w._semaphores.get name = some s ∧ ∃ pool, w._pools.get name = some pool ∧ pool.handOut = some conn)

theorem locked_of_none (h : w._lock = none) : Locked w :=
  ⟨fun _ _ hh => by simp [h] at hh, fun _ _ _ _ hh => by simp [h] at hh⟩

omit [DecidableEq K] in
theorem pending_of_none (h : w._lock = none) {task : Nat} {r : Request K} :
    Pending w task r ↔ (task, r) ∈ w.waiting := by simp [Pending, h]

/-- A call with a permit has its connection, or raises, and leaves the lock. -/
theorem serve_spec (h : Sourced w) {task : Nat} {name : K} {pool : Pool C} {s : Nat}
    (hp : w._pools.get name = some pool) (hs : w._semaphores.get name = some s)
    (hout : ∀ r, (task, r) ∉ w.waiting) :
    Sourced (w.serve task name pool s) ∧ (w.serve task name pool s)._lock = none ∧
      (w.serve task name pool s).waiting = w.waiting ∧
      (w.serve task name pool s)._semaphores = w._semaphores ∧
      ∃ e, (w.serve task name pool s).log = w.log ++ [e] ∧ Served (w.serve task name pool s) task name e := by
  have hgone : ∀ w' : World K C, w'._lock = none → w'.waiting = w.waiting → ∀ r, ¬ Pending w' task r := by
    intro w' hnone hw r hr
    rw [pending_of_none hnone, hw] at hr
    exact hout r hr
  unfold World.serve
  cases hc : pool.handOut with
  | some conn =>
    refine ⟨h.got hp hs hc ⟨rfl, rfl, rfl⟩ rfl, rfl, rfl, rfl, _, rfl, hgone _ rfl rfl, Or.inr ?_⟩
    exact ⟨s, conn, rfl, hs, pool, hp, hc⟩
  | none =>
    refine ⟨h.congr ⟨rfl, rfl, rfl⟩ ?_, rfl, rfl, rfl, _, rfl, hgone _ rfl rfl, Or.inl rfl⟩
    intro t n u c hgot
    simpa using hgot

/-- `get_connection` with the lock: it is over, or waits for a permit. -/
theorem getConnection_spec (h : Sourced w) (hfree : w._lock = none) {task : Nat} (name : K)
    (hout : ∀ r, (task, r) ∉ w.waiting) :
    Sourced (w.getConnection task name) ∧ Locked (w.getConnection task name) ∧
      (w.getConnection task name).waiting = w.waiting ∧
      (∀ other u, (w.getConnection task name)._semaphores.get other = some u →
        w._semaphores.get other = some u ∨ w.nextSemaphore ≤ u) ∧
      ((w.getConnection task name).log = w.log ∧
          (∃ pool s, (w.getConnection task name)._lock = some (.acquiring task name pool s)) ∨
        (w.getConnection task name)._lock = none ∧ ∃ e, (w.getConnection task name).log = w.log ++ [e] ∧
          Served (w.getConnection task name) task name e) := by
  unfold World.getConnection
  have hw : Sourced (if (w._pools.get name).isSome then w else w.createPool name) := by
    split
    · exact h
    · exact h.install 10 rfl (by simp [Pool.handOut])
  have hsame : (if (w._pools.get name).isSome then w else w.createPool name)._lock = w._lock ∧
      (if (w._pools.get name).isSome then w else w.createPool name).waiting = w.waiting ∧
      (if (w._pools.get name).isSome then w else w.createPool name).log = w.log ∧
      ∀ other u, (if (w._pools.get name).isSome then w else w.createPool name)._semaphores.get other =
        some u → w._semaphores.get other = some u ∨ w.nextSemaphore ≤ u := by
    split
    · exact ⟨rfl, rfl, rfl, fun _ _ hu => Or.inl hu⟩
    · exact ⟨rfl, rfl, rfl, fun _ _ hu => semaphores_install hu⟩
  generalize (if (w._pools.get name).isSome then w else w.createPool name) = v at hw hsame
  obtain ⟨hlock, hwait, hlog, hsem⟩ := hsame
  rw [← hwait, ← hlog]
  rw [← hwait] at hout
  rw [← hlock] at hfree
  dsimp only
  split
  · next pool s hp hs =>
    split
    · obtain ⟨hsrc, hnone, hsamewait, hsamesem, e, he, hserved⟩ := serve_spec hw hp hs hout
      refine ⟨hsrc, locked_of_none hnone, hsamewait, ?_, Or.inr ⟨hnone, e, he, hserved⟩⟩
      rw [hsamesem]
      exact hsem
    · refine ⟨hw.congr ⟨rfl, rfl, rfl⟩ (fun _ _ _ _ hgot => hgot), ⟨?_, ?_⟩, rfl, hsem,
        Or.inl ⟨rfl, pool, s, rfl⟩⟩
      · rintro _ r ⟨⟩
        exact hout r
      · rintro _ _ _ _ ⟨⟩
        exact ⟨hp, hs⟩
  · refine ⟨hw.congr ⟨rfl, rfl, rfl⟩ (fun _ _ _ _ hgot => by simpa using hgot), locked_of_none hfree, rfl,
      hsem, Or.inr ⟨hfree, _, rfl, ?_, Or.inl rfl⟩⟩
    intro r hr
    have hr' : Pending v task r := hr
    rw [pending_of_none hfree] at hr'
    exact hout r hr'

omit [DecidableEq K] in
theorem mem_filter_waiting {task t : Nat} {r : Request K} :
    (t, r) ∈ w.waiting.filter (fun call => call.1 ≠ task) ↔ (t, r) ∈ w.waiting ∧ t ≠ task := by
  simp

/-- A call that is over was pending. -/
theorem Served.ends {w' : World K C} {task : Nat} {name : K} {e : Entry K C}
    (h : Served w' task name e) (hp : Pending w task (.getConnection name)) : Ends w w' e := by
  obtain ⟨hgone, rfl | ⟨s, conn, rfl, hs, hpool⟩⟩ := h
  · exact ⟨⟨_, hp⟩, hgone⟩
  · exact ⟨hp, hgone, hs, hpool⟩

theorem enter_spec (h : Sourced w) (hl : Locked w) (task : Nat) :
    Sourced (w.enter task) ∧ Locked (w.enter task) ∧ Advances w (w.enter task) := by
  unfold World.enter
  split
  · next t request hnone hfind =>
    obtain rfl : t = task := by simpa using List.find?_some hfind
    have hmem : (t, request) ∈ w.waiting := List.mem_of_find?_eq_some hfind
    have hpend : Pending w t request := Or.inl hmem
    have hw : Sourced { w with waiting := w.waiting.filter fun call => call.1 ≠ t } :=
      h.congr ⟨rfl, rfl, rfl⟩ (fun _ _ _ _ hgot => hgot)
    have hout : ∀ r, (t, r) ∉ w.waiting.filter fun call => call.1 ≠ t := by simp
    have hless : ∀ u r, (u, r) ∈ w.waiting.filter (fun call => call.1 ≠ t) → Pending w u r :=
      fun u r hin => Or.inl (mem_filter_waiting.mp hin).1
    cases request with
    | getConnection name =>
      obtain ⟨hsrc, hlock, hwait, hsem, hcase⟩ := getConnection_spec hw hnone name hout
      refine ⟨hsrc, hlock, ⟨?_, hsem, ?_⟩⟩
      · rintro u r (hin | ⟨holder, hholder, rfl, rfl⟩)
        · exact hless u r (by rwa [hwait] at hin)
        · rcases hcase with ⟨-, pool, s, hacq⟩ | ⟨hfree, -⟩
          · rw [hacq] at hholder
            cases hholder
            exact hpend
          · rw [hfree] at hholder
            cases hholder
      · rcases hcase with ⟨hlog, -⟩ | ⟨-, e, he, hserved⟩
        · exact Or.inl hlog
        · exact Or.inr ⟨e, he, hserved.ends hpend⟩
    | closeAll =>
      refine ⟨hw.congr ⟨rfl, rfl, rfl⟩ (fun _ _ _ _ hgot => hgot), ⟨?_, ?_⟩,
        ⟨?_, fun _ _ hs => Or.inl hs, Or.inl rfl⟩⟩
      · rintro _ r ⟨⟩
        exact hout r
      · rintro _ _ _ _ ⟨⟩
      · rintro u r (hin | ⟨holder, ⟨⟩, rfl, rfl⟩)
        · exact hless u r hin
        · exact hpend
  · exact ⟨h, hl, ⟨fun _ _ hp => hp, fun _ _ hs => Or.inl hs, Or.inl rfl⟩⟩

theorem wake_spec (h : Sourced w) (hl : Locked w) {task s : Nat} {name : K} {pool : Pool C}
    (hlock : w._lock = some (.acquiring task name pool s)) :
    Sourced (w.serve task name pool s) ∧ Locked (w.serve task name pool s) ∧
      Advances w (w.serve task name pool s) := by
  have hout : ∀ r, (task, r) ∉ w.waiting := fun r => hl.apart _ r hlock
  obtain ⟨hp, hs⟩ := hl.current _ _ _ _ hlock
  obtain ⟨hsrc, hnone, hwait, hsem, e, he, hserved⟩ := serve_spec h hp hs hout
  refine ⟨hsrc, locked_of_none hnone,
    ⟨?_, ?_, Or.inr ⟨e, he, hserved.ends (Or.inr ⟨_, hlock, rfl, rfl⟩)⟩⟩⟩
  · intro u r hpend
    rw [pending_of_none hnone, hwait] at hpend
    exact Or.inl hpend
  · rw [hsem]
    exact fun _ _ hu => Or.inl hu

theorem closeNext_spec (h : Sourced w) (hl : Locked w) {task index size : Nat}
    (hlock : w._lock = some (.closing task index size)) :
    Sourced (w.closeNext task index size) ∧ Locked (w.closeNext task index size) ∧
      Advances w (w.closeNext task index size) := by
  have hout : ∀ r, (task, r) ∉ w.waiting := fun r => hl.apart _ r hlock
  have hpend : Pending w task .closeAll := Or.inr ⟨_, hlock, rfl, rfl⟩
  have hless : ∀ w' : World K C, w'._lock = none → w'.waiting = w.waiting →
      (∀ u r, Pending w' u r → Pending w u r) ∧ ∀ r, ¬ Pending w' task r := by
    intro w' hnone hwait
    refine ⟨fun u r hp => ?_, fun r hp => ?_⟩
    · rw [pending_of_none hnone, hwait] at hp
      exact Or.inl hp
    · rw [pending_of_none hnone, hwait] at hp
      exact hout r hp
  unfold World.closeNext
  split
  · obtain ⟨hp, hgone⟩ := hless { w with _lock := none, log := w.log ++ [.failed task] } rfl rfl
    exact ⟨h.congr ⟨rfl, rfl, rfl⟩ (fun _ _ _ _ hgot => by simpa using hgot), locked_of_none rfl,
      ⟨hp, fun _ _ hs => Or.inl hs, Or.inr ⟨_, rfl, ⟨_, hpend⟩, hgone⟩⟩⟩
  · split
    · refine ⟨h.congr ⟨rfl, rfl, rfl⟩ (fun _ _ _ _ hgot => hgot), ⟨?_, ?_⟩,
        ⟨?_, fun _ _ hs => Or.inl hs, Or.inl rfl⟩⟩
      · rintro _ r ⟨⟩
        exact hout r
      · rintro _ _ _ _ ⟨⟩
      · rintro u r (hin | ⟨holder, ⟨⟩, rfl, rfl⟩)
        · exact Or.inl hin
        · exact hpend
    · obtain ⟨hp, hgone⟩ := hless { w with
        _pools := .empty, _semaphores := .empty, _lock := none, log := w.log ++ [.closed task] } rfl rfl
      exact ⟨h.cleared rfl rfl rfl (fun _ _ _ _ hgot => by simpa using hgot), locked_of_none rfl,
        ⟨hp, fun _ _ hs => by simp at hs, Or.inr ⟨_, rfl, ⟨_, hpend⟩, hgone⟩⟩⟩

/-- A cancelled task is in no call of the service. -/
theorem cancel_spec (h : Sourced w) (hl : Locked w) (task : Nat) :
    Sourced (w.cancel task) ∧ Locked (w.cancel task) ∧
      (∀ u r, Pending (w.cancel task) u r → Pending w u r ∧ u ≠ task) := by
  have hgot : ∀ t n u c, .got t n u c ∈ w.log ++ [.failed task] → .got t n u c ∈ w.log := by
    intro t n u c hin
    simpa using hin
  have hquit : ∀ w' : World K C, w'._lock = none →
      (w'.waiting = w.waiting.filter fun call => call.1 ≠ task) →
      ∀ u r, Pending w' u r → Pending w u r ∧ u ≠ task := by
    intro w' hnone hwait u r hp
    rw [pending_of_none hnone, hwait, mem_filter_waiting] at hp
    exact ⟨Or.inl hp.1, hp.2⟩
  have hstay : ∀ h₀ : Holder K C, w._lock = some h₀ → h₀.task ≠ task →
      Sourced { w with waiting := w.waiting.filter fun call => call.1 ≠ task } ∧
        Locked { w with waiting := w.waiting.filter fun call => call.1 ≠ task } ∧
        ∀ u r, Pending { w with waiting := w.waiting.filter fun call => call.1 ≠ task } u r →
          Pending w u r ∧ u ≠ task := by
    intro h₀ hlock hne
    refine ⟨h.congr ⟨rfl, rfl, rfl⟩ (fun _ _ _ _ hin => hin), ⟨?_, hl.current⟩, ?_⟩
    · intro holder r hholder hin
      exact hl.apart holder r hholder (mem_filter_waiting.mp hin).1
    · rintro u r (hin | ⟨holder, hholder, rfl, rfl⟩)
      · exact ⟨Or.inl (mem_filter_waiting.mp hin).1, (mem_filter_waiting.mp hin).2⟩
      · obtain rfl : h₀ = holder := Option.some.inj (hlock.symm.trans hholder)
        exact ⟨Or.inr ⟨h₀, hlock, rfl, rfl⟩, hne⟩
  unfold World.cancel
  dsimp only
  split
  · next t name pool s hlock =>
    split
    · exact ⟨h.congr ⟨rfl, rfl, rfl⟩ hgot, locked_of_none rfl, hquit _ rfl rfl⟩
    · next hne => exact hstay _ hlock hne
  · next t index size hlock =>
    split
    · exact ⟨h.congr ⟨rfl, rfl, rfl⟩ hgot, locked_of_none rfl, hquit _ rfl rfl⟩
    · next hne => exact hstay _ hlock hne
  · next hnone =>
    exact ⟨h.congr ⟨rfl, rfl, rfl⟩ (fun _ _ _ _ hin => hin), locked_of_none hnone, hquit _ hnone rfl⟩

theorem cancel_frame (w : World K C) (task : Nat) : (w.cancel task)._semaphores = w._semaphores ∧
    ((w.cancel task).log = w.log ∨ (w.cancel task).log = w.log ++ [.failed task]) := by
  unfold World.cancel
  dsimp only
  split
  · split
    · exact ⟨rfl, Or.inr rfl⟩
    · exact ⟨rfl, Or.inl rfl⟩
  · split
    · exact ⟨rfl, Or.inr rfl⟩
    · exact ⟨rfl, Or.inl rfl⟩
  · exact ⟨rfl, Or.inl rfl⟩

theorem configure_spec (h : Sourced w) (hl : Locked w) {name : K} {pool : Pool C} {limit : Nat}
    (hf : Fresh w (.configure name pool limit)) [DecidableEq C] :
    Sourced (step w (.configure name pool limit)) ∧ Locked (step w (.configure name pool limit)) ∧
      Advances w (step w (.configure name pool limit)) := by
  simp only [step]
  split
  · exact ⟨h, hl, ⟨fun _ _ hp => hp, fun _ _ hs => Or.inl hs, Or.inl rfl⟩⟩
  · next hnone =>
    obtain ⟨hm, hfresh⟩ := hf name pool limit rfl
    refine ⟨h.install limit hm hfresh, ⟨hl.apart, ?_⟩,
      ⟨fun _ _ hp => hp, fun _ _ hs => semaphores_install hs, Or.inl rfl⟩⟩
    intro t other p s hlock
    obtain ⟨hp, hs⟩ := hl.current t other p s hlock
    have hne : other ≠ name := by
      rintro rfl
      simp [hs] at hnone
    exact ⟨by simpa [World.install, Dict.get_set_other _ _ hne] using hp,
      by simpa [World.install, Dict.get_set_other _ _ hne] using hs⟩

theorem call_spec (h : Sourced w) (hl : Locked w) (task : Nat) (request : Request K) [DecidableEq C] :
    Sourced (step w (.call task request)) ∧ Locked (step w (.call task request)) ∧
      ((step w (.call task request)).log = w.log ∧
        (step w (.call task request))._semaphores = w._semaphores) ∧
      ∀ u r, Pending (step w (.call task request)) u r → Pending w u r ∨ (u = task ∧ r = request) := by
  simp only [step]
  split
  · exact ⟨h, hl, ⟨rfl, rfl⟩, fun _ _ hp => Or.inl hp⟩
  · next hbusy =>
    refine ⟨h.congr ⟨rfl, rfl, rfl⟩ (fun _ _ _ _ hin => hin), ⟨?_, hl.current⟩, ⟨rfl, rfl⟩, ?_⟩
    · intro holder r hholder hin
      rcases List.mem_append.mp hin with hin | hin
      · exact hl.apart holder r hholder hin
      · obtain ⟨htask, -⟩ := Prod.mk.inj (List.mem_singleton.mp hin)
        have hlock : w._lock = some holder := hholder
        simp [World.busy, hlock, htask] at hbusy
    · rintro u r (hin | hholder)
      · rcases List.mem_append.mp hin with hin | hin
        · exact Or.inl (Or.inl hin)
        · obtain ⟨rfl, rfl⟩ := Prod.mk.inj (List.mem_singleton.mp hin)
          exact Or.inr ⟨rfl, rfl⟩
      · exact Or.inl (Or.inr hholder)

theorem release_spec (h : Sourced w) (hl : Locked w) (name : K) (conn : Option C) [DecidableEq C] :
    Sourced (w.releaseConnection name conn) ∧ Locked (w.releaseConnection name conn) ∧
      (w.releaseConnection name conn)._semaphores = w._semaphores ∧
      (∀ e, e ∈ w.log → e ∈ (w.releaseConnection name conn).log) ∧
      ∀ u r, Pending (w.releaseConnection name conn) u r → Pending w u r := by
  unfold World.releaseConnection
  cases w.released name conn with
  | none => exact ⟨h, hl, rfl, fun _ he => he, fun _ _ hp => hp⟩
  | some s =>
    refine ⟨h.congr ⟨rfl, rfl, rfl⟩ ?_, ⟨hl.apart, hl.current⟩, rfl,
      fun _ he => List.mem_append_left _ he, fun _ _ hp => hp⟩
    intro t n u c hin
    simpa using hin

omit [DecidableEq K] in
theorem counts_same {w' : World K C} (h : w'.log = w.log) (s : Nat) :
    handedOut w' s = handedOut w s ∧ givenBack w' s = givenBack w s := by
  simp [handedOut, givenBack, h]

omit [DecidableEq K] in
theorem counts_entry {w' : World K C} {e : Entry K C} (h : w'.log = w.log ++ [e]) (s : Nat) :
    handedOut w' s = handedOut w s + (if e.hands s then 1 else 0) ∧
      givenBack w' s = givenBack w s + (if e.returns s then 1 else 0) := by
  simp [handedOut, givenBack, h, List.countP_append, List.countP_cons]

/-- A connection that comes back is counted under the semaphore it was taken from, unless this
semaphore is gone. -/
theorem release_counts (h : Sourced w) [DecidableEq C] {task s : Nat} {name : K} {conn : C}
    (hgot : .got task name s conn ∈ w.log) {name' : K} {s' : Nat}
    (hs' : w._semaphores.get name' = some s') :
    handedOut (w.releaseConnection name (some conn)) s' = handedOut w s' ∧
      givenBack (w.releaseConnection name (some conn)) s' =
        givenBack w s' + (if s' = s then 1 else 0) := by
  have hmanaged : ∀ pool, w._pools.get name = some pool → (pool.managed = some conn ↔
      pool.handOut = some conn) := fun pool hp => by rw [h.managed name pool hp]
  unfold World.releaseConnection
  cases hr : w.released name (some conn) with
  | none =>
    have hne : s' ≠ s := by
      -- else the semaphore is still that of the pool, and the tests of `release_connection` pass
      rintro rfl
      obtain ⟨rfl, pool, hp, hc⟩ := h.source task name s' conn hgot name' hs'
      simp [World.released, hp, (hmanaged pool hp).mpr hc, hs'] at hr
    exact ⟨rfl, by simp [hne]⟩
  | some u =>
    obtain rfl : s = u := by
      unfold World.released at hr
      split at hr
      · next hm =>
        cases hp : w._pools.get name with
        | none => simp [hp] at hm
        | some pool =>
          have hc : pool.handOut = some conn := (hmanaged pool hp).mp (by simpa [hp] using hm)
          exact Option.some.inj ((h.fresh task name s conn hgot pool hp hc).symm.trans hr)
      · cases hr
    have hlog : ({ w with
        permits := Function.update w.permits s (w.permits s + 1)
        active := Function.update w.active name (w.active name - 1)
        log := w.log ++ [.gaveBack s] } : World K C).log = w.log ++ [.gaveBack s] := rfl
    simpa [Entry.hands, Entry.returns, eq_comm] using counts_entry hlog s'

end

end ConnectionOrigins
