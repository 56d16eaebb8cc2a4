import Mathlib.Data.Finset.Card
import BtApiBase.Effects
import BtApiBase.PyValue

/-!
# The connection pool

Every method holds the pool's lock while it works, so a call is one step, except
for `start` and `stop`, which write a flag before they take the lock, and for
`acquire`, which gives the lock up while it waits. The callbacks belong to the
caller: they may return or raise whatever they like, another thing in every
call. What the pool made and closed is recorded beside what it knows.
-/

namespace ConnectionPools

open PyText PyValue Effects

/-- The callbacks during one call; `factory` is numbered by its calls in it, and
a connection without `close` is one whose `close` does nothing. -/
structure Callbacks (α : Type) where
  factory : Nat → Except PyExc α
  healthCheck : Option (α → Except PyExc Bool)
  close : α → Except PyExc Unit

/-- A caller in `self._condition.wait`. -/
structure Waiter where
  caller : Nat
  deadline : Rat
  deriving DecidableEq

/-- `waiters` are in the condition's queue, `notified` have left it and have not
taken the lock again; `made` and `closed` are what the factory returned and what
`_close_connection` was called on, in order. -/
structure ConnectionPool (α : Type) where
  _maxSize : Int
  _minSize : Int
  _maxIdleTime : Rat
  _pool : List (α × Rat)
  _inUse : Finset α
  _running : Bool
  waiters : List Waiter
  notified : List Waiter
  made : List α
  closed : List α

variable {α : Type}

abbrev Pool (α : Type) := Eff PyExc (ConnectionPool α)

/-- `ConnectionPool.__init__` -/
def create (maxSize minSize : Int) (maxIdleTime : Rat) : ConnectionPool α where
  _maxSize := maxSize
  _minSize := minSize
  _maxIdleTime := maxIdleTime
  _pool := []
  _inUse := ∅
  _running := false
  waiters := []
  notified := []
  made := []
  closed := []

/-- The idle connections, without the time they were last used. -/
def idle (s : ConnectionPool α) : List α := s._pool.map Prod.fst

/-- `now - last_used > self._max_idle_time` -/
def tooOld (maxIdleTime now : Rat) (item : α × Rat) : Bool := maxIdleTime < now - item.2

/-- `not self._health_check or self._health_check(conn)` -/
def Callbacks.healthy (cb : Callbacks α) (conn : α) : Except PyExc Bool :=
  match cb.healthCheck with
  | none => .ok true
  | some check => check conn

/-- `conn.close()` under `_close_connection`, which swallows two types. -/
def Callbacks.closes (cb : Callbacks α) (conn : α) : Except PyExc Unit :=
  match cb.close conn with
  | .ok () => .ok ()
  | .error exc => if exc.type.isA .osError then .ok () else .error exc

section

variable (cb : Callbacks α)

/-- `self._factory()`, the `i`-th in this call. -/
def makeConnection (i : Nat) : Pool α α := do
  let conn ← ofExcept (cb.factory i)
  modify fun s => { s with made := s.made ++ [conn] }
  pure conn

def _closeConnection (conn : α) : Pool α Unit := do
  modify fun s => { s with closed := s.closed ++ [conn] }
  ofExcept (cb.closes conn)

def addInUse [DecidableEq α] (conn : α) : Pool α Unit :=
  modify fun s => { s with _inUse := insert conn s._inUse }

def notify (s : ConnectionPool α) : ConnectionPool α :=
  match s.waiters with
  | [] => s
  | waiter :: waiters => { s with waiters := waiters, notified := s.notified ++ [waiter] }

def notifyAll (s : ConnectionPool α) : ConnectionPool α :=
  { s with waiters := [], notified := s.notified ++ s.waiters }

/-- `count` new connections at the end of the queue. -/
def fill (now : Nat → Rat) : Nat → Nat → Pool α Unit
  | _, 0 => pure ()
  | i, count + 1 => do
    let conn ← makeConnection cb i
    modify fun s => { s with _pool := s._pool ++ [(conn, now i)] }
    fill now (i + 1) count

/-- The part of `start` that holds the lock. -/
def startFill (now : Nat → Rat) : Pool α Unit := do
  let s ← get
  fill cb now 0 s._minSize.toNat

/-- The loop of `acquire` over the idle connections. -/
def takeIdle [DecidableEq α] : List (α × Rat) → Pool α (Option α)
  | [] => pure none
  | (conn, _) :: rest => do
    modify fun s => { s with _pool := rest }
    if ← ofExcept (cb.healthy conn) then
      addInUse conn
      pure (some conn)
    else
      _closeConnection cb conn
      takeIdle rest

/-- `acquire` from where it holds the lock: `none` if it goes on to wait. The
deadline is the time the call began plus the timeout, if it has one. -/
def acquire [DecidableEq α] (caller : Nat) (deadline : Option Rat) (now : Rat) : Pool α (Option α) := do
  let s ← get
  match ← takeIdle cb s._pool with
  | some conn => pure (some conn)
  | none =>
    let s ← get
    if (s._inUse.card : Int) < s._maxSize then
      let conn ← makeConnection cb 0
      addInUse conn
      pure (some conn)
    else
      match deadline with
      | none => throw ⟨.runtimeError, "Connection pool exhausted"⟩
      | some deadline =>
        if deadline - now ≤ 0 then
          throw ⟨.runtimeError, "Connection pool acquire timeout"⟩
        else
          modify fun s => { s with waiters := s.waiters ++ [⟨caller, deadline⟩] }
          pure none

def release [DecidableEq α] (conn : α) (now : Rat) : Pool α Unit := do
  let s ← get
  if conn ∉ s._inUse then pure ()
  else
    modify fun s => { s with _inUse := s._inUse.erase conn }
    if ← ofExcept (cb.healthy conn) then
      modify fun s => notify { s with _pool := s._pool ++ [(conn, now)] }
    else
      _closeConnection cb conn

/-- The loop of the cleanup: the connections that are kept. -/
def expire (maxIdleTime now : Rat) : List (α × Rat) → Pool α (List (α × Rat))
  | [] => pure []
  | item :: rest => do
    if tooOld maxIdleTime now item then
      _closeConnection cb item.1
      expire maxIdleTime now rest
    else
      let kept ← expire maxIdleTime now rest
      pure (item :: kept)

def _cleanupIdleConnections (now : Rat) : Pool α Unit := do
  let s ← get
  let newPool ← expire cb s._maxIdleTime now s._pool
  modify fun s => { s with _pool := newPool }
  fill cb (fun _ => now) 0 (s._minSize - newPool.length).toNat
  modify notifyAll

/-- The first loop of `stop`. -/
def closeIdle : List (α × Rat) → Pool α Unit
  | [] => pure ()
  | (conn, _) :: rest => do
    modify fun s => { s with _pool := rest }
    _closeConnection cb conn
    closeIdle rest

/-- The second loop of `stop`. -/
def closeInUse : List α → Pool α Unit
  | [] => pure ()
  | conn :: rest => do
    _closeConnection cb conn
    closeInUse rest

/-- The part of `stop` that holds the lock; `order` is how the set of the
connections in use is walked. -/
def stopDrain (order : List α) : Pool α Unit := do
  let s ← get
  closeIdle cb s._pool
  closeInUse cb order
  modify fun s => { s with _inUse := ∅ }

end

/-! ## What the loops do -/

section

variable {cb : Callbacks α}

theorem exec_closeConnection (conn : α) (s : ConnectionPool α) :
    exec (_closeConnection cb conn) s =
      (cb.closes conn, { s with closed := s.closed ++ [conn] }) := by
  simp [_closeConnection]

variable (cb) in
/-- The connections that `fill` gets, and whether it gets all. -/
theorem exec_fill (now : Nat → Rat) (i count : Nat) (s : ConnectionPool α) :
    ∃ new : List (α × Rat),
      (exec (fill cb now i count) s).2 =
        { s with _pool := s._pool ++ new, made := s.made ++ new.map Prod.fst } ∧
      (∀ k (h : k < new.length), cb.factory (i + k) = .ok new[k].1) ∧
      ((exec (fill cb now i count) s).1 = .ok () ∧ new.length = count ∨
        ∃ k exc, cb.factory k = .error exc ∧ (exec (fill cb now i count) s).1 = .error exc) := by
  induction count generalizing i s with
  | zero => exact ⟨[], by simp [fill], by simp, .inl ⟨rfl, rfl⟩⟩
  | succ count ih =>
    cases hf : cb.factory i with
    | error exc =>
      have he : exec (fill cb now i (count + 1)) s = (.error exc, s) := by
        simp [fill, makeConnection, exec_bind, hf]
      exact ⟨[], by simp [he], by simp, .inr ⟨i, exc, hf, by rw [he]⟩⟩
    | ok conn =>
      have he : exec (fill cb now i (count + 1)) s = exec (fill cb now (i + 1) count)
          { s with made := s.made ++ [conn], _pool := s._pool ++ [(conn, now i)] } := by
        simp [fill, makeConnection, exec_bind, hf]
      obtain ⟨new, hs, hnew, hr⟩ := ih (i + 1)
        { s with made := s.made ++ [conn], _pool := s._pool ++ [(conn, now i)] }
      rw [he]
      refine ⟨(conn, now i) :: new, by rw [hs]; simp, fun k hk => ?_, ?_⟩
      · cases k with
        | zero => exact hf
        | succ k =>
          have hk' := hnew k (by simpa using hk)
          rw [show i + (k + 1) = i + 1 + k by omega]
          simpa using hk'
      · rcases hr with ⟨hok, hlen⟩ | hr
        · exact .inl ⟨hok, by simp [hlen]⟩
        · exact .inr hr

variable [DecidableEq α]

/-- How the loop of `acquire` ends: all idle connections are closed, one is
taken, or a callback raises at one. -/
inductive Taken (cb : Callbacks α) (s : ConnectionPool α) :
    Except PyExc (Option α) × ConnectionPool α → Prop
  | empty (h : ∀ conn ∈ idle s, cb.healthy conn = .ok false) :
    Taken cb s (.ok none, { s with _pool := [], closed := s.closed ++ idle s })
  | found (dropped : List (α × Rat)) (conn : α) (last : Rat) (rest : List (α × Rat))
    (h : s._pool = dropped ++ (conn, last) :: rest) (hc : cb.healthy conn = .ok true) :
    Taken cb s (.ok (some conn), { s with
      _pool := rest
      closed := s.closed ++ dropped.map Prod.fst
      _inUse := insert conn s._inUse })
  | checkRaised (dropped : List (α × Rat)) (conn : α) (last : Rat) (rest : List (α × Rat))
    (exc : PyExc) (h : s._pool = dropped ++ (conn, last) :: rest)
    (hd : ∀ item ∈ dropped, cb.healthy item.1 = .ok false ∧ cb.closes item.1 = .ok ())
    (hc : cb.healthy conn = .error exc) :
    Taken cb s (.error exc, { s with _pool := rest, closed := s.closed ++ dropped.map Prod.fst })
  | closeRaised (dropped : List (α × Rat)) (conn : α) (last : Rat) (rest : List (α × Rat))
    (exc : PyExc) (h : s._pool = dropped ++ (conn, last) :: rest)
    (hc : cb.closes conn = .error exc) :
    Taken cb s (.error exc, { s with
      _pool := rest, closed := s.closed ++ dropped.map Prod.fst ++ [conn] })

/-- One more connection is closed before the loop goes on. -/
theorem Taken.cons {s : ConnectionPool α} {conn : α} {last : Rat} {rest : List (α × Rat)}
    (hs : s._pool = (conn, last) :: rest) (hc : cb.healthy conn = .ok false)
    (hx : cb.closes conn = .ok ()) {r : Except PyExc (Option α) × ConnectionPool α}
    (h : Taken cb { s with _pool := rest, closed := s.closed ++ [conn] } r) : Taken cb s r := by
  cases h with
  | empty h =>
    have hi : idle s = conn :: rest.map Prod.fst := by simp [idle, hs]
    have ht : ∀ c ∈ idle s, cb.healthy c = .ok false := by
      intro c hmem
      rw [hi] at hmem
      rcases List.mem_cons.mp hmem with rfl | hmem
      · exact hc
      · exact h c hmem
    have := Taken.empty ht
    rw [hi] at this
    simpa [idle] using this
  | found dropped c l rest' h hc' =>
    have := Taken.found ((conn, last) :: dropped) c l rest' (by rw [hs]; exact congrArg _ h) hc'
    simpa using this
  | checkRaised dropped c l rest' exc h hd hc' =>
    have hd' : ∀ item ∈ (conn, last) :: dropped,
        cb.healthy item.1 = .ok false ∧ cb.closes item.1 = .ok () := by
      intro item hmem
      rcases List.mem_cons.mp hmem with rfl | hmem
      · exact ⟨hc, hx⟩
      · exact hd item hmem
    have := Taken.checkRaised ((conn, last) :: dropped) c l rest' exc
      (by rw [hs]; exact congrArg _ h) hd' hc'
    simpa using this
  | closeRaised dropped c l rest' exc h hc' =>
    have := Taken.closeRaised ((conn, last) :: dropped) c l rest' exc (by rw [hs]; exact congrArg _ h) hc'
    simpa using this

theorem exec_takeIdle_cons (conn : α) (last : Rat) (rest : List (α × Rat)) (s : ConnectionPool α) :
    exec (takeIdle cb ((conn, last) :: rest)) s = match cb.healthy conn with
      | .error exc => (.error exc, { s with _pool := rest })
      | .ok true => (.ok (some conn), { s with _pool := rest, _inUse := insert conn s._inUse })
      | .ok false => match cb.closes conn with
        | .error exc => (.error exc, { s with _pool := rest, closed := s.closed ++ [conn] })
        | .ok () => exec (takeIdle cb rest) { s with _pool := rest, closed := s.closed ++ [conn] } := by
  simp only [takeIdle, exec_bind, exec_modify, exec_ofExcept]
  cases cb.healthy conn with
  | error exc => rfl
  | ok healthy =>
    cases healthy with
    | true => rfl
    | false =>
      simp only [Bool.false_eq_true, ↓reduceIte, exec_bind, exec_closeConnection]
      cases cb.closes conn <;> rfl

variable (cb) in
theorem taken_takeIdle (s : ConnectionPool α) : Taken cb s (exec (takeIdle cb s._pool) s) := by
  generalize hs : s._pool = items
  induction items generalizing s with
  | nil =>
    have ht : Taken cb s _ := Taken.empty (by simp [idle, hs])
    obtain ⟨maxSize, minSize, maxIdleTime, pool, inUse, running, waiters, notified, made, closed⟩ := s
    subst hs
    simpa [takeIdle, idle] using ht
  | cons item rest ih =>
    obtain ⟨conn, last⟩ := item
    rw [exec_takeIdle_cons]
    cases hc : cb.healthy conn with
    | error exc => simpa using Taken.checkRaised [] conn last rest exc hs (by simp) hc
    | ok healthy =>
      cases healthy with
      | true => simpa using Taken.found [] conn last rest hs hc
      | false =>
        cases hx : cb.closes conn with
        | error exc => simpa using Taken.closeRaised [] conn last rest exc hs hx
        | ok u => exact Taken.cons hs hc hx (ih _ rfl)

/-- Where the loop of `acquire` finds nothing the call makes a connection, waits
or raises. -/
theorem exec_acquire (caller : Nat) (deadline : Option Rat) (now : Rat) (s : ConnectionPool α) :
    exec (acquire cb caller deadline now) s = match exec (takeIdle cb s._pool) s with
      | (.error exc, s') => (.error exc, s')
      | (.ok (some conn), s') => (.ok (some conn), s')
      | (.ok none, s') =>
        if (s'._inUse.card : Int) < s'._maxSize then
          match cb.factory 0 with
          | .error exc => (.error exc, s')
          | .ok conn => (.ok (some conn), { s' with
            made := s'.made ++ [conn], _inUse := insert conn s'._inUse })
        else match deadline with
          | none => (.error ⟨.runtimeError, "Connection pool exhausted"⟩, s')
          | some deadline =>
            if deadline - now ≤ 0 then
              (.error ⟨.runtimeError, "Connection pool acquire timeout"⟩, s')
            else (.ok none, { s' with waiters := s'.waiters ++ [⟨caller, deadline⟩] }) := by
  unfold acquire
  rw [exec_get_bind, exec_bind]
  rcases exec (takeIdle cb s._pool) s with ⟨exc | conn, s'⟩
  · rfl
  · cases conn with
    | some conn => rfl
    | none =>
      simp only [exec_get_bind]
      split
      · simp only [makeConnection, exec_bind, exec_ofExcept]
        cases cb.factory 0 <;> rfl
      · cases deadline with
        | none => rfl
        | some deadline =>
          dsimp only
          split <;> rfl

theorem exec_release (conn : α) (now : Rat) (s : ConnectionPool α) :
    exec (release cb conn now) s =
      if conn ∉ s._inUse then (.ok (), s)
      else match cb.healthy conn with
        | .error exc => (.error exc, { s with _inUse := s._inUse.erase conn })
        | .ok true => (.ok (), notify { s with
          _inUse := s._inUse.erase conn, _pool := s._pool ++ [(conn, now)] })
        | .ok false => (cb.closes conn, { s with
          _inUse := s._inUse.erase conn, closed := s.closed ++ [conn] }) := by
  unfold release
  rw [exec_get_bind]
  split
  · rfl
  · simp only [exec_bind, exec_modify, exec_ofExcept]
    cases cb.healthy conn with
    | error exc => rfl
    | ok healthy =>
      cases healthy with
      | true => rfl
      | false => simp only [Bool.false_eq_true, ↓reduceIte, exec_closeConnection]

omit [DecidableEq α]

variable (cb) in
/-- The loop of the cleanup keeps the fresh connections, or a close raises at
one that is too old. -/
theorem exec_expire (maxIdleTime now : Rat) (items : List (α × Rat)) (s : ConnectionPool α) :
    ∃ old : List α, old ⊆ (items.filter (tooOld maxIdleTime now)).map Prod.fst ∧
      (exec (expire cb maxIdleTime now items) s).2 = { s with closed := s.closed ++ old } ∧
      ((exec (expire cb maxIdleTime now items) s).1 =
          .ok (items.filter fun item => !tooOld maxIdleTime now item) ∧
          old = (items.filter (tooOld maxIdleTime now)).map Prod.fst ∨
        ∃ conn exc, conn ∈ old ∧ cb.closes conn = .error exc ∧
          (exec (expire cb maxIdleTime now items) s).1 = .error exc) := by
  induction items generalizing s with
  | nil => exact ⟨[], by simp, by simp [expire], .inl ⟨by simp [expire], rfl⟩⟩
  | cons item rest ih =>
    by_cases h : tooOld maxIdleTime now item = true
    · simp only [expire, h, ↓reduceIte, exec_bind, exec_closeConnection, List.filter_cons,
        Bool.not_true, Bool.false_eq_true, List.map_cons]
      cases hx : cb.closes item.1 with
      | error exc => exact ⟨[item.1], by simp, rfl, .inr ⟨item.1, exc, by simp, hx, rfl⟩⟩
      | ok u =>
        obtain ⟨old, hsub, hs, hr⟩ := ih { s with closed := s.closed ++ [item.1] }
        refine ⟨item.1 :: old, List.cons_subset_cons _ hsub, by rw [hs]; simp, ?_⟩
        rcases hr with ⟨hr, hold⟩ | ⟨c, exc, hc, hcx, hr⟩
        · exact .inl ⟨hr, by rw [hold]⟩
        · exact .inr ⟨c, exc, List.mem_cons_of_mem _ hc, hcx, hr⟩
    · obtain ⟨old, hsub, hs, hr⟩ := ih s
      simp only [expire, h, Bool.false_eq_true, ↓reduceIte, exec_bind, List.filter_cons,
        Bool.not_false]
      rcases he : exec (expire cb maxIdleTime now rest) s with ⟨exc | kept, s'⟩
      · rw [he] at hs hr
        refine ⟨old, hsub, hs, ?_⟩
        rcases hr with ⟨hr, -⟩ | ⟨c, exc', hc, hcx, hr⟩
        · cases hr
        · exact .inr ⟨c, exc', hc, hcx, hr⟩
      · rw [he] at hs hr
        refine ⟨old, hsub, hs, ?_⟩
        rcases hr with ⟨hr, hold⟩ | ⟨c, exc', hc, hcx, hr⟩
        · cases hr
          exact .inl ⟨rfl, hold⟩
        · cases hr

variable (cb) in
/-- The first loop of `stop` closes the idle connections up to one whose close
raises. -/
theorem exec_closeIdle (s : ConnectionPool α) :
    ∃ dropped rest : List (α × Rat), s._pool = dropped ++ rest ∧
      (exec (closeIdle cb s._pool) s).2 =
        { s with _pool := rest, closed := s.closed ++ dropped.map Prod.fst } ∧
      ((exec (closeIdle cb s._pool) s).1 = .ok () →
        rest = [] ∧ ∀ item ∈ dropped, cb.closes item.1 = .ok ()) := by
  generalize hs : s._pool = items
  induction items generalizing s with
  | nil =>
    obtain ⟨maxSize, minSize, maxIdleTime, pool, inUse, running, waiters, notified, made, closed⟩ := s
    subst hs
    exact ⟨[], [], rfl, by simp [closeIdle], fun _ => ⟨rfl, by simp⟩⟩
  | cons item rest ih =>
    obtain ⟨conn, last⟩ := item
    simp only [closeIdle, exec_bind, exec_modify, exec_closeConnection]
    cases hx : cb.closes conn with
    | error exc => exact ⟨[(conn, last)], rest, rfl, by simp, fun h => by cases h⟩
    | ok u =>
      obtain ⟨dropped, rest', hd, he, hr⟩ :=
        ih { s with _pool := rest, closed := s.closed ++ [conn] } rfl
      refine ⟨(conn, last) :: dropped, rest', by rw [hd]; rfl, by simp [he], fun hok => ?_⟩
      obtain ⟨hrest, hall⟩ := hr hok
      refine ⟨hrest, fun item hmem => ?_⟩
      rcases List.mem_cons.mp hmem with rfl | hmem
      · exact hx
      · exact hall item hmem

variable (cb) in
theorem exec_closeInUse (order : List α) (s : ConnectionPool α) :
    ∃ dropped rest : List α, order = dropped ++ rest ∧
      (exec (closeInUse cb order) s).2 = { s with closed := s.closed ++ dropped } ∧
      ((exec (closeInUse cb order) s).1 = .ok () ∧ rest = [] ∨
        ∃ conn exc, conn ∈ dropped ∧ cb.closes conn = .error exc ∧
          (exec (closeInUse cb order) s).1 = .error exc) := by
  induction order generalizing s with
  | nil => exact ⟨[], [], rfl, by simp [closeInUse], .inl ⟨rfl, rfl⟩⟩
  | cons conn rest ih =>
    simp only [closeInUse, exec_bind, exec_closeConnection]
    cases hx : cb.closes conn with
    | error exc => exact ⟨[conn], rest, rfl, rfl, .inr ⟨conn, exc, by simp, hx, rfl⟩⟩
    | ok u =>
      obtain ⟨dropped, rest', hd, he, hr⟩ := ih { s with closed := s.closed ++ [conn] }
      refine ⟨conn :: dropped, rest', by rw [hd]; rfl, by simp [he], ?_⟩
      rcases hr with hr | ⟨c, exc, hc, hcx, hr⟩
      · exact .inl hr
      · exact .inr ⟨c, exc, List.mem_cons_of_mem _ hc, hcx, hr⟩

end

end ConnectionPools
