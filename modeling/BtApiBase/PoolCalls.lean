import BtApiBase.ConnectionPools
import BtApiBase.Ownership
import BtApiBase.Runs

/-!
# Calls of the connection pool

The ways in which one call can end, each with the state it leaves, and the steps
that callers take in any order. Everything that is proved about the pool goes
by cases over the ways in which its calls end.
-/

namespace PoolCalls

open PyText PyValue Effects Ownership ConnectionPools

variable {α : Type}

/-! ## How calls end -/

/-- How `acquire` ends, from where it holds the lock. -/
inductive Acquired [DecidableEq α] (cb : Callbacks α) (caller : Nat) (deadline : Option Rat)
    (now : Rat) (s : ConnectionPool α) : Except PyExc (Option α) × ConnectionPool α → Prop
  | found (dropped : List (α × Rat)) (conn : α) (last : Rat) (rest : List (α × Rat))
    (h : s._pool = dropped ++ (conn, last) :: rest) (hc : cb.healthy conn = .ok true) :
    Acquired cb caller deadline now s (.ok (some conn), { s with
      _pool := rest
      closed := s.closed ++ dropped.map Prod.fst
      _inUse := insert conn s._inUse })
  | created (conn : α) (h : (s._inUse.card : Int) < s._maxSize) (hf : cb.factory 0 = .ok conn) :
    Acquired cb caller deadline now s (.ok (some conn), { s with
      _pool := []
      closed := s.closed ++ idle s
      made := s.made ++ [conn]
      _inUse := insert conn s._inUse })
  | factoryRaised (exc : PyExc) (hf : cb.factory 0 = .error exc) :
    Acquired cb caller deadline now s (.error exc, { s with
      _pool := [], closed := s.closed ++ idle s })
  | exhausted (exc : PyExc) (h : s._maxSize ≤ s._inUse.card) :
    Acquired cb caller deadline now s (.error exc, { s with
      _pool := [], closed := s.closed ++ idle s })
  | waits (d : Rat) (h : s._maxSize ≤ s._inUse.card) :
    Acquired cb caller deadline now s (.ok none, { s with
      _pool := []
      closed := s.closed ++ idle s
      waiters := s.waiters ++ [⟨caller, d⟩] })
  | checkRaised (dropped : List (α × Rat)) (conn : α) (last : Rat) (rest : List (α × Rat))
    (exc : PyExc) (h : s._pool = dropped ++ (conn, last) :: rest)
    (hd : ∀ item ∈ dropped, cb.healthy item.1 = .ok false ∧ cb.closes item.1 = .ok ())
    (hc : cb.healthy conn = .error exc) :
    Acquired cb caller deadline now s (.error exc, { s with
      _pool := rest, closed := s.closed ++ dropped.map Prod.fst })
  | closeRaised (dropped : List (α × Rat)) (conn : α) (last : Rat) (rest : List (α × Rat))
    (exc : PyExc) (h : s._pool = dropped ++ (conn, last) :: rest)
    (hc : cb.closes conn = .error exc) :
    Acquired cb caller deadline now s (.error exc, { s with
      _pool := rest, closed := s.closed ++ dropped.map Prod.fst ++ [conn] })

theorem acquired_acquire [DecidableEq α] (cb : Callbacks α) (caller : Nat)
    (deadline : Option Rat) (now : Rat) (s : ConnectionPool α) :
    Acquired cb caller deadline now s (exec (acquire cb caller deadline now) s) := by
  have ht := taken_takeIdle cb s
  rw [exec_acquire]
  generalize exec (takeIdle cb s._pool) s = r at ht
  cases ht with
  | found dropped conn last rest h hc => exact .found dropped conn last rest h hc
  | checkRaised dropped conn last rest exc h hd hc =>
    exact .checkRaised dropped conn last rest exc h hd hc
  | closeRaised dropped conn last rest exc h hc => exact .closeRaised dropped conn last rest exc h hc
  | empty h =>
    dsimp only
    split
    · next hlt =>
      cases hf : cb.factory 0 with
      | error exc => exact .factoryRaised exc hf
      | ok conn => exact .created conn hlt hf
    · next hge =>
      have hge : s._maxSize ≤ s._inUse.card := not_lt.mp hge
      cases deadline with
      | none => exact .exhausted _ hge
      | some d =>
        dsimp only
        split
        · exact .exhausted _ hge
        · exact .waits d hge

/-- How the idle cleanup ends. -/
inductive Cleaned (cb : Callbacks α) (now : Rat) (s : ConnectionPool α) :
    Except PyExc Unit × ConnectionPool α → Prop
  | closeRaised (old : List α) (conn : α) (exc : PyExc)
    (hsub : old ⊆ (s._pool.filter (tooOld s._maxIdleTime now)).map Prod.fst) (hmem : conn ∈ old)
    (hc : cb.closes conn = .error exc) :
    Cleaned cb now s (.error exc, { s with closed := s.closed ++ old })
  | factoryRaised (exc : PyExc) (new : List (α × Rat))
    (hnew : ∀ k (h : k < new.length), cb.factory k = .ok new[k].1)
    (hf : ∃ k, cb.factory k = .error exc) :
    Cleaned cb now s (.error exc, { s with
      _pool := s._pool.filter (fun item => !tooOld s._maxIdleTime now item) ++ new
      made := s.made ++ new.map Prod.fst
      closed := s.closed ++ (s._pool.filter (tooOld s._maxIdleTime now)).map Prod.fst })
  | done (new : List (α × Rat)) (hnew : ∀ k (h : k < new.length), cb.factory k = .ok new[k].1)
    (hlen : new.length = (s._minSize -
      (s._pool.filter fun item => !tooOld s._maxIdleTime now item).length).toNat) :
    Cleaned cb now s (.ok (), notifyAll { s with
      _pool := s._pool.filter (fun item => !tooOld s._maxIdleTime now item) ++ new
      made := s.made ++ new.map Prod.fst
      closed := s.closed ++ (s._pool.filter (tooOld s._maxIdleTime now)).map Prod.fst })

theorem cleaned_cleanup (cb : Callbacks α) (now : Rat) (s : ConnectionPool α) :
    Cleaned cb now s (exec (_cleanupIdleConnections cb now) s) := by
  obtain ⟨old, hsub, hs, hr⟩ := exec_expire cb s._maxIdleTime now s._pool s
  unfold _cleanupIdleConnections
  rw [exec_get_bind, exec_bind]
  rcases he : exec (expire cb s._maxIdleTime now s._pool) s with ⟨exc | kept, s'⟩
  · rw [he] at hs hr
    rcases hr with ⟨hr, -⟩ | ⟨conn, exc', hmem, hc, hr⟩
    · cases hr
    · cases hr
      dsimp only at hs
      subst hs
      exact .closeRaised old conn exc hsub hmem hc
  · rw [he] at hs hr
    rcases hr with ⟨hr, hold⟩ | ⟨conn, exc', hmem, hc, hr⟩
    · cases hr
      dsimp only at hs
      subst hs hold
      dsimp only
      rw [exec_modify_bind, exec_bind]
      obtain ⟨new, hfs, hnew, hfr⟩ := exec_fill cb (fun _ => now) 0
        (s._minSize - (s._pool.filter fun item => !tooOld s._maxIdleTime now item).length).toNat
        { s with
          _pool := s._pool.filter fun item => !tooOld s._maxIdleTime now item
          closed := s.closed ++ (s._pool.filter (tooOld s._maxIdleTime now)).map Prod.fst }
      rw [← Prod.eta (exec (fill cb _ _ _) _), hfs]
      have hnew : ∀ k (h : k < new.length), cb.factory k = .ok new[k].1 := by simpa using hnew
      rcases hfr with ⟨hok, hlen⟩ | ⟨k, exc, hk, herr⟩
      · rw [hok]
        exact .done new hnew hlen
      · rw [herr]
        exact .factoryRaised exc new hnew ⟨k, hk⟩
    · cases hr

/-- How `stop` ends, from where it holds the lock. -/
inductive Drained (cb : Callbacks α) (order : List α) (s : ConnectionPool α) :
    ConnectionPool α → Prop
  | idleRaised (dropped rest : List (α × Rat)) (h : s._pool = dropped ++ rest) :
    Drained cb order s { s with _pool := rest, closed := s.closed ++ dropped.map Prod.fst }
  | inUseRaised (dropped rest : List α) (conn : α) (exc : PyExc) (h : order = dropped ++ rest)
    (hi : ∀ conn ∈ idle s, cb.closes conn = .ok ()) (hmem : conn ∈ dropped) (hc : cb.closes conn = .error exc) :
    Drained cb order s { s with _pool := [], closed := s.closed ++ idle s ++ dropped }
  | done : Drained cb order s { s with
      _pool := [], _inUse := ∅, closed := s.closed ++ idle s ++ order }

theorem drained_stopDrain (cb : Callbacks α) (order : List α) (s : ConnectionPool α) :
    Drained cb order s (exec (stopDrain cb order) s).2 := by
  obtain ⟨dropped, rest, hd, hs, hr⟩ := exec_closeIdle cb s
  unfold stopDrain
  rw [exec_get_bind, exec_bind]
  rcases he : exec (closeIdle cb s._pool) s with ⟨exc | u, s'⟩
  · rw [he] at hs
    dsimp only at hs ⊢
    rw [hs]
    exact .idleRaised dropped rest hd
  · rw [he] at hs hr
    obtain ⟨rfl, hall⟩ := hr rfl
    have hi : dropped.map Prod.fst = idle s := by simp [idle, hd]
    dsimp only at hs ⊢
    rw [hs, hi, exec_bind]
    obtain ⟨gone, left, hg, hgs, hgr⟩ := exec_closeInUse cb order
      { s with _pool := [], closed := s.closed ++ idle s }
    rcases he' : exec (closeInUse cb order)
      { s with _pool := [], closed := s.closed ++ idle s } with ⟨exc | u, s''⟩
    · rw [he'] at hgs hgr
      rcases hgr with ⟨h, -⟩ | ⟨conn, exc', hmem, hc, -⟩
      · cases h
      · dsimp only at hgs ⊢
        rw [hgs]
        refine .inUseRaised gone left conn exc' hg (fun c hidle => ?_) hmem hc
        rw [← hi] at hidle
        obtain ⟨item, hitem, rfl⟩ := List.mem_map.mp hidle
        exact hall item hitem
    · rw [he'] at hgs hgr
      rcases hgr with ⟨-, rfl⟩ | ⟨conn, exc', hmem, hc, h⟩
      · rw [List.append_nil] at hg
        subst hg
        dsimp only at hgs ⊢
        rw [hgs]
        exact .done
      · cases h

/-- How `release` ends. -/
inductive Released [DecidableEq α] (cb : Callbacks α) (conn : α) (now : Rat)
    (s : ConnectionPool α) : ConnectionPool α → Prop
  | unknown (h : conn ∉ s._inUse) : Released cb conn now s s
  | returned (h : conn ∈ s._inUse) (hc : cb.healthy conn = .ok true) :
    Released cb conn now s (notify { s with
      _inUse := s._inUse.erase conn, _pool := s._pool ++ [(conn, now)] })
  | closed (h : conn ∈ s._inUse) (hc : cb.healthy conn = .ok false) :
    Released cb conn now s { s with
      _inUse := s._inUse.erase conn, closed := s.closed ++ [conn] }
  | checkRaised (exc : PyExc) (h : conn ∈ s._inUse) (hc : cb.healthy conn = .error exc) :
    Released cb conn now s { s with _inUse := s._inUse.erase conn }

theorem released_release [DecidableEq α] (cb : Callbacks α) (conn : α) (now : Rat)
    (s : ConnectionPool α) : Released cb conn now s (exec (release cb conn now) s).2 := by
  rw [exec_release]
  by_cases h : conn ∈ s._inUse
  · rw [if_neg (not_not.mpr h)]
    cases hc : cb.healthy conn with
    | error exc => exact .checkRaised exc h hc
    | ok healthy =>
      cases healthy with
      | true => exact .returned h hc
      | false => exact .closed h hc
  · rw [if_pos h]
    exact .unknown h

/-- Waking a caller changes the queues of the callers only. -/
theorem notify_frame (s : ConnectionPool α) : ∃ waiters notified,
    notify s = { s with waiters := waiters, notified := notified } := by
  unfold notify
  cases hw : s.waiters with
  | nil => exact ⟨s.waiters, s.notified, rfl⟩
  | cons waiter waiters => exact ⟨waiters, s.notified ++ [waiter], rfl⟩

/-! ## Runs -/

/-- The pool, how many callers of `start` and `stop` are between two of its
steps, and what `acquire` returned and `release` took back. -/
structure World (α : Type) where
  pool : ConnectionPool α
  starting : Nat
  filling : Nat
  stopping : Nat
  log : List (Event Nat α)

/-- One critical section of one caller, with the callbacks of the moment. A
waiting caller resumes when it was notified or its deadline has passed. -/
inductive Label (α : Type) where
  | startTest
  | startMark
  | startFill (cb : Callbacks α) (now : Nat → Rat)
  | stopMark
  | stopDrain (cb : Callbacks α) (order : List α)
  | acquire (cb : Callbacks α) (caller : Nat) (timeout : Option Rat) (now : Rat)
  | resume (cb : Callbacks α) (caller : Nat) (now : Rat)
  | release (cb : Callbacks α) (conn : α) (now : Rat)
  | cleanup (cb : Callbacks α) (now : Rat)

/-- The callbacks that a step uses. -/
def Label.callbacks : Label α → Option (Callbacks α)
  | .startTest | .startMark | .stopMark => none
  | .startFill cb _ | .stopDrain cb _ | .acquire cb _ _ _ | .resume cb _ _ | .release cb _ _
  | .cleanup cb _ => some cb

/-- The waiter that can take the lock again. -/
def resumable (s : ConnectionPool α) (caller : Nat) (now : Rat) : Option Waiter :=
  (s.notified.find? fun waiter => waiter.caller = caller).or
    (s.waiters.find? fun waiter => waiter.caller = caller ∧ waiter.deadline ≤ now)

def leave (s : ConnectionPool α) (waiter : Waiter) : ConnectionPool α :=
  if waiter ∈ s.notified then { s with notified := s.notified.erase waiter }
  else { s with waiters := s.waiters.erase waiter }

/-- A caller who takes the lock again leaves the queues of the callers only. -/
theorem leave_frame (s : ConnectionPool α) (waiter : Waiter) : ∃ waiters notified,
    leave s waiter = { s with waiters := waiters, notified := notified } := by
  unfold leave
  by_cases h : waiter ∈ s.notified
  · exact ⟨s.waiters, s.notified.erase waiter, by rw [if_pos h]⟩
  · exact ⟨s.waiters.erase waiter, s.notified, by rw [if_neg h]⟩

/-- Where a call of `acquire` starts, the first time and after a wait. -/
inductive Entered (s : ConnectionPool α) (cb : Callbacks α) (caller : Nat) (now : Rat) :
    Label α → ConnectionPool α → Prop
  | first (timeout : Option Rat) (h : caller ∉ (s.waiters ++ s.notified).map Waiter.caller) :
    Entered s cb caller now (.acquire cb caller timeout now) s
  | again (waiter : Waiter) (h : resumable s caller now = some waiter) :
    Entered s cb caller now (.resume cb caller now) (leave s waiter)

/-- The pool that a call of `acquire` starts from. -/
theorem entered_frame {s s' : ConnectionPool α} {cb : Callbacks α} {caller : Nat} {now : Rat}
    {l : Label α} (h : Entered s cb caller now l s') :
    ∃ waiters notified, s' = { s with waiters := waiters, notified := notified } := by
  cases h with
  | first timeout h => exact ⟨_, _, rfl⟩
  | again waiter h => exact leave_frame s waiter

section

variable [DecidableEq α]

/-- The end of a call of `acquire`. -/
def World.acquired (w : World α) (caller : Nat)
    (r : Except PyExc (Option α) × ConnectionPool α) : World α :=
  { w with
    pool := r.2
    log := match r.1 with
      | .ok (some conn) => w.log ++ [.acquired caller conn]
      | _ => w.log }

def step (w : World α) : Label α → World α
  | .startTest => if w.pool._running then w else { w with starting := w.starting + 1 }
  | .startMark => match w.starting with
    | 0 => w
    | n + 1 => { w with
      starting := n, filling := w.filling + 1, pool := { w.pool with _running := true } }
  | .startFill cb now => match w.filling with
    | 0 => w
    | n + 1 => { w with filling := n, pool := (exec (startFill cb now) w.pool).2 }
  | .stopMark => { w with
    stopping := w.stopping + 1, pool := { w.pool with _running := false } }
  | .stopDrain cb order => match w.stopping with
    | 0 => w
    | n + 1 =>
      if order.Nodup ∧ order.toFinset = w.pool._inUse then
        { w with stopping := n, pool := (exec (stopDrain cb order) w.pool).2 }
      else w
  | .acquire cb caller timeout now =>
    if caller ∈ (w.pool.waiters ++ w.pool.notified).map Waiter.caller then w
    else w.acquired caller
      (exec (acquire cb caller (timeout.map (now + ·)) now) w.pool)
  | .resume cb caller now => match resumable w.pool caller now with
    | none => w
    | some waiter => w.acquired caller
      (exec (acquire cb caller (some waiter.deadline) now) (leave w.pool waiter))
  | .release cb conn now => { w with
    pool := (exec (release cb conn now) w.pool).2
    log := if conn ∈ w.pool._inUse then w.log ++ [.released conn] else w.log }
  | .cleanup cb now => { w with pool := (exec (_cleanupIdleConnections cb now) w.pool).2 }

def init (maxSize minSize : Int) (maxIdleTime : Rat) : World α :=
  ⟨create maxSize minSize maxIdleTime, 0, 0, 0, []⟩

/-- What a step can do: turn a flag or a counter at most, or end a call in one of
its ways. -/
inductive Stepped (w : World α) (l : Label α) : World α → Prop
  | flagged (w' : World α) (running : Bool) (hp : w'.pool = { w.pool with _running := running })
    (hlog : w'.log = w.log) (hfill : ∀ cb now, l = .startFill cb now → w.filling = 0)
    (hclean : ∀ cb now, l ≠ .cleanup cb now) : Stepped w l w'
  | filled (cb : Callbacks α) (now : Nat → Rat) (n : Nat) (hl : l = .startFill cb now)
    (hn : w.filling = n + 1) :
    Stepped w l { w with filling := n, pool := (exec (startFill cb now) w.pool).2 }
  | drained (cb : Callbacks α) (order : List α) (n : Nat) (s : ConnectionPool α)
    (hl : l = .stopDrain cb order) (hnodup : order.Nodup) (ho : order.toFinset = w.pool._inUse)
    (h : Drained cb order w.pool s) : Stepped w l { w with stopping := n, pool := s }
  | acquired (cb : Callbacks α) (caller : Nat) (deadline : Option Rat) (now : Rat)
    (s : ConnectionPool α) (r : Except PyExc (Option α) × ConnectionPool α)
    (hs : Entered w.pool cb caller now l s) (h : Acquired cb caller deadline now s r) : Stepped w l (w.acquired caller r)
  | released (cb : Callbacks α) (conn : α) (now : Rat) (s : ConnectionPool α)
    (hl : l = .release cb conn now) (h : Released cb conn now w.pool s) :
    Stepped w l { w with
      pool := s, log := if conn ∈ w.pool._inUse then w.log ++ [.released conn] else w.log }
  | cleaned (cb : Callbacks α) (now : Rat) (r : Except PyExc Unit × ConnectionPool α)
    (hl : l = .cleanup cb now) (h : Cleaned cb now w.pool r) : Stepped w l { w with pool := r.2 }

/-- A label that the state does not enable. -/
theorem Stepped.disabled {w : World α} {l : Label α}
    (hfill : ∀ cb now, l = .startFill cb now → w.filling = 0)
    (hclean : ∀ cb now, l ≠ .cleanup cb now) : Stepped w l w :=
  .flagged w w.pool._running rfl rfl hfill hclean

theorem stepped_step (w : World α) (l : Label α) : Stepped w l (step w l) := by
  cases l with
  | startTest =>
    unfold step
    by_cases h : w.pool._running
    · rw [if_pos h]
      exact .disabled (by simp) (by simp)
    · rw [if_neg h]
      exact .flagged _ w.pool._running rfl rfl (by simp) (by simp)
  | startMark =>
    cases h : w.starting with
    | zero =>
      simp only [step, h]
      exact .disabled (by simp) (by simp)
    | succ n =>
      simp only [step, h]
      exact .flagged _ true rfl rfl (by simp) (by simp)
  | startFill cb now =>
    cases h : w.filling with
    | zero =>
      simp only [step, h]
      exact .disabled (fun _ _ _ => h) (by simp)
    | succ n =>
      simp only [step, h]
      exact .filled cb now n rfl h
  | stopMark => exact .flagged _ false rfl rfl (by simp) (by simp)
  | stopDrain cb order =>
    cases h : w.stopping with
    | zero =>
      simp only [step, h]
      exact .disabled (by simp) (by simp)
    | succ n =>
      by_cases ho : order.Nodup ∧ order.toFinset = w.pool._inUse
      · simp only [step, h, if_pos ho]
        exact .drained cb order n _ rfl ho.1 ho.2 (drained_stopDrain cb order w.pool)
      · simp only [step, h, if_neg ho]
        exact .disabled (by simp) (by simp)
  | acquire cb caller timeout now =>
    by_cases h : caller ∈ (w.pool.waiters ++ w.pool.notified).map Waiter.caller
    · simp only [step, if_pos h]
      exact .disabled (by simp) (by simp)
    · simp only [step, if_neg h]
      exact .acquired cb caller _ now w.pool _ (.first timeout h) (acquired_acquire cb caller _ now w.pool)
  | resume cb caller now =>
    cases h : resumable w.pool caller now with
    | none =>
      simp only [step, h]
      exact .disabled (by simp) (by simp)
    | some waiter =>
      simp only [step, h]
      exact .acquired cb caller _ now _ _ (.again waiter h) (acquired_acquire cb caller _ now _)
  | release cb conn now => exact .released cb conn now _ rfl (released_release cb conn now w.pool)
  | cleanup cb now => exact .cleaned cb now _ rfl (cleaned_cleanup cb now w.pool)

/-- Where the log grows by an `acquired`, a call of `acquire` has got that connection. -/
theorem acquired_of_log {w : World α} {l : Label α} {caller : Nat} {conn : α}
    (hlog : (step w l).log = w.log ++ [.acquired caller conn]) :
    ∃ cb deadline now s s', Entered w.pool cb caller now l s ∧
      Acquired cb caller deadline now s (.ok (some conn), s') ∧ (step w l).pool = s' := by
  have h := stepped_step w l
  generalize step w l = w' at h hlog ⊢
  cases h with
  | flagged w' running hp hkeep hfill hclean =>
    rw [hkeep] at hlog
    simp at hlog
  | acquired cb c deadline now s r hs h =>
    obtain ⟨result, s'⟩ := r
    cases result with
    | error exc => simp [World.acquired] at hlog
    | ok got =>
      cases got with
      | none => simp [World.acquired] at hlog
      | some got =>
        obtain ⟨rfl, rfl⟩ : c = caller ∧ got = conn := by simpa [World.acquired] using hlog
        exact ⟨cb, deadline, now, s, s', hs, h, rfl⟩
  | released cb c now s hl h =>
    dsimp only at hlog
    split at hlog <;> simp at hlog
  | _ => simp at hlog

end

/-- No callback raises, but for what the pool swallows. -/
structure Returns (cb : Callbacks α) : Prop where
  factory : ∀ i, ∃ conn, cb.factory i = .ok conn
  healthy : ∀ conn, ∃ b, cb.healthy conn = .ok b
  closes : ∀ conn, cb.closes conn = .ok ()

/-- The factory makes a connection that it has never made before in every call. -/
def Fresh (cb : Callbacks α) (made : List α) : Prop :=
  ∀ i conn, cb.factory i = .ok conn → conn ∉ made ∧ ∀ j, cb.factory j = .ok conn → j = i

end PoolCalls
