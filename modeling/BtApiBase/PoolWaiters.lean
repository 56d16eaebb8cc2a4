import BtApiBase.PoolCalls

/-!
# Callers that wait for a connection

A caller that is given back a connection wakes one waiter and a cleanup wakes
all, so a waiter may sleep on while there is something to have, but then as many
callers are awake and on their way to the lock. What they find is theirs unless
someone gets there first.
-/

namespace PoolWaiters

open PyText PyValue Effects Ownership ConnectionPools PoolCalls Runs

variable {α : Type}

/-- While a caller sleeps, each idle connection and each free place has an awake
caller. -/
def NoWakeupLost (s : ConnectionPool α) : Prop :=
  s.waiters ≠ [] →
    (idle s).length ≤ s.notified.length ∧ s._maxSize ≤ s._inUse.card + s.notified.length

/-- The same but for `slack` callers that have just left the awake ones, with
what the queue looks like. -/
structure Covered (slack : Nat) (s : ConnectionPool α) : Prop where
  idle : (idle s).length ≤ s.notified.length + slack
  room : s._maxSize ≤ s._inUse.card + s.notified.length + slack
  nodup : (ConnectionPools.idle s).Nodup
  disjoint : ∀ conn ∈ ConnectionPools.idle s, conn ∉ s._inUse

def Woken (slack : Nat) (s : ConnectionPool α) : Prop := s.waiters ≠ [] → Covered slack s

theorem Woken.noWakeupLost {s : ConnectionPool α} (h : Woken 0 s) : NoWakeupLost s := by
  intro hw
  have hc := h hw
  exact ⟨hc.idle, hc.room⟩

/-- Where nothing is idle and no place is free everyone may sleep. -/
theorem covered_of_full {slack : Nat} {s : ConnectionPool α} (hi : idle s = [])
    (hm : s._maxSize ≤ s._inUse.card) : Covered slack s := by
  refine ⟨by simp [hi], by omega, by simp [hi], by simp [hi]⟩

theorem woken_init (maxSize minSize : Int) (maxIdleTime : Rat) :
    Woken 0 (init (α := α) maxSize minSize maxIdleTime).pool := fun h => absurd rfl h

/-- Connections leave the queue. -/
theorem covered_dropped {slack : Nat} {s : ConnectionPool α} (h : Covered slack s)
    {dropped rest : List (α × Rat)} (hp : s._pool = dropped ++ rest) (closed : List α) :
    Covered slack { s with _pool := rest, closed := closed } := by
  have hidle : idle s = dropped.map Prod.fst ++ rest.map Prod.fst := by simp [idle, hp]
  have hlen := h.idle
  have hnodup := h.nodup
  have hdisj := h.disjoint
  rw [hidle] at hlen hnodup hdisj
  rw [List.length_append] at hlen
  refine ⟨?_, h.room, (List.nodup_append.mp hnodup).2.1, ?_⟩
  · simp only [idle]
    omega
  · intro c hmem
    exact hdisj c (List.mem_append_right _ hmem)

theorem Covered.mono {slack slack' : Nat} {s : ConnectionPool α} (h : Covered slack s)
    (hle : slack ≤ slack') : Covered slack' s :=
  ⟨h.idle.trans (by omega), h.room.trans (by omega), h.nodup, h.disjoint⟩

theorem woken_cleaned {cb : Callbacks α} {now : Rat} {s : ConnectionPool α}
    {r : Except PyExc Unit × ConnectionPool α} (h : Cleaned cb now s r) (hs : Woken 0 s)
    (hcb : s.waiters ≠ [] → ∀ i, ∃ conn, cb.factory i = .ok conn) : Woken 0 r.2 := by
  intro hw
  cases h with
  | closeRaised old conn exc hsub hmem hc => exact covered_dropped (hs hw) (List.nil_append _).symm _
  | factoryRaised exc new hnew hf =>
    obtain ⟨k, hk⟩ := hf
    obtain ⟨conn, hconn⟩ := hcb hw k
    rw [hconn] at hk
    cases hk
  | done new hnew hlen => exact absurd rfl hw

/-- A sleeper whose time is over leaves the sleepers, and an awake caller the
awake ones. -/
theorem leave_cases {s : ConnectionPool α} {caller : Nat} {now : Rat} {waiter : Waiter}
    (h : resumable s caller now = some waiter) :
    (waiter ∈ s.notified ∧ waiter.caller = caller ∧
      leave s waiter = { s with notified := s.notified.erase waiter }) ∨
    leave s waiter = { s with waiters := s.waiters.erase waiter } := by
  unfold leave
  by_cases hmem : waiter ∈ s.notified
  · refine .inl ⟨hmem, ?_, by rw [if_pos hmem]⟩
    rcases Option.or_eq_some_iff.mp h with hn | ⟨-, hq⟩
    · simpa using List.find?_some hn
    · have hq := List.find?_some hq
      simp only [decide_eq_true_eq] at hq
      exact hq.1
  · exact .inr (by rw [if_neg hmem])

section

variable [DecidableEq α]

/-- A caller takes the first healthy connection: one place less is free and at
least one connection less is idle. -/
theorem covered_found {slack : Nat} {s : ConnectionPool α} (h : Covered (slack + 1) s)
    {dropped : List (α × Rat)} {conn : α} {last : Rat} {rest : List (α × Rat)}
    (hp : s._pool = dropped ++ (conn, last) :: rest) (closed : List α) :
    Covered slack { s with _pool := rest, closed := closed, _inUse := insert conn s._inUse } := by
  have hidle : idle s = dropped.map Prod.fst ++ conn :: rest.map Prod.fst := by simp [idle, hp]
  have hlen := h.idle
  have hroom := h.room
  have hnodup := h.nodup
  have hdisj := h.disjoint
  rw [hidle] at hlen hnodup hdisj
  have hnot : conn ∉ s._inUse := hdisj conn (by simp)
  have hcard := Finset.card_insert_of_notMem hnot
  have htail := List.nodup_cons.mp (List.nodup_append.mp hnodup).2.1
  rw [List.length_append, List.length_cons] at hlen
  refine ⟨?_, ?_, htail.2, ?_⟩
  · simp only [idle]
    omega
  · simp only
    omega
  · intro c hmem hu
    rcases Finset.mem_insert.mp hu with rfl | hu
    · exact htail.1 hmem
    · exact hdisj c (List.mem_append_right _ (List.mem_cons_of_mem _ hmem)) hu

/-- The queue is emptied and a place is taken. -/
theorem covered_created {slack : Nat} {s : ConnectionPool α} (h : Covered (slack + 1) s)
    {conn : α} (hnot : conn ∉ s._inUse) (made closed : List α) :
    Covered slack { s with
      _pool := [], closed := closed, made := made, _inUse := insert conn s._inUse } := by
  have hroom := h.room
  have hcard := Finset.card_insert_of_notMem hnot
  refine ⟨by simp [idle], ?_, by simp [idle], by simp [idle]⟩
  simp only
  omega

/-- Whatever happens to a caller who was not among the awake ones, no more is
free after it than before. -/
theorem woken_acquired {cb : Callbacks α} {caller : Nat} {deadline : Option Rat} {now : Rat}
    {s : ConnectionPool α} {r : Except PyExc (Option α) × ConnectionPool α}
    (h : Acquired cb caller deadline now s r) (hs : Woken 0 s) : Woken 0 r.2 := by
  intro hw
  cases h with
  | found dropped conn last rest hp hc => exact covered_found ((hs hw).mono (by omega)) hp _
  | created conn h hf =>
    have hroom := (hs hw).room
    have hcard := Finset.card_le_card (Finset.subset_insert conn s._inUse)
    refine ⟨by simp [idle], ?_, by simp [idle], by simp [idle]⟩
    simp only
    omega
  | factoryRaised exc hf => exact covered_dropped (hs hw) (List.append_nil _).symm _
  | exhausted exc h => exact covered_of_full rfl h
  | waits d h => exact covered_of_full rfl h
  | checkRaised dropped conn last rest exc hp hd hc =>
    have hp' : s._pool = (dropped ++ [(conn, last)]) ++ rest := by simp [hp]
    exact covered_dropped (hs hw) hp' _
  | closeRaised dropped conn last rest exc hp hc =>
    have hp' : s._pool = (dropped ++ [(conn, last)]) ++ rest := by simp [hp]
    exact covered_dropped (hs hw) hp' _

/-- A caller who was awake takes what it was woken for, if no callback raises. -/
theorem woken_acquired_awake {cb : Callbacks α} {caller : Nat} {deadline : Option Rat} {now : Rat}
    {s : ConnectionPool α} {r : Except PyExc (Option α) × ConnectionPool α}
    (h : Acquired cb caller deadline now s r) (hs : Woken 1 s)
    (hcb : s.waiters ≠ [] → Returns cb ∧ ∀ conn, cb.factory 0 = .ok conn → conn ∉ s._inUse) :
    Woken 0 r.2 := by
  intro hw
  cases h with
  | found dropped conn last rest hp hc => exact covered_found (hs hw) hp _
  | created conn h hf => exact covered_created (hs hw) ((hcb hw).2 conn hf) _ _
  | factoryRaised exc hf =>
    obtain ⟨conn, hconn⟩ := (hcb hw).1.factory 0
    rw [hconn] at hf
    cases hf
  | exhausted exc h => exact covered_of_full rfl h
  | waits d h => exact covered_of_full rfl h
  | checkRaised dropped conn last rest exc hp hd hc =>
    obtain ⟨healthy, hb⟩ := (hcb hw).1.healthy conn
    rw [hb] at hc
    cases hc
  | closeRaised dropped conn last rest exc hp hc =>
    rw [(hcb hw).1.closes conn] at hc
    cases hc

/-- A connection that comes back wakes a caller. -/
theorem woken_returned {s : ConnectionPool α} (hs : Woken 0 s) {conn : α} (hu : conn ∈ s._inUse)
    (now : Rat) : Woken 0 (notify { s with
      _inUse := s._inUse.erase conn, _pool := s._pool ++ [(conn, now)] }) := by
  intro hw
  have hcard := Finset.card_erase_add_one hu
  unfold notify at hw ⊢
  cases hq : s.waiters with
  | nil => simp [hq] at hw
  | cons waiter waiters =>
    have hc := hs (by simp [hq])
    have hlen := hc.idle
    have hroom := hc.room
    have hnot : conn ∉ idle s := fun hi => hc.disjoint conn hi hu
    simp only [hq] at hw ⊢
    refine ⟨?_, ?_, ?_, ?_⟩
    · simp only [idle, List.map_append, List.length_append, List.length_map, List.map_cons,
        List.map_nil, List.length_cons, List.length_nil] at hlen ⊢
      omega
    · simp only [List.length_append, List.length_cons, List.length_nil]
      omega
    · simp only [idle, List.map_append, List.map_cons, List.map_nil]
      exact hc.nodup.append (List.nodup_singleton _) (by simpa [idle] using hnot)
    · intro c hmem hcu
      rw [Finset.mem_erase] at hcu
      simp only [idle, List.map_append, List.map_cons, List.map_nil, List.mem_append,
        List.mem_singleton] at hmem
      rcases hmem with hmem | rfl
      · exact hc.disjoint c hmem hcu.2
      · exact hcu.1 rfl

theorem woken_released {cb : Callbacks α} {conn : α} {now : Rat} {s s' : ConnectionPool α}
    (h : Released cb conn now s s') (hs : Woken 0 s)
    (hcb : conn ∈ s._inUse → s.waiters ≠ [] → cb.healthy conn = .ok true) : Woken 0 s' := by
  cases h with
  | unknown h => exact hs
  | returned h hc => exact woken_returned hs h now
  | closed h hc =>
    intro hw
    rw [hcb h hw] at hc
    cases hc
  | checkRaised exc h hc =>
    intro hw
    rw [hcb h hw] at hc
    cases hc

/-! ## The runs -/

/-- While a caller sleeps: a connection that is released is healthy, a caller that
was awake gets a connection that is not in use without a callback raising, and
the factory does not raise in a cleanup. Nobody sleeps through a start or stop. -/
def Wakes (w : World α) : Label α → Prop
  | .startFill _ _ | .stopDrain _ _ => w.pool.waiters = []
  | .resume cb caller _ => (∃ waiter ∈ w.pool.notified, waiter.caller = caller) →
    w.pool.waiters ≠ [] → Returns cb ∧ ∀ conn, cb.factory 0 = .ok conn → conn ∉ w.pool._inUse
  | .release cb conn _ => conn ∈ w.pool._inUse → w.pool.waiters ≠ [] → cb.healthy conn = .ok true
  | .cleanup cb _ => w.pool.waiters ≠ [] → ∀ i, ∃ conn, cb.factory i = .ok conn
  | _ => True

theorem woken_step {w : World α} {l : Label α} (hw : Woken 0 w.pool) (hl : Wakes w l) :
    Woken 0 (step w l).pool := by
  have h := stepped_step w l
  generalize step w l = w' at h ⊢
  cases h with
  | flagged w' running hp hlog hfill hclean =>
    rw [hp]
    intro hne
    have hc := hw hne
    exact ⟨hc.idle, hc.room, hc.nodup, hc.disjoint⟩
  | filled cb now n hl' hn =>
    subst hl'
    intro hne
    obtain ⟨new, hs, -⟩ := exec_fill cb now 0 w.pool._minSize.toNat w.pool
    have he : (exec (startFill cb now) w.pool).2 =
        { w.pool with _pool := w.pool._pool ++ new, made := w.pool.made ++ new.map Prod.fst } := hs
    dsimp only at hne
    rw [he] at hne
    exact absurd hl hne
  | drained cb order n s hl' hnodup ho h =>
    subst hl'
    intro hne
    have hempty : w.pool.waiters = [] := hl
    cases h <;> exact absurd hempty hne
  | acquired cb caller deadline now s r hs h =>
    cases hs with
    | first timeout hno => exact woken_acquired h hw
    | again waiter hres =>
      rcases leave_cases hres with ⟨hmem, hcaller, he⟩ | he
      · rw [he] at h
        have hlen := List.length_erase_of_mem hmem
        have hpos := List.length_pos_of_mem hmem
        refine woken_acquired_awake h ?_ (hl ⟨waiter, hmem, hcaller⟩)
        intro hne
        have hc := hw hne
        have hidle := hc.idle
        have hroom := hc.room
        refine ⟨?_, ?_, hc.nodup, hc.disjoint⟩
        · show (idle w.pool).length ≤ (w.pool.notified.erase waiter).length + 1
          omega
        · show w.pool._maxSize ≤ w.pool._inUse.card + (w.pool.notified.erase waiter).length + 1
          omega
      · rw [he] at h
        refine woken_acquired h ?_
        intro hne
        have hne' : w.pool.waiters ≠ [] := by
          intro hnil
          simp [hnil] at hne
        have hc := hw hne'
        exact ⟨hc.idle, hc.room, hc.nodup, hc.disjoint⟩
  | released cb conn now s hl' h =>
    subst hl'
    exact woken_released h hw hl
  | cleaned cb now r hl' h =>
    subst hl'
    exact woken_cleaned h hw hl

/-- In a run in which nothing goes wrong while a caller sleeps, each idle
connection and each free place has an awake caller as long as one sleeps. -/
theorem no_wakeup_lost (maxSize minSize : Int) (maxIdleTime : Rat) (labels : List (Label α))
    (hm : Meets step Wakes (init maxSize minSize maxIdleTime) labels) :
    Throughout step (fun w => NoWakeupLost w.pool) (init maxSize minSize maxIdleTime) labels := by
  have ht := throughout_of_meets (P := fun w : World α => Woken 0 w.pool)
    (fun _ _ => woken_step) (woken_init maxSize minSize maxIdleTime) hm
  intro pre hp
  exact (ht pre hp).noWakeupLost

end

/-! ## Two callers that sleep -/

/-- A factory that returns `conn` and a health check that finds all healthy. -/
def giving (conn : Nat) : Callbacks Nat := ⟨fun _ => .ok conn, some fun _ => .ok true, fun _ => .ok ()⟩

/-- Two callers wait for the only connection when it is given back. -/
def twoWaiting : List (Label Nat) :=
  [.acquire (giving 1) 0 none 0, .acquire (giving 2) 1 (some 50) 10,
    .acquire (giving 3) 2 (some 50) 20, .release (giving 4) 1 30]

/-- One of them is woken, and the other sleeps while the connection is idle. -/
theorem sleeper_beside_idle :
    (run step (init 1 0 300) twoWaiting).pool.waiters = [⟨2, 70⟩] ∧
    idle (run step (init 1 0 300) twoWaiting).pool = [1] ∧
    ¬ Throughout step (fun w => w.pool.waiters ≠ [] →
      idle w.pool = [] ∧ w.pool._maxSize ≤ w.pool._inUse.card) (init 1 0 300) twoWaiting := by
  have hrun : (run step (init 1 0 300) twoWaiting).pool.waiters = [⟨2, 70⟩] ∧
      idle (run step (init 1 0 300) twoWaiting).pool = [1] := by
    decide +kernel
  refine ⟨hrun.1, hrun.2, fun h => ?_⟩
  have hempty := (throughout_last h (by simp [hrun.1])).1
  simp [hrun.2] at hempty

theorem no_wakeup_lost_twoWaiting :
    Throughout step (fun w => NoWakeupLost w.pool) (init 1 0 300)
      (twoWaiting ++ [.resume (giving 5) 1 40]) := by
  refine no_wakeup_lost 1 0 300 _ ?_
  simp only [twoWaiting, List.cons_append, List.nil_append, meets_cons]
  refine ⟨trivial, trivial, trivial, fun _ _ => rfl, fun _ _ => ⟨⟨fun _ => ⟨5, rfl⟩,
    fun _ => ⟨true, rfl⟩, fun _ => rfl⟩, ?_⟩, meets_nil _ _ _⟩
  rintro conn ⟨⟩
  decide +kernel

end PoolWaiters
