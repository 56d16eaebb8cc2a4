import Mathlib.Algebra.Order.Group.Multiset
import BtApiBase.PoolCalls

/-!
# What becomes of a connection

With a factory that makes new connections, the connections that the pool holds
are among those that were made, each once. Together with those that it closed
they are all that were made, as long as no callback raises where the pool has
taken a connection out of one container and not put it into another.
-/

namespace PoolConservation

open PyText PyValue Effects Ownership ConnectionPools PoolCalls Runs

variable {α : Type}

/-- The connections that the pool knows. -/
def held (s : ConnectionPool α) : Multiset α := (idle s : Multiset α) + s._inUse.val

/-- The connections that the pool knows and those that it closed. -/
def places (s : ConnectionPool α) : Multiset α := held s + (s.closed : Multiset α)

/-- A connection is in one of three places and not in the other two. -/
def InOnePlace (s : ConnectionPool α) (conn : α) : Prop :=
  (conn ∈ idle s ∧ conn ∉ s._inUse ∧ conn ∉ s.closed) ∨
  (conn ∉ idle s ∧ conn ∈ s._inUse ∧ conn ∉ s.closed) ∨
  (conn ∉ idle s ∧ conn ∉ s._inUse ∧ conn ∈ s.closed)

/-- Every connection that the factory returned is in one place. -/
def Conserved (s : ConnectionPool α) : Prop := ∀ conn ∈ s.made, InOnePlace s conn

/-- What was made is made up of what is in the three places, and nothing was made
twice. -/
structure Accounted (s : ConnectionPool α) : Prop where
  places : places s = s.made
  nodup : s.made.Nodup

/-- In one place at least by the sum, in one at most since nothing is in it twice. -/
theorem Accounted.conserved {s : ConnectionPool α} (h : Accounted s) : Conserved s := by
  intro conn hmade
  have hnodup : (PoolConservation.places s).Nodup := by
    rw [h.places]
    exact h.nodup
  have hmem : conn ∈ PoolConservation.places s := by
    rw [h.places]
    exact hmade
  simp only [PoolConservation.places, held, Multiset.mem_add, Multiset.mem_coe, Finset.mem_val] at hmem
  simp only [PoolConservation.places, held, Multiset.nodup_add, Multiset.disjoint_left,
    Multiset.mem_add, Multiset.mem_coe, Finset.mem_val] at hnodup
  obtain ⟨⟨-, -, hdisj⟩, -, hclosed⟩ := hnodup
  rcases hmem with (hi | hu) | hc
  · exact .inl ⟨hi, hdisj hi, hclosed (.inl hi)⟩
  · exact .inr (.inl ⟨fun hi => hdisj hi hu, hu, hclosed (.inr hu)⟩)
  · exact .inr (.inr ⟨fun hi => hclosed (.inl hi) hc, fun hu => hclosed (.inr hu) hc, hc⟩)

/-- New connections of one call are new together. -/
theorem nodup_append_of_fresh {cb : Callbacks α} {made : List α} (hf : Fresh cb made)
    (hm : made.Nodup) {new : List α} (hnew : ∀ k (h : k < new.length), cb.factory k = .ok new[k]) :
    (made ++ new).Nodup := by
  refine List.nodup_append.mpr ⟨hm, ?_, ?_⟩
  · refine List.nodup_iff_injective_get.mpr ?_
    intro i j hij
    have hi := hnew i i.2
    have hj := hnew j j.2
    have he : new[(i : Nat)] = new[(j : Nat)] := hij
    rw [he] at hi
    exact Fin.ext ((hf j _ hj).2 i hi)
  · intro a ha b hb hab
    obtain ⟨k, hk, rfl⟩ := List.getElem_of_mem hb
    exact (hf k _ (hnew k hk)).1 (hab ▸ ha)

/-! ## What a call moves -/

/-- The connections that come from the factory and those that leave the pool. -/
structure Moved (s s' : ConnectionPool α) (new gone : List α) : Prop where
  made : s'.made = s.made ++ new
  held : held s + new = held s' + gone

/-- The pool holds connections that were made, and each once. -/
structure Owning (s : ConnectionPool α) : Prop where
  held : held s ≤ s.made
  nodup : s.made.Nodup

theorem Accounted.owning {s : ConnectionPool α} (h : Accounted s) : Owning s := by
  refine ⟨?_, h.nodup⟩
  rw [← h.places]
  exact Multiset.le_add_right _ _

theorem Owning.nodup_held {s : ConnectionPool α} (h : Owning s) : (PoolConservation.held s).Nodup :=
  Multiset.nodup_of_le h.held h.nodup

theorem Owning.nodup_idle {s : ConnectionPool α} (h : Owning s) : (idle s).Nodup :=
  (Multiset.nodup_add.mp h.nodup_held).1

theorem Owning.disjoint {s : ConnectionPool α} (h : Owning s) {conn : α} (hi : conn ∈ idle s) :
    conn ∉ s._inUse := by
  have hd := (Multiset.nodup_add.mp h.nodup_held).2.2
  exact fun hu => Multiset.disjoint_left.mp hd hi hu

theorem Owning.inUse_subset {s : ConnectionPool α} (h : Owning s) {conn : α} (hu : conn ∈ s._inUse) :
    conn ∈ s.made :=
  Multiset.mem_of_le h.held (Multiset.mem_add.mpr (.inr hu))

theorem Owning.moved {s s' : ConnectionPool α} {new gone : List α} (h : Owning s)
    (hm : Moved s s' new gone) (hnodup : (s.made ++ new).Nodup) : Owning s' := by
  rw [← hm.made] at hnodup
  refine ⟨?_, hnodup⟩
  calc PoolConservation.held s' ≤ PoolConservation.held s' + gone := Multiset.le_add_right _ _
    _ = PoolConservation.held s + new := hm.held.symm
    _ ≤ (s.made : Multiset α) + new := by gcongr; exact h.held
    _ = s'.made := by rw [hm.made, Multiset.coe_add]

/-- What left the pool was closed. -/
theorem Accounted.moved {s s' : ConnectionPool α} {new gone : List α} (h : Accounted s)
    (hm : Moved s s' new gone) (hc : (s'.closed : Multiset α) = s.closed + gone)
    (hnodup : (s.made ++ new).Nodup) : Accounted s' := by
  rw [← hm.made] at hnodup
  refine ⟨?_, hnodup⟩
  calc PoolConservation.places s' = PoolConservation.held s' + gone + s.closed := by
        rw [PoolConservation.places, hc]; abel
    _ = PoolConservation.places s + new := by rw [← hm.held, PoolConservation.places]; abel
    _ = s'.made := by rw [h.places, hm.made, Multiset.coe_add]

/-- The kept and the expired connections are the idle ones. -/
theorem idle_split (s : ConnectionPool α) (p : α × Rat → Bool) :
    (idle s : Multiset α) = ((s._pool.filter fun item => !p item).map Prod.fst : List α) +
      ((s._pool.filter p).map Prod.fst : List α) := by
  rw [Multiset.coe_add, ← List.map_append]
  have hp := (List.filter_append_perm p s._pool).symm.trans List.perm_append_comm
  exact Multiset.coe_eq_coe.mpr (hp.map Prod.fst)

theorem moved_filled (cb : Callbacks α) (now : Nat → Rat) (i count : Nat) (s : ConnectionPool α) :
    ∃ new, Moved s (exec (fill cb now i count) s).2 new [] ∧
      (∀ k (h : k < new.length), cb.factory (i + k) = .ok new[k]) ∧
      (exec (fill cb now i count) s).2.closed = s.closed := by
  obtain ⟨new, hs, hnew, -⟩ := exec_fill cb now i count s
  rw [hs]
  refine ⟨new.map Prod.fst, ⟨rfl, ?_⟩, ?_, rfl⟩
  · simp only [held, idle, List.map_append, ← Multiset.coe_add, Multiset.coe_nil]
    abel
  · intro k hk
    rw [List.getElem_map]
    exact hnew k (by simpa using hk)

theorem moved_cleaned {cb : Callbacks α} {now : Rat} {s : ConnectionPool α}
    {r : Except PyExc Unit × ConnectionPool α} (h : Cleaned cb now s r) :
    ∃ new gone, Moved s r.2 new gone ∧ (∀ k (h : k < new.length), cb.factory k = .ok new[k]) ∧
      ((∀ item ∈ s._pool, tooOld s._maxIdleTime now item → cb.closes item.1 = .ok ()) →
        (r.2.closed : Multiset α) = s.closed + gone) := by
  have hsplit := idle_split s (tooOld s._maxIdleTime now)
  cases h with
  | closeRaised old conn exc hsub hmem hc =>
    refine ⟨[], [], ⟨by simp, rfl⟩, by simp, fun hall => ?_⟩
    obtain ⟨item, hitem, rfl⟩ := List.mem_map.mp (hsub hmem)
    rw [List.mem_filter] at hitem
    rw [hall item hitem.1 hitem.2] at hc
    cases hc
  | factoryRaised exc new hnew hf =>
    refine ⟨new.map Prod.fst, _, ⟨rfl, ?_⟩, ?_, fun _ => (Multiset.coe_add _ _).symm⟩
    · simp only [held, idle, List.map_append, ← Multiset.coe_add]
      rw [show (s._pool.map Prod.fst : List α) = idle s from rfl, hsplit]
      abel
    · intro k hk
      rw [List.getElem_map]
      exact hnew k (by simpa using hk)
  | done new hnew hlen =>
    refine ⟨new.map Prod.fst, _, ⟨rfl, ?_⟩, ?_, fun _ => (Multiset.coe_add _ _).symm⟩
    · simp only [held, idle, notifyAll, List.map_append, ← Multiset.coe_add]
      rw [show (s._pool.map Prod.fst : List α) = idle s from rfl, hsplit]
      abel
    · intro k hk
      rw [List.getElem_map]
      exact hnew k (by simpa using hk)

theorem accounted_init (maxSize minSize : Int) (maxIdleTime : Rat) :
    Accounted (init (α := α) maxSize minSize maxIdleTime).pool := ⟨rfl, List.nodup_nil⟩

section

variable [DecidableEq α]

/-- The health check of `acquire` gets to `conn`. -/
def LooksAt (cb : Callbacks α) (s : ConnectionPool α) (conn : α) : Prop :=
  ∃ dropped last rest, s._pool = dropped ++ (conn, last) :: rest ∧
    ∀ item ∈ dropped, cb.healthy item.1 = .ok false ∧ cb.closes item.1 = .ok ()

theorem moved_acquired {cb : Callbacks α} {caller : Nat} {deadline : Option Rat} {now : Rat}
    {s : ConnectionPool α} {r : Except PyExc (Option α) × ConnectionPool α}
    (h : Acquired cb caller deadline now s r) (hs : Owning s) (hf : Fresh cb s.made) :
    ∃ new gone, Moved s r.2 new gone ∧ (∀ k (h : k < new.length), cb.factory k = .ok new[k]) ∧
      ((∀ conn, LooksAt cb s conn → ∃ healthy, cb.healthy conn = .ok healthy) →
        (r.2.closed : Multiset α) = s.closed + gone) := by
  cases h with
  | found dropped conn last rest h hc =>
    have hnot : conn ∉ s._inUse := hs.disjoint (by simp [idle, h])
    refine ⟨[], dropped.map Prod.fst, ⟨by simp, ?_⟩, by simp, fun _ => (Multiset.coe_add _ _).symm⟩
    simp only [held, idle, h, Finset.insert_val_of_notMem hnot, List.map_append, List.map_cons,
      ← Multiset.coe_add, ← Multiset.cons_coe, ← Multiset.singleton_add, Multiset.coe_nil]
    abel
  | created conn h hfac =>
    have hnot : conn ∉ s._inUse := fun hu => (hf 0 conn hfac).1 (hs.inUse_subset hu)
    refine ⟨[conn], idle s, ⟨rfl, ?_⟩, ?_, fun _ => (Multiset.coe_add _ _).symm⟩
    · simp only [held, idle, Finset.insert_val_of_notMem hnot, List.map_nil, Multiset.coe_nil,
        Multiset.coe_singleton, ← Multiset.singleton_add]
      abel
    · intro k hk
      obtain rfl : k = 0 := by simpa using hk
      exact hfac
  | factoryRaised exc hfac =>
    refine ⟨[], idle s, ⟨by simp, ?_⟩, by simp, fun _ => (Multiset.coe_add _ _).symm⟩
    simp only [held, idle, List.map_nil, Multiset.coe_nil]
    abel
  | exhausted exc h =>
    refine ⟨[], idle s, ⟨by simp, ?_⟩, by simp, fun _ => (Multiset.coe_add _ _).symm⟩
    simp only [held, idle, List.map_nil, Multiset.coe_nil]
    abel
  | waits d h =>
    refine ⟨[], idle s, ⟨by simp, ?_⟩, by simp, fun _ => (Multiset.coe_add _ _).symm⟩
    simp only [held, idle, List.map_nil, Multiset.coe_nil]
    abel
  | checkRaised dropped conn last rest exc h hd hc =>
    refine ⟨[], dropped.map Prod.fst ++ [conn], ⟨by simp, ?_⟩, by simp, fun hall => ?_⟩
    · simp only [held, idle, h, List.map_append, List.map_cons, ← Multiset.coe_add,
        ← Multiset.cons_coe, ← Multiset.singleton_add, Multiset.coe_nil]
      abel
    · obtain ⟨healthy, hb⟩ := hall conn ⟨dropped, last, rest, h, hd⟩
      rw [hb] at hc
      cases hc
  | closeRaised dropped conn last rest exc h hc =>
    refine ⟨[], dropped.map Prod.fst ++ [conn], ⟨by simp, ?_⟩, by simp, fun _ => ?_⟩
    · simp only [held, idle, h, List.map_append, List.map_cons, ← Multiset.coe_add,
        ← Multiset.cons_coe, ← Multiset.singleton_add, Multiset.coe_nil]
      abel
    · simp only [List.append_assoc, ← Multiset.coe_add]

theorem moved_released {cb : Callbacks α} {conn : α} {now : Rat} {s s' : ConnectionPool α}
    (h : Released cb conn now s s') :
    ∃ gone, Moved s s' [] gone ∧
      ((conn ∈ s._inUse → ∃ healthy, cb.healthy conn = .ok healthy) →
        (s'.closed : Multiset α) = s.closed + gone) := by
  have hval : ∀ hmem : conn ∈ s._inUse, s._inUse.val = {conn} + (s._inUse.erase conn).val := by
    intro hmem
    rw [Finset.erase_val, Multiset.singleton_add]
    exact (Multiset.cons_erase hmem).symm
  cases h with
  | unknown h => exact ⟨[], ⟨by simp, rfl⟩, fun _ => by simp⟩
  | returned h hc =>
    obtain ⟨waiters, notified, hn⟩ := notify_frame { s with
      _inUse := s._inUse.erase conn, _pool := s._pool ++ [(conn, now)] }
    rw [hn]
    refine ⟨[], ⟨by simp, ?_⟩, fun _ => by simp⟩
    simp only [held, idle, hval h, List.map_append, List.map_cons, List.map_nil, ← Multiset.coe_add,
      Multiset.coe_singleton, Multiset.coe_nil]
    abel
  | closed h hc =>
    refine ⟨[conn], ⟨by simp, ?_⟩, fun _ => (Multiset.coe_add _ _).symm⟩
    simp only [held, idle, hval h, Multiset.coe_singleton, Multiset.coe_nil]
    abel
  | checkRaised exc h hc =>
    refine ⟨[conn], ⟨by simp, ?_⟩, fun hall => ?_⟩
    · simp only [held, idle, hval h, Multiset.coe_singleton, Multiset.coe_nil]
      abel
    · obtain ⟨healthy, hb⟩ := hall h
      rw [hb] at hc
      cases hc

theorem moved_drained {cb : Callbacks α} {order : List α} {s s' : ConnectionPool α}
    (h : Drained cb order s s') (hnodup : order.Nodup) (ho : order.toFinset = s._inUse) :
    ∃ gone, Moved s s' [] gone ∧
      (((∀ conn ∈ idle s, cb.closes conn = .ok ()) → ∀ conn ∈ s._inUse, cb.closes conn = .ok ()) →
        (s'.closed : Multiset α) = s.closed + gone) := by
  cases h with
  | idleRaised dropped rest h =>
    refine ⟨dropped.map Prod.fst, ⟨by simp, ?_⟩, fun _ => (Multiset.coe_add _ _).symm⟩
    simp only [held, idle, h, List.map_append, ← Multiset.coe_add, Multiset.coe_nil]
    abel
  | inUseRaised dropped rest conn exc h hi hmem hc =>
    refine ⟨idle s, ⟨by simp, ?_⟩, fun hall => ?_⟩
    · simp only [held, idle, List.map_nil, Multiset.coe_nil]
      abel
    · have hu : conn ∈ s._inUse := by
        rw [← ho, h]
        simp [hmem]
      rw [hall hi conn hu] at hc
      cases hc
  | done =>
    have hval : s._inUse.val = order := by
      rw [← ho, List.toFinset_val, hnodup.dedup]
    refine ⟨idle s ++ order, ⟨by simp, ?_⟩, fun _ => ?_⟩
    · simp only [held, hval, idle, List.map_nil, Finset.empty_val, ← Multiset.coe_add,
        Multiset.coe_nil]
      abel
    · simp only [List.append_assoc, ← Multiset.coe_add]

/-! ## The runs -/

/-- The factory makes new connections in this step. -/
def FreshFactory (w : World α) (l : Label α) : Prop := ∀ cb ∈ l.callbacks, Fresh cb w.pool.made

/-- No callback raises while the pool has its connection in no container, or in
one that it does not leave: a health check on the way from the idle ones or from
those in use, the close of an expired connection, and the close of one in use. -/
def Settles (w : World α) : Label α → Prop
  | .acquire cb _ _ _ | .resume cb _ _ =>
    ∀ conn, LooksAt cb w.pool conn → ∃ healthy, cb.healthy conn = .ok healthy
  | .release cb conn _ => conn ∈ w.pool._inUse → ∃ healthy, cb.healthy conn = .ok healthy
  | .cleanup cb now => ∀ item ∈ w.pool._pool,
    tooOld w.pool._maxIdleTime now item → cb.closes item.1 = .ok ()
  | .stopDrain cb _ => (∀ conn ∈ idle w.pool, cb.closes conn = .ok ()) →
    ∀ conn ∈ w.pool._inUse, cb.closes conn = .ok ()
  | _ => True

/-- `acquire` returns a connection that the pool has not closed. -/
def ReturnsOpen (w : World α) (l : Label α) : Prop :=
  ∀ caller conn, (step w l).log = w.log ++ [.acquired caller conn] → conn ∉ (step w l).pool.closed

theorem moved_step {w : World α} {l : Label α} (hw : Owning w.pool) (hf : FreshFactory w l) :
    ∃ new gone, Moved w.pool (step w l).pool new gone ∧ (w.pool.made ++ new).Nodup ∧
      (Settles w l → ((step w l).pool.closed : Multiset α) = w.pool.closed + gone) := by
  have h := stepped_step w l
  generalize step w l = w' at h ⊢
  cases h with
  | flagged w' running hp hlog hfill hclean =>
    rw [hp]
    exact ⟨[], [], ⟨by simp, rfl⟩, by simpa using hw.nodup, fun _ => by simp⟩
  | filled cb now n hl hn =>
    subst hl
    obtain ⟨new, hm, hnew, hc⟩ := moved_filled cb now 0 w.pool._minSize.toNat w.pool
    refine ⟨new, [], hm, ?_, fun _ => ?_⟩
    · exact nodup_append_of_fresh (hf cb rfl) hw.nodup (by simpa using hnew)
    · have hc' : (exec (startFill cb now) w.pool).2.closed = w.pool.closed := hc
      simp [hc']
  | drained cb order n s hl hnodup ho h =>
    subst hl
    obtain ⟨gone, hm, hc⟩ := moved_drained h hnodup ho
    exact ⟨[], gone, hm, by simpa using hw.nodup, hc⟩
  | acquired cb caller deadline now s r hs h =>
    obtain ⟨waiters, notified, he⟩ := entered_frame hs
    have hcb : cb ∈ l.callbacks := by cases hs <;> rfl
    have hown : Owning s := by rw [he]; exact ⟨hw.held, hw.nodup⟩
    have hfresh : Fresh cb s.made := by rw [he]; exact hf cb hcb
    obtain ⟨new, gone, hm, hnew, hc⟩ := moved_acquired h hown hfresh
    have hmade : s.made = w.pool.made := by rw [he]
    have hheld : held s = held w.pool := by rw [he]; rfl
    have hclosed : s.closed = w.pool.closed := by rw [he]
    have hlooks : ∀ conn, LooksAt cb s conn ↔ LooksAt cb w.pool conn := by rw [he]; exact fun _ => Iff.rfl
    refine ⟨new, gone, ⟨by rw [← hmade]; exact hm.made, by rw [← hheld]; exact hm.held⟩, ?_, ?_⟩
    · exact nodup_append_of_fresh (hf cb hcb) hw.nodup hnew
    · intro hset
      rw [← hclosed]
      refine hc fun conn hconn => ?_
      replace hconn := (hlooks conn).mp hconn
      clear hlooks
      cases hs with
      | first timeout h => exact hset conn hconn
      | again waiter h => exact hset conn hconn
  | released cb conn now s hl h =>
    subst hl
    obtain ⟨gone, hm, hc⟩ := moved_released h
    exact ⟨[], gone, hm, by simpa using hw.nodup, hc⟩
  | cleaned cb now r hl h =>
    subst hl
    obtain ⟨new, gone, hm, hnew, hc⟩ := moved_cleaned h
    exact ⟨new, gone, hm, nodup_append_of_fresh (hf cb rfl) hw.nodup hnew, hc⟩

theorem accounted_step {w : World α} {l : Label α} (hw : Accounted w.pool)
    (hl : FreshFactory w l ∧ Settles w l) : Accounted (step w l).pool := by
  obtain ⟨new, gone, hm, hnodup, hc⟩ := moved_step hw.owning hl.1
  exact hw.moved hm (hc hl.2) hnodup

/-- A call that returns a connection has it in use. -/
theorem inUse_of_acquired {cb : Callbacks α} {caller : Nat} {deadline : Option Rat} {now : Rat}
    {s s' : ConnectionPool α} {conn : α}
    (h : Acquired cb caller deadline now s (.ok (some conn), s')) : conn ∈ s'._inUse := by
  cases h with
  | found dropped _ last rest h hc => exact Finset.mem_insert_self _ _
  | created _ h hf => exact Finset.mem_insert_self _ _

/-- Where the log grows by an `acquired`, that connection is in use. -/
theorem inUse_of_log {w : World α} {l : Label α} {caller : Nat} {conn : α}
    (hlog : (step w l).log = w.log ++ [.acquired caller conn]) : conn ∈ (step w l).pool._inUse := by
  obtain ⟨cb, deadline, now, s, s', -, h, hpool⟩ := acquired_of_log hlog
  rw [hpool]
  exact inUse_of_acquired h

theorem returnsOpen_of_accounted {w : World α} {l : Label α} (h : Accounted (step w l).pool) :
    ReturnsOpen w l := by
  intro caller conn hlog hclosed
  have hu := inUse_of_log hlog
  rcases h.conserved conn (h.owning.inUse_subset hu) with ⟨-, hno, -⟩ | ⟨-, -, hno⟩ | ⟨-, hno, -⟩
  · exact hno hu
  · exact hno hclosed
  · exact hno hu

/-- In a run whose factory makes new connections and in which no callback raises
half-way, no connection is ever lost and none is handed out closed. -/
theorem conserved_of_settles (maxSize minSize : Int) (maxIdleTime : Rat) (labels : List (Label α))
    (hm : Meets step (fun w l => FreshFactory w l ∧ Settles w l)
      (init maxSize minSize maxIdleTime) labels) :
    Throughout step (fun w => Conserved w.pool) (init maxSize minSize maxIdleTime) labels ∧
      Meets step ReturnsOpen (init maxSize minSize maxIdleTime) labels := by
  have ht : Throughout step (fun w => Accounted w.pool) (init maxSize minSize maxIdleTime) labels :=
    throughout_of_meets (P := fun w => Accounted w.pool) (fun _ _ => accounted_step)
      (accounted_init maxSize minSize maxIdleTime) hm
  constructor
  · intro pre hp
    exact (ht pre hp).conserved
  · intro pre l hp
    have hlast := ht (pre ++ [l]) hp
    rw [run_concat] at hlast
    exact returnsOpen_of_accounted hlast

end

/-! ## A connection that is lost and one that is handed out closed -/

/-- Callbacks with which the first call of the factory returns `conn`. -/
def makingOne (conn : Nat) : Callbacks Nat where
  factory i := if i = 0 then .ok conn else .error ⟨.runtimeError, "limit"⟩
  healthCheck := none
  close _ := .ok ()

theorem fresh_makingOne {conn : Nat} {made : List Nat} (h : conn ∉ made) :
    Fresh (makingOne conn) made := by
  intro i got hf
  have hi : i = 0 ∧ conn = got := by
    by_cases hi : i = 0 <;> simp_all [makingOne]
  obtain ⟨rfl, rfl⟩ := hi
  refine ⟨h, fun j hj => ?_⟩
  by_contra hne
  simp [makingOne, hne] at hj

/-- One connection is made, used, given back and kept by the cleanup. -/
def quietRun : List (Label Nat) :=
  [.startTest, .startMark, .startFill (makingOne 1) fun _ => 0, .acquire (makingOne 2) 0 none 10,
    .release (makingOne 2) 1 20, .cleanup (makingOne 2) 60]

theorem conserved_quietRun :
    Throughout step (fun w => Conserved w.pool) (init 2 1 300) quietRun ∧
      Meets step ReturnsOpen (init 2 1 300) quietRun := by
  have hnone : ∀ n conn : Nat, ∃ healthy, (makingOne n).healthy conn = .ok healthy :=
    fun _ _ => ⟨true, rfl⟩
  have hfresh : ∀ (w : World Nat) (n : Nat), n ∉ w.pool.made → ∀ cb ∈ some (makingOne n),
      Fresh cb w.pool.made := by
    rintro w n h cb ⟨⟩
    exact fresh_makingOne h
  refine conserved_of_settles 2 1 300 quietRun ?_
  simp only [quietRun, meets_cons]
  refine ⟨⟨nofun, trivial⟩, ⟨nofun, trivial⟩, ⟨hfresh _ 1 (by decide +kernel), trivial⟩,
    ⟨hfresh _ 2 (by decide +kernel), fun conn _ => hnone 2 conn⟩,
    ⟨hfresh _ 2 (by decide +kernel), fun _ => hnone 2 1⟩,
    ⟨hfresh _ 2 (by decide +kernel), fun _ _ _ => rfl⟩, meets_nil _ _ _⟩

/-- Callbacks whose health check raises. -/
def checkRaising : Callbacks Nat where
  factory _ := .error ⟨.runtimeError, "limit"⟩
  healthCheck := some fun _ => .error ⟨.runtimeError, "no answer"⟩
  close _ := .ok ()

/-- Callbacks whose `close` raises. -/
def closeRaising : Callbacks Nat where
  factory _ := .error ⟨.runtimeError, "limit"⟩
  healthCheck := none
  close _ := .error ⟨.runtimeError, "close failed"⟩

/-- The health check of the only idle connection raises. -/
def lostRun : List (Label Nat) :=
  [.startTest, .startMark, .startFill (makingOne 1) fun _ => 0, .acquire checkRaising 0 none 10]

/-- The close of the expired connection raises, and the connection stays idle. -/
def closedRun : List (Label Nat) :=
  [.startTest, .startMark, .startFill (makingOne 1) fun _ => 0, .cleanup closeRaising 400]

theorem conserved_fails :
    ¬ Throughout step (fun w => Conserved w.pool) (init 2 1 300) lostRun ∧
    (run step (init 2 1 300) closedRun).pool.closed = [1] ∧
    (run step (init 2 1 300) (closedRun ++ [.acquire (makingOne 2) 0 none 500])).log =
      [.acquired 0 1] := by
  have hlost : (run step (init 2 1 300) lostRun).pool.made = [1] ∧
      idle (run step (init 2 1 300) lostRun).pool = [] ∧
      (run step (init 2 1 300) lostRun).pool._inUse = ∅ ∧
      (run step (init 2 1 300) lostRun).pool.closed = [] := by
    decide +kernel
  refine ⟨fun h => ?_, by decide +kernel, by decide +kernel⟩
  have hone := throughout_last h 1 (by simp [hlost.1])
  simp [InOnePlace, hlost.2] at hone

end PoolConservation
