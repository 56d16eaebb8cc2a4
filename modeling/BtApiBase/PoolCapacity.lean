import BtApiBase.PoolCalls

/-!
# How many connections the pool holds

Idle connections and connections in use together stay within `max_size` exactly
as long as nothing is made without looking at the connections in use: `start`
and the idle cleanup count the idle ones only.
-/

namespace PoolCapacity

open PyText PyValue Effects Ownership ConnectionPools PoolCalls Runs

variable {α : Type}

/-- Idle and in use connections are at most `max_size`. -/
def Bounded (s : ConnectionPool α) : Prop :=
  ((idle s).length + s._inUse.card : Int) ≤ s._maxSize

/-- The idle connections that a cleanup keeps. -/
def keptIdle (s : ConnectionPool α) (now : Rat) : List (α × Rat) :=
  s._pool.filter fun item => !tooOld s._maxIdleTime now item

/-- A step whose callbacks raise nothing. -/
def QuietLabel (α : Type) := {l : Label α // ∀ cb ∈ l.callbacks, Returns cb}

/-- There is room for the connections that a step makes without a look at those
in use. -/
def RoomToFill (w : World α) : Label α → Prop
  | .startFill _ _ => 0 < w.filling →
    ((idle w.pool).length + w.pool._inUse.card + w.pool._minSize.toNat : Int) ≤ w.pool._maxSize
  | .cleanup _ now => ((keptIdle w.pool now).length : Int) < w.pool._minSize →
    w.pool._minSize + w.pool._inUse.card ≤ w.pool._maxSize
  | _ => True

theorem keptIdle_length_le (s : ConnectionPool α) (now : Rat) :
    (keptIdle s now).length ≤ (idle s).length := by
  rw [idle, List.length_map]
  exact List.length_filter_le _ _

theorem bounded_init (maxSize minSize : Int) (maxIdleTime : Rat) :
    Bounded (init (α := α) maxSize minSize maxIdleTime).pool ↔ 0 ≤ maxSize := by
  simp [Bounded, init, create, idle]

/-! ## The calls -/

theorem bounded_notify (s : ConnectionPool α) : Bounded (notify s) ↔ Bounded s := by
  obtain ⟨waiters, notified, h⟩ := notify_frame s
  rw [h]
  exact Iff.rfl

/-- With callbacks that return, the cleanup leaves `min_size` idle connections
or those that it kept. -/
theorem bounded_cleaned {cb : Callbacks α} (hcb : Returns cb) {now : Rat} {s : ConnectionPool α}
    {r : Except PyExc Unit × ConnectionPool α} (h : Cleaned cb now s r) (hs : Bounded s) :
    Bounded r.2 ↔
      (((keptIdle s now).length : Int) < s._minSize → s._minSize + s._inUse.card ≤ s._maxSize) := by
  have hkept := keptIdle_length_le s now
  cases h with
  | closeRaised old conn exc hsub hmem hc =>
    rw [hcb.closes] at hc
    cases hc
  | factoryRaised exc new hnew hf =>
    obtain ⟨k, hk⟩ := hf
    obtain ⟨conn, hconn⟩ := hcb.factory k
    rw [hconn] at hk
    cases hk
  | done new hnew hlen =>
    unfold Bounded at hs ⊢
    unfold keptIdle at hkept ⊢
    simp only [idle, notifyAll, List.length_map, List.length_append] at hs hkept ⊢
    omega

/-- With callbacks that return, `start` adds `min_size` idle connections. -/
theorem bounded_startFill {cb : Callbacks α} (hcb : Returns cb) (now : Nat → Rat)
    (s : ConnectionPool α) : Bounded (exec (startFill cb now) s).2 ↔
      ((idle s).length + s._inUse.card + s._minSize.toNat : Int) ≤ s._maxSize := by
  unfold startFill
  rw [exec_get_bind]
  obtain ⟨new, hs, -, hr⟩ := exec_fill cb now 0 s._minSize.toNat s
  rcases hr with ⟨-, hlen⟩ | ⟨k, exc, hk, -⟩
  · rw [hs]
    simp only [Bounded, idle, List.length_map, List.length_append, hlen]
    omega
  · obtain ⟨conn, hconn⟩ := hcb.factory k
    rw [hconn] at hk
    cases hk

theorem bounded_drained {cb : Callbacks α} {order : List α} {s s' : ConnectionPool α}
    (h : Drained cb order s s') (hs : Bounded s) : Bounded s' := by
  unfold Bounded idle at *
  cases h with
  | idleRaised dropped rest h =>
    rw [h] at hs
    simp only [List.length_map, List.length_append] at hs ⊢
    omega
  | inUseRaised dropped rest conn exc h hi hmem hc =>
    simp only [List.map_nil, List.length_nil]
    omega
  | done =>
    simp only [List.map_nil, List.length_nil, Finset.card_empty]
    omega

section

variable [DecidableEq α]

def quietStep (w : World α) (l : QuietLabel α) : World α := step w l.1

/-- A connection is handed out only while fewer than `max_size` are in use. -/
def HandsOutBelowMax (w : World α) (l : QuietLabel α) : Prop :=
  ∀ caller conn, (quietStep w l).log = w.log ++ [.acquired caller conn] →
    (w.pool._inUse.card : Int) < w.pool._maxSize

/-- `acquire` moves one connection or makes one where there is room. -/
theorem bounded_acquired {cb : Callbacks α} {caller : Nat} {deadline : Option Rat} {now : Rat}
    {s : ConnectionPool α} {r : Except PyExc (Option α) × ConnectionPool α}
    (h : Acquired cb caller deadline now s r) (hs : Bounded s) : Bounded r.2 := by
  unfold Bounded idle at *
  cases h with
  | found dropped conn last rest h hc =>
    have hcard := Finset.card_insert_le conn s._inUse
    rw [h] at hs
    simp only [List.length_map, List.length_append, List.length_cons] at hs ⊢
    omega
  | created conn h hf =>
    have hcard := Finset.card_insert_le conn s._inUse
    simp only [List.map_nil, List.length_nil]
    omega
  | factoryRaised exc hf => simp only [List.map_nil, List.length_nil]; omega
  | exhausted exc h => simp only [List.map_nil, List.length_nil]; omega
  | waits d h => simp only [List.map_nil, List.length_nil]; omega
  | checkRaised dropped conn last rest exc h hd hc =>
    rw [h] at hs
    simp only [List.length_map, List.length_append, List.length_cons] at hs ⊢
    omega
  | closeRaised dropped conn last rest exc h hc =>
    rw [h] at hs
    simp only [List.length_map, List.length_append, List.length_cons] at hs ⊢
    omega

/-- Who gets a connection gets an idle one or one made below `max_size`. -/
theorem card_lt_of_acquired {cb : Callbacks α} {caller : Nat} {deadline : Option Rat} {now : Rat}
    {s s' : ConnectionPool α} {conn : α} (h : Acquired cb caller deadline now s (.ok (some conn), s'))
    (hs : Bounded s) : (s._inUse.card : Int) < s._maxSize := by
  unfold Bounded idle at hs
  cases h with
  | found dropped _ last rest h hc =>
    rw [h] at hs
    simp only [List.length_map, List.length_append, List.length_cons] at hs
    omega
  | created _ h hf => exact h

theorem bounded_released {cb : Callbacks α} {conn : α} {now : Rat} {s s' : ConnectionPool α}
    (h : Released cb conn now s s') (hs : Bounded s) : Bounded s' := by
  unfold Bounded idle at hs
  cases h with
  | unknown h => exact hs
  | returned h hc =>
    have hcard := Finset.card_erase_add_one h
    refine (bounded_notify _).mpr ?_
    unfold Bounded idle
    simp only [List.length_map, List.length_append, List.length_cons, List.length_nil] at hs ⊢
    omega
  | closed h hc =>
    have hcard := Finset.card_erase_add_one h
    unfold Bounded idle
    dsimp only
    omega
  | checkRaised exc h hc =>
    have hcard := Finset.card_erase_add_one h
    unfold Bounded idle
    dsimp only
    omega

/-! ## The runs -/

/-- A step keeps the bound exactly when there is room for what it fills in. -/
theorem bounded_step (w : World α) (l : QuietLabel α) (hw : Bounded w.pool) :
    Bounded (quietStep w l).pool ↔ RoomToFill w l.1 := by
  obtain ⟨l, hl⟩ := l
  have h := stepped_step w l
  unfold quietStep
  dsimp only at hl ⊢
  generalize step w l = w' at h ⊢
  cases h with
  | flagged w' running hp hlog hfill hclean =>
    rw [hp]
    refine iff_of_true hw ?_
    cases l with
    | startFill cb now => intro h; rw [hfill cb now rfl] at h; omega
    | cleanup cb now => exact absurd rfl (hclean cb now)
    | _ => trivial
  | filled cb now n hl' hn =>
    subst hl'
    simpa [RoomToFill, hn] using bounded_startFill (hl cb rfl) now w.pool
  | drained cb order n s hl' hnodup ho h =>
    subst hl'
    exact iff_of_true (bounded_drained h hw) trivial
  | acquired cb caller deadline now s r hs h =>
    obtain ⟨waiters, notified, he⟩ := entered_frame hs
    have hs' : Bounded s := by
      rw [he]
      exact hw
    refine iff_of_true (bounded_acquired h hs') ?_
    cases hs <;> trivial
  | released cb conn now s hl' h =>
    subst hl'
    exact iff_of_true (bounded_released h hw) trivial
  | cleaned cb now r hl' h =>
    subst hl'
    exact bounded_cleaned (hl cb rfl) h hw

theorem handsOutBelowMax_of_bounded {w : World α} (l : QuietLabel α) (hw : Bounded w.pool) :
    HandsOutBelowMax w l := by
  intro caller conn hlog
  obtain ⟨cb, deadline, now, s, s', hs, h, -⟩ := acquired_of_log hlog
  obtain ⟨waiters, notified, rfl⟩ := entered_frame hs
  have hlt := card_lt_of_acquired h hw
  exact hlt

/-- The pool stays within `max_size`, and hands out nothing above it, exactly in
the runs in which `start` and every cleanup find room for what they fill in. -/
theorem bounded_iff_roomToFill (maxSize minSize : Int) (maxIdleTime : Rat)
    (labels : List (QuietLabel α)) :
    (Throughout quietStep (fun w => Bounded w.pool) (init maxSize minSize maxIdleTime) labels ∧
      Meets quietStep HandsOutBelowMax (init maxSize minSize maxIdleTime) labels) ↔
    0 ≤ maxSize ∧
      Meets quietStep (fun w l => RoomToFill w l.1) (init maxSize minSize maxIdleTime) labels := by
  have hiff : ∀ h₀ : Bounded (init (α := α) maxSize minSize maxIdleTime).pool,
      Throughout quietStep (fun w => Bounded w.pool) (init maxSize minSize maxIdleTime) labels ↔
        Meets quietStep (fun w l => RoomToFill w l.1) (init maxSize minSize maxIdleTime) labels :=
    fun h₀ => throughout_iff_meets (Q := fun _ => True) (fun _ _ _ => trivial)
      (fun w l _ hw => bounded_step w l hw) trivial h₀ labels
  constructor
  · rintro ⟨ht, -⟩
    have h₀ := ht [] List.nil_prefix
    exact ⟨(bounded_init maxSize minSize maxIdleTime).mp h₀, (hiff h₀).mp ht⟩
  · rintro ⟨h₀, hm⟩
    have ht := (hiff ((bounded_init maxSize minSize maxIdleTime).mpr h₀)).mpr hm
    refine ⟨ht, ?_⟩
    intro pre l hp
    exact handsOutBelowMax_of_bounded l (ht pre ((List.prefix_append pre [l]).trans hp))

end

/-! ## A cleanup above the bound -/

/-- Callbacks with which every call of the factory returns `conn`. -/
def making (conn : Nat) : Callbacks Nat := ⟨fun _ => .ok conn, none, fun _ => .ok ()⟩

theorem returns_making (conn : Nat) : Returns (making conn) :=
  ⟨fun _ => ⟨conn, rfl⟩, fun _ => ⟨true, rfl⟩, fun _ => rfl⟩

theorem returns_of_making {conn : Nat} (cb : Callbacks Nat) (h : cb ∈ some (making conn)) :
    Returns cb := by
  cases h
  exact returns_making conn

/-- The pool is started and its only connection is in use when the cleanup makes
another one, which the next caller gets. -/
def refilled : List (QuietLabel Nat) :=
  [⟨.startTest, by simp [Label.callbacks]⟩,
    ⟨.startMark, by simp [Label.callbacks]⟩,
    ⟨.startFill (making 1) fun _ => 0, returns_of_making⟩,
    ⟨.acquire (making 2) 0 none 10, returns_of_making⟩,
    ⟨.cleanup (making 3) 60, returns_of_making⟩,
    ⟨.acquire (making 4) 1 none 70, returns_of_making⟩]

theorem refilled_above_max :
    ¬ Throughout quietStep (fun w => Bounded w.pool) (init 1 1 300) refilled ∧
    (run quietStep (init 1 1 300) refilled).log = [.acquired 0 1, .acquired 1 3] := by
  have hrun : (run quietStep (init 1 1 300) refilled).log = [.acquired 0 1, .acquired 1 3] ∧
      (run quietStep (init 1 1 300) refilled).pool._inUse = {1, 3} ∧
      (run quietStep (init 1 1 300) refilled).pool._maxSize = 1 := by
    decide +kernel
  refine ⟨fun h => ?_, hrun.1⟩
  have hb := throughout_last h
  simp only [Bounded, hrun.2.1, hrun.2.2] at hb
  have hc : ({1, 3} : Finset Nat).card = 2 := rfl
  omega

end PoolCapacity
