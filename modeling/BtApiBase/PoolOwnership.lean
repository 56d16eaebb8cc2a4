import BtApiBase.AsyncPools
import BtApiBase.PoolConservation

/-!
# Who owns a connection

With a factory that makes new connections, both pools keep a connection that
they handed out away from everyone else until it is given back: whatever the
callbacks do, whoever releases what, and also across a stop.
-/

namespace PoolOwnership

open PyText PyValue Effects Ownership Runs

variable {α : Type}

/-! ## The pool of threads -/

section

open ConnectionPools PoolCalls PoolConservation

/-- What the log and the containers say fits together. -/
structure Kept (w : World α) : Prop where
  owning : Owning w.pool
  guarded : Guarded w.log (idle w.pool) w.pool.made

/-- No connection is idle twice, idle and in use, or handed out while it is owned. -/
structure SingleOwner (w : World α) : Prop where
  nodup : (idle w.pool).Nodup
  disjoint : ∀ conn ∈ idle w.pool, conn ∉ w.pool._inUse
  exclusive : Exclusive w.log

theorem Kept.singleOwner {w : World α} (h : Kept w) : SingleOwner w :=
  ⟨h.owning.nodup_idle, fun _ => h.owning.disjoint, h.guarded.exclusive⟩

/-- The cleanup leaves old connections in the queue and puts new ones into it. -/
theorem cleaned_idle {cb : Callbacks α} {now : Rat} {s : ConnectionPool α}
    {r : Except PyExc Unit × ConnectionPool α} (h : Cleaned cb now s r) (hf : Fresh cb s.made) :
    s.made ⊆ r.2.made ∧ ∀ conn ∈ idle r.2, conn ∈ idle s ∨ conn ∉ s.made := by
  have hkept : ∀ (new : List (α × Rat)), (∀ k (h : k < new.length), cb.factory k = .ok new[k].1) →
      ∀ conn ∈ ((s._pool.filter fun item => !tooOld s._maxIdleTime now item) ++ new).map Prod.fst,
        conn ∈ idle s ∨ conn ∉ s.made := by
    intro new hnew conn hmem
    obtain ⟨item, hitem, rfl⟩ := List.mem_map.mp hmem
    rcases List.mem_append.mp hitem with hitem | hitem
    · exact .inl (List.mem_map_of_mem (List.mem_filter.mp hitem).1)
    · obtain ⟨k, hk, rfl⟩ := List.getElem_of_mem hitem
      exact .inr (hf k _ (hnew k hk)).1
  cases h with
  | closeRaised old conn exc hsub hmem hc => exact ⟨List.Subset.refl _, fun _ => .inl⟩
  | factoryRaised exc new hnew hfac => exact ⟨List.subset_append_left _ _, hkept new hnew⟩
  | done new hnew hlen => exact ⟨List.subset_append_left _ _, hkept new hnew⟩

theorem filled_idle {cb : Callbacks α} (now : Nat → Rat) (s : ConnectionPool α)
    (hf : Fresh cb s.made) : s.made ⊆ (exec (startFill cb now) s).2.made ∧
      ∀ conn ∈ idle (exec (startFill cb now) s).2, conn ∈ idle s ∨ conn ∉ s.made := by
  obtain ⟨new, hs, hnew, -⟩ := exec_fill cb now 0 s._minSize.toNat s
  have he : (exec (startFill cb now) s).2 =
      { s with _pool := s._pool ++ new, made := s.made ++ new.map Prod.fst } := hs
  rw [he]
  refine ⟨List.subset_append_left _ _, ?_⟩
  intro conn hmem
  simp only [idle, List.map_append, List.mem_append] at hmem
  rcases hmem with hmem | hmem
  · exact .inl hmem
  · obtain ⟨item, hitem, rfl⟩ := List.mem_map.mp hmem
    obtain ⟨k, hk, rfl⟩ := List.getElem_of_mem hitem
    exact .inr (hf _ _ (hnew k hk)).1

theorem drained_idle {cb : Callbacks α} {order : List α} {s s' : ConnectionPool α}
    (h : Drained cb order s s') : s'.made = s.made ∧ idle s' ⊆ idle s := by
  cases h with
  | idleRaised dropped rest h =>
    refine ⟨rfl, ?_⟩
    intro c hmem
    simp only [idle, h, List.map_append]
    exact List.mem_append_right _ hmem
  | inUseRaised dropped rest conn exc h hi hmem hc => exact ⟨rfl, List.nil_subset _⟩
  | done => exact ⟨rfl, List.nil_subset _⟩

theorem kept_init (maxSize minSize : Int) (maxIdleTime : Rat) :
    Kept (init (α := α) maxSize minSize maxIdleTime) :=
  ⟨(accounted_init maxSize minSize maxIdleTime).owning, guarded_nil _ _⟩

variable [DecidableEq α]

/-- A call of `acquire` makes at most its own connection and leaves no others
than before in the queue. -/
theorem acquired_idle {cb : Callbacks α} {caller : Nat} {deadline : Option Rat} {now : Rat}
    {s : ConnectionPool α} {r : Except PyExc (Option α) × ConnectionPool α}
    (h : Acquired cb caller deadline now s r) (hf : Fresh cb s.made) (hs : (idle s).Nodup) :
    idle r.2 ⊆ idle s ∧ s.made ⊆ r.2.made ∧ ∀ conn, r.1 = .ok (some conn) →
      (conn ∈ idle s ∨ conn ∉ s.made) ∧ conn ∉ idle r.2 := by
  cases h with
  | found dropped conn last rest h hc =>
    simp only [idle, h, List.map_append, List.map_cons] at hs ⊢
    refine ⟨?_, List.Subset.refl _, ?_⟩
    · intro c hmem
      exact List.mem_append_right _ (List.mem_cons_of_mem _ hmem)
    · rintro _ ⟨⟩
      refine ⟨.inl (by simp), ?_⟩
      exact (List.nodup_cons.mp (List.nodup_append.mp hs).2.1).1
  | created conn h hfac =>
    refine ⟨List.nil_subset _, List.subset_append_left _ _, ?_⟩
    rintro _ ⟨⟩
    exact ⟨.inr (hf 0 conn hfac).1, List.not_mem_nil⟩
  | factoryRaised exc hfac =>
    refine ⟨List.nil_subset _, List.Subset.refl _, ?_⟩
    rintro conn ⟨⟩
  | exhausted exc h =>
    refine ⟨List.nil_subset _, List.Subset.refl _, ?_⟩
    rintro conn ⟨⟩
  | waits d h =>
    refine ⟨List.nil_subset _, List.Subset.refl _, ?_⟩
    rintro conn ⟨⟩
  | checkRaised dropped conn last rest exc h hd hc =>
    refine ⟨?_, List.Subset.refl _, ?_⟩
    · intro c hmem
      simp only [idle, h, List.map_append, List.map_cons]
      exact List.mem_append_right _ (List.mem_cons_of_mem _ hmem)
    · rintro conn ⟨⟩
  | closeRaised dropped conn last rest exc h hc =>
    refine ⟨?_, List.Subset.refl _, ?_⟩
    · intro c hmem
      simp only [idle, h, List.map_append, List.map_cons]
      exact List.mem_append_right _ (List.mem_cons_of_mem _ hmem)
    · rintro conn ⟨⟩

theorem released_idle {cb : Callbacks α} {conn : α} {now : Rat} {s s' : ConnectionPool α}
    (h : Released cb conn now s s') : s'.made = s.made ∧
      ∀ c ∈ idle s', c ∈ idle s ∨ c = conn ∧ conn ∈ s._inUse := by
  cases h with
  | unknown h => exact ⟨rfl, fun _ => .inl⟩
  | returned h hc =>
    obtain ⟨waiters, notified, hn⟩ := notify_frame { s with
      _inUse := s._inUse.erase conn, _pool := s._pool ++ [(conn, now)] }
    rw [hn]
    refine ⟨rfl, ?_⟩
    intro c hmem
    simp only [idle, List.map_append, List.map_cons, List.map_nil, List.mem_append,
      List.mem_singleton] at hmem
    rcases hmem with hmem | rfl
    · exact .inl hmem
    · exact .inr ⟨rfl, h⟩
  | closed h hc => exact ⟨rfl, fun _ => .inl⟩
  | checkRaised exc h hc => exact ⟨rfl, fun _ => .inl⟩

theorem guarded_step {w : World α} {l : Label α} (hw : Kept w) (hf : FreshFactory w l) :
    Guarded (step w l).log (idle (step w l).pool) (step w l).pool.made := by
  have h := stepped_step w l
  generalize step w l = w' at h ⊢
  cases h with
  | flagged w' running hp hlog hfill hclean =>
    rw [hp, hlog]
    exact hw.guarded
  | filled cb now n hl hn =>
    subst hl
    obtain ⟨hmade, hfree⟩ := filled_idle now w.pool (hf cb rfl)
    exact hw.guarded.store hmade hfree
  | drained cb order n s hl hnodup ho h =>
    obtain ⟨hmade, hsub⟩ := drained_idle h
    exact hw.guarded.store (by rw [hmade]; exact List.Subset.refl _) fun c hmem => .inl (hsub hmem)
  | acquired cb caller deadline now s r hs h =>
    have hcb : cb ∈ l.callbacks := by cases hs <;> rfl
    obtain ⟨waiters, notified, rfl⟩ := entered_frame hs
    obtain ⟨hsub, hmade, hgot⟩ := acquired_idle h (hf cb hcb) hw.owning.nodup_idle
    rcases r with ⟨exc | got, s'⟩
    · exact hw.guarded.store hmade fun c hmem => .inl (hsub hmem)
    · cases got with
      | none => exact hw.guarded.store hmade fun c hmem => .inl (hsub hmem)
      | some conn =>
        obtain ⟨hthing, hnot⟩ := hgot conn rfl
        have hown : Owning s' := by
          have hent : Owning { w.pool with waiters := waiters, notified := notified } :=
            ⟨hw.owning.held, hw.owning.nodup⟩
          obtain ⟨new, gone, hm, hnew, -⟩ := moved_acquired h hent (hf cb hcb)
          exact hent.moved hm (nodup_append_of_fresh (hf cb hcb) hw.owning.nodup hnew)
        exact hw.guarded.acquire caller hthing hmade (hown.inUse_subset (inUse_of_acquired h)) hsub hnot
  | released cb conn now s hl h =>
    obtain ⟨hmade, hfree⟩ := released_idle h
    dsimp only
    rw [hmade]
    by_cases hu : conn ∈ w.pool._inUse
    · rw [if_pos hu]
      exact hw.guarded.release conn fun c hmem => (hfree c hmem).imp_right And.left
    · rw [if_neg hu]
      exact hw.guarded.store (List.Subset.refl _) fun c hmem =>
        .inl ((hfree c hmem).resolve_right fun hc => hu hc.2)
  | cleaned cb now r hl h =>
    subst hl
    obtain ⟨hmade, hfree⟩ := cleaned_idle h (hf cb rfl)
    exact hw.guarded.store hmade hfree

theorem kept_step {w : World α} {l : Label α} (hw : Kept w) (hf : FreshFactory w l) :
    Kept (step w l) := by
  obtain ⟨new, gone, hm, hnodup, -⟩ := moved_step hw.owning hf
  exact ⟨hw.owning.moved hm hnodup, guarded_step hw hf⟩

end

/-! ## The pool of tasks -/

section

open AsyncPools

structure KeptAsync (w : World α) : Prop where
  sound : Sound w
  known : ∀ conn, conn ∈ idle w.pool ∨ conn ∈ w.pool._inUse → conn ∈ w.made
  guarded : Guarded w.log (idle w.pool) w.made

structure SingleOwnerAsync (w : World α) : Prop where
  nodup : (idle w.pool).Nodup
  disjoint : ∀ conn ∈ idle w.pool, conn ∉ w.pool._inUse
  exclusive : Exclusive w.log

theorem KeptAsync.singleOwner {w : World α} (h : KeptAsync w) : SingleOwnerAsync w :=
  ⟨h.sound.nodup, h.sound.disjoint, h.guarded.exclusive⟩

/-- A call of the factory that comes back in this step made a new connection. -/
def FreshAsync (w : World α) (l : Label α) : Prop :=
  ∀ task conn, Makes w l task (.ok conn) → conn ∉ w.made

theorem keptAsync_init (coroutine : Bool) (maxSize : Nat) :
    KeptAsync (init (α := α) coroutine maxSize) :=
  ⟨sound_init coroutine maxSize, by simp [init, create, idle], guarded_nil _ _⟩

variable [DecidableEq α]

theorem guarded_asyncStep {w : World α} {l : Label α} (hw : KeptAsync w) (hf : FreshAsync w l) :
    Guarded (step w l).log (idle (step w l).pool) (step w l).made := by
  have h := stepped_step w l
  generalize step w l = w' at h ⊢
  cases h with
  | queued waiting calls hmakes hleaves => exact hw.guarded
  | permitted task hl h => exact hw.guarded
  | reused task conn last rest hmakes hl h hc hp =>
    have hnodup := hw.sound.nodup
    have hidle : idle w.pool = conn :: rest.map Prod.fst := by simp [idle, hp]
    rw [hidle, List.nodup_cons] at hnodup
    have hmem : conn ∈ idle w.pool := by simp [hidle]
    refine hw.guarded.acquire task (.inl hmem) (List.Subset.refl _) (hw.known conn (.inl hmem)) ?_ hnodup.1
    rw [hidle]
    exact List.subset_cons_self _ _
  | suspended task hmakes hl h hc hp => exact hw.guarded
  | made task result lock h hlock =>
    have hp := h.empty hw.sound
    cases result with
    | error exc => exact hw.guarded
    | ok conn =>
      have hno : conn ∉ idle w.pool := by simp [idle, hp]
      refine hw.guarded.acquire task (.inr (hf task conn h)) (List.subset_append_left _ _)
        (List.mem_append_right _ (List.mem_singleton.mpr rfl)) ?_ hno
      exact List.Subset.refl _
  | returned conn now calls hmakes hl hc h =>
    unfold World.releaseLocked
    rw [if_pos h]
    refine hw.guarded.release conn ?_
    intro c hmem
    simp only [idle, List.map_append, List.map_cons, List.map_nil, List.mem_append,
      List.mem_singleton] at hmem
    exact hmem
  | left task calls hl h => exact hw.guarded

/-- Connections come into the containers from the factory only. -/
theorem known_asyncStep {w : World α} (hw : KeptAsync w) (l : Label α) :
    ∀ conn, conn ∈ idle (step w l).pool ∨ conn ∈ (step w l).pool._inUse → conn ∈ (step w l).made := by
  have h := stepped_step w l
  generalize step w l = w' at h ⊢
  cases h with
  | queued waiting calls hmakes hleaves => exact hw.known
  | permitted task hl h => exact hw.known
  | reused task conn last rest hmakes hl h hc hp =>
    have hidle : idle w.pool = conn :: rest.map Prod.fst := by simp [idle, hp]
    rintro c (hmem | hmem)
    · exact hw.known c (.inl (by rw [hidle]; exact List.mem_cons_of_mem _ hmem))
    · rcases Finset.mem_insert.mp hmem with rfl | hmem
      · exact hw.known c (.inl (by simp [hidle]))
      · exact hw.known c (.inr hmem)
  | suspended task hmakes hl h hc hp => exact hw.known
  | made task result lock h hlock =>
    cases result with
    | error exc => exact hw.known
    | ok conn =>
      rintro c (hmem | hmem)
      · exact List.mem_append_left _ (hw.known c (.inl hmem))
      · rcases Finset.mem_insert.mp hmem with rfl | hmem
        · exact List.mem_append_right _ (List.mem_singleton.mpr rfl)
        · exact List.mem_append_left _ (hw.known c (.inr hmem))
  | returned conn now calls hmakes hl hc h =>
    unfold World.releaseLocked
    rw [if_pos h]
    rintro c (hmem | hmem)
    · simp only [idle, List.map_append, List.map_cons, List.map_nil, List.mem_append,
        List.mem_singleton] at hmem
      rcases hmem with hmem | rfl
      · exact hw.known c (.inl hmem)
      · exact hw.known c (.inr h)
    · exact hw.known c (.inr (Finset.mem_erase.mp hmem).2)
  | left task calls hl h => exact hw.known

theorem keptAsync_step {w : World α} {l : Label α} (hw : KeptAsync w) (hf : FreshAsync w l) :
    KeptAsync (step w l) :=
  ⟨sound_step hw.sound l, known_asyncStep hw l, guarded_asyncStep hw hf⟩

end

/-! ## Both pools -/

/-- In every run of either pool with a factory that makes new connections. -/
theorem single_owner [DecidableEq α] :
    (∀ (maxSize minSize : Int) (maxIdleTime : Rat) (labels : List (PoolCalls.Label α)),
      Meets PoolCalls.step PoolConservation.FreshFactory
        (PoolCalls.init maxSize minSize maxIdleTime) labels →
      Throughout PoolCalls.step SingleOwner (PoolCalls.init maxSize minSize maxIdleTime) labels) ∧
    ∀ (coroutine : Bool) (maxSize : Nat) (labels : List (AsyncPools.Label α)),
      Meets AsyncPools.step FreshAsync (AsyncPools.init coroutine maxSize) labels →
      Throughout AsyncPools.step SingleOwnerAsync (AsyncPools.init coroutine maxSize) labels := by
  constructor
  · intro maxSize minSize maxIdleTime labels hm pre hp
    have ht := throughout_of_meets (fun _ _ => kept_step) (kept_init maxSize minSize maxIdleTime) hm
    exact (ht pre hp).singleOwner
  · intro coroutine maxSize labels hm pre hp
    have ht := throughout_of_meets (fun _ _ => keptAsync_step) (keptAsync_init coroutine maxSize) hm
    exact (ht pre hp).singleOwner

/-- A connection is given back after the pool was stopped, and another is made. -/
def stoppedRun : List (PoolCalls.Label Nat) :=
  [.startTest, .startMark, .startFill (PoolConservation.makingOne 1) fun _ => 0,
    .acquire (PoolConservation.makingOne 2) 0 none 10, .stopMark,
    .stopDrain (PoolConservation.makingOne 2) [1],
    .release (PoolConservation.makingOne 2) 1 20,
    .acquire (PoolConservation.makingOne 2) 1 none 30]

def returnedTask : List (AsyncPools.Label Nat) :=
  [.acquire 0, .takePermit 0, .enter 0 (.ok 1), .release 1 1, .giveBack 1 5]

theorem single_owner_samples :
    Throughout PoolCalls.step SingleOwner (PoolCalls.init 2 1 300) stoppedRun ∧
    Throughout AsyncPools.step SingleOwnerAsync (AsyncPools.init false 1) returnedTask := by
  have hfresh : ∀ (w : PoolCalls.World Nat) (n : Nat), n ∉ w.pool.made →
      ∀ cb ∈ some (PoolConservation.makingOne n), PoolCalls.Fresh cb w.pool.made := by
    rintro w n h cb ⟨⟩
    exact PoolConservation.fresh_makingOne h
  constructor
  · refine single_owner.1 2 1 300 stoppedRun ?_
    simp only [stoppedRun, meets_cons]
    exact ⟨nofun, nofun, hfresh _ 1 (by decide +kernel), hfresh _ 2 (by decide +kernel), nofun,
      hfresh _ 2 (by decide +kernel), hfresh _ 2 (by decide +kernel), hfresh _ 2 (by decide +kernel),
      meets_nil _ _ _⟩
  · refine single_owner.2 false 1 returnedTask ?_
    simp only [returnedTask, meets_cons]
    refine ⟨nofun, nofun, ?_, nofun, nofun, meets_nil _ _ _⟩
    rintro task conn ⟨⟩
    decide +kernel

end PoolOwnership
