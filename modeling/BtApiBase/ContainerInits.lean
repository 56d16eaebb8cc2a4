import BtApiBase.OnceInits

/-!
# The one `Container`

`__new__` makes the instance once, with a lock. `__init__` runs for every call of `Container()`
and takes no lock: it tests `_initialized`, assigns a container and sets `_initialized`, each of
which is a step that other threads may come between.
-/

namespace ContainerInits

open Runs OnceInits

/-- Where a call of `Container()` is. -/
inductive Phase where
  | idle
  /-- in `__new__` -/
  | making
  | testing (self : Nat)
  /-- `self` had no `_initialized`. -/
  | assigning (self : Nat)
  | marking (self : Nat)
  deriving DecidableEq, Repr

def Phase.self? : Phase → Option Nat
  | .testing self | .assigning self | .marking self => some self
  | _ => none

/-- Objects and containers are numbered as they are made. -/
structure World where
  /-- `_instance` and `_instance_lock` -/
  instances : Once Nat := {}
  phases : Nat → Phase := fun _ => .idle
  _container : Nat → Option Nat := fun _ => none
  _initialized : Nat → Bool := fun _ => false
  containers : Nat := 0
  returned : List Nat := []
  /-- The object of each registration and the container that it went to. -/
  registered : List (Nat × Nat) := []

inductive Label where
  | call (t : Nat)
  | acquire (t : Nat)
  | retest (t : Nat)
  | make (t : Nat)
  | made (t : Nat)
  | test (t : Nat)
  | assign (t : Nat)
  | mark (t : Nat)
  /-- Anyone who was given the object registers a service; this is where the call reads
  `_container`, from which on the registration counts. -/
  | register (self : Nat)
  deriving DecidableEq, Repr

def World.goTo (w : World) (t : Nat) (p : Phase) : World :=
  { w with phases := Function.update w.phases t p }

def World.give (w : World) (t : Nat) (self : Nat) : World :=
  { w with returned := w.returned ++ [self] }.goTo t .idle

def step (w : World) : Label → World
  | .call t => match w.phases t with
    | .idle => { w with instances := OnceInits.step w.instances (.enter t) }.goTo t .making
    | _ => w
  | .acquire t => { w with instances := OnceInits.step w.instances (.acquire t) }
  | .retest t => { w with instances := OnceInits.step w.instances (.retest t) }
  | .make t =>
    { w with instances := OnceInits.step w.instances (.finish t (some w.instances.completed)) }
  | .made t => match w.phases t, w.instances.points t, w.instances.value with
    | .making, .returned, some self =>
      { w with instances := OnceInits.step w.instances (.leave t) }.goTo t (.testing self)
    | _, _, _ => w
  | .test t => match w.phases t with
    | .testing self => if w._initialized self then w.give t self else w.goTo t (.assigning self)
    | _ => w
  | .assign t => match w.phases t with
    | .assigning self => { w with
      _container := Function.update w._container self (some w.containers)
      containers := w.containers + 1 }.goTo t (.marking self)
    | _ => w
  | .mark t => match w.phases t with
    | .marking self =>
      { w with _initialized := Function.update w._initialized self true }.give t self
    | _ => w
  | .register self => match w._container self with
    | some c =>
      if self ∈ w.returned then { w with registered := w.registered ++ [(self, c)] } else w
    | none => w

/-- Every call works on the one instance, which has a container once a call has returned. -/
structure Kept (w : World) : Prop where
  once : Sound w.instances
  self : ∀ t x, (w.phases t).self? = some x → w.instances.value = some x
  marking : ∀ t x, w.phases t = .marking x → (w._container x).isSome = true
  initialized : ∀ x, w._initialized x = true →
    w.instances.value = some x ∧ (w._container x).isSome = true
  returned : ∀ x ∈ w.returned, w._initialized x = true
  container : ∀ x c, w._container x = some c → c < w.containers
  registered : ∀ r ∈ w.registered, w._initialized r.1 = true ∧ r.2 < w.containers

theorem kept_new : Kept {} :=
  ⟨sound_new, by simp [Phase.self?], by simp, by simp, by simp, by simp, by simp⟩

section

variable {w : World}

/-- Only `_instance` moves, and what it is stays. -/
theorem Kept.move (h : Kept w) (l : OnceInits.Label Nat) :
    Kept { w with instances := OnceInits.step w.instances l } :=
  ⟨sound_step h.once l, fun t x hx => value_step h.once (h.self t x hx) l, h.marking,
    fun x hx => ⟨value_step h.once (h.initialized x hx).1 l, (h.initialized x hx).2⟩, h.returned,
    h.container, h.registered⟩

theorem Kept.goTo (h : Kept w) {t : Nat} {p : Phase}
    (hself : ∀ x, p.self? = some x → w.instances.value = some x)
    (hmark : ∀ x, p = .marking x → (w._container x).isSome = true) : Kept (w.goTo t p) := by
  refine ⟨h.once, ?_, ?_, h.initialized, h.returned, h.container, h.registered⟩
  · intro v x hx
    by_cases hv : v = t
    · subst hv
      simp only [World.goTo, Function.update_self] at hx
      exact hself x hx
    · simp only [World.goTo, Function.update_of_ne hv] at hx
      exact h.self v x hx
  · intro v x hx
    by_cases hv : v = t
    · subst hv
      simp only [World.goTo, Function.update_self] at hx
      exact hmark x hx
    · simp only [World.goTo, Function.update_of_ne hv] at hx
      exact h.marking v x hx

theorem Kept.give (h : Kept w) {t x : Nat} (hx : w._initialized x = true) : Kept (w.give t x) := by
  have hw : Kept { w with returned := w.returned ++ [x] } := by
    refine ⟨h.once, h.self, h.marking, h.initialized, ?_, h.container, h.registered⟩
    intro y hy
    rcases List.mem_append.mp hy with hy | hy
    · exact h.returned y hy
    · rwa [List.mem_singleton.mp hy]
  exact hw.goTo (by simp [Phase.self?]) (by simp)

theorem Kept.assign (h : Kept w) {x : Nat} (hx : w.instances.value = some x) : Kept { w with
    _container := Function.update w._container x (some w.containers)
    containers := w.containers + 1 } := by
  have hsome : ∀ y, (w._container y).isSome = true →
      (Function.update w._container x (some w.containers) y).isSome = true := by
    intro y hy
    by_cases hyx : y = x
    · simp [hyx]
    · simpa [hyx] using hy
  refine ⟨h.once, h.self, fun t y hy => hsome y (h.marking t y hy),
    fun y hy => ⟨(h.initialized y hy).1, hsome y (h.initialized y hy).2⟩, h.returned, ?_,
    fun r hr => ⟨(h.registered r hr).1, Nat.lt_succ_of_lt (h.registered r hr).2⟩⟩
  intro y c hc
  by_cases hyx : y = x
  · subst hyx
    simp only [Function.update_self, Option.some.injEq] at hc
    simp [← hc]
  · simp only [Function.update_of_ne hyx] at hc
    exact Nat.lt_succ_of_lt (h.container y c hc)

theorem Kept.mark (h : Kept w) {x : Nat} (hx : w.instances.value = some x)
    (hc : (w._container x).isSome = true) :
    Kept { w with _initialized := Function.update w._initialized x true } := by
  have htrue : ∀ y, w._initialized y = true → Function.update w._initialized x true y = true := by
    intro y hy
    by_cases hyx : y = x
    · simp [hyx]
    · simpa [hyx] using hy
  refine ⟨h.once, h.self, h.marking, ?_, fun y hy => htrue y (h.returned y hy), h.container,
    fun r hr => ⟨htrue _ (h.registered r hr).1, (h.registered r hr).2⟩⟩
  intro y hy
  by_cases hyx : y = x
  · subst hyx
    exact ⟨hx, hc⟩
  · exact h.initialized y (by simpa [hyx] using hy)

theorem kept_step (h : Kept w) (l : Label) : Kept (step w l) := by
  cases l with
  | call t =>
    simp only [step]
    split
    · exact (h.move (.enter t)).goTo (by simp [Phase.self?]) (by simp)
    · exact h
  | acquire t => exact h.move (.acquire t)
  | retest t => exact h.move (.retest t)
  | make t => exact h.move (.finish t (some w.instances.completed))
  | made t =>
    simp only [step]
    split
    · next self _ _ hv =>
      refine (h.move (.leave t)).goTo ?_ (by simp)
      intro x hx
      obtain rfl : self = x := Option.some.inj hx
      exact value_step h.once hv (.leave t)
    · exact h
  | test t =>
    simp only [step]
    split
    · next self hp =>
      have hself := h.self t self (by simp [hp, Phase.self?])
      split
      · next hi => exact h.give hi
      · refine h.goTo ?_ (by simp)
        intro x hx
        obtain rfl : self = x := Option.some.inj hx
        exact hself
    · exact h
  | assign t =>
    simp only [step]
    split
    · next self hp =>
      have hself := h.self t self (by simp [hp, Phase.self?])
      refine (h.assign hself).goTo ?_ ?_
      · intro x hx
        obtain rfl : self = x := Option.some.inj hx
        exact hself
      · intro x hx
        obtain rfl := Phase.marking.inj hx
        simp
    · exact h
  | mark t =>
    simp only [step]
    split
    · next self hp =>
      have hself := h.self t self (by simp [hp, Phase.self?])
      exact (h.mark hself (h.marking t self hp)).give (by simp)
    · exact h
  | register self =>
    simp only [step]
    split
    · next c hc =>
      split
      · next hr =>
        refine ⟨h.once, h.self, h.marking, h.initialized, h.returned, h.container, ?_⟩
        intro r hmem
        rcases List.mem_append.mp hmem with hmem | hmem
        · exact h.registered r hmem
        · rw [List.mem_singleton.mp hmem]
          exact ⟨h.returned self hr, h.container self c hc⟩
      · exact h
    · exact h

theorem kept_run (ls : List Label) : Kept (run step {} ls) :=
  run_induction (P := Kept) (fun _ l h => kept_step h l) kept_new ls

/-- All calls return one object, and it has a container, in every interleaving. -/
theorem one_instance (ls : List Label) :
    (run step {} ls).instances.completed ≤ 1 ∧
    ∀ x ∈ (run step {} ls).returned, ((run step {} ls)._container x).isSome = true ∧
      ∀ y ∈ (run step {} ls).returned, x = y := by
  have h := kept_run ls
  constructor
  · rw [h.once.completed]
    split <;> omega
  · intro x hx
    obtain ⟨hv, hc⟩ := h.initialized x (h.returned x hx)
    refine ⟨hc, fun y hy => ?_⟩
    exact Option.some.inj (hv.symm.trans (h.initialized y (h.returned y hy)).1)

/-! ## What is registered -/

/-- Every registration is in the container that its object has now. -/
def Visible (w : World) : Prop := ∀ r ∈ w.registered, w._container r.1 = some r.2

instance (w : World) : Decidable (Visible w) :=
  inferInstanceAs (Decidable (∀ r ∈ w.registered, w._container r.1 = some r.2))

/-- No container is replaced once something is registered. -/
def Undisturbed (w : World) : Label → Prop
  | .assign t => ∀ x, w.phases t = .assigning x → w.registered = []
  | _ => True

theorem visible_step (hk : Kept w) (h : Visible w) (l : Label) :
    Visible (step w l) ↔ Undisturbed w l := by
  cases l with
  | assign t =>
    simp only [step, Undisturbed]
    split
    · next self hp =>
      have hself := hk.self t self (by simp [hp, Phase.self?])
      constructor
      · intro hv x _
        cases hr : w.registered with
        | nil => rfl
        | cons r rest =>
          have hmem : r ∈ w.registered := by simp [hr]
          obtain ⟨hi, hlt⟩ := hk.registered r hmem
          obtain rfl : self = r.1 := Option.some.inj (hself.symm.trans (hk.initialized r.1 hi).1)
          have hnow := hv r hmem
          simp only [World.goTo, Function.update_self, Option.some.injEq] at hnow
          omega
      · intro hempty r hr
        have hr' : r ∈ w.registered := hr
        rw [hempty self hp] at hr'
        cases hr'
    · next hp => exact iff_of_true h fun x hx => absurd hx (hp x)
  | call t =>
    simp only [step, Undisturbed, iff_true]
    split <;> exact h
  | acquire t | retest t | make t => exact iff_of_true h trivial
  | made t =>
    simp only [step, Undisturbed, iff_true]
    split <;> exact h
  | test t =>
    simp only [step, Undisturbed, iff_true]
    split
    · split <;> exact h
    · exact h
  | mark t =>
    simp only [step, Undisturbed, iff_true]
    split <;> exact h
  | register self =>
    simp only [step, Undisturbed, iff_true]
    split
    · next c hc =>
      split
      · intro r hr
        rcases List.mem_append.mp hr with hr | hr
        · exact h r hr
        · rw [List.mem_singleton.mp hr]
          exact hc
      · exact h
    · exact h

/-- Registrations stay visible throughout a run exactly if no call that has tested
`_initialized` too early assigns its container after one of them. -/
theorem visible_iff (ls : List Label) :
    Throughout step Visible {} ls ↔ Meets step Undisturbed {} ls :=
  throughout_iff_meets (P := Visible) (Q := Kept) (fun _ l h => kept_step h l)
    (fun _ l hk h => visible_step hk h l) kept_new (by simp [Visible]) ls

/-- A call has set `_initialized`, and none is about to assign a container. -/
structure Settled (w : World) : Prop where
  initialized : ∃ x, w._initialized x = true
  quiet : ∀ t x, w.phases t ≠ .assigning x

theorem Settled.goTo (h : Settled w) {t : Nat} {p : Phase} (hp : ∀ x, p ≠ .assigning x) :
    Settled (w.goTo t p) := by
  refine ⟨h.initialized, fun v x hx => ?_⟩
  by_cases hv : v = t
  · subst hv
    simp only [World.goTo, Function.update_self] at hx
    exact hp x hx
  · simp only [World.goTo, Function.update_of_ne hv] at hx
    exact h.quiet v x hx

theorem settled_step (hk : Kept w) (h : Settled w) (l : Label) :
    Settled (step w l) ∧ (step w l)._container = w._container := by
  cases l with
  | call t =>
    simp only [step]
    split
    · have hw : Settled { w with instances := OnceInits.step w.instances (.enter t) } :=
        ⟨h.initialized, h.quiet⟩
      exact ⟨hw.goTo (by simp), rfl⟩
    · exact ⟨h, rfl⟩
  | acquire t | retest t | make t => exact ⟨⟨h.initialized, h.quiet⟩, rfl⟩
  | made t =>
    simp only [step]
    split
    · have hw : Settled { w with instances := OnceInits.step w.instances (.leave t) } :=
        ⟨h.initialized, h.quiet⟩
      exact ⟨hw.goTo (by simp), rfl⟩
    · exact ⟨h, rfl⟩
  | test t =>
    simp only [step]
    split
    · next self hp =>
      obtain ⟨x, hx⟩ := h.initialized
      have hself := hk.self t self (by simp [hp, Phase.self?])
      obtain rfl : self = x := Option.some.inj (hself.symm.trans (hk.initialized x hx).1)
      have hw : Settled { w with returned := w.returned ++ [self] } := ⟨h.initialized, h.quiet⟩
      rw [if_pos hx]
      exact ⟨hw.goTo (by simp), rfl⟩
    · exact ⟨h, rfl⟩
  | assign t =>
    simp only [step]
    split
    · next self hp => exact absurd hp (h.quiet t self)
    · exact ⟨h, rfl⟩
  | mark t =>
    simp only [step]
    split
    · next self hp =>
      have hw : Settled { w with
          _initialized := Function.update w._initialized self true
          returned := w.returned ++ [self] } := ⟨⟨self, by simp⟩, h.quiet⟩
      exact ⟨hw.goTo (by simp), rfl⟩
    · exact ⟨h, rfl⟩
  | register self =>
    simp only [step]
    split
    · split <;> exact ⟨⟨h.initialized, h.quiet⟩, rfl⟩
    · exact ⟨h, rfl⟩

/-- The container is never replaced again. -/
theorem settled_run (before after : List Label) (h : Settled (run step {} before)) :
    (run step {} (before ++ after))._container = (run step {} before)._container := by
  rw [run_append]
  have hstep : ∀ v l, Kept v ∧ Settled v ∧ v._container = (run step {} before)._container →
      Kept (step v l) ∧ Settled (step v l) ∧
        (step v l)._container = (run step {} before)._container := by
    rintro v l ⟨hk, hs, hc⟩
    obtain ⟨hs', hc'⟩ := settled_step hk hs l
    exact ⟨kept_step hk l, hs', hc'.trans hc⟩
  have hrun := run_induction hstep ⟨kept_run before, h, rfl⟩ after
  exact hrun.2.2

end

/-- A thread calls `Container()` and comes to the test. -/
def calledBy (t : Nat) : List Label := [.call t, .acquire t, .retest t, .make t, .made t, .test t]

/-- The second thread has tested before the first has set `_initialized`. -/
example : ¬ Visible (run step {} (calledBy 0 ++ calledBy 1 ++
    [.assign 0, .mark 0, .register 0, .assign 1])) := by decide

def firstCall : List Label := calledBy 0 ++ [.assign 0, .mark 0]

theorem settled_run_called :
    (run step {} (firstCall ++ .register 0 :: calledBy 1))._container =
      (run step {} firstCall)._container := by
  have hinitialized : (run step {} firstCall)._initialized 0 = true := by decide
  have hquiet : ∀ t, (run step {} firstCall).phases t = .idle := by
    intro t
    simp [run, firstCall, calledBy, step, World.goTo, World.give, OnceInits.step, Once.goTo]
  exact settled_run firstCall _ ⟨⟨0, hinitialized⟩, fun t x => by simp [hquiet t]⟩

end ContainerInits
