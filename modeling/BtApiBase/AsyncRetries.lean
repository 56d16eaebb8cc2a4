import BtApiBase.PyControl
import BtApiBase.PyText

/-!
# Retrying a function and retrying a block

`async_retry` calls a function again after an exception that it is told to catch.
`AsyncContextManager.retry` has the same loop around a `yield`, but the body of a
`with` statement runs once, so that the second `yield` breaks the protocol. `E`
stands for the exceptions of the body and `D` for the numbers that delays are.
-/

namespace AsyncRetries

open PyText PyControl

variable {E C D : Type}

/-- An exception of the body, or one that the retrying raises. -/
inductive Raised (E : Type) where
  | own (e : E)
  | pause (e : E)
  | valueError (text : PyStr)
  | typeError (text : PyStr)
  | runtimeError (text : PyStr)

/-- What the interpreter decides; `sleep` is the exception that `asyncio.sleep` raises. -/
structure Platform (E C D : Type) where
  isinstance : E → C → Bool
  negative : D → Bool
  nonpositive : D → Bool
  times : D → D → D
  sleep : D → Option E

/-- `none` among the exceptions is something else than an exception class. -/
structure Args (C D : Type) where
  maxAttempts : Int
  delay : D
  backoff : D
  exceptions : List (Option C)

variable (w : Platform E C D) (a : Args C D)

def validate : Except (Raised E) Unit :=
  if a.maxAttempts ≤ 0 then .error (.valueError "max_attempts must be > 0")
  else if w.negative a.delay then .error (.valueError "delay must be >= 0")
  else if w.nonpositive a.backoff then .error (.valueError "backoff must be > 0")
  else if a.exceptions.isEmpty then .error (.valueError "exceptions must not be empty")
  else if a.exceptions.all Option.isSome then .ok ()
  else .error (.typeError "exceptions must contain only BaseException subclasses")

def catches (e : E) : Bool := a.exceptions.any fun c => c.any (w.isinstance e)

/-! ## The decorator -/

/-- `current_delay` in a pass of the loop. -/
def currentDelay : Nat → D
  | 0 => a.delay
  | attempt + 1 => w.times (currentDelay attempt) a.backoff

/-- The body of the loop, by the outcome of the call: `some none` is a return. -/
def retryOnce (outcome : Nat → Option E) (attempt : Nat) : Option (Option (Raised E)) :=
  match outcome attempt with
  | none => some none
  | some e =>
    if catches w a e then
      if a.maxAttempts ≤ attempt + 1 then some (some (.own e))
      else match w.sleep (currentDelay w a attempt) with
        | none => none
        | some raised => some (some (.pause raised))
    else some (some (.own e))

/-- A call of a function that is decorated with `async_retry`. -/
def asyncRetry (outcome : Nat → Option E) : Report (Raised E) :=
  match validate w a with
  | .error e => ⟨0, some e⟩
  | .ok () =>
    let made := loop (retryOnce w a outcome) (List.range a.maxAttempts.toNat)
    ⟨made.1, made.2.getD (some (.runtimeError "Unreachable"))⟩

/-! ## The context manager -/

/-- The test of the `while` loop, before the `yield`. -/
def atTop (attempt : Int) (delay : D) : Step (Int × D) (Raised E) :=
  if attempt < a.maxAttempts then .yields (attempt, delay) else .stops

/-- The generator, with `attempt` and `current_delay`. -/
def retryGenerator : Generator (Int × D) (Raised E) where
  start := match validate w a with
    | .error e => .raises e
    | .ok () => atTop a 0 a.delay
  next _ := .stops
  throw s raised := match raised with
    | .own e =>
      if catches w a e then
        if a.maxAttempts ≤ s.1 + 1 then .raises (.own e)
        else match w.sleep s.2 with
          | none => atTop a (s.1 + 1) (w.times s.2 a.backoff)
          | some e => .raises (.pause e)
      else .raises (.own e)
    | raised => .raises raised

/-- `async with AsyncContextManager.retry(...)` -/
def retry (outcome : Nat → Option E) : Report (Raised E) :=
  withStatement (fun text => .runtimeError text) (retryGenerator w a) ((outcome 0).map .own)

/-! ## Agreement -/

/-- The body of the block is run as often as the function is called, and an exception that
leaves the block is the last one of its body. -/
structure Agrees (outcome : Nat → Option E) (block function : Report (Raised E)) : Prop where
  attempted : block.attempted = function.attempted
  own : ∀ x, block.leaves = some x →
    ∃ k e, block.attempted = k + 1 ∧ outcome k = some e ∧ x = .own e

/-- The arguments are accepted, and there is but one attempt or the first one does not fail
with an exception that is caught. -/
structure OnceEnough (outcome : Nat → Option E) : Prop where
  valid : validate w a = .ok ()
  once : a.maxAttempts = 1 ∨ ∀ e, outcome 0 = some e → catches w a e = false

variable {w a} {outcome : Nat → Option E}

theorem maxAttempts_pos (h : validate w a = .ok ()) : 0 < a.maxAttempts := by
  unfold validate at h
  split at h
  · cases h
  · omega

/-- A call that ends in its first pass. -/
theorem asyncRetry_first {ending : Option (Raised E)} (h : validate w a = .ok ())
    (hfirst : retryOnce w a outcome 0 = some ending) : asyncRetry w a outcome = ⟨1, ending⟩ := by
  have hpos := maxAttempts_pos h
  have hends : EndsAt (retryOnce w a outcome) a.maxAttempts.toNat 0 ending := by
    refine ⟨by omega, ?_, hfirst⟩
    intro j hj
    omega
  simp only [asyncRetry, h, hends.loop_eq]
  rfl

theorem start_of_valid (h : validate w a = .ok ()) :
    (retryGenerator w a).start = .yields (0, a.delay) := by
  simp only [retryGenerator, h, atTop, if_pos (maxAttempts_pos h)]

theorem agrees_own {e : E} (hout : outcome 0 = some e) :
    Agrees outcome ⟨1, some (.own e)⟩ ⟨1, some (.own e)⟩ := by
  refine ⟨rfl, ?_⟩
  rintro x ⟨⟩
  exact ⟨0, e, rfl, hout, rfl⟩

/-- What else leaves the block is not the body's. -/
theorem not_agrees {made : Nat} {x : Raised E} {function : Report (Raised E)} (h : ∀ e, x ≠ .own e) :
    ¬ Agrees outcome ⟨made, some x⟩ function := by
  intro hagrees
  obtain ⟨k, e, -, -, hx⟩ := hagrees.own x rfl
  exact h e hx

theorem agrees_of_returned (h : validate w a = .ok ()) (hout : outcome 0 = none) :
    Agrees outcome (retry w a outcome) (asyncRetry w a outcome) := by
  have hblock : retry w a outcome = ⟨1, none⟩ := by
    rw [retry, hout]
    exact withStatement_stops (start_of_valid h) rfl
  have hfirst : retryOnce w a outcome 0 = some none := by simp only [retryOnce, hout]
  rw [hblock, asyncRetry_first h hfirst]
  refine ⟨rfl, ?_⟩
  intro x hx
  cases hx

theorem agrees_of_raised (h : validate w a = .ok ()) {e : E} (hout : outcome 0 = some e)
    (hlast : catches w a e = true → a.maxAttempts = 1) :
    Agrees outcome (retry w a outcome) (asyncRetry w a outcome) := by
  have hcases : (retryGenerator w a).throw (0, a.delay) (.own e) = .raises (.own e) ∧
      retryOnce w a outcome 0 = some (some (.own e)) := by
    by_cases hc : catches w a e = true
    · have hmax := hlast hc
      simp [retryGenerator, retryOnce, hout, hc, hmax]
    · simp [retryGenerator, retryOnce, hout, hc]
  have hblock : retry w a outcome = ⟨1, some (.own e)⟩ := by
    rw [retry, hout]
    exact withStatement_thrown (start_of_valid h) hcases.1
  rw [hblock, asyncRetry_first h hcases.2]
  exact agrees_own hout

/-- Where the decorator would retry, the block ends with an exception that is not its own. -/
theorem not_agrees_of_retried (h : validate w a = .ok ()) {e : E} (hout : outcome 0 = some e)
    (hc : catches w a e = true) (hmore : a.maxAttempts ≠ 1) :
    ¬ Agrees outcome (retry w a outcome) (asyncRetry w a outcome) := by
  have hpos := maxAttempts_pos h
  have hmax : ¬ a.maxAttempts ≤ 0 + 1 := by omega
  have htop : 0 + 1 < a.maxAttempts := by omega
  cases hsleep : w.sleep a.delay with
  | some raised =>
    have hthrow : (retryGenerator w a).throw (0, a.delay) (.own e) = .raises (.pause raised) := by
      simp only [retryGenerator, hc, if_true, if_neg hmax, hsleep]
    have hblock : retry w a outcome = ⟨1, some (.pause raised)⟩ := by
      rw [retry, hout]
      exact withStatement_thrown (start_of_valid h) hthrow
    rw [hblock]
    exact not_agrees (by rintro e ⟨⟩)
  | none =>
    have hthrow : (retryGenerator w a).throw (0, a.delay) (.own e) =
        .yields (0 + 1, w.times a.delay a.backoff) := by
      simp only [retryGenerator, hc, if_true, if_neg hmax, hsleep, atTop, if_pos htop]
    have hblock : retry w a outcome =
        ⟨1, some (.runtimeError "generator didn't stop after athrow()")⟩ := by
      rw [retry, hout]
      exact withStatement_yields_again (start_of_valid h) hthrow
    rw [hblock]
    exact not_agrees (by rintro e ⟨⟩)

/-- The block agrees with the decorator exactly when the arguments are accepted and nothing
is retried. -/
theorem agrees_iff_onceEnough (w : Platform E C D) (a : Args C D) (outcome : Nat → Option E) :
    Agrees outcome (retry w a outcome) (asyncRetry w a outcome) ↔ OnceEnough w a outcome := by
  cases h : validate w a with
  | error x =>
    have hown : ∀ e, x ≠ .own e := by
      rintro e rfl
      unfold validate at h
      repeat' split at h
      all_goals cases h
    have hblock : retry w a outcome = ⟨0, some x⟩ := by
      refine withStatement_raises ?_ _
      simp only [retryGenerator, h]
    rw [hblock]
    refine iff_of_false (not_agrees hown) ?_
    rintro ⟨hvalid, -⟩
    rw [h] at hvalid
    cases hvalid
  | ok u =>
    cases hout : outcome 0 with
    | none =>
      refine iff_of_true (agrees_of_returned h hout) ⟨h, .inr ?_⟩
      intro e he
      rw [hout] at he
      cases he
    | some e =>
      by_cases hlast : catches w a e = true → a.maxAttempts = 1
      · refine iff_of_true (agrees_of_raised h hout hlast) ⟨h, ?_⟩
        by_cases hc : catches w a e = true
        · exact .inl (hlast hc)
        · right
          intro e' he'
          rw [hout] at he'
          cases he'
          exact Bool.eq_false_iff.mpr hc
      · obtain ⟨hc, hmore⟩ := Classical.not_imp.mp hlast
        refine iff_of_false (not_agrees_of_retried h hout hc hmore) ?_
        rintro ⟨-, hone | hfalse⟩
        · exact hmore hone
        · rw [hfalse e hout] at hc
          cases hc

/-- One exception class, whole seconds, and sleeping that never raises. -/
def plain : Platform Unit Unit Int where
  isinstance _ _ := true
  negative d := d < 0
  nonpositive d := d ≤ 0
  times d b := d * b
  sleep _ := none

def thrice : Args Unit Int := ⟨3, 1, 2, [some ()]⟩

/-- The body fails twice before it succeeds. -/
def flaky (attempt : Nat) : Option Unit := if attempt < 2 then some () else none

theorem block_not_retried : ¬ Agrees flaky (retry plain thrice flaky) (asyncRetry plain thrice flaky) := by
  intro h
  have hattempted := h.attempted
  revert hattempted
  decide +kernel

end AsyncRetries
