import Mathlib.Data.List.Range

/-!
# Loops and generators

A loop over a range whose body ends it with a result or goes on to the next pass:
it ends in the first pass that has a result, and when no pass has one it runs out.
A generator that `contextlib` makes a context manager of: it yields for the body of
the `with` statement, which runs once, and is resumed with the outcome.
-/

namespace PyControl

variable {ε : Type*}

/-- The number of passes that were begun, and the result of the last one. -/
def loop (body : Nat → Option ε) : List Nat → Nat × Option ε
  | [] => (0, none)
  | k :: rest => match body k with
    | some ending => (1, some ending)
    | none => ((loop body rest).1 + 1, (loop body rest).2)

/-- The pass that ends a loop over `n` passes. -/
structure EndsAt (body : Nat → Option ε) (n k : Nat) (ending : ε) : Prop where
  lt : k < n
  before : ∀ j < k, body j = none
  ending : body k = some ending

variable {body : Nat → Option ε} {n k : Nat} {ending : ε}

theorem loop_range' (first left : Nat) (hk : k < left) (hbefore : ∀ j < k, body (first + j) = none)
    (hending : body (first + k) = some ending) :
    loop body (List.range' first left) = (k + 1, some ending) := by
  induction k generalizing first left with
  | zero =>
    obtain ⟨left, rfl⟩ : ∃ l, left = l + 1 := ⟨left - 1, by omega⟩
    have hfirst : body first = some ending := hending
    rw [List.range'_succ, loop, hfirst]
  | succ k ih =>
    obtain ⟨left, rfl⟩ : ∃ l, left = l + 1 := ⟨left - 1, by omega⟩
    have hfirst : body first = none := hbefore 0 (by omega)
    have hrest : loop body (List.range' (first + 1) left) = (k + 1, some ending) := by
      refine ih (first + 1) left (by omega) ?_ ?_
      · intro j hj
        have hnext := hbefore (j + 1) (by omega)
        rwa [show first + (j + 1) = first + 1 + j by omega] at hnext
      · rwa [show first + (k + 1) = first + 1 + k by omega] at hending
    rw [List.range'_succ, loop, hfirst]
    dsimp only
    rw [hrest]

theorem EndsAt.loop_eq (h : EndsAt body n k ending) : loop body (List.range n) = (k + 1, some ending) := by
  rw [List.range_eq_range']
  refine loop_range' 0 n h.lt ?_ ?_
  · intro j hj
    rw [Nat.zero_add]
    exact h.before j hj
  · rw [Nat.zero_add]
    exact h.ending

/-- A loop runs out, or one pass ends it. -/
theorem runs_out_or_ends (body : Nat → Option ε) (n : Nat) :
    (∀ k < n, body k = none) ∨ ∃ k ending, EndsAt body n k ending := by
  induction n with
  | zero =>
    left
    intro k hk
    omega
  | succ n ih =>
    rcases ih with hnone | ⟨k, ending, h⟩
    · cases hn : body n with
      | some ending => exact .inr ⟨n, ending, Nat.lt_succ_self n, hnone, hn⟩
      | none =>
        left
        intro k hk
        rcases Nat.lt_succ_iff_lt_or_eq.mp hk with hlt | rfl
        · exact hnone k hlt
        · exact hn
    · exact .inr ⟨k, ending, Nat.lt_succ_of_lt h.lt, h.before, h.ending⟩

/-! ## Context managers from generators -/

variable {σ : Type*}

inductive Step (σ ε : Type*) where
  | yields (state : σ)
  | stops
  | raises (e : ε)

/-- What a generator does when it is begun, resumed after a `yield`, and resumed by an
exception there. -/
structure Generator (σ ε : Type*) where
  start : Step σ ε
  next : σ → Step σ ε
  throw : σ → ε → Step σ ε

/-- How often a `with` statement runs its body, and the exception that leaves it. -/
structure Report (ε : Type*) where
  attempted : Nat
  leaves : Option ε

/-- A `with` statement over the generator and a body with this outcome. The generator
has to yield once: `runtimeError` is raised when it does not, or does so again. -/
def withStatement (runtimeError : String → ε) (g : Generator σ ε) (outcome : Option ε) : Report ε :=
  match g.start with
  | .stops => ⟨0, some (runtimeError "generator didn't yield")⟩
  | .raises e => ⟨0, some e⟩
  | .yields s => match outcome with
    | none => match g.next s with
      | .stops => ⟨1, none⟩
      | .raises e => ⟨1, some e⟩
      | .yields _ => ⟨1, some (runtimeError "generator didn't stop")⟩
    | some e => match g.throw s e with
      | .stops => ⟨1, none⟩
      | .raises e => ⟨1, some e⟩
      | .yields _ => ⟨1, some (runtimeError "generator didn't stop after athrow()")⟩

variable {runtimeError : String → ε} {g : Generator σ ε} {s : σ}

theorem withStatement_raises {e : ε} (h : g.start = .raises e) (outcome : Option ε) :
    withStatement runtimeError g outcome = ⟨0, some e⟩ := by
  simp only [withStatement, h]

theorem withStatement_stops (h : g.start = .yields s) (hnext : g.next s = .stops) :
    withStatement runtimeError g none = ⟨1, none⟩ := by
  simp only [withStatement, h, hnext]

theorem withStatement_thrown {e e' : ε} (h : g.start = .yields s) (hthrow : g.throw s e = .raises e') :
    withStatement runtimeError g (some e) = ⟨1, some e'⟩ := by
  simp only [withStatement, h, hthrow]

/-- A generator that yields again has broken the protocol. -/
theorem withStatement_yields_again {s' : σ} {e : ε} (h : g.start = .yields s)
    (hthrow : g.throw s e = .yields s') : withStatement runtimeError g (some e) =
      ⟨1, some (runtimeError "generator didn't stop after athrow()")⟩ := by
  simp only [withStatement, h, hthrow]

end PyControl
