import BtApiBase.PyText
import BtApiBase.Runs

/-!
# Containers that initialise themselves

A getter of a container runs `init_data` first if that has not been done. The flag is set before
the call, so that the getters that `init_data` uses do not run it again, and it is taken back if
the call fails. An access that has to wait for `init_data` is on a stack; whatever happens while
the stack is not empty is done by the innermost call.
-/

namespace AutoInits

open PyText Runs

variable {E : Type}

/-- An object with the mixin: its flag, if it has been set, the accesses that wait for their
`init_data`, the innermost first, how often that has been entered, and what the accesses have
come to. -/
structure AutoInitMixin (E : Type) where
  _initialized : Option Bool
  waiting : List PyStr
  entered : Nat
  answers : List (PyStr × Except E Unit)

/-- An object of which no attribute has been accessed. -/
def AutoInitMixin.fresh (initialized : Option Bool) : AutoInitMixin E := ⟨initialized, [], 0, []⟩

/-- What is looked up raises or is found, and can be called or not. -/
abbrev Lookup (E : Type) := Except E Bool

inductive Act (E : Type) where
  | access (name : PyStr) (attr : Lookup E)
  | initReturns (result : Except E Unit)

/-- `name.startswith("get_")` and none of the names that are left out -/
def isGetter (name : PyStr) : Bool :=
  (u "get_").isPrefixOf name && name ∉ [u "get_event", u "get_event_type", u "get_data"]

def AutoInitMixin.answer (o : AutoInitMixin E) (name : PyStr) (result : Except E Unit) : AutoInitMixin E :=
  { o with answers := o.answers ++ [(name, result)] }

/-- `_ensure_init` for an access, up to the call of `init_data`. -/
def AutoInitMixin._ensureInit (o : AutoInitMixin E) (name : PyStr) : AutoInitMixin E :=
  if !o._initialized.getD false then
    { o with _initialized := some true, waiting := name :: o.waiting, entered := o.entered + 1 }
  else o.answer name (.ok ())

def AutoInitMixin.getattribute (o : AutoInitMixin E) (name : PyStr) (attr : Lookup E) : AutoInitMixin E :=
  match attr with
  | .error e => o.answer name (.error e)
  | .ok callable =>
    if isGetter name && callable then
      let initialized := o._initialized.getD false
      if !initialized then o._ensureInit name else o.answer name (.ok ())
    else o.answer name (.ok ())

/-- The innermost `init_data` is over, and with it `_ensure_init`. -/
def AutoInitMixin.initReturned (o : AutoInitMixin E) (result : Except E Unit) : AutoInitMixin E :=
  match o.waiting, result with
  | [], _ => o
  | name :: waiting, .ok () => { o with waiting := waiting }.answer name (.ok ())
  | name :: waiting, .error e => { o with waiting := waiting, _initialized := some false }.answer name (.error e)

def step (o : AutoInitMixin E) : Act E → AutoInitMixin E
  | .access name attr => o.getattribute name attr
  | .initReturns result => o.initReturned result

/-- The access of a getter that can be called. -/
def Act.getter : Act E → Bool
  | .access name (.ok callable) => isGetter name && callable
  | _ => false

/-- The calls of `init_data` are not nested, what one raises is passed on and the next getter makes
up for it, and one that succeeds is the last. -/
structure Lawful (o : AutoInitMixin E) : Prop where
  single : o.waiting.length ≤ 1
  raised : ∀ name waiting e, o.waiting = name :: waiting →
    (step o (.initReturns (.error e))).answers = o.answers ++ [(name, .error e)]
  again : ∀ e others name, o.waiting ≠ [] → (∀ a ∈ others, a.getter = false) → isGetter name = true →
    (step (run step (step o (.initReturns (.error e))) others) (.access name (.ok true))).waiting = [name]
  once : o.waiting ≠ [] → ∀ acts, (run step (step o (.initReturns (.ok ()))) acts).entered = o.entered

/-! ## Steps -/

section

variable {o : AutoInitMixin E}

theorem access_getter {name : PyStr} (hg : isGetter name = true) (o : AutoInitMixin E) :
    o.getattribute name (.ok true) = o._ensureInit name := by
  unfold AutoInitMixin.getattribute AutoInitMixin._ensureInit
  cases o._initialized.getD false <;> simp [hg]

/-- `init_data` is entered, or an access is answered, or nothing happens, or the innermost
`init_data` is over. -/
theorem step_cases (o : AutoInitMixin E) (a : Act E) :
    (∃ name, a.getter = true ∧ o._initialized.getD false = false ∧
      step o a = { o with _initialized := some true, waiting := name :: o.waiting, entered := o.entered + 1 }) ∨
    (∃ name result, step o a = o.answer name result) ∨
    (o.waiting = [] ∧ step o a = o) ∨
    (∃ name waiting result, o.waiting = name :: waiting ∧ a = .initReturns result) := by
  cases a with
  | access name attr =>
    cases attr with
    | error e => exact .inr (.inl ⟨name, .error e, rfl⟩)
    | ok callable =>
      cases hg : isGetter name && callable with
      | false => exact .inr (.inl ⟨name, .ok (), by simp [step, AutoInitMixin.getattribute, hg]⟩)
      | true =>
        cases hi : o._initialized.getD false with
        | true => exact .inr (.inl ⟨name, .ok (), by simp [step, AutoInitMixin.getattribute, hg, hi]⟩)
        | false =>
          exact .inl ⟨name, hg, rfl, by simp [step, AutoInitMixin.getattribute, AutoInitMixin._ensureInit, hg, hi]⟩
  | initReturns result =>
    cases hw : o.waiting with
    | nil =>
      have hsame : o.initReturned result = o := by
        unfold AutoInitMixin.initReturned
        rw [hw]
      exact .inr (.inr (.inl ⟨rfl, hsame⟩))
    | cons name waiting => exact .inr (.inr (.inr ⟨name, waiting, result, rfl, rfl⟩))

theorem succeeded {name : PyStr} {waiting : List PyStr} (h : o.waiting = name :: waiting) :
    step o (.initReturns (.ok ())) = { o with waiting := waiting }.answer name (.ok ()) := by
  simp only [step, AutoInitMixin.initReturned, h]

theorem failed {name : PyStr} {waiting : List PyStr} (h : o.waiting = name :: waiting) (e : E) :
    step o (.initReturns (.error e)) =
      { o with waiting := waiting, _initialized := some false }.answer name (.error e) := by
  simp only [step, AutoInitMixin.initReturned, h]

/-! ## Runs -/

/-- While `init_data` runs, it is the only one and the flag is set. -/
def Guarded (o : AutoInitMixin E) : Prop :=
  o.waiting = [] ∨ ∃ name, o.waiting = [name] ∧ o._initialized = some true

theorem Guarded.step (h : Guarded o) (a : Act E) : Guarded (step o a) := by
  obtain ⟨name, -, hflag, heq⟩ | ⟨name, result, heq⟩ | ⟨-, heq⟩ | ⟨name, waiting, result, hw, rfl⟩ := step_cases o a
  · rw [heq]
    obtain hw | ⟨other, -, hset⟩ := h
    · exact .inr ⟨name, congrArg (name :: ·) hw, rfl⟩
    · rw [hset] at hflag
      cases hflag
  · rw [heq]
    exact h
  · rw [heq]
    exact h
  · obtain hnone | ⟨other, hone, -⟩ := h
    · rw [hnone] at hw
      cases hw
    · rw [hone] at hw
      obtain ⟨rfl, rfl⟩ := List.cons.inj hw
      left
      cases result with
      | ok _ => rw [succeeded hone]; rfl
      | error e => rw [failed hone]; rfl

theorem guarded_run (initialized : Option Bool) (acts : List (Act E)) :
    Guarded (run step (.fresh initialized) acts) := by
  induction acts using List.reverseRecOn with
  | nil => exact .inl rfl
  | append_singleton acts a ih =>
    rw [run_concat]
    exact ih.step a

/-- `init_data` has succeeded and does not run. -/
structure Done (n : Nat) (o : AutoInitMixin E) : Prop where
  waiting : o.waiting = []
  flag : o._initialized = some true
  entered : o.entered = n

theorem Done.step {n : Nat} (h : Done n o) (a : Act E) : Done n (step o a) := by
  obtain ⟨name, -, hflag, -⟩ | ⟨name, result, heq⟩ | ⟨-, heq⟩ | ⟨name, waiting, result, hw, -⟩ := step_cases o a
  · rw [h.flag] at hflag
    cases hflag
  · rw [heq]
    exact ⟨h.waiting, h.flag, h.entered⟩
  · rw [heq]
    exact h
  · rw [h.waiting] at hw
    cases hw

theorem Done.run {n : Nat} (h : Done n o) (acts : List (Act E)) : Done n (run AutoInits.step o acts) := by
  induction acts generalizing o with
  | nil => exact h
  | cons a acts ih => exact ih (h.step a)

/-- `init_data` has failed and does not run. -/
structure Undone (o : AutoInitMixin E) : Prop where
  waiting : o.waiting = []
  flag : o._initialized = some false

theorem Undone.step (h : Undone o) {a : Act E} (ha : a.getter = false) : Undone (step o a) := by
  obtain ⟨name, hg, -⟩ | ⟨name, result, heq⟩ | ⟨-, heq⟩ | ⟨name, waiting, result, hw, -⟩ := step_cases o a
  · rw [ha] at hg
    cases hg
  · rw [heq]
    exact ⟨h.waiting, h.flag⟩
  · rw [heq]
    exact h
  · rw [h.waiting] at hw
    cases hw

theorem Undone.run (h : Undone o) {others : List (Act E)} (ho : ∀ a ∈ others, a.getter = false) :
    Undone (run AutoInits.step o others) := by
  induction others generalizing o with
  | nil => exact h
  | cons a others ih => exact ih (h.step (ho a List.mem_cons_self)) fun b hb => ho b (List.mem_cons_of_mem _ hb)

theorem Undone.access (h : Undone o) {name : PyStr} (hg : isGetter name = true) :
    (AutoInits.step o (.access name (.ok true))).waiting = [name] := by
  show (o.getattribute name (.ok true)).waiting = [name]
  rw [access_getter hg, AutoInitMixin._ensureInit, h.flag]
  exact congrArg (name :: ·) h.waiting

end

/-- Whatever `init_data` does and in whatever order getters are accessed, it is not entered while it
runs, what it raises goes to the access that has entered it and the next getter enters it
again, and after a success it is not entered any more. -/
theorem inits_lawful (initialized : Option Bool) (acts : List (Act E)) :
    Lawful (run step (.fresh initialized) acts) := by
  have hg := guarded_run initialized acts
  generalize run step (.fresh initialized) acts = o at hg
  constructor
  · obtain hw | ⟨name, hw, -⟩ := hg <;> rw [hw]
    · exact Nat.zero_le 1
    · exact Nat.le_refl 1
  · intro name waiting e hw
    rw [failed hw]
    rfl
  · intro e others name hne hothers hname
    obtain hw | ⟨waiter, hw, -⟩ := hg
    · exact absurd hw hne
    · have hundone : Undone (step o (.initReturns (.error e))) := by
        rw [failed hw]
        exact ⟨rfl, rfl⟩
      exact (hundone.run hothers).access hname
  · intro hne acts
    obtain hw | ⟨waiter, hw, hflag⟩ := hg
    · exact absurd hw hne
    · have hdone : Done o.entered (step o (.initReturns (.ok ()))) := by
        rw [succeeded hw]
        exact ⟨rfl, hflag, rfl⟩
      exact (hdone.run acts).entered

/-- After a failure, an attribute that is named like a getter but cannot be called. -/
theorem uncallable_skipped :
    let o := run step (AutoInitMixin.fresh none)
      [.access (u "get_balance") (.ok true), .initReturns (.error ())]
    isGetter (u "get_count") = true ∧ o.waiting = [] ∧ o._initialized = some false ∧
      (step o (.access (u "get_count") (.ok false))).waiting = [] := by
  refine ⟨?_, rfl, rfl, rfl⟩
  decide

end AutoInits
