import BtApiBase.PyText
import BtApiBase.Runs
import Mathlib.Logic.Function.Basic

/-!
# Lifetimes in the dependency injection container

`DIContainer` keeps a table for each lifetime and the instances of the innermost scope; the
scopes around it are held by the frames of `create_scope`, each of which puts back the one it
replaced. The constructors take no parameters.
-/

namespace DIContainers

open PyText Runs

variable {ι κ : Type} [DecidableEq ι]

/-- An instance is known by the number of the construction it comes from; others come from the
program. -/
inductive Object (κ : Type) where
  | made (serial : Nat) (implementation : κ)
  | given (object : Nat)
  deriving DecidableEq, Repr

/-- `raise ValueError(f"Service {interface} not registered")` -/
structure NotRegistered (ι : Type) where
  interface : ι
  deriving DecidableEq

def NotRegistered.message (str : ι → PyStr) (e : NotRegistered ι) : PyStr :=
  u "Service " ++ str e.interface ++ u " not registered"

abbrev Table (ι α : Type) := ι → Option α

structure DIContainer (ι κ : Type) where
  _services : Table ι κ := fun _ => none
  _factories : Table ι κ := fun _ => none
  _singletons : Table ι (Object κ) := fun _ => none
  _scopedServices : Table ι κ := fun _ => none
  _currentScope : Option (Table ι (Object κ)) := none
  /-- How many instances have been constructed. -/
  made : Nat := 0

def put {α : Type} (table : Table ι α) (i : ι) (x : α) : Table ι α := Function.update table i (some x)
def pop {α : Type} (table : Table ι α) (i : ι) : Table ι α := Function.update table i none

section tables

variable {α : Type} (table : Table ι α) (i : ι) (x : α)

@[simp] theorem put_same : put table i x i = some x := Function.update_self ..
@[simp] theorem pop_same : pop table i i = none := Function.update_self ..

variable {i} {j : ι}

theorem put_other (h : j ≠ i) : put table i x j = table j := Function.update_of_ne h ..
theorem pop_other (h : j ≠ i) : pop table i j = table j := Function.update_of_ne h ..

end tables

namespace DIContainer

variable (c : DIContainer ι κ) (interface : ι)

def _clearRegistration : DIContainer ι κ := { c with
  _services := pop c._services interface
  _factories := pop c._factories interface
  _singletons := pop c._singletons interface
  _scopedServices := pop c._scopedServices interface
  _currentScope := c._currentScope.map (pop · interface) }

def registerSingleton (implementation : κ) : DIContainer ι κ :=
  let c := c._clearRegistration interface
  { c with _services := put c._services interface implementation }

def registerTransient (implementation : κ) : DIContainer ι κ :=
  let c := c._clearRegistration interface
  { c with _factories := put c._factories interface implementation }

def registerScoped (implementation : κ) : DIContainer ι κ :=
  let c := c._clearRegistration interface
  { c with _scopedServices := put c._scopedServices interface implementation }

def registerInstance (object : Object κ) : DIContainer ι κ :=
  let c := c._clearRegistration interface
  { c with _singletons := put c._singletons interface object }

def _createInstance (implementation : κ) : Object κ × DIContainer ι κ :=
  (.made c.made implementation, { c with made := c.made + 1 })

def resolve : Except (NotRegistered ι) (Object κ) × DIContainer ι κ :=
  match c._singletons interface with
  | some instance_ => (.ok instance_, c)
  | none =>
  match c._scopedServices interface with
  | some implementation =>
    match c._currentScope.bind (· interface) with
    | some instance_ => (.ok instance_, c)
    | none =>
      let (instance_, c) := c._createInstance implementation
      (.ok instance_, { c with _currentScope := c._currentScope.map (put · interface instance_) })
  | none =>
  match c._services interface with
  | some implementation =>
    let (instance_, c) := c._createInstance implementation
    (.ok instance_, { c with _singletons := put c._singletons interface instance_ })
  | none =>
  match c._factories interface with
  | some implementation =>
    let (instance_, c) := c._createInstance implementation
    (.ok instance_, c)
  | none => (.error ⟨interface⟩, c)

def clear : DIContainer ι κ := { made := c.made }

end DIContainer

/-! ## Runs -/

inductive Lifetime (κ : Type) where
  | singleton (implementation : κ)
  | transient (implementation : κ)
  | inScope (implementation : κ)
  | given (object : Object κ)
  deriving DecidableEq

def DIContainer.register (c : DIContainer ι κ) (interface : ι) : Lifetime κ → DIContainer ι κ
  | .singleton implementation => c.registerSingleton interface implementation
  | .transient implementation => c.registerTransient interface implementation
  | .inScope implementation => c.registerScoped interface implementation
  | .given object => c.registerInstance interface object

/-- A registration, by its number among all of them. -/
structure Registration (κ : Type) where
  epoch : Nat
  lifetime : Lifetime κ
  deriving DecidableEq

/-- A block of `create_scope` that is open, and the scope it puts back. -/
structure Block (ι κ : Type) where
  id : Nat
  oldScope : Option (Table ι (Object κ))

/-- One `resolve`: the registration that was the last one then, and the innermost block. -/
structure Answer (ι κ : Type) where
  interface : ι
  registration : Option (Registration κ)
  block : Option Nat
  result : Except (NotRegistered ι) (Object κ)

structure World (ι κ : Type) where
  container : DIContainer ι κ := {}
  blocks : List (Block ι κ) := []
  opened : Nat := 0
  registration : ι → Option (Registration κ) := fun _ => none
  registered : Nat := 0
  answers : List (Answer ι κ) := []

inductive Label (ι κ : Type) where
  | register (interface : ι) (lifetime : Lifetime κ)
  | resolve (interface : ι)
  | enter
  | exit
  | clear

namespace World

variable (w : World ι κ)

def register (interface : ι) (lifetime : Lifetime κ) : World ι κ := { w with
  container := w.container.register interface lifetime
  registration := Function.update w.registration interface (some ⟨w.registered, lifetime⟩)
  registered := w.registered + 1 }

def answer (interface : ι) : Answer ι κ :=
  ⟨interface, w.registration interface, w.blocks.head?.map Block.id, (w.container.resolve interface).1⟩

def resolve (interface : ι) : World ι κ := { w with
  container := (w.container.resolve interface).2
  answers := w.answers ++ [w.answer interface] }

def enter : World ι κ := { w with
  container := { w.container with _currentScope := some (fun _ => none) }
  blocks := ⟨w.opened, w.container._currentScope⟩ :: w.blocks
  opened := w.opened + 1 }

def exit : World ι κ :=
  match w.blocks with
  | [] => w
  | b :: rest => { w with
      container := { w.container with _currentScope := b.oldScope }
      blocks := rest }

def clear : World ι κ := { w with
  container := w.container.clear
  registration := fun _ => none }

def step : Label ι κ → World ι κ
  | .register interface lifetime => w.register interface lifetime
  | .resolve interface => w.resolve interface
  | .enter => w.enter
  | .exit => w.exit
  | .clear => w.clear

end World

def after (ls : List (Label ι κ)) : World ι κ := run World.step {} ls

/-! ## What the lifetimes promise -/

/-- What a registration may give. -/
def Lifetime.Gives (o : Object κ) : Lifetime κ → Prop
  | .given object => o = object
  | .singleton implementation => ∃ serial, o = .made serial implementation
  | .transient implementation => ∃ serial, o = .made serial implementation
  | .inScope implementation => ∃ serial, o = .made serial implementation

namespace Answer

variable (a : Answer ι κ)

/-- The answer is what the last registration gives, or an error. -/
def Fits : Prop :=
  match a.registration with
  | none => a.result = .error ⟨a.interface⟩
  | some r => ∃ o, a.result = .ok o ∧ r.lifetime.Gives o

/-- The instance is one that the container has constructed. -/
def Built : Prop := ∃ r, a.registration = some r ∧ ∀ object, r.lifetime ≠ .given object

/-- What the answers have to share to be the same instance: the registration of a singleton, and
for a scoped service the block, too. -/
def cell : Option (Nat × Option Nat) :=
  match a.registration with
  | some ⟨epoch, .singleton _⟩ => some (epoch, none)
  | some ⟨epoch, .inScope _⟩ => a.block.map (fun b => (epoch, some b))
  | _ => none

def Separate (b : Answer ι κ) : Prop :=
  a.Built → b.Built → (a.result = b.result ↔ a.cell = b.cell ∧ a.cell ≠ none)

end Answer

structure Right (answers : List (Answer ι κ)) : Prop where
  fits : ∀ a ∈ answers, a.Fits
  separate : answers.Pairwise Answer.Separate

/-- A scoped service is registered only while no scope around the innermost one holds an instance
of it, and the container is cleared only outside every block. -/
def Quiet (w : World ι κ) : Label ι κ → Prop
  | .register interface (.inScope _) => ∀ b ∈ w.blocks, b.oldScope.bind (· interface) = none
  | .clear => w.blocks = []
  | _ => True

instance decidableQuiet [DecidableEq κ] (w : World ι κ) (l : Label ι κ) : Decidable (Quiet w l) :=
  match l with
  | .register interface (.inScope _) =>
    inferInstanceAs (Decidable (∀ b ∈ w.blocks, b.oldScope.bind (· interface) = none))
  | .clear => decidable_of_iff (w.blocks.isEmpty = true) List.isEmpty_iff
  | .register _ (.singleton _) => isTrue trivial
  | .register _ (.transient _) => isTrue trivial
  | .register _ (.given _) => isTrue trivial
  | .resolve _ => isTrue trivial
  | .enter => isTrue trivial
  | .exit => isTrue trivial

/-! ## The cells -/

/-- The scopes of the open blocks, the innermost first. -/
def scopesOf : Option (Table ι (Object κ)) → List (Block ι κ) → List (Nat × Table ι (Object κ))
  | some scope, b :: rest => (b.id, scope) :: scopesOf b.oldScope rest
  | _, _ => []

def World.scopes (w : World ι κ) : List (Nat × Table ι (Object κ)) :=
  scopesOf w.container._currentScope w.blocks

/-- Every open block has its scope, and there is none outside them. -/
def Nested : Option (Table ι (Object κ)) → List (Block ι κ) → Prop
  | current, [] => current = none
  | current, b :: rest => current.isSome ∧ Nested b.oldScope rest

/-- The place where the instance of a singleton is kept, or that of a scoped service in a block,
and what it holds. -/
inductive Holds (w : World ι κ) : κ → Nat × Option Nat → Option (Object κ) → Prop
  | ofSingleton {i : ι} {epoch : Nat} {implementation : κ}
      (h : w.registration i = some ⟨epoch, .singleton implementation⟩) :
      Holds w implementation (epoch, none) (w.container._singletons i)
  | ofScoped {i : ι} {epoch : Nat} {implementation : κ} {b : Nat} {scope : Table ι (Object κ)}
      (h : w.registration i = some ⟨epoch, .inScope implementation⟩) (hscope : (b, scope) ∈ w.scopes) :
      Holds w implementation (epoch, some b) (scope i)

/-- A cell is empty as long as nothing has been answered from it, and holds what was answered
from it and nowhere else. -/
def CellOk (answers : List (Answer ι κ)) (made : Nat) (implementation : κ) (cell : Nat × Option Nat) :
    Option (Object κ) → Prop
  | none => ∀ a ∈ answers, a.cell ≠ some cell
  | some o => (∃ serial < made, o = .made serial implementation) ∧
      (∃ a ∈ answers, a.Built ∧ a.result = .ok o) ∧
      ∀ a ∈ answers, a.Built → (a.result = .ok o ↔ a.cell = some cell)

/-- The tables hold what is registered under an interface, and nothing else. -/
def Tabled (c : DIContainer ι κ) (i : ι) : Option (Registration κ) → Prop
  | none => c._singletons i = none ∧ c._scopedServices i = none ∧ c._services i = none ∧
      c._factories i = none
  | some ⟨_, .given object⟩ => c._singletons i = some object
  | some ⟨_, .singleton implementation⟩ => c._scopedServices i = none ∧
      c._services i = some implementation
  | some ⟨_, .inScope implementation⟩ => c._singletons i = none ∧
      c._scopedServices i = some implementation
  | some ⟨_, .transient implementation⟩ => c._singletons i = none ∧ c._scopedServices i = none ∧
      c._services i = none ∧ c._factories i = some implementation

/-- What every quiet run keeps. -/
structure Inv (w : World ι κ) : Prop where
  nested : Nested w.container._currentScope w.blocks
  tabled : ∀ i, Tabled w.container i (w.registration i)
  cells : ∀ implementation cell content, Holds w implementation cell content →
    CellOk w.answers w.container.made implementation cell content
  built : ∀ a ∈ w.answers, a.Built →
    ∃ serial implementation, a.result = .ok (.made serial implementation) ∧ serial < w.container.made
  known : ∀ b scope, (b, scope) ∈ w.scopes → ∀ i o, scope i = some o →
    ∃ a ∈ w.answers, a.Built ∧ a.result = .ok o
  past : ∀ a ∈ w.answers, ∀ r, a.registration = some r → r.epoch < w.registered
  current : ∀ i r, w.registration i = some r → r.epoch < w.registered
  distinct : ∀ i j r t, w.registration i = some r → w.registration j = some t → r.epoch = t.epoch → i = j
  closed : ∀ a ∈ w.answers, ∀ b, a.block = some b → b < w.opened
  blocks : (w.blocks.map Block.id).Pairwise (· > ·)
  opened : ∀ b ∈ w.blocks, b.id < w.opened
  right : Right w.answers

omit [DecidableEq ι] in
theorem inv_new : Inv ({} : World ι κ) := by
  refine ⟨rfl, fun _ => ⟨rfl, rfl, rfl, rfl⟩, ?_, ?_, ?_, ?_, ?_, ?_, ?_, ?_, ?_, ⟨?_, ?_⟩⟩
  · intro implementation cell content h
    cases h with
    | ofSingleton h => cases h
    | ofScoped h => cases h
  · intro a ha
    cases ha
  · intro b scope h
    cases h
  · intro a ha
    cases ha
  · intro i r h
    cases h
  · intro i j r t h
    cases h
  · intro a ha
    cases ha
  · exact List.Pairwise.nil
  · intro b hb
    cases hb
  · intro a ha
    cases ha
  · exact List.Pairwise.nil

/-! ## Blocks -/

omit [DecidableEq ι] in
theorem mem_scopesOf {current : Option (Table ι (Object κ))} {blocks : List (Block ι κ)} {b : Nat}
    {scope : Table ι (Object κ)} (h : (b, scope) ∈ scopesOf current blocks) :
    b ∈ blocks.map Block.id := by
  induction blocks generalizing current with
  | nil => cases current <;> cases h
  | cons x rest ih =>
    cases current with
    | none => cases h
    | some top =>
      rcases List.mem_cons.mp h with heq | h
      · cases heq
        exact List.mem_cons_self
      · exact List.mem_cons_of_mem _ (ih h)

omit [DecidableEq ι] in
theorem cell_block {a : Answer ι κ} {epoch b : Nat} (h : a.cell = some (epoch, some b)) :
    a.block = some b := by
  unfold Answer.cell at h
  split at h
  · cases h
  · obtain ⟨x, hx, heq⟩ := Option.map_eq_some_iff.mp h
    cases heq
    exact hx
  · cases h

omit [DecidableEq ι] in
theorem cell_epoch {a : Answer ι κ} {epoch : Nat} {b : Option Nat} (h : a.cell = some (epoch, b)) :
    ∃ r, a.registration = some r ∧ r.epoch = epoch := by
  unfold Answer.cell at h
  split at h
  · next e _ hr =>
    cases h
    exact ⟨_, hr, rfl⟩
  · next e _ hr =>
    obtain ⟨x, -, heq⟩ := Option.map_eq_some_iff.mp h
    cases heq
    exact ⟨_, hr, rfl⟩
  · cases h

omit [DecidableEq ι] in
/-- An epoch that is to come has no answers. -/
theorem Inv.cell_future {w : World ι κ} (h : Inv w) (b : Option Nat) :
    ∀ a ∈ w.answers, a.cell ≠ some (w.registered, b) := by
  intro a ha hcell
  obtain ⟨r, hr, hepoch⟩ := cell_epoch hcell
  have hlt := h.past a ha r hr
  omega

omit [DecidableEq ι] in
theorem Inv.enter {w : World ι κ} (h : Inv w) : Inv w.enter := by
  refine ⟨⟨rfl, h.nested⟩, h.tabled, ?_, h.built, ?_, h.past, h.current, h.distinct, ?_, ?_, ?_, h.right⟩
  · intro implementation cell content hholds
    cases hholds with
    | ofSingleton hr => exact h.cells _ _ _ (.ofSingleton hr)
    | ofScoped hr hscope =>
      rcases List.mem_cons.mp hscope with heq | hscope
      · -- a new block has no answers
        cases heq
        intro a ha hcell
        have hlt := h.closed a ha _ (cell_block hcell)
        exact Nat.lt_irrefl _ hlt
      · exact h.cells _ _ _ (.ofScoped hr hscope)
  · intro b scope hscope i o ho
    rcases List.mem_cons.mp hscope with heq | hscope
    · cases heq
      cases ho
    · exact h.known b scope hscope i o ho
  · intro a ha b hb
    have hlt := h.closed a ha b hb
    exact Nat.lt_succ_of_lt hlt
  · apply List.pairwise_cons.mpr
    refine ⟨?_, h.blocks⟩
    intro b hb
    obtain ⟨x, hx, rfl⟩ := List.mem_map.mp hb
    exact h.opened x hx
  · intro b hb
    rcases List.mem_cons.mp hb with rfl | hb
    · exact Nat.lt_succ_self _
    · exact Nat.lt_succ_of_lt (h.opened b hb)

omit [DecidableEq ι] in
theorem Inv.exit {w : World ι κ} (h : Inv w) : Inv w.exit := by
  cases hblocks : w.blocks with
  | nil =>
    have hsame : w.exit = w := by simp only [World.exit, hblocks]
    rw [hsame]
    exact h
  | cons b rest =>
    have hexit : w.exit = { w with
        container := { w.container with _currentScope := b.oldScope }
        blocks := rest } := by simp only [World.exit, hblocks]
    have hnested := h.nested
    rw [hblocks] at hnested
    obtain ⟨scope, hscope⟩ := Option.isSome_iff_exists.mp hnested.1
    have hscopes : w.scopes = (b.id, scope) :: w.exit.scopes := by
      rw [hexit, World.scopes, hblocks, hscope]
      rfl
    have hmem : ∀ p ∈ w.exit.scopes, p ∈ w.scopes := by
      intro p hp
      rw [hscopes]
      exact List.mem_cons_of_mem _ hp
    have horder := h.blocks
    rw [hblocks] at horder
    rw [hexit] at hmem ⊢
    refine ⟨hnested.2, h.tabled, ?_, h.built, ?_, h.past, h.current, h.distinct, h.closed, ?_, ?_, h.right⟩
    · intro implementation cell content hholds
      cases hholds with
      | ofSingleton hr => exact h.cells _ _ _ (.ofSingleton hr)
      | ofScoped hr hscope => exact h.cells _ _ _ (.ofScoped hr (hmem _ hscope))
    · intro x scope hscope
      exact h.known x scope (hmem _ hscope)
    · exact (List.pairwise_cons.mp horder).2
    · intro x hx
      exact h.opened x (by rw [hblocks]; exact List.mem_cons_of_mem b hx)

omit [DecidableEq ι] in
theorem Inv.clear {w : World ι κ} (h : Inv w) (hquiet : w.blocks = []) : Inv w.clear := by
  have hscopes : w.clear.scopes = [] := by
    simp [World.scopes, World.clear, DIContainer.clear, hquiet, scopesOf]
  refine ⟨?_, fun _ => ⟨rfl, rfl, rfl, rfl⟩, ?_, h.built, ?_, h.past, ?_, ?_, h.closed, h.blocks, h.opened,
    h.right⟩
  · show Nested none w.blocks
    rw [hquiet]
    rfl
  · intro implementation cell content hholds
    cases hholds with
    | ofSingleton hr => cases hr
    | ofScoped hr => cases hr
  · intro b scope hscope
    rw [hscopes] at hscope
    cases hscope
  · intro i r hr
    cases hr
  · intro i j r t hr
    cases hr

/-! ## Registrations -/

omit [DecidableEq ι] in
theorem old_of_mem {old : Option (Table ι (Object κ))} {blocks : List (Block ι κ)} {x : Nat}
    {scope : Table ι (Object κ)} (h : (x, scope) ∈ scopesOf old blocks) :
    old = some scope ∨ ∃ b ∈ blocks, b.oldScope = some scope := by
  induction blocks generalizing old with
  | nil => cases old <;> cases h
  | cons b rest ih =>
    cases old with
    | none => cases h
    | some top =>
      rcases List.mem_cons.mp h with heq | h
      · cases heq
        exact .inl rfl
      · right
        rcases ih h with hold | ⟨c, hc, hold⟩
        · exact ⟨b, List.mem_cons_self, hold⟩
        · exact ⟨c, List.mem_cons_of_mem b hc, hold⟩

section register

variable (c : DIContainer ι κ) (i : ι) (l : Lifetime κ)

@[simp] theorem register_current :
    (c.register i l)._currentScope = c._currentScope.map (pop · i) := by
  cases l <;> rfl

@[simp] theorem register_made : (c.register i l).made = c.made := by
  cases l <;> rfl

variable {i}

theorem register_other {j : ι} (h : j ≠ i) {r : Option (Registration κ)} (ht : Tabled c j r) :
    Tabled (c.register i l) j r := by
  have hsame : (c.register i l)._singletons j = c._singletons j ∧
      (c.register i l)._scopedServices j = c._scopedServices j ∧
      (c.register i l)._services j = c._services j ∧ (c.register i l)._factories j = c._factories j := by
    cases l <;>
      simp [DIContainer.register, DIContainer.registerSingleton, DIContainer.registerTransient,
        DIContainer.registerScoped, DIContainer.registerInstance, DIContainer._clearRegistration,
        put_other _ _ h, pop_other _ h]
  obtain ⟨hsingletons, hscoped, hservices, hfactories⟩ := hsame
  unfold Tabled at ht ⊢
  rw [hsingletons, hscoped, hservices, hfactories]
  exact ht

theorem register_tabled (i : ι) (epoch : Nat) : Tabled (c.register i l) i (some ⟨epoch, l⟩) := by
  cases l <;>
    simp [Tabled, DIContainer.register, DIContainer.registerSingleton, DIContainer.registerTransient,
      DIContainer.registerScoped, DIContainer.registerInstance, DIContainer._clearRegistration]

theorem register_singletons_none (i : ι) (implementation : κ) :
    (c.register i (.singleton implementation))._singletons i = none := by
  simp [DIContainer.register, DIContainer.registerSingleton, DIContainer._clearRegistration]

theorem register_singletons_other {j : ι} (h : j ≠ i) :
    (c.register i l)._singletons j = c._singletons j := by
  cases l <;>
    simp [DIContainer.register, DIContainer.registerSingleton, DIContainer.registerTransient,
      DIContainer.registerScoped, DIContainer.registerInstance, DIContainer._clearRegistration,
      put_other _ _ h, pop_other _ h]

end register

/-- A registration removes its interface from the innermost scope and from no other. -/
theorem mem_scopes_register {w : World ι κ} {i : ι} {l : Lifetime κ} {x : Nat}
    {scope : Table ι (Object κ)} (h : (x, scope) ∈ (w.register i l).scopes) :
    ∃ before, (x, before) ∈ w.scopes ∧
      (scope = pop before i ∨ scope = before ∧ ∃ b ∈ w.blocks, b.oldScope = some before) := by
  have hscopes : (w.register i l).scopes = scopesOf (w.container._currentScope.map (pop · i)) w.blocks := by
    simp [World.scopes, World.register]
  rw [hscopes] at h
  unfold World.scopes
  cases hblocks : w.blocks with
  | nil =>
    rw [hblocks] at h
    cases hcurrent : w.container._currentScope <;> rw [hcurrent] at h <;> cases h
  | cons b rest =>
    rw [hblocks] at h
    cases hcurrent : w.container._currentScope with
    | none =>
      rw [hcurrent] at h
      cases h
    | some top =>
      rw [hcurrent] at h
      rcases List.mem_cons.mp h with heq | h
      · cases heq
        exact ⟨top, List.mem_cons_self, .inl rfl⟩
      · refine ⟨scope, List.mem_cons_of_mem _ h, .inr ⟨rfl, ?_⟩⟩
        rcases old_of_mem h with hold | ⟨c, hc, hold⟩
        · exact ⟨b, List.mem_cons_self, hold⟩
        · exact ⟨c, List.mem_cons_of_mem b hc, hold⟩

omit [DecidableEq ι] in
theorem Nested.map {current : Option (Table ι (Object κ))} {blocks : List (Block ι κ)}
    (h : Nested current blocks) (f : Table ι (Object κ) → Table ι (Object κ)) :
    Nested (current.map f) blocks := by
  cases blocks with
  | nil =>
    have hnone : current = none := h
    rw [hnone]
    rfl
  | cons b rest =>
    refine ⟨?_, h.2⟩
    rw [Option.isSome_map]
    exact h.1

theorem registration_register_self (w : World ι κ) (i : ι) (l : Lifetime κ) :
    (w.register i l).registration i = some ⟨w.registered, l⟩ :=
  Function.update_self ..

theorem registration_register_other (w : World ι κ) {i j : ι} (l : Lifetime κ) (h : j ≠ i) :
    (w.register i l).registration j = w.registration j :=
  Function.update_of_ne h ..

/-- What is registered after a registration: this one, or what was there. -/
theorem registration_cases {w : World ι κ} {i j : ι} {l : Lifetime κ} {r : Registration κ}
    (h : (w.register i l).registration j = some r) :
    j = i ∧ r = ⟨w.registered, l⟩ ∨ j ≠ i ∧ w.registration j = some r := by
  by_cases hj : j = i
  · subst j
    rw [registration_register_self] at h
    exact .inl ⟨rfl, (Option.some.inj h).symm⟩
  · rw [registration_register_other w l hj] at h
    exact .inr ⟨hj, h⟩

theorem Inv.current_register {w : World ι κ} (h : Inv w) {i j : ι} {l : Lifetime κ} {r : Registration κ}
    (hr : (w.register i l).registration j = some r) : r.epoch < w.registered + 1 := by
  rcases registration_cases hr with ⟨-, rfl⟩ | ⟨-, hr⟩
  · exact Nat.lt_succ_self _
  · exact Nat.lt_succ_of_lt (h.current j r hr)

theorem Inv.distinct_register {w : World ι κ} (h : Inv w) {i j k : ι} {l : Lifetime κ} {r t : Registration κ}
    (hr : (w.register i l).registration j = some r) (ht : (w.register i l).registration k = some t)
    (hepoch : r.epoch = t.epoch) : j = k := by
  rcases registration_cases hr with ⟨rfl, rfl⟩ | ⟨-, hj⟩ <;> rcases registration_cases ht with ⟨rfl, rfl⟩ | ⟨-, hk⟩
  · rfl
  · have hlt := h.current k t hk
    exact absurd hepoch.symm (Nat.ne_of_lt hlt)
  · have hlt := h.current j r hj
    exact absurd hepoch (Nat.ne_of_lt hlt)
  · exact h.distinct j k r t hj hk hepoch

/-- The cells of the new registration are empty, the others hold what they held. -/
theorem Inv.cells_register {w : World ι κ} (h : Inv w) {i : ι} {l : Lifetime κ} (hquiet : Quiet w (.register i l))
    {implementation : κ} {cell : Nat × Option Nat} {content : Option (Object κ)}
    (hholds : Holds (w.register i l) implementation cell content) :
    CellOk w.answers w.container.made implementation cell content := by
  cases hholds with
  | @ofSingleton j epoch _ hr =>
    rcases registration_cases hr with ⟨rfl, heq⟩ | ⟨hj, hr⟩
    · obtain ⟨rfl, rfl⟩ : epoch = w.registered ∧ .singleton implementation = l := by simpa using heq
      have hnone : (w.register j (.singleton implementation)).container._singletons j = none :=
        register_singletons_none ..
      rw [hnone]
      exact h.cell_future none
    · have hsame : (w.register i l).container._singletons j = w.container._singletons j :=
        register_singletons_other _ _ hj
      rw [hsame]
      exact h.cells _ _ _ (.ofSingleton hr)
  | @ofScoped j epoch _ b scope hr hscope =>
    obtain ⟨before, hbefore, hcases⟩ := mem_scopes_register hscope
    rcases registration_cases hr with ⟨rfl, heq⟩ | ⟨hj, hr⟩
    · obtain ⟨rfl, rfl⟩ : epoch = w.registered ∧ .inScope implementation = l := by simpa using heq
      have hnone : scope j = none := by
        rcases hcases with rfl | ⟨rfl, x, hx, hold⟩
        · exact pop_same ..
        · have hbind := hquiet x hx
          rw [hold] at hbind
          exact hbind
      rw [hnone]
      exact h.cell_future (some b)
    · have hsame : scope j = before j := by
        rcases hcases with rfl | ⟨rfl, -⟩
        · exact pop_other _ hj
        · rfl
      rw [hsame]
      exact h.cells _ _ _ (.ofScoped hr hbefore)

/-- What a scope has after a registration, one had before. -/
theorem known_register {w : World ι κ} {i j : ι} {l : Lifetime κ} {b : Nat} {scope : Table ι (Object κ)}
    {o : Object κ} (hscope : (b, scope) ∈ (w.register i l).scopes) (ho : scope j = some o) :
    ∃ before, (b, before) ∈ w.scopes ∧ before j = some o := by
  obtain ⟨before, hbefore, hcases⟩ := mem_scopes_register hscope
  refine ⟨before, hbefore, ?_⟩
  rcases hcases with rfl | ⟨rfl, -⟩
  · by_cases hj : j = i
    · subst j
      rw [pop_same] at ho
      cases ho
    · rw [pop_other _ hj] at ho
      exact ho
  · exact ho

theorem Inv.register {w : World ι κ} (h : Inv w) (i : ι) (l : Lifetime κ)
    (hquiet : Quiet w (.register i l)) : Inv (w.register i l) := by
  have hmade : (w.register i l).container.made = w.container.made := register_made ..
  refine ⟨?_, ?_, ?_, ?_, ?_, ?_, ?_, ?_, h.closed, h.blocks, h.opened, h.right⟩
  · show Nested (w.container.register i l)._currentScope w.blocks
    rw [register_current]
    exact h.nested.map _
  · intro j
    by_cases hj : j = i
    · subst j
      rw [registration_register_self]
      exact register_tabled ..
    · rw [registration_register_other w l hj]
      exact register_other _ _ hj (h.tabled j)
  · intro implementation cell content hholds
    rw [hmade]
    exact h.cells_register hquiet hholds
  · intro a ha hbuilt
    rw [hmade]
    exact h.built a ha hbuilt
  · intro b scope hscope j o ho
    obtain ⟨before, hbefore, ho⟩ := known_register hscope ho
    exact h.known b before hbefore j o ho
  · intro a ha r hr
    exact Nat.lt_succ_of_lt (h.past a ha r hr)
  · intro j r hr
    exact h.current_register hr
  · intro j k r t hr ht hepoch
    exact h.distinct_register hr ht hepoch

/-! ## Answers -/

omit [DecidableEq ι] in
theorem CellOk.concat {answers : List (Answer ι κ)} {made : Nat} {implementation : κ}
    {cell : Nat × Option Nat} {content : Option (Object κ)}
    (h : CellOk answers made implementation cell content) {a : Answer ι κ} {more : Nat} (hmore : made ≤ more)
    (hempty : content = none → a.cell ≠ some cell)
    (hfull : ∀ o, content = some o → a.Built → (a.result = .ok o ↔ a.cell = some cell)) :
    CellOk (answers ++ [a]) more implementation cell content := by
  cases content with
  | none =>
    intro x hx
    rcases List.mem_append.mp hx with hx | hx
    · exact h x hx
    · obtain rfl := List.mem_singleton.mp hx
      exact hempty rfl
  | some o =>
    obtain ⟨⟨serial, hlt, ho⟩, ⟨y, hy, hbuilt, hresult⟩, hall⟩ := h
    refine ⟨⟨serial, Nat.lt_of_lt_of_le hlt hmore, ho⟩, ⟨y, List.mem_append_left _ hy, hbuilt, hresult⟩, ?_⟩
    intro x hx
    rcases List.mem_append.mp hx with hx | hx
    · exact hall x hx
    · obtain rfl := List.mem_singleton.mp hx
      exact hfull o rfl

omit [DecidableEq ι] in
theorem Right.concat {answers : List (Answer ι κ)} (h : Right answers) {a : Answer ι κ} (hfits : a.Fits)
    (hseparate : ∀ x ∈ answers, x.Separate a) : Right (answers ++ [a]) := by
  constructor
  · intro x hx
    rcases List.mem_append.mp hx with hx | hx
    · exact h.fits x hx
    · obtain rfl := List.mem_singleton.mp hx
      exact hfits
  · apply List.pairwise_append.mpr
    refine ⟨h.separate, List.pairwise_singleton _ _, ?_⟩
    intro x hx y hy
    obtain rfl := List.mem_singleton.mp hy
    exact hseparate x hx

/-- The world after an answer, for what the answer may have changed in the container. -/
theorem Inv.answered {w : World ι κ} (h : Inv w) {i : ι} {c : DIContainer ι κ}
    (hc : (w.container.resolve i).2 = c) (hmade : w.container.made ≤ c.made)
    (hnested : Nested c._currentScope w.blocks) (htabled : ∀ j, Tabled c j (w.registration j))
    (hcells : ∀ implementation cell content, Holds (w.resolve i) implementation cell content →
      CellOk (w.answers ++ [w.answer i]) c.made implementation cell content)
    (hbuilt : (w.answer i).Built →
      ∃ serial implementation, (w.answer i).result = .ok (.made serial implementation) ∧ serial < c.made)
    (hknown : ∀ b scope, (b, scope) ∈ (w.resolve i).scopes → ∀ j o, scope j = some o →
      ∃ a ∈ w.answers ++ [w.answer i], a.Built ∧ a.result = .ok o)
    (hright : Right (w.answers ++ [w.answer i])) : Inv (w.resolve i) := by
  subst c
  refine ⟨hnested, htabled, hcells, ?_, hknown, ?_, h.current, h.distinct, ?_, h.blocks, h.opened, hright⟩
  · intro a ha ha'
    rcases List.mem_append.mp ha with ha | ha
    · obtain ⟨serial, implementation, hresult, hlt⟩ := h.built a ha ha'
      exact ⟨serial, implementation, hresult, Nat.lt_of_lt_of_le hlt hmade⟩
    · obtain rfl := List.mem_singleton.mp ha
      exact hbuilt ha'
  · intro a ha r hr
    rcases List.mem_append.mp ha with ha | ha
    · exact h.past a ha r hr
    · obtain rfl := List.mem_singleton.mp ha
      exact h.current i r hr
  · intro a ha b hb
    rcases List.mem_append.mp ha with ha | ha
    · exact h.closed a ha b hb
    · obtain rfl := List.mem_singleton.mp ha
      obtain ⟨x, hx, rfl⟩ := Option.map_eq_some_iff.mp hb
      exact h.opened x (List.mem_of_head? hx)

/-- An answer that leaves the container as it is: no instance of the container, or what a cell
holds. -/
theorem Inv.repeated {w : World ι κ} (h : Inv w) {i : ι}
    (hc : (w.container.resolve i).2 = w.container) (hfits : (w.answer i).Fits)
    (hbuilt : (w.answer i).Built → ∃ implementation cell o, Holds w implementation cell (some o) ∧
      (w.answer i).cell = some cell ∧ (w.answer i).result = .ok o)
    (hnone : ¬ (w.answer i).Built → (w.answer i).cell = none) : Inv (w.resolve i) := by
  have hsame : w.resolve i = { w with answers := w.answers ++ [w.answer i] } := by
    rw [World.resolve, hc]
  apply h.answered hc (Nat.le_refl _) h.nested h.tabled
  · intro implementation cell content hholds
    have hbefore : Holds w implementation cell content := by
      rw [hsame] at hholds
      cases hholds with
      | ofSingleton hr => exact .ofSingleton hr
      | ofScoped hr hscope => exact .ofScoped hr hscope
    have hcell := h.cells _ _ _ hbefore
    apply hcell.concat (Nat.le_refl _)
    · rintro rfl
      by_cases ha : (w.answer i).Built
      · -- the answer comes from a cell that holds something
        obtain ⟨_, cell', o, hholds', heq, -⟩ := hbuilt ha
        obtain ⟨-, ⟨x, hx, hxbuilt, hxresult⟩, hall⟩ := h.cells _ _ _ hholds'
        rw [heq, ← (hall x hx hxbuilt).mp hxresult]
        exact hcell x hx
      · rw [hnone ha]
        exact (Option.some_ne_none _).symm
    · rintro o rfl ha
      obtain ⟨_, cell', o', hholds', heq, hresult⟩ := hbuilt ha
      obtain ⟨-, ⟨x, hx, hxbuilt, hxresult⟩, hall⟩ := h.cells _ _ _ hholds'
      rw [heq, hresult, ← (hall x hx hxbuilt).mp hxresult, ← hxresult]
      exact hcell.2.2 x hx hxbuilt
  · intro ha
    obtain ⟨_, cell, o, hholds, -, hresult⟩ := hbuilt ha
    obtain ⟨⟨serial, hlt, rfl⟩, -⟩ := h.cells _ _ _ hholds
    exact ⟨serial, _, hresult, hlt⟩
  · intro b scope hscope j o ho
    rw [hsame] at hscope
    obtain ⟨a, ha, hab, har⟩ := h.known b scope hscope j o ho
    exact ⟨a, List.mem_append_left _ ha, hab, har⟩
  · apply h.right.concat hfits
    intro x hx hxbuilt ha
    obtain ⟨_, cell, o, hholds, heq, hresult⟩ := hbuilt ha
    obtain ⟨-, -, hall⟩ := h.cells _ _ _ hholds
    rw [hresult, heq, hall x hx hxbuilt]
    constructor
    · intro hcell
      exact ⟨hcell, by rw [hcell]; exact Option.some_ne_none _⟩
    · exact And.left

/-- An answer with a new instance, kept in the cell of the answer if it has one. -/
theorem Inv.constructed {w : World ι κ} (h : Inv w) {i : ι} {implementation : κ} {c : DIContainer ι κ}
    (hresolve : w.container.resolve i = (.ok (.made w.container.made implementation), c))
    (hmade : c.made = w.container.made + 1)
    (hnested : Nested c._currentScope w.blocks) (htabled : ∀ j, Tabled c j (w.registration j))
    (hfits : (w.answer i).Fits)
    (hempty : ∀ cell, (w.answer i).cell = some cell → ∀ x ∈ w.answers, x.cell ≠ some cell)
    (hcells : ∀ implementation' cell content, Holds (w.resolve i) implementation' cell content →
      (w.answer i).cell ≠ some cell ∧ Holds w implementation' cell content ∨
      (w.answer i).cell = some cell ∧ implementation' = implementation ∧
        content = some (.made w.container.made implementation))
    (hbuilt : (w.answer i).Built)
    (hscopes : ∀ b scope, (b, scope) ∈ (w.resolve i).scopes → ∀ j o, scope j = some o →
      o = .made w.container.made implementation ∨
        ∃ before, (b, before) ∈ w.scopes ∧ before j = some o) : Inv (w.resolve i) := by
  have hresult : (w.answer i).result = .ok (.made w.container.made implementation) := by
    rw [World.answer, hresolve]
  have hnew : ∀ x ∈ w.answers, x.Built → x.result ≠ .ok (.made w.container.made implementation) := by
    intro x hx hxbuilt heq
    obtain ⟨serial, _, hxresult, hlt⟩ := h.built x hx hxbuilt
    rw [hxresult] at heq
    cases heq
    exact Nat.lt_irrefl _ hlt
  apply h.answered (congrArg Prod.snd hresolve) (by rw [hmade]; exact Nat.le_succ _) hnested htabled
  · intro implementation' cell content hholds
    rcases hcells _ _ _ hholds with ⟨hne, hbefore⟩ | ⟨heq, rfl, rfl⟩
    · have hcell := h.cells _ _ _ hbefore
      apply hcell.concat (by rw [hmade]; exact Nat.le_succ _)
      · intro _
        exact hne
      · rintro o rfl -
        obtain ⟨⟨serial, hlt, rfl⟩, -⟩ := hcell
        apply iff_of_false _ hne
        rw [hresult]
        intro heq
        cases heq
        exact Nat.lt_irrefl _ hlt
    · refine ⟨⟨w.container.made, by rw [hmade]; exact Nat.lt_succ_self _, rfl⟩, ⟨w.answer i, by simp, hbuilt, hresult⟩, ?_⟩
      intro x hx hxbuilt
      rcases List.mem_append.mp hx with hx | hx
      · exact iff_of_false (hnew x hx hxbuilt) (hempty cell heq x hx)
      · obtain rfl := List.mem_singleton.mp hx
        exact iff_of_true hresult heq
  · intro _
    exact ⟨_, _, hresult, by rw [hmade]; exact Nat.lt_succ_self _⟩
  · intro b scope hscope j o ho
    rcases hscopes b scope hscope j o ho with rfl | ⟨before, hbefore, ho⟩
    · exact ⟨w.answer i, by simp, hbuilt, hresult⟩
    · obtain ⟨a, ha, hab, har⟩ := h.known b before hbefore j o ho
      exact ⟨a, List.mem_append_left _ ha, hab, har⟩
  · apply h.right.concat hfits
    intro x hx hxbuilt _
    apply iff_of_false
    · rw [hresult]
      exact hnew x hx hxbuilt
    · rintro ⟨heq, hne⟩
      cases hcell : (w.answer i).cell with
      | none => exact hne (heq.trans hcell)
      | some cell => exact hempty cell hcell x hx (heq.trans hcell)

/-! ## One `resolve` -/

section resolve

variable {w : World ι κ} {i : ι}

theorem answer_cell_singleton {epoch : Nat} {implementation : κ}
    (hr : w.registration i = some ⟨epoch, .singleton implementation⟩) :
    (w.answer i).cell = some (epoch, none) := by
  simp [Answer.cell, World.answer, hr]

theorem answer_cell_scoped {epoch : Nat} {implementation : κ}
    (hr : w.registration i = some ⟨epoch, .inScope implementation⟩) :
    (w.answer i).cell = w.blocks.head?.map (fun b => (epoch, some b.id)) := by
  simp [Answer.cell, World.answer, hr, Function.comp_def]

theorem answer_built {r : Registration κ} (hr : w.registration i = some r)
    (h : ∀ object, r.lifetime ≠ .given object) : (w.answer i).Built :=
  ⟨r, hr, h⟩

theorem answer_fits {r : Registration κ} (hr : w.registration i = some r) {o : Object κ}
    (hresult : (w.answer i).result = .ok o) (h : r.lifetime.Gives o) : (w.answer i).Fits := by
  have hregistration : (w.answer i).registration = some r := hr
  unfold Answer.Fits
  rw [hregistration]
  exact ⟨o, hresult, h⟩

theorem Inv.resolve_missing (h : Inv w) (hr : w.registration i = none) : Inv (w.resolve i) := by
  have ht := h.tabled i
  rw [hr] at ht
  obtain ⟨hsingletons, hscoped, hservices, hfactories⟩ := ht
  have hresolve : w.container.resolve i = (.error ⟨i⟩, w.container) := by
    simp [DIContainer.resolve, hsingletons, hscoped, hservices, hfactories]
  have hnot : ¬ (w.answer i).Built := by
    rintro ⟨r, hregistration, -⟩
    exact Option.some_ne_none r (hregistration.symm.trans hr)
  apply h.repeated (congrArg Prod.snd hresolve)
  · simp [Answer.Fits, World.answer, hr, hresolve]
  · intro hbuilt
    exact absurd hbuilt hnot
  · intro _
    simp [Answer.cell, World.answer, hr]

theorem Inv.resolve_given (h : Inv w) {epoch : Nat} {object : Object κ}
    (hr : w.registration i = some ⟨epoch, .given object⟩) : Inv (w.resolve i) := by
  have ht := h.tabled i
  rw [hr] at ht
  have hresolve : w.container.resolve i = (.ok object, w.container) := by
    have hsingletons : w.container._singletons i = some object := ht
    simp [DIContainer.resolve, hsingletons]
  have hnot : ¬ (w.answer i).Built := by
    rintro ⟨r, hregistration, hne⟩
    obtain rfl : r = ⟨epoch, .given object⟩ := Option.some.inj (hregistration.symm.trans hr)
    exact hne object rfl
  apply h.repeated (congrArg Prod.snd hresolve)
  · exact answer_fits hr (congrArg Prod.fst hresolve) rfl
  · intro hbuilt
    exact absurd hbuilt hnot
  · intro _
    simp [Answer.cell, World.answer, hr]

/-- A new instance that no cell keeps. -/
theorem Inv.unkept (h : Inv w) {implementation : κ}
    (hresolve : w.container.resolve i =
      (.ok (.made w.container.made implementation), { w.container with made := w.container.made + 1 }))
    (hcell : (w.answer i).cell = none) (hfits : (w.answer i).Fits) (hbuilt : (w.answer i).Built) :
    Inv (w.resolve i) := by
  have hscopes : (w.resolve i).scopes = w.scopes := by
    simp [World.scopes, World.resolve, hresolve]
  apply h.constructed hresolve rfl h.nested h.tabled hfits
  · intro cell heq
    exact absurd (hcell.symm.trans heq) (Option.some_ne_none _).symm
  · intro implementation' cell content hholds
    left
    refine ⟨by rw [hcell]; exact (Option.some_ne_none _).symm, ?_⟩
    cases hholds with
    | ofSingleton hj =>
      have hbefore : Holds w implementation' _ (w.container._singletons _) := .ofSingleton hj
      simpa [World.resolve, hresolve] using hbefore
    | ofScoped hj hscope =>
      rw [hscopes] at hscope
      exact .ofScoped hj hscope
  · exact hbuilt
  · intro b scope hscope j o ho
    rw [hscopes] at hscope
    exact .inr ⟨scope, hscope, ho⟩

theorem Inv.resolve_transient (h : Inv w) {epoch : Nat} {implementation : κ}
    (hr : w.registration i = some ⟨epoch, .transient implementation⟩) : Inv (w.resolve i) := by
  have ht := h.tabled i
  rw [hr] at ht
  obtain ⟨hsingletons, hscoped, hservices, hfactories⟩ := ht
  have hresolve : w.container.resolve i =
      (.ok (.made w.container.made implementation), { w.container with made := w.container.made + 1 }) := by
    simp [DIContainer.resolve, hsingletons, hscoped, hservices, hfactories, DIContainer._createInstance]
  apply h.unkept hresolve
  · simp [Answer.cell, World.answer, hr]
  · exact answer_fits hr (congrArg Prod.fst hresolve) ⟨_, rfl⟩
  · exact answer_built hr (by simp)

omit [DecidableEq ι] in
theorem Inv.epoch_ne (h : Inv w) {j : ι} {r t : Registration κ} (hr : w.registration i = some r)
    (ht : w.registration j = some t) (hne : j ≠ i) : r.epoch ≠ t.epoch := by
  intro heq
  exact hne (h.distinct i j r t hr ht heq).symm

/-- The cell of the answer holds an instance, which is given again. -/
theorem Inv.held (h : Inv w) {r : Registration κ} (hr : w.registration i = some r) {implementation : κ}
    (hgives : ∀ serial, r.lifetime.Gives (.made serial implementation)) (hbuilt : ∀ object, r.lifetime ≠ .given object)
    {cell : Nat × Option Nat} {o : Object κ} (hcell : (w.answer i).cell = some cell)
    (hheld : Holds w implementation cell (some o)) (hresolve : w.container.resolve i = (.ok o, w.container)) :
    Inv (w.resolve i) := by
  obtain ⟨⟨serial, -, rfl⟩, -⟩ := h.cells _ _ _ hheld
  apply h.repeated (congrArg Prod.snd hresolve)
  · exact answer_fits hr (congrArg Prod.fst hresolve) (hgives serial)
  · intro _
    exact ⟨_, _, _, hheld, hcell, congrArg Prod.fst hresolve⟩
  · intro hnot
    exact absurd (answer_built hr hbuilt) hnot

theorem tabled_put {c : DIContainer ι κ} {j : ι} (h : j ≠ i) (o : Object κ) (made : Nat) {r : Option (Registration κ)}
    (ht : Tabled c j r) : Tabled { c with made := made, _singletons := put c._singletons i o } j r := by
  unfold Tabled at ht ⊢
  simpa only [put_other _ _ h] using ht

/-- The new instance is in the cell of the singleton, and the other cells are as they were. -/
theorem Inv.cells_singleton (h : Inv w) {epoch : Nat} {implementation : κ}
    (hr : w.registration i = some ⟨epoch, .singleton implementation⟩) {o : Object κ}
    (hsingletons : (w.resolve i).container._singletons = put w.container._singletons i o)
    (hscopes : (w.resolve i).scopes = w.scopes) {implementation' : κ} {cell : Nat × Option Nat}
    {content : Option (Object κ)} (hholds : Holds (w.resolve i) implementation' cell content) :
    (w.answer i).cell ≠ some cell ∧ Holds w implementation' cell content ∨
      (w.answer i).cell = some cell ∧ implementation' = implementation ∧ content = some o := by
  rw [answer_cell_singleton hr]
  cases hholds with
  | @ofSingleton j epoch' _ hj =>
    have hregistration : w.registration j = some ⟨epoch', .singleton implementation'⟩ := hj
    rw [hsingletons]
    by_cases hji : j = i
    · subst hji
      right
      obtain ⟨rfl, rfl⟩ : epoch' = epoch ∧ implementation' = implementation := by
        simpa [hr, eq_comm] using hregistration
      exact ⟨rfl, rfl, put_same ..⟩
    · left
      rw [put_other _ _ hji]
      have hepoch := h.epoch_ne hr hregistration hji
      exact ⟨by simpa using hepoch, .ofSingleton hregistration⟩
  | ofScoped hj hscope =>
    left
    rw [hscopes] at hscope
    exact ⟨by simp, .ofScoped hj hscope⟩

theorem Inv.resolve_singleton (h : Inv w) {epoch : Nat} {implementation : κ}
    (hr : w.registration i = some ⟨epoch, .singleton implementation⟩) : Inv (w.resolve i) := by
  have ht := h.tabled i
  rw [hr] at ht
  obtain ⟨hscoped, hservices⟩ := ht
  have hcell := answer_cell_singleton hr
  have hheld : Holds w implementation (epoch, none) (w.container._singletons i) := .ofSingleton hr
  cases hsingletons : w.container._singletons i with
  | some o =>
    rw [hsingletons] at hheld
    apply h.held hr (fun serial => ⟨serial, rfl⟩) (by simp) hcell hheld
    simp [DIContainer.resolve, hsingletons]
  | none =>
    have hresolve : w.container.resolve i = (.ok (.made w.container.made implementation),
        { w.container with
          made := w.container.made + 1
          _singletons := put w.container._singletons i (.made w.container.made implementation) }) := by
      simp [DIContainer.resolve, hsingletons, hscoped, hservices, DIContainer._createInstance]
    rw [hsingletons] at hheld
    have hscopes : (w.resolve i).scopes = w.scopes := by
      simp [World.scopes, World.resolve, hresolve]
    apply h.constructed hresolve rfl h.nested
    · intro j
      by_cases hj : j = i
      · subst j
        rw [hr]
        exact ⟨hscoped, hservices⟩
      · exact tabled_put hj _ _ (h.tabled j)
    · exact answer_fits hr (congrArg Prod.fst hresolve) ⟨_, rfl⟩
    · intro cell heq
      obtain rfl : (epoch, none) = cell := Option.some.inj (hcell.symm.trans heq)
      exact h.cells _ _ _ hheld
    · intro implementation' cell content hholds
      exact h.cells_singleton hr (by simp [World.resolve, hresolve]) hscopes hholds
    · exact answer_built hr (by simp)
    · intro b scope hscope j o ho
      rw [hscopes] at hscope
      exact .inr ⟨scope, hscope, ho⟩

/-- A scoped service is constructed anew outside every block. -/
theorem Inv.resolve_outside (h : Inv w) {epoch : Nat} {implementation : κ}
    (hr : w.registration i = some ⟨epoch, .inScope implementation⟩)
    (hcurrent : w.container._currentScope = none) (hblocks : w.blocks = []) : Inv (w.resolve i) := by
  have ht := h.tabled i
  rw [hr] at ht
  obtain ⟨hsingletons, hscoped⟩ := ht
  have hresolve : w.container.resolve i =
      (.ok (.made w.container.made implementation), { w.container with made := w.container.made + 1 }) := by
    simp [DIContainer.resolve, hsingletons, hscoped, hcurrent, DIContainer._createInstance]
  apply h.unkept hresolve
  · rw [answer_cell_scoped hr, hblocks]
    rfl
  · exact answer_fits hr (congrArg Prod.fst hresolve) ⟨_, rfl⟩
  · exact answer_built hr (by simp)

section inside

variable {top : Table ι (Object κ)} {b : Block ι κ} {rest : List (Block ι κ)}

omit [DecidableEq ι] in
theorem scopes_inside (hcurrent : w.container._currentScope = some top) (hblocks : w.blocks = b :: rest) :
    w.scopes = (b.id, top) :: scopesOf b.oldScope rest := by
  rw [World.scopes, hcurrent, hblocks]
  rfl

omit [DecidableEq ι] in
/-- A scope under the innermost one is of another block. -/
theorem Inv.scope_ne (h : Inv w) (hblocks : w.blocks = b :: rest) {x : Nat} {scope : Table ι (Object κ)}
    (hx : (x, scope) ∈ scopesOf b.oldScope rest) : x ≠ b.id := by
  have horder := h.blocks
  rw [hblocks] at horder
  have hlt : b.id > x := (List.pairwise_cons.mp horder).1 x (mem_scopesOf hx)
  omega

/-- The new instance is in the cell of the service in the innermost block, and the other cells are as
they were. -/
theorem Inv.cells_scoped (h : Inv w) {epoch : Nat} {implementation : κ}
    (hr : w.registration i = some ⟨epoch, .inScope implementation⟩)
    (hcurrent : w.container._currentScope = some top) (hblocks : w.blocks = b :: rest) {o : Object κ}
    (hsingletons : (w.resolve i).container._singletons = w.container._singletons)
    (hscopes : (w.resolve i).scopes = (b.id, put top i o) :: scopesOf b.oldScope rest) {implementation' : κ}
    {cell : Nat × Option Nat} {content : Option (Object κ)} (hholds : Holds (w.resolve i) implementation' cell content) :
    (w.answer i).cell ≠ some cell ∧ Holds w implementation' cell content ∨
      (w.answer i).cell = some cell ∧ implementation' = implementation ∧ content = some o := by
  rw [answer_cell_scoped hr, hblocks, List.head?_cons, Option.map_some]
  cases hholds with
  | @ofSingleton j epoch' _ hj =>
    left
    rw [hsingletons]
    exact ⟨by simp, .ofSingleton hj⟩
  | @ofScoped j epoch' _ x scope hj hscope =>
    have hregistration : w.registration j = some ⟨epoch', .inScope implementation'⟩ := hj
    rw [hscopes] at hscope
    rcases List.mem_cons.mp hscope with heq | hscope
    · cases heq
      by_cases hji : j = i
      · subst hji
        right
        obtain ⟨rfl, rfl⟩ : epoch' = epoch ∧ implementation' = implementation := by
          simpa [hr, eq_comm] using hregistration
        exact ⟨rfl, rfl, put_same ..⟩
      · left
        rw [put_other _ _ hji]
        have hepoch := h.epoch_ne hr hregistration hji
        have hmem : (b.id, top) ∈ w.scopes := by
          rw [scopes_inside hcurrent hblocks]
          exact List.mem_cons_self
        exact ⟨by simpa using hepoch, .ofScoped hregistration hmem⟩
    · left
      have hne := h.scope_ne hblocks hscope
      have hmem : (x, scope) ∈ w.scopes := by
        rw [scopes_inside hcurrent hblocks]
        exact List.mem_cons_of_mem _ hscope
      exact ⟨by simp [Ne.symm hne], .ofScoped hregistration hmem⟩

theorem Inv.resolve_inside (h : Inv w) {epoch : Nat} {implementation : κ}
    (hr : w.registration i = some ⟨epoch, .inScope implementation⟩)
    (hcurrent : w.container._currentScope = some top) (hblocks : w.blocks = b :: rest) : Inv (w.resolve i) := by
  have ht := h.tabled i
  rw [hr] at ht
  obtain ⟨hsingletons, hscoped⟩ := ht
  have hcell : (w.answer i).cell = some (epoch, some b.id) := by
    rw [answer_cell_scoped hr, hblocks]
    rfl
  have hscopes := scopes_inside hcurrent hblocks
  have hheld : Holds w implementation (epoch, some b.id) (top i) :=
    .ofScoped hr (by rw [hscopes]; exact List.mem_cons_self)
  cases htop : top i with
  | some o =>
    rw [htop] at hheld
    apply h.held hr (fun serial => ⟨serial, rfl⟩) (by simp) hcell hheld
    simp [DIContainer.resolve, hsingletons, hscoped, hcurrent, htop]
  | none =>
    have hresolve : w.container.resolve i = (.ok (.made w.container.made implementation),
        { w.container with
          made := w.container.made + 1
          _currentScope := some (put top i (.made w.container.made implementation)) }) := by
      simp [DIContainer.resolve, hsingletons, hscoped, hcurrent, htop, DIContainer._createInstance]
    rw [htop] at hheld
    have hscopes' : (w.resolve i).scopes =
        (b.id, put top i (.made w.container.made implementation)) :: scopesOf b.oldScope rest := by
      simp [World.scopes, World.resolve, hresolve, hblocks, scopesOf]
    have hnested := h.nested
    rw [hblocks] at hnested
    apply h.constructed hresolve rfl
    · show Nested (some _) w.blocks
      rw [hblocks]
      exact ⟨rfl, hnested.2⟩
    · exact h.tabled
    · exact answer_fits hr (congrArg Prod.fst hresolve) ⟨_, rfl⟩
    · intro cell heq
      obtain rfl : (epoch, some b.id) = cell := Option.some.inj (hcell.symm.trans heq)
      exact h.cells _ _ _ hheld
    · intro implementation' cell content hholds
      exact h.cells_scoped hr hcurrent hblocks (by simp [World.resolve, hresolve]) hscopes' hholds
    · exact answer_built hr (by simp)
    · intro x scope hscope j o ho
      rw [hscopes'] at hscope
      rw [hscopes]
      rcases List.mem_cons.mp hscope with heq | hscope
      · cases heq
        by_cases hji : j = i
        · subst hji
          rw [put_same] at ho
          exact .inl (Option.some.inj ho).symm
        · rw [put_other _ _ hji] at ho
          exact .inr ⟨top, List.mem_cons_self, ho⟩
      · exact .inr ⟨scope, List.mem_cons_of_mem _ hscope, ho⟩

end inside

theorem Inv.resolve (h : Inv w) (i : ι) : Inv (w.resolve i) := by
  cases hr : w.registration i with
  | none => exact h.resolve_missing hr
  | some r =>
    obtain ⟨epoch, lifetime⟩ := r
    cases lifetime with
    | given object => exact h.resolve_given hr
    | transient implementation => exact h.resolve_transient hr
    | singleton implementation => exact h.resolve_singleton hr
    | inScope implementation =>
      have hnested := h.nested
      cases hblocks : w.blocks with
      | nil =>
        rw [hblocks] at hnested
        exact h.resolve_outside hr hnested hblocks
      | cons b rest =>
        rw [hblocks] at hnested
        obtain ⟨top, hcurrent⟩ := Option.isSome_iff_exists.mp hnested.1
        exact h.resolve_inside hr hcurrent hblocks

end resolve

theorem Inv.step {w : World ι κ} (h : Inv w) (l : Label ι κ) (hquiet : Quiet w l) : Inv (w.step l) := by
  cases l with
  | register i lifetime => exact h.register i lifetime hquiet
  | resolve i => exact h.resolve i
  | enter => exact h.enter
  | exit => exact h.exit
  | clear => exact h.clear hquiet

/-! ## Where the lifetimes are kept -/

theorem inv_of_quiet {ls : List (Label ι κ)} (h : Meets World.step Quiet {} ls) :
    Throughout World.step Inv {} ls :=
  throughout_of_meets (fun _ l hinv hquiet => hinv.step l hquiet) inv_new h

/-- The blocks are left one after the other, and each puts back its scope. -/
theorem exits {w : World ι κ} {b : Block ι κ} (hb : b ∈ w.blocks) :
    ∃ k, (run World.step w (List.replicate k .exit)).container =
        { w.container with _currentScope := b.oldScope } ∧
      (run World.step w (List.replicate k .exit)).registration = w.registration ∧
      (run World.step w (List.replicate k .exit)).answers = w.answers := by
  generalize hblocks : w.blocks = blocks at hb
  induction blocks generalizing w with
  | nil => cases hb
  | cons x rest ih =>
    have hexit : w.exit = { w with
        container := { w.container with _currentScope := x.oldScope }
        blocks := rest } := by simp only [World.exit, hblocks]
    rcases List.mem_cons.mp hb with rfl | hb
    · refine ⟨1, ?_⟩
      show w.exit.container = _ ∧ w.exit.registration = _ ∧ w.exit.answers = _
      rw [hexit]
      exact ⟨rfl, rfl, rfl⟩
    · have hrest : w.exit.blocks = rest := by rw [hexit]
      obtain ⟨k, hcontainer, hregistration, hanswers⟩ := ih hrest hb
      refine ⟨k + 1, ?_⟩
      rw [List.replicate_succ, run_cons]
      refine ⟨hcontainer.trans ?_, hregistration.trans ?_, hanswers.trans ?_⟩ <;> rw [hexit]

/-- Two answers from one block after the container has been cleared inside it. -/
theorem cleared_wrong {w : World ι κ} (hblocks : w.blocks ≠ []) (i : ι) (implementation : κ) :
    ¬ Right (run World.step w
      [.clear, .register i (.inScope implementation), .resolve i, .resolve i]).answers := by
  obtain ⟨b, rest, hcons⟩ := List.exists_cons_of_ne_nil hblocks
  generalize hw : w.clear.register i (.inScope implementation) = cleared
  have hr : cleared.registration i = some ⟨w.registered, .inScope implementation⟩ := by
    rw [← hw]
    exact Function.update_self ..
  have hresolve : cleared.container.resolve i =
      (.ok (.made w.container.made implementation), { cleared.container with made := w.container.made + 1 }) := by
    simp [← hw, World.register, World.clear, DIContainer.clear, DIContainer.register,
      DIContainer.registerScoped, DIContainer._clearRegistration, DIContainer.resolve,
      DIContainer._createInstance]
  have hagain : (cleared.resolve i).container.resolve i =
      (.ok (.made (w.container.made + 1) implementation), { cleared.container with made := w.container.made + 2 }) := by
    simp [World.resolve, hresolve]
    simp [← hw, World.register, World.clear, DIContainer.clear, DIContainer.register,
      DIContainer.registerScoped, DIContainer._clearRegistration, DIContainer.resolve,
      DIContainer._createInstance]
  have hopen : cleared.blocks = b :: rest := by
    rw [← hw]
    exact hcons
  have hfirst : (cleared.answer i).cell = some (w.registered, some b.id) := by
    rw [answer_cell_scoped hr, hopen]
    rfl
  have hsecond : ((cleared.resolve i).answer i).cell = some (w.registered, some b.id) := by
    have hr' : (cleared.resolve i).registration i = some ⟨w.registered, .inScope implementation⟩ := hr
    have hopen' : (cleared.resolve i).blocks = b :: rest := hopen
    rw [answer_cell_scoped hr', hopen']
    rfl
  intro hright
  have hanswers : (run World.step w
      [.clear, .register i (.inScope implementation), .resolve i, .resolve i]).answers =
      (cleared.answers ++ [cleared.answer i]) ++ [(cleared.resolve i).answer i] := by
    rw [← hw]
    rfl
  rw [hanswers] at hright
  have hpair := (List.pairwise_append.mp hright.separate).2.2 (cleared.answer i) (by simp)
    ((cleared.resolve i).answer i) (by simp)
  have heq := (hpair (answer_built hr (by simp)) (answer_built hr (by simp))).mpr
    ⟨hfirst.trans hsecond.symm, by rw [hfirst]; exact Option.some_ne_none _⟩
  simp [World.answer, hresolve, hagain] at heq

omit [DecidableEq ι] in
theorem Nested.scope_of_old {current : Option (Table ι (Object κ))} {blocks : List (Block ι κ)}
    (h : Nested current blocks) {b : Block ι κ} (hb : b ∈ blocks) {scope : Table ι (Object κ)}
    (hscope : b.oldScope = some scope) : ∃ x, (x, scope) ∈ scopesOf current blocks := by
  induction blocks generalizing current with
  | nil => cases hb
  | cons c rest ih =>
    obtain ⟨hsome, hrest⟩ := h
    obtain ⟨top, rfl⟩ := Option.isSome_iff_exists.mp hsome
    rcases List.mem_cons.mp hb with rfl | hb
    · cases rest with
      | nil =>
        have hnone : b.oldScope = none := hrest
        rw [hnone] at hscope
        cases hscope
      | cons d rest =>
        refine ⟨d.id, List.mem_cons_of_mem _ ?_⟩
        rw [hscope]
        exact List.mem_cons_self
    · obtain ⟨x, hx⟩ := ih hrest hb
      exact ⟨x, List.mem_cons_of_mem _ hx⟩

/-- An instance of an earlier registration comes back when the blocks around it are left. -/
theorem stale_wrong {w : World ι κ} (h : Inv w) {i : ι} (implementation : κ) {b : Block ι κ}
    (hb : b ∈ w.blocks) (hstale : b.oldScope.bind (· i) ≠ none) :
    ∃ k, ¬ Right (run World.step w
      (.register i (.inScope implementation) :: List.replicate k .exit ++ [.resolve i])).answers := by
  obtain ⟨o, ho⟩ := Option.ne_none_iff_exists'.mp hstale
  obtain ⟨scope, hscope, hi⟩ := Option.bind_eq_some_iff.mp ho
  have hb' : b ∈ (w.register i (.inScope implementation)).blocks := hb
  obtain ⟨k, hcontainer, hregistration, hanswers⟩ := exits hb'
  refine ⟨k, ?_⟩
  rw [run_append, run_cons World.step w]
  change ¬ Right (run World.step (run World.step (w.register i (.inScope implementation))
    (List.replicate k .exit)) [.resolve i]).answers
  generalize run World.step (w.register i (.inScope implementation)) (List.replicate k .exit) = left
    at hcontainer hregistration hanswers ⊢
  have hr : left.registration i = some ⟨w.registered, .inScope implementation⟩ := by
    rw [hregistration]
    exact Function.update_self ..
  have hresult : (left.answer i).result = .ok o := by
    have hresolve : (left.container.resolve i).1 = .ok o := by
      rw [hcontainer]
      simp [World.register, DIContainer.register, DIContainer.registerScoped, DIContainer._clearRegistration,
        DIContainer.resolve, hscope, hi]
    exact hresolve
  obtain ⟨x, hx⟩ := h.nested.scope_of_old hb hscope
  obtain ⟨a, ha, hbuilt, har⟩ := h.known x scope hx i o hi
  intro hright
  have hmem : a ∈ left.answers := by
    rw [hanswers]
    exact ha
  have hpair := (List.pairwise_append.mp hright.separate).2.2 a hmem (left.answer i) (by simp)
  obtain ⟨hcells, hne⟩ := (hpair hbuilt (answer_built hr (by simp))).mp (har.trans hresult.symm)
  -- the two answers are from different registrations
  obtain ⟨⟨epoch, y⟩, hcell⟩ := Option.ne_none_iff_exists'.mp hne
  obtain ⟨r, hregistered, rfl⟩ := cell_epoch hcell
  obtain ⟨r', hregistered', heq⟩ := cell_epoch (hcells.symm.trans hcell)
  have hlast : r'.epoch = w.registered := by
    obtain rfl : r' = ⟨w.registered, .inScope implementation⟩ := Option.some.inj (hregistered'.symm.trans hr)
    rfl
  have hlt := h.past a ha r hregistered
  omega

/-- Every answer of a quiet run is right, and after it any step that is not quiet can be followed
by steps to a wrong one. -/
theorem lifetimes_right [Inhabited ι] [Inhabited κ] (ls : List (Label ι κ))
    (hquiet : Meets World.step Quiet {} ls) :
    Throughout World.step (fun w => Right w.answers) {} ls ∧
    ∀ l, ¬ Quiet (after ls) l → ∃ more, ¬ Right (after (ls ++ l :: more)).answers := by
  have hinv := inv_of_quiet hquiet
  constructor
  · intro pre hpre
    exact (hinv pre hpre).right
  · intro l hl
    have hafter : ∀ rest, after (ls ++ rest) = run World.step (after ls) rest := by
      intro rest
      exact run_append ..
    cases l with
    | register i lifetime =>
      cases lifetime with
      | inScope implementation =>
        obtain ⟨b, hb, hstale⟩ : ∃ b ∈ (after ls).blocks, b.oldScope.bind (· i) ≠ none := by
          by_contra hnone
          apply hl
          intro b hb
          by_contra hb'
          exact hnone ⟨b, hb, hb'⟩
        obtain ⟨k, hwrong⟩ := stale_wrong (throughout_last hinv) implementation hb hstale
        refine ⟨List.replicate k .exit ++ [.resolve i], ?_⟩
        rw [hafter]
        exact hwrong
      | singleton implementation => exact absurd trivial hl
      | transient implementation => exact absurd trivial hl
      | given object => exact absurd trivial hl
    | clear =>
      refine ⟨[.register default (.inScope default), .resolve default, .resolve default], ?_⟩
      rw [hafter]
      exact cleared_wrong hl default default
    | resolve i => exact absurd trivial hl
    | enter => exact absurd trivial hl
    | exit => exact absurd trivial hl

def nestedRun : List (Label Nat Nat) :=
  [.register 0 (.inScope 7), .enter, .resolve 0, .enter, .register 1 (.singleton 8), .resolve 0, .exit,
    .resolve 0, .exit, .register 0 (.inScope 9), .resolve 0]

theorem lifetimes_right_nested :
    Throughout World.step (fun w => Right w.answers) {} nestedRun ∧
    ∀ l, ¬ Quiet (after nestedRun) l → ∃ more, ¬ Right (after (nestedRun ++ l :: more)).answers :=
  lifetimes_right nestedRun (by decide)

/-- A scoped service is registered again in an inner block, and the outer one still has its
instance. -/
def staleRun : List (Label Nat Nat) :=
  [.register 0 (.inScope 7), .enter, .resolve 0, .enter, .register 0 (.inScope 9), .exit, .resolve 0]

theorem stale_instance : ¬ Right (after staleRun).answers := by
  intro h
  have hlast : (after staleRun).answers.getLast?.map (fun a => (a.registration, a.result)) =
      some (some ⟨1, .inScope 9⟩, .ok (.made 0 7)) := rfl
  obtain ⟨a, ha, heq⟩ := Option.map_eq_some_iff.mp hlast
  obtain ⟨hregistration, hresult⟩ := Prod.mk.inj heq
  have hfits := h.fits a (List.mem_of_getLast? ha)
  rw [Answer.Fits, hregistration] at hfits
  obtain ⟨o, hok, serial, rfl⟩ := hfits
  rw [hresult] at hok
  cases hok

end DIContainers
