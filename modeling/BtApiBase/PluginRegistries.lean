import BtApiBase.PyValue
import BtApiBase.Runs

/-!
# The registries that plugins write to

`ExchangeRegistry` keeps four tables by exchange name and
`GatewayRuntimeRegistrar` one of adapters. A plugin is given an isolated pair;
what it registered there is copied by the registrations that the commit makes.
`α` stands for classes and functions, compared by identity; `none` is `None`.
An entry of any table is addressed by a `Slot`.
-/

namespace PluginRegistries

open PyText PyDict PyValue

variable {α : Type}

structure ExchangeRegistry (α : Type) where
  feedClasses : Dict PyStr (Option α)
  streamClasses : Dict PyStr (Dict PyStr (Option α))
  exchangeDataClasses : Dict PyStr (Option α)
  balanceHandlers : Dict PyStr (Option α)

namespace ExchangeRegistry

def createIsolated : ExchangeRegistry α := ⟨Dict.empty, Dict.empty, Dict.empty, Dict.empty⟩

variable (r : ExchangeRegistry α) (exchangeName : PyStr)

def registerFeed (feedClass : Option α) : ExchangeRegistry α :=
  { r with feedClasses := r.feedClasses.set exchangeName feedClass }

def getStreamClasses : Dict PyStr (Option α) := (r.streamClasses.get exchangeName).getD Dict.empty

/-- `setdefault` and the assignment in its result. -/
def registerStream (streamType : PyStr) (streamClass : Option α) : ExchangeRegistry α :=
  let streams := (r.getStreamClasses exchangeName).set streamType streamClass
  { r with streamClasses := r.streamClasses.set exchangeName streams }

def registerExchangeData (exchangeDataClass : Option α) : ExchangeRegistry α :=
  { r with exchangeDataClasses := r.exchangeDataClasses.set exchangeName exchangeDataClass }

def registerBalanceHandler (handlerFunc : Option α) : ExchangeRegistry α :=
  { r with balanceHandlers := r.balanceHandlers.set exchangeName handlerFunc }

def getFeedClass : Option α := (r.feedClasses.get exchangeName).join

def getExchangeDataClass : Option α := (r.exchangeDataClasses.get exchangeName).join

def getBalanceHandler : Option α := (r.balanceHandlers.get exchangeName).join

def hasExchange : Bool := (r.feedClasses.get exchangeName).isSome

def listExchanges : List PyStr := r.feedClasses.keys

end ExchangeRegistry

/-- `str(exchange_type).strip().upper()` of a string. -/
def normalized (i : Interp) (exchangeType : PyStr) : PyStr := i.upper (strip exchangeType)

structure GatewayRuntimeRegistrar (α : Type) where
  adapters : Dict PyStr (Option α)

namespace GatewayRuntimeRegistrar

variable (i : Interp) (r : GatewayRuntimeRegistrar α) (exchangeType : PyStr)

def getAdapter : Option α := (r.adapters.get (normalized i exchangeType)).join

/-- A name that has an adapter keeps it. -/
def registerAdapter [DecidableEq α] (adapterCls : Option α) : GatewayRuntimeRegistrar α :=
  let existing := r.getAdapter i exchangeType
  if existing = adapterCls then r
  else if existing.isSome then r
  else { r with adapters := r.adapters.set (normalized i exchangeType) adapterCls }

end GatewayRuntimeRegistrar

/-! ## Slots -/

inductive Slot where
  | feed (exchangeName : PyStr)
  | exchangeData (exchangeName : PyStr)
  | balanceHandler (exchangeName : PyStr)
  | stream (exchangeName streamType : PyStr)
  | adapter (exchangeType : PyStr)
  deriving DecidableEq, Repr

/-- The registry and the registrar that a loader commits to. -/
structure Tables (α : Type) where
  registry : ExchangeRegistry α
  registrar : GatewayRuntimeRegistrar α

namespace Tables

def lookup (m : Tables α) : Slot → Option (Option α)
  | .feed name => m.registry.feedClasses.get name
  | .exchangeData name => m.registry.exchangeDataClasses.get name
  | .balanceHandler name => m.registry.balanceHandlers.get name
  | .stream name type => (m.registry.getStreamClasses name).get type
  | .adapter type => m.registrar.adapters.get type

end Tables

structure Registration (α : Type) where
  slot : Slot
  value : Option α
  deriving DecidableEq, Repr

variable [DecidableEq α]

/-- One call of a `register_` method. -/
def Tables.register (i : Interp) (m : Tables α) (r : Registration α) : Tables α :=
  match r.slot with
  | .feed name => { m with registry := m.registry.registerFeed name r.value }
  | .exchangeData name => { m with registry := m.registry.registerExchangeData name r.value }
  | .balanceHandler name => { m with registry := m.registry.registerBalanceHandler name r.value }
  | .stream name type => { m with registry := m.registry.registerStream name type r.value }
  | .adapter type => { m with registrar := m.registrar.registerAdapter i type r.value }

def Slot.isAdapter : Slot → Bool
  | .adapter _ => true
  | _ => false

/-- The slot that a registration goes to. -/
def Slot.target (i : Interp) : Slot → Slot
  | .adapter type => .adapter (normalized i type)
  | slot => slot

theorem Slot.exists_adapter {s : Slot} (h : s.isAdapter = true) : ∃ type, s = .adapter type := by
  cases s with
  | adapter type => exact ⟨type, rfl⟩
  | _ => cases h

theorem Slot.target_of_not_adapter {i : Interp} {s : Slot} (h : s.isAdapter = false) :
    s.target i = s := by
  cases s with
  | adapter type => cases h
  | _ => rfl

/-- A slot of the registry is the target of itself only. -/
theorem Slot.eq_of_target {i : Interp} {s s' : Slot} (h : s.isAdapter = false) (ht : s'.target i = s) :
    s' = s := by
  cases s' with
  | adapter type =>
    rw [← ht] at h
    cases h
  | _ => exact ht

theorem Slot.adapter_of_target {i : Interp} {s : Slot} {k : PyStr} (h : s.target i = .adapter k) :
    ∃ type, s = .adapter type ∧ normalized i type = k := by
  cases s with
  | adapter type => exact ⟨type, rfl, Slot.adapter.inj h⟩
  | _ => cases h

/-- The registrar leaves an adapter alone, and `None` is not entered where there is
none. -/
def Writes (i : Interp) (m : Tables α) (r : Registration α) : Prop :=
  r.slot.isAdapter → (m.lookup (r.slot.target i)).join = none ∧ r.value ≠ none

instance (i : Interp) (m : Tables α) (r : Registration α) : Decidable (Writes i m r) :=
  inferInstanceAs (Decidable (_ → _))

omit [DecidableEq α] in
theorem getStreamClasses_registerStream (r : ExchangeRegistry α) (name type other : PyStr)
    (cls : Option α) : (r.registerStream name type cls).getStreamClasses other =
      if other = name then (r.getStreamClasses name).set type cls else r.getStreamClasses other := by
  simp only [ExchangeRegistry.registerStream, ExchangeRegistry.getStreamClasses, Dict.get_set]
  split <;> rfl

/-- A registration writes one slot or none. -/
theorem lookup_register (i : Interp) (m : Tables α) (r : Registration α) (s : Slot) :
    (m.register i r).lookup s =
      if s = r.slot.target i ∧ Writes i m r then some r.value else m.lookup s := by
  obtain ⟨slot, value⟩ := r
  cases slot with
  | feed name =>
    cases s <;> simp [Tables.register, Tables.lookup, Slot.target, Writes, Slot.isAdapter,
      ExchangeRegistry.registerFeed, ExchangeRegistry.getStreamClasses, Dict.get_set]
  | exchangeData name =>
    cases s <;> simp [Tables.register, Tables.lookup, Slot.target, Writes, Slot.isAdapter,
      ExchangeRegistry.registerExchangeData, ExchangeRegistry.getStreamClasses, Dict.get_set]
  | balanceHandler name =>
    cases s <;> simp [Tables.register, Tables.lookup, Slot.target, Writes, Slot.isAdapter,
      ExchangeRegistry.registerBalanceHandler, ExchangeRegistry.getStreamClasses, Dict.get_set]
  | stream name type =>
    cases s with
    | stream name' type' =>
      simp only [Tables.register, Tables.lookup, getStreamClasses_registerStream, Slot.target, Writes,
        Slot.isAdapter, Bool.false_eq_true, false_imp_iff, and_true, Slot.stream.injEq]
      by_cases hn : name' = name
      · subst hn
        simp [Dict.get_set]
      · simp [hn]
    | _ => simp [Tables.register, Tables.lookup, Slot.target, ExchangeRegistry.registerStream]
  | adapter type =>
    have hadapters : ∀ k, ((m.registrar.registerAdapter i type value).adapters.get k) =
        if k = normalized i type ∧ Writes i m ⟨.adapter type, value⟩ then some value
        else m.registrar.adapters.get k := by
      intro k
      simp only [Writes, Slot.isAdapter, Slot.target, Tables.lookup, true_imp_iff]
      unfold GatewayRuntimeRegistrar.registerAdapter
      have hget : m.registrar.getAdapter i type =
          (m.registrar.adapters.get (normalized i type)).join := rfl
      rw [← hget]
      cases hex : m.registrar.getAdapter i type with
      | none =>
        by_cases hv : value = none
        · simp [hv]
        · simp [hv, Ne.symm hv, Dict.get_set]
      | some c =>
        by_cases hv : value = some c
        · simp [hv]
        · simp [Ne.symm hv]
    cases s with
    | adapter k => simpa [Tables.register, Tables.lookup, Slot.target] using hadapters k
    | _ => simp [Tables.register, Tables.lookup, Slot.target]

end PluginRegistries
