import BtApiBase.PyValue

/-!
# The subscription manager

Strategies hold sets of symbols and every symbol is counted. A symbol in a set
or a dictionary is known by the key it hashes to, and the set of a strategy also
keeps the object that was put in; a symbol that cannot be hashed raises in the
middle of the loop and leaves what the loop has done so far.
-/

namespace Subscriptions

open PyText PyDict PyValue

structure SubscriptionManager where
  _strategySymbols : Dict PyStr (Dict PyKey PyVal)
  _refCounts : Dict PyKey Int

def empty : SubscriptionManager := ⟨.empty, .empty⟩

instance : Inhabited SubscriptionManager := ⟨empty⟩

section

variable (m : SubscriptionManager)

/-- The set of a strategy, which a `defaultdict` makes when it is missing. -/
def symbolsOf (strategyId : PyStr) : Dict PyKey PyVal :=
  (m._strategySymbols.get strategyId).getD .empty

def holds (strategyId : PyStr) (k : PyKey) : Bool := ((symbolsOf m strategyId).get k).isSome

/-- One symbol that the strategy does not hold yet. -/
def hold (strategyId : PyStr) (k : PyKey) (symbol : PyVal) : SubscriptionManager where
  _strategySymbols := m._strategySymbols.set strategyId ((symbolsOf m strategyId).set k symbol)
  _refCounts := m._refCounts.set k ((m._refCounts.get k).getD 0 + 1)

def getActiveSymbols : List PyKey := m._refCounts.keys

def isActive (symbol : PyVal) : Bool :=
  (key? symbol).any fun k => (m._refCounts.get k).isSome

def getStrategySymbols (strategyId : PyStr) : List PyVal := (symbolsOf m strategyId).values

def getStrategies : List PyStr := m._strategySymbols.keys

def refCount (symbol : PyVal) : Int := ((key? symbol).bind m._refCounts.get).getD 0

def strategyCount : Nat := m._strategySymbols.length
def symbolCount : Nat := m._refCounts.length

end

/-- `add`: the symbols that nobody held before. -/
def add (m : SubscriptionManager) (strategyId : PyStr) :
    List PyVal → Except PyExc (List PyVal) × SubscriptionManager
  | [] => (.ok [], m)
  | symbol :: symbols =>
    match key? symbol with
    | none =>
      (.error (typeError "unhashable type"), { m with
        _strategySymbols := m._strategySymbols.set strategyId (symbolsOf m strategyId) })
    | some k =>
      if holds m strategyId k then add m strategyId symbols
      else
        let first := (m._refCounts.get k).getD 0 + 1 == 1
        let r := add (hold m strategyId k symbol) strategyId symbols
        (r.1.map fun newly => if first then symbol :: newly else newly, r.2)

/-- The loop of `remove` over the set of the strategy and the counts: what is left of
both, and the symbols that nobody holds any more. -/
def drop (held : Dict PyKey PyVal) (counts : Dict PyKey Int) :
    List PyVal → Except PyExc (List PyVal) × Dict PyKey PyVal × Dict PyKey Int
  | [] => (.ok [], held, counts)
  | symbol :: symbols =>
    match key? symbol with
    | none => (.error (typeError "unhashable type"), held, counts)
    | some k =>
      if (held.get k).isSome then
        let count := (counts.get k).getD 0 - 1
        if count ≤ 0 then
          let r := drop (held.pop k) (counts.pop k) symbols
          (r.1.map fun gone => symbol :: gone, r.2)
        else drop (held.pop k) (counts.set k count) symbols
      else drop held counts symbols

def remove (m : SubscriptionManager) (strategyId : PyStr) (symbols : List PyVal) :
    Except PyExc (List PyVal) × SubscriptionManager :=
  match m._strategySymbols.get strategyId with
  | none => (.ok [], m)
  | some held =>
    let r := drop held m._refCounts symbols
    let done := r.1.toOption.isSome && r.2.1.items.isEmpty
    (r.1, ⟨if done then m._strategySymbols.pop strategyId
      else m._strategySymbols.set strategyId r.2.1, r.2.2⟩)

/-- The loop of `remove_strategy`: the symbols that nobody holds any more. -/
def release : Dict PyKey Int → List (PyKey × PyVal) → List PyVal × Dict PyKey Int
  | counts, [] => ([], counts)
  | counts, (k, symbol) :: symbols =>
    let count := (counts.get k).getD 0 - 1
    if count ≤ 0 then
      let r := release (counts.pop k) symbols
      (symbol :: r.1, r.2)
    else release (counts.set k count) symbols

def removeStrategy (m : SubscriptionManager) (strategyId : PyStr) :
    List PyVal × SubscriptionManager :=
  let r := release m._refCounts (symbolsOf m strategyId).items
  (r.1, ⟨m._strategySymbols.pop strategyId, r.2⟩)

/-! ## What is active afterwards -/

def Active (m : SubscriptionManager) (k : PyKey) : Prop := k ∈ getActiveSymbols m

theorem active_iff (m : SubscriptionManager) (k : PyKey) :
    Active m k ↔ (m._refCounts.get k).isSome = true := Dict.mem_keys _ _

/-- The symbols that a loop over them gets to see: those before the first that
cannot be hashed. -/
def hashed : List PyVal → List PyKey
  | [] => []
  | symbol :: symbols => match key? symbol with
    | some k => k :: hashed symbols
    | none => []

theorem active_hold (m : SubscriptionManager) (sid : PyStr) (k : PyKey) (symbol : PyVal)
    (j : PyKey) : Active (hold m sid k symbol) j ↔ j = k ∨ Active m j := by
  simp only [active_iff, hold, Dict.get_set]
  split <;> simp_all

theorem holds_hold (m : SubscriptionManager) (sid : PyStr) (k : PyKey) (symbol : PyVal)
    (j : PyKey) : holds (hold m sid k symbol) sid j = true ↔ j = k ∨ holds m sid j = true := by
  simp only [holds, symbolsOf, hold, Dict.get_set_same, Option.getD_some, Dict.get_set]
  split <;> simp_all

/-- `add` makes active what the strategy did not hold yet, and nothing else. -/
theorem active_add (m : SubscriptionManager) (sid : PyStr) (symbols : List PyVal) (k : PyKey) :
    Active (add m sid symbols).2 k ↔
      Active m k ∨ (k ∈ hashed symbols ∧ holds m sid k = false) := by
  induction symbols generalizing m with
  | nil => simp [add, hashed]
  | cons symbol symbols ih =>
    cases h : key? symbol with
    | none => simp [add, hashed, h, active_iff]
    | some j =>
      by_cases hj : holds m sid j = true
      · simp only [add, hashed, h, hj, ↓reduceIte, ih, List.mem_cons]
        constructor
        · rintro (ha | ⟨hk, hh⟩)
          · exact .inl ha
          · exact .inr ⟨.inr hk, hh⟩
        · rintro (ha | ⟨rfl | hk, hh⟩)
          · exact .inl ha
          · rw [hj] at hh
            cases hh
          · exact .inr ⟨hk, hh⟩
      · simp only [add, hashed, h, hj, Bool.false_eq_true, ↓reduceIte, ih, active_hold,
          ← Bool.not_eq_true, holds_hold, List.mem_cons]
        grind

/-- `remove_strategy` makes nothing active. -/
theorem active_removeStrategy {m : SubscriptionManager} {sid : PyStr} {k : PyKey}
    (h : Active (removeStrategy m sid).2 k) : Active m k := by
  rw [active_iff] at h ⊢
  simp only [removeStrategy] at h
  generalize (symbolsOf m sid).items = symbols at h
  generalize m._refCounts = counts at h ⊢
  induction symbols generalizing counts with
  | nil => exact h
  | cons entry symbols ih =>
    obtain ⟨j, symbol⟩ := entry
    simp only [release] at h
    split at h
    · have := ih _ h
      rw [Dict.get_pop] at this
      split at this
      · cases this
      · exact this
    · have hs := ih _ h
      rw [Dict.get_set] at hs
      split at hs
      · next hk =>
        cases hc : counts.get k with
        | some n => rfl
        | none => simp_all
      · exact hs

end Subscriptions
