import BtApiBase.RuntimeFrame
import BtApiBase.Runs

/-!
# Active symbols and requested symbols

Commands subscribe and unsubscribe while the connect thread is still at work.
A registration reads the flag once and acts on what it has read, so the connect
can fall between the two. A symbol that is counted without a connected adapter
is active from then on, and a symbol that is active is never asked for again.
-/

namespace RuntimeSubscriptions

open PyText PyDict PyValue Effects Subscriptions RuntimeRemote RuntimeFrame Runs

/-! ## What a subscription asks for -/

/-- The symbols of one call of the adapter. -/
def Effect.symbols : Effect → List PyKey
  | .subscribeSymbols symbols => symbols.filterMap key?
  | _ => []

/-- Every symbol that was ever passed to `adapter.subscribe_symbols`. -/
def asked (s : GatewayRuntime) : List PyKey := s.trace.flatMap Effect.symbols

/-- Every active symbol was asked for. -/
def Covered (s : GatewayRuntime) : Prop := ∀ k, Active s.subscriptions k → k ∈ asked s

/-- The adapter accepts what it is asked for, in its own order. -/
def Accepts (env : Env) : Prop :=
  ∀ requested, ∃ answer accepted skipped,
    env.adapter.subscribeSymbols (texts requested) = .ok answer ∧
    acceptedOf env answer requested = .ok (accepted, skipped) ∧
    ∀ symbol, symbol ∈ accepted ↔ symbol ∈ requested

theorem hashed_texts (xs : List PyStr) : hashed (texts xs) = xs.map fun x => [.str x] := by
  induction xs with
  | nil => rfl
  | cons x xs ih =>
    have hx : key? (.str x) = some [.str x] := rfl
    have hc : texts (x :: xs) = .str x :: texts xs := rfl
    rw [hc, hashed, hx, ih, List.map_cons]

theorem symbols_texts (xs : List PyStr) :
    Effect.symbols (.subscribeSymbols (texts xs)) = xs.map fun x => [.str x] := by
  induction xs with
  | nil => rfl
  | cons x xs ih => simpa [Effect.symbols, texts, key?] using ih

/-- Strings are always hashed. -/
theorem add_texts (m : SubscriptionManager) (sid : PyStr) (xs : List PyStr) :
    ∃ newly, (add m sid (texts xs)).1 = .ok newly := by
  induction xs generalizing m with
  | nil => exact ⟨[], rfl⟩
  | cons x xs ih =>
    have hx : key? (.str x) = some [.str x] := rfl
    have hc : texts (x :: xs) = .str x :: texts xs := rfl
    simp only [hc, add, hx]
    split
    · exact ih m
    · obtain ⟨newly, h⟩ := ih (hold m sid [.str x] (.str x))
      exact ⟨_, by rw [h]; rfl⟩

theorem covered_of_add {s s' : GatewayRuntime} {sid : PyStr} {symbols : List PyVal}
    (h : Covered s) (hs : s'.subscriptions = (add s.subscriptions sid symbols).2)
    (ha : asked s ⊆ asked s') (hk : ∀ k ∈ hashed symbols, k ∈ asked s') : Covered s' := by
  intro k hact
  rw [hs, active_add] at hact
  rcases hact with hact | ⟨hmem, -⟩
  · exact ha (h k hact)
  · exact hk k hmem

/-- What is counted and what was asked for. -/
def view (s : GatewayRuntime) : SubscriptionManager × List Effect := (s.subscriptions, s.trace)

theorem covered_of_view {s s' : GatewayRuntime} (hv : view s' = view s) (h : Covered s) :
    Covered s' := by
  have hs : s'.subscriptions = s.subscriptions := congrArg Prod.fst hv
  have ht : asked s' = asked s := congrArg (List.flatMap Effect.symbols) (congrArg Prod.snd hv)
  intro k hk
  rw [ht]
  exact h k (hs ▸ hk)

variable {env : Env}

/-- The adapter is asked for all that is requested and accepts it. -/
theorem exec_requestSymbols (hacc : Accepts env) (newly : List PyStr) (s : GatewayRuntime) :
    ∃ accepted skipped s', exec (requestSymbols env newly) s = (.ok (accepted, skipped), s') ∧
      s'.subscriptions = s.subscriptions ∧
      asked s' = asked s ++ newly.map (fun x => [.str x]) ∧
      ∀ x, x ∈ accepted ↔ x ∈ newly := by
  unfold requestSymbols
  split
  · next h =>
    subst h
    exact ⟨[], [], s, rfl, rfl, by simp, by simp⟩
  · obtain ⟨answer, accepted, skipped, ha, hb, hmem⟩ := hacc newly
    refine ⟨accepted, skipped,
      { s with trace := s.trace ++ [.subscribeSymbols (texts newly)] }, ?_, rfl, ?_, hmem⟩
    · rw [emit, exec_modify_bind, exec_bind, exec_ofExcept, ha]
      simp only [exec_ofExcept, hb]
    · simp only [asked, List.flatMap_append, List.flatMap_singleton, symbols_texts]

theorem exec_addSymbols (sid : PyStr) (xs : List PyStr) (s : GatewayRuntime) :
    ∃ newly, exec (addSymbols sid (texts xs)) s =
      (.ok newly, { s with subscriptions := (add s.subscriptions sid (texts xs)).2 }) := by
  obtain ⟨newly, h⟩ := add_texts s.subscriptions sid xs
  refine ⟨newly, ?_⟩
  rw [addSymbols, exec_transition]
  exact Prod.ext h rfl

theorem keeps_view_syncHealthCounts : Keeps view _syncHealthCounts :=
  keeps_modify fun _ => rfl

/-- A subscription that an adapter accepts keeps every active symbol asked for. -/
theorem covered_subscribeForStrategy (hacc : Accepts env) (sid : PyStr) (symbols : List PyVal)
    {s : GatewayRuntime} (h : Covered s) :
    Covered (exec (_subscribeForStrategy env sid symbols) s).2 := by
  unfold _subscribeForStrategy
  dsimp only
  split
  · exact covered_of_view (s := s) rfl h
  · rw [exec_get_bind]
    generalize hact : (symbolTexts env symbols).filter
      (fun symbol => isActive s.subscriptions (.str symbol)) = active
    generalize (symbolTexts env symbols).filter
      (fun symbol => !isActive s.subscriptions (.str symbol)) = newly
    obtain ⟨accepted, skipped, s₁, he, hs₁, ha₁, hmem⟩ := exec_requestSymbols hacc newly s
    have hsub : asked s ⊆ asked s₁ := ha₁ ▸ List.subset_append_left _ _
    have h₁ : Covered s₁ := fun k hk => hsub (h k (hs₁ ▸ hk))
    obtain ⟨_, he₂⟩ := exec_addSymbols sid active s₁
    obtain ⟨_, he₃⟩ := exec_addSymbols sid accepted
      { s₁ with subscriptions := (add s₁.subscriptions sid (texts active)).2 }
    rw [exec_bind_ok he]
    dsimp only
    rw [exec_bind_ok he₂, exec_bind_ok he₃]
    refine covered_of_view (keeps_bind keeps_view_syncHealthCounts (fun _ =>
      keeps_bind (keeps_ofExcept _) fun _ => keeps_bind (keeps_ofExcept _) fun _ =>
      keeps_bind (keeps_ofExcept _) fun _ => keeps_pure _) _) ?_
    -- first the symbols that are active already, then those that the adapter accepted
    have h₂ : Covered { s₁ with subscriptions := (add s₁.subscriptions sid (texts active)).2 } := by
      refine covered_of_add h₁ rfl (List.Subset.refl _) fun k hk => ?_
      rw [hashed_texts] at hk
      obtain ⟨x, hx, rfl⟩ := List.mem_map.mp hk
      refine h₁ _ ((active_iff _ _).mpr ?_)
      rw [hs₁]
      have hx' := (List.mem_filter.mp (hact ▸ hx)).2
      simpa [isActive, key?] using hx'
    refine covered_of_add h₂ rfl (List.Subset.refl _) fun k hk => ?_
    rw [hashed_texts] at hk
    obtain ⟨x, hx, rfl⟩ := List.mem_map.mp hk
    have hk' : ([.str x] : PyKey) ∈ asked s₁ := by
      rw [ha₁]
      exact List.mem_append_right _ (List.mem_map.mpr ⟨x, (hmem x).mp hx, rfl⟩)
    exact hk'

/-! ## Runs -/

/-- A registration that has read the flag and has not acted on it yet. -/
structure Pending where
  strategyId : PyStr
  symbols : List PyVal
  connected : Bool

structure World where
  runtime : GatewayRuntime
  pending : Option Pending

def withAdapter (py : Interp) (adapter : Adapter) : Env := ⟨py, .ample, adapter, none, 0, 0⟩

structure Accepting (py : Interp) where
  adapter : Adapter
  accepts : Accepts (withAdapter py adapter)

/-- The command loop handles one command at a time; the connect thread ends at
any time, and only once. -/
inductive Label (py : Interp) where
  | begin (payload : PyMap)
  | finish (adapter : Accepting py)
  | subscribe (adapter : Accepting py) (payload : PyMap)
  | unregister (payload : PyMap)
  | connect (succeeds : Bool)

section

variable (py : Interp)

/-- The registration up to the test of the flag. -/
def beginRegistration (s : GatewayRuntime) (payload : PyMap) : Option Pending :=
  match RuntimeRemote.symbolsOf payload with
  | .ok symbols =>
    some ⟨textOr (withAdapter py .silent) payload "strategy_id" "", symbols, s._adapterConnected⟩
  | .error _ => none

/-- The registration from the test of the flag on. -/
def finishRegistration (env : Env) (p : Pending) : Runtime PyVal :=
  if p.connected then registerConnected env p.strategyId p.symbols
  else registerUnconnected p.strategyId p.symbols

def step (w : World) : Label py → World
  | .begin payload => match w.pending with
    | none => { w with pending := beginRegistration py w.runtime payload }
    | some _ => w
  | .finish a => match w.pending with
    | none => w
    | some p => ⟨(exec (finishRegistration (withAdapter py a.adapter) p) w.runtime).2, none⟩
  | .subscribe a payload => match w.pending with
    | none => { w with
      runtime := (exec (_dispatch (withAdapter py a.adapter) "subscribe" payload) w.runtime).2 }
    | some _ => w
  | .unregister payload => match w.pending with
    | none => { w with runtime :=
      (exec (_dispatch (withAdapter py .silent) "unregister_strategy" payload) w.runtime).2 }
    | some _ => w
  | .connect succeeds =>
    if w.runtime._adapterConnected then w
    else { w with
      runtime := if succeeds then connectSucceeded w.runtime else connectGivenUp w.runtime }

/-- A gateway whose connect thread has just been started. -/
def init (allocator : Option OrderRef.OrderRefAllocator) : World :=
  ⟨{ up allocator with _adapterConnected := false }, none⟩

/-- A registration that nothing interrupts is the command. -/
theorem begin_finish (w : World) (a : Accepting py) (payload : PyMap) (h : w.pending = none) :
    (run (step py) w [.begin payload, .finish a]).runtime =
      (exec (_dispatch (withAdapter py a.adapter) "register_strategy" payload) w.runtime).2 := by
  have hd : _dispatch (withAdapter py a.adapter) "register_strategy" payload =
      registerStrategy (withAdapter py a.adapter) payload := by
    simp [_dispatch]
  rw [hd, registerStrategy]
  simp only [run_cons, run_nil, step, h, beginRegistration]
  cases hs : RuntimeRemote.symbolsOf payload with
  | error e => simp only [exec_bind, exec_ofExcept]
  | ok symbols =>
    simp only [exec_bind, exec_ofExcept, exec_get, finishRegistration]
    rfl

/-- While the adapter is connected every active symbol was asked for. -/
def CoveredWhenConnected (w : World) : Prop :=
  w.runtime._adapterConnected = true → Covered w.runtime

/-- The connect finds no active symbol, and a registration that read the flag
before it adds none after it. -/
def Quiet (w : World) : Label py → Prop
  | .connect succeeds => succeeds = true → w.runtime._adapterConnected = false →
    ∀ k, ¬ Active w.runtime.subscriptions k
  | .finish _ => ∀ p, w.pending = some p → p.connected = false →
    w.runtime._adapterConnected = true →
    ∀ k ∈ hashed p.symbols, holds w.runtime.subscriptions p.strategyId k = true
  | _ => True

/-- Nothing is asked for before the connect, nor while a registration that read
the flag before it is under way. -/
structure Inv (w : World) : Prop where
  unconnected : w.runtime._adapterConnected = false → asked w.runtime = []
  pendingUnconnected : ∀ p, w.pending = some p → p.connected = false → asked w.runtime = []
  pendingConnected : ∀ p, w.pending = some p → p.connected = true →
    w.runtime._adapterConnected = true

variable {py}

theorem connected_of_keeps {m : Runtime PyVal} (h : Keeps controls m) (s : GatewayRuntime) :
    (exec m s).2._adapterConnected = s._adapterConnected :=
  congrArg Control.connected (h s)

theorem keeps_trace_unregister (env : Env) (payload : PyMap) :
    Keeps GatewayRuntime.trace (_dispatch env "unregister_strategy" payload) := by
  have hd : _dispatch env "unregister_strategy" payload = unregisterStrategy env payload := by
    simp [_dispatch]
  rw [hd]
  exact keeps_bind (keeps_transition fun _ => rfl) fun _ =>
    keeps_bind (keeps_modify fun _ => rfl) fun _ => keeps_bind (keeps_ofExcept _) fun _ =>
    keeps_pure _

theorem keeps_trace_registerUnconnected (sid : PyStr) (symbols : List PyVal) :
    Keeps GatewayRuntime.trace (registerUnconnected sid symbols) :=
  keeps_bind (keeps_transition fun _ => rfl) fun _ =>
    keeps_bind (keeps_modify fun _ => rfl) fun _ => keeps_bind (keeps_ofExcept _) fun _ =>
    keeps_bind (keeps_ofExcept _) fun _ => keeps_pure _

theorem asked_of_keeps {m : Runtime PyVal} (h : Keeps GatewayRuntime.trace m) (s : GatewayRuntime) :
    asked (exec m s).2 = asked s := congrArg (List.flatMap Effect.symbols) (h s)

theorem subscriptions_registerUnconnected (sid : PyStr) (symbols : List PyVal)
    (s : GatewayRuntime) :
    (exec (registerUnconnected sid symbols) s).2.subscriptions =
      (add s.subscriptions sid symbols).2 := by
  have ha : exec (addSymbols sid symbols) s = ((add s.subscriptions sid symbols).1,
      { s with subscriptions := (add s.subscriptions sid symbols).2 }) := rfl
  unfold registerUnconnected
  rw [exec_bind, ha]
  cases (add s.subscriptions sid symbols).1 with
  | error e => rfl
  | ok newly =>
    exact congrArg Prod.fst (keeps_bind keeps_view_syncHealthCounts (fun _ =>
      keeps_bind (keeps_ofExcept _) fun _ => keeps_bind (keeps_ofExcept _) fun _ =>
      keeps_pure _) _)

theorem exec_dispatch_subscribe (env : Env) (payload : PyMap) (s : GatewayRuntime) :
    exec (_dispatch env "subscribe" payload) s =
      if s._adapterConnected then exec (subscribe env payload) s
      else (.error ⟨.runtimeError, u "adapter not yet connected, cannot execute: " ++
        u "subscribe"⟩, s) := by
  unfold _dispatch dispatchConnected
  simp only [u_inj, String.reduceEq, ↓reduceIte, exec_get_bind]
  split <;> rfl

theorem covered_registerConnected {env : Env} (hacc : Accepts env) (sid : PyStr)
    (symbols : List PyVal) {s : GatewayRuntime} (h : Covered s) :
    Covered (exec (registerConnected env sid symbols) s).2 := by
  have hc := covered_subscribeForStrategy hacc sid symbols h
  unfold registerConnected
  rw [exec_bind]
  split
  · next r s' he => rw [he] at hc; exact hc
  · next e s' he => rw [he] at hc; exact hc

theorem covered_subscribe {env : Env} (hacc : Accepts env) (payload : PyMap) {s : GatewayRuntime}
    (h : Covered s) : Covered (exec (subscribe env payload) s).2 := by
  unfold subscribe
  rw [exec_bind, exec_ofExcept]
  cases RuntimeRemote.symbolsOf payload with
  | error e => exact h
  | ok symbols =>
    have hc := covered_subscribeForStrategy hacc (textOr env payload "strategy_id" "default")
      symbols h
    dsimp only
    rw [exec_bind]
    split
    · next r s' he => rw [he] at hc; exact hc
    · next e s' he => rw [he] at hc; exact hc

theorem active_unregister {env : Env} {payload : PyMap} {s : GatewayRuntime} {k : PyKey}
    (h : Active (exec (_dispatch env "unregister_strategy" payload) s).2.subscriptions k) :
    Active s.subscriptions k := by
  have hd : _dispatch env "unregister_strategy" payload = unregisterStrategy env payload := by
    simp [_dispatch]
  rw [hd] at h
  have hs : (exec (unregisterStrategy env payload) s).2.subscriptions =
      (removeStrategy s.subscriptions (textOr env payload "strategy_id" "")).2 := by
    unfold unregisterStrategy
    rw [exec_bind, exec_transition]
    exact congrArg Prod.fst (keeps_bind keeps_view_syncHealthCounts (fun _ =>
      keeps_bind (keeps_ofExcept _) fun _ => keeps_pure _) _)
  rw [hs] at h
  exact active_removeStrategy h

theorem connected_finish (env : Env) (p : Pending) (s : GatewayRuntime) :
    (exec (finishRegistration env p) s).2._adapterConnected = s._adapterConnected := by
  refine connected_of_keeps ?_ s
  unfold finishRegistration
  exact keeps_ite (keeps_bind (keeps_subscribeForStrategy untouched_controls env _ _) fun _ => keeps_pure _)
    (keeps_registerUnconnected untouched_controls _ _)

theorem inv_step (w : World) (l : Label py) (h : Inv w) : Inv (step py w l) := by
  obtain ⟨hun, hpun, hpcon⟩ := h
  cases l with
  | begin payload =>
    simp only [step]
    split
    · refine ⟨hun, fun p hp hc => hun ?_, fun p hp hc => ?_⟩
      all_goals
        simp only [beginRegistration] at hp
        split at hp <;> cases hp
        exact hc
    · exact ⟨hun, hpun, hpcon⟩
  | finish a =>
    simp only [step]
    split
    · exact ⟨hun, hpun, hpcon⟩
    · next p hp =>
      refine ⟨fun hc => ?_, fun _ h _ => (by cases h), fun _ h _ => (by cases h)⟩
      rw [connected_finish] at hc
      have hpc : p.connected = false := by
        cases hpc : p.connected with
        | false => rfl
        | true => rw [hpcon p hp hpc] at hc; cases hc
      simp only [finishRegistration, hpc, Bool.false_eq_true, ↓reduceIte]
      rw [asked_of_keeps (keeps_trace_registerUnconnected _ _)]
      exact hun hc
  | subscribe a payload =>
    simp only [step]
    split
    · next hp =>
      refine ⟨fun hc => ?_, fun _ h _ => by simp [hp] at h, fun _ h _ => by simp [hp] at h⟩
      rw [connected_of_keeps (keeps_dispatch untouched_controls _ _ _)] at hc
      simp only [exec_dispatch_subscribe, hc, Bool.false_eq_true, ↓reduceIte]
      exact hun hc
    · exact ⟨hun, hpun, hpcon⟩
  | unregister payload =>
    simp only [step]
    split
    · next hp =>
      refine ⟨fun hc => ?_, fun _ h _ => by simp [hp] at h, fun _ h _ => by simp [hp] at h⟩
      rw [connected_of_keeps (keeps_dispatch untouched_controls _ _ _)] at hc
      rw [asked_of_keeps (keeps_trace_unregister _ _)]
      exact hun hc
    · exact ⟨hun, hpun, hpcon⟩
  | connect succeeds =>
    simp only [step]
    split
    · exact ⟨hun, hpun, hpcon⟩
    · next hc =>
      have hc : w.runtime._adapterConnected = false := by simpa using hc
      have ha : asked (if succeeds then connectSucceeded w.runtime
          else connectGivenUp w.runtime) = [] := by
        rw [← hun hc]
        split <;> rfl
      refine ⟨fun _ => ha, fun _ _ _ => ha, fun p hp hpc => ?_⟩
      rw [hpcon p hp hpc] at hc
      cases hc

/-- Where nothing was asked for, every active symbol was asked for exactly if
none is active. -/
theorem covered_of_asked_nil {s : GatewayRuntime} (h : asked s = []) :
    Covered s ↔ ∀ k, ¬ Active s.subscriptions k := by
  simp [Covered, h]

theorem covered_step (w : World) (l : Label py) (hw : Inv w) (h : CoveredWhenConnected w) :
    CoveredWhenConnected (step py w l) ↔ Quiet py w l := by
  obtain ⟨hun, hpun, hpcon⟩ := hw
  cases l with
  | begin payload =>
    refine iff_of_true ?_ trivial
    simp only [step]
    split <;> exact h
  | finish a =>
    simp only [step, Quiet]
    split
    · next hp => exact iff_of_true h fun p h' => by simp [hp] at h'
    · next p hp =>
      cases hpc : p.connected with
      | true =>
        refine iff_of_true (fun _ => ?_) fun p' hp' hpc' => ?_
        · simp only [finishRegistration, hpc, ↓reduceIte]
          exact covered_registerConnected a.accepts _ _ (h (hpcon p hp hpc))
        · rw [hp, Option.some.injEq] at hp'
          rw [← hp', hpc] at hpc'
          cases hpc'
      | false =>
        simp only [CoveredWhenConnected, connected_finish]
        rw [hp]
        simp only [Option.some.injEq, forall_eq', hpc, true_imp_iff]
        refine imp_congr_right fun hc => ?_
        have hn : asked w.runtime = [] := hpun p hp hpc
        have hnone := (covered_of_asked_nil hn).mp (h hc)
        simp only [finishRegistration, hpc, Bool.false_eq_true, ↓reduceIte]
        rw [covered_of_asked_nil (by
          rw [asked_of_keeps (keeps_trace_registerUnconnected _ _), hn])]
        simp only [subscriptions_registerUnconnected, active_add, hnone, false_or, not_and,
          Bool.not_eq_false]
  | subscribe a payload =>
    refine iff_of_true ?_ trivial
    simp only [step]
    split
    · intro hc
      rw [connected_of_keeps (keeps_dispatch untouched_controls _ _ _)] at hc
      simp only [exec_dispatch_subscribe, hc, ↓reduceIte]
      exact covered_subscribe a.accepts _ (h hc)
    · exact h
  | unregister payload =>
    refine iff_of_true ?_ trivial
    simp only [step]
    split
    · intro hc k hk
      rw [connected_of_keeps (keeps_dispatch untouched_controls _ _ _)] at hc
      rw [asked_of_keeps (keeps_trace_unregister _ _)]
      exact h hc k (active_unregister hk)
    · exact h
  | connect succeeds =>
    simp only [step, Quiet]
    split
    · next hc => exact iff_of_true h fun _ hc' => by rw [hc] at hc'; cases hc'
    · next hc =>
      have hc : w.runtime._adapterConnected = false := by simpa using hc
      cases succeeds with
      | false =>
        refine iff_of_true (fun hc' => ?_) fun hs => by cases hs
        cases hc'
      | true =>
        simp only [↓reduceIte, hc, true_imp_iff, CoveredWhenConnected]
        rw [covered_of_asked_nil (s := connectSucceeded w.runtime) (hun hc)]
        simp [connectSucceeded]

theorem inv_init (allocator : Option OrderRef.OrderRefAllocator) : Inv (init allocator) where
  unconnected _ := rfl
  pendingUnconnected _ h := by cases h
  pendingConnected _ h := by cases h

variable (py) in
/-- In every interleaving of commands and the connect, every active symbol was
asked for in all connected states if and only if the connect finds no active
symbol and no registration that read the flag before it adds one after it. -/
theorem covered_iff (allocator : Option OrderRef.OrderRefAllocator) (labels : List (Label py)) :
    Throughout (step py) CoveredWhenConnected (init allocator) labels ↔
      Meets (step py) (Quiet py) (init allocator) labels :=
  throughout_iff_meets (fun w l => inv_step w l) (fun w l => covered_step w l)
    (inv_init allocator) (fun h => by cases h) labels

end

/-! ## A symbol that is never asked for -/

/-- An adapter that accepts by returning nothing. -/
def silent : Accepting .ascii where
  adapter := .silent
  accepts requested := ⟨.none, requested, [], rfl, rfl, fun _ => Iff.rfl⟩

/-- A strategy registers before the connect: its symbol is active and was not
asked for, and another strategy that subscribes to it does not change that. -/
theorem early_symbol_not_requested :
    ∃ labels : List (Label .ascii),
      (run (step .ascii) (init none) labels).runtime._adapterConnected = true ∧
      getActiveSymbols (run (step .ascii) (init none) labels).runtime.subscriptions =
        [[.str "rb"]] ∧
      asked (run (step .ascii) (init none) labels).runtime = [] ∧
      ¬ Throughout (step .ascii) CoveredWhenConnected (init none) labels := by
  let symbols : PyMap := [(.str "strategy_id", .str "a"), (.str "symbols", .list [.str "rb"])]
  let again : PyMap := [(.str "strategy_id", .str "b"), (.str "symbols", .list [.str "rb"])]
  let labels : List (Label .ascii) :=
    [.begin symbols, .finish silent, .connect true, .subscribe silent again]
  have hc : (run (step .ascii) (init none) labels).runtime._adapterConnected = true := by
    decide +kernel
  have ha : getActiveSymbols (run (step .ascii) (init none) labels).runtime.subscriptions =
      [[.str "rb"]] := by decide +kernel
  have hn : asked (run (step .ascii) (init none) labels).runtime = [] := by decide +kernel
  refine ⟨labels, hc, ha, hn, fun h => ?_⟩
  have hcov := throughout_last h hc
  refine (covered_of_asked_nil hn).mp hcov [.str "rb"] ?_
  rw [Active, ha]
  exact List.mem_singleton.mpr rfl

end RuntimeSubscriptions
