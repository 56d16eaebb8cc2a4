import BtApiBase.RuntimeRemote

/-!
# What a command and an event leave alone

Only the failure handler stops the loop, changes the health or the market state
or disconnects the adapter, and only the command handler replies. Everything a
command dispatches to, and everything that is done with an adapter's output,
keeps `controls`.
-/

namespace RuntimeFrame

open PyText PyDict PyValue PyJson Effects Health Protocol Subscriptions OrderMap OrderMatching
  OrderRef RuntimeRemote

/-- The replies sent and the disconnects made. -/
def Effect.isControl : Effect → Bool
  | .reply _ _ => true
  | .disconnect => true
  | _ => false

structure Control where
  running : Bool
  connected : Bool
  sockets : Bool
  state : GatewayState
  market : ConnectionState
  trace : List Effect

def controls (s : GatewayRuntime) : Control :=
  ⟨s.running, s._adapterConnected, s.sockets, s.health._state, s.health._marketConn,
    s.trace.filter Effect.isControl⟩

/-- `f` reads nothing that a command writes to: of the health the two states alone, of the
trace the controls alone, and neither the map nor the subscriptions nor the allocator. -/
structure Untouched {γ : Type} (f : GatewayRuntime → γ) : Prop where
  health : ∀ (s : GatewayRuntime) (g : GatewayHealth → GatewayHealth),
    (∀ x, (g x)._state = x._state ∧ (g x)._marketConn = x._marketConn) → f { s with health := g s.health } = f s
  orderMap : ∀ (s : GatewayRuntime) m, f { s with orderMap := m } = f s
  subscriptions : ∀ (s : GatewayRuntime) m, f { s with subscriptions := m } = f s
  allocator : ∀ (s : GatewayRuntime) a, f { s with orderRefAllocator := a } = f s
  heartbeat : ∀ (s : GatewayRuntime) t, f { s with _lastRuntimeHeartbeatMonotonic := t } = f s
  trace : ∀ (s : GatewayRuntime) effect, Effect.isControl effect = false →
    f { s with trace := s.trace ++ [effect] } = f s

theorem untouched_controls : Untouched controls where
  health s g h := by simp [controls, h]
  orderMap _ _ := rfl
  subscriptions _ _ := rfl
  allocator _ _ := rfl
  heartbeat _ _ := rfl
  trace s effect h := by simp [controls, h]

theorem Untouched.of_eq {γ τ : Type} {f : GatewayRuntime → γ} {g : GatewayRuntime → τ} (h : Untouched f)
    (hg : ∀ s s', f s' = f s → g s' = g s) : Untouched g where
  health s c hc := hg s _ (h.health s c hc)
  orderMap s m := hg s _ (h.orderMap s m)
  subscriptions s m := hg s _ (h.subscriptions s m)
  allocator s a := hg s _ (h.allocator s a)
  heartbeat s t := hg s _ (h.heartbeat s t)
  trace s effect he := hg s _ (h.trace s effect he)

section

variable {γ : Type} {f : GatewayRuntime → γ} (hf : Untouched f)

include hf

theorem keeps_onHealth {g : GatewayHealth → GatewayHealth}
    (h : ∀ x, (g x)._state = x._state ∧ (g x)._marketConn = x._marketConn) : Keeps f (onHealth g) :=
  keeps_modify fun s => hf.health s g h

theorem keeps_onOrderMap (g : OrderIdentityMap → OrderIdentityMap) : Keeps f (onOrderMap g) :=
  keeps_modify fun s => hf.orderMap s _

theorem keeps_emit {effect : Effect} (h : Effect.isControl effect = false) : Keeps f (emit effect) :=
  keeps_modify fun s => hf.trace s effect h

theorem keeps_addSymbols (sid : PyStr) (symbols : List PyVal) : Keeps f (addSymbols sid symbols) :=
  keeps_transition fun s => hf.subscriptions s _

theorem keeps_syncHealthCounts : Keeps f _syncHealthCounts :=
  keeps_modify fun s => hf.health s
    (updateCounts · (strategyCount s.subscriptions) (symbolCount s.subscriptions)) fun _ => ⟨rfl, rfl⟩

variable (env : Env)

/-! ## Commands -/

theorem keeps_requestSymbols (symbols : List PyStr) :
    Keeps f (requestSymbols env symbols) :=
  keeps_ite (keeps_pure _) <| keeps_bind (keeps_emit hf rfl) fun _ =>
    keeps_bind (keeps_ofExcept _) fun _ => keeps_ofExcept _

theorem keeps_subscribeForStrategy (sid : PyStr) (symbols : List PyVal) :
    Keeps f (_subscribeForStrategy env sid symbols) :=
  keeps_ite (keeps_bind (keeps_syncHealthCounts hf) fun _ => keeps_pure _) <|
    keeps_bind keeps_get fun _ => keeps_bind (keeps_requestSymbols hf env _) fun _ =>
    keeps_bind (keeps_addSymbols hf _ _) fun _ => keeps_bind (keeps_addSymbols hf _ _) fun _ =>
    keeps_bind (keeps_syncHealthCounts hf) fun _ => keeps_bind (keeps_ofExcept _) fun _ =>
    keeps_bind (keeps_ofExcept _) fun _ => keeps_bind (keeps_ofExcept _) fun _ => keeps_pure _

theorem keeps_registerUnconnected (sid : PyStr) (symbols : List PyVal) :
    Keeps f (registerUnconnected sid symbols) :=
  keeps_bind (keeps_addSymbols hf _ _) fun _ => keeps_bind (keeps_syncHealthCounts hf) fun _ =>
    keeps_bind (keeps_ofExcept _) fun _ => keeps_bind (keeps_ofExcept _) fun _ => keeps_pure _

theorem keeps_registerStrategy (payload : PyMap) : Keeps f (registerStrategy env payload) :=
  keeps_bind (keeps_ofExcept _) fun _ => keeps_bind keeps_get fun _ =>
    keeps_ite (keeps_bind (keeps_subscribeForStrategy hf env _ _) fun _ => keeps_pure _)
      (keeps_registerUnconnected hf _ _)

theorem keeps_unregisterStrategy (payload : PyMap) :
    Keeps f (unregisterStrategy env payload) :=
  keeps_bind (keeps_transition fun s => hf.subscriptions s _) fun _ => keeps_bind (keeps_syncHealthCounts hf) fun _ =>
    keeps_bind (keeps_ofExcept _) fun _ => keeps_pure _

theorem keeps_subscribe (payload : PyMap) : Keeps f (subscribe env payload) :=
  keeps_bind (keeps_ofExcept _) fun _ =>
    keeps_bind (keeps_subscribeForStrategy hf env _ _) fun _ => keeps_pure _

theorem keeps_adapterTrades (symbol : Option PyStr) (limit : Int) :
    Keeps f (adapterTrades env symbol limit) := by
  unfold adapterTrades
  split
  · exact keeps_pure _
  · exact keeps_tryCatch (keeps_ofExcept _) fun _ =>
      keeps_bind (keeps_onHealth hf fun _ => ⟨rfl, rfl⟩) fun _ => keeps_pure _

theorem keeps_getTradesCommand (payload : PyMap) : Keeps f (getTradesCommand env payload) :=
  keeps_bind (keeps_ofExcept _) fun _ => keeps_bind (keeps_adapterTrades hf env _ _) fun _ =>
    keeps_bind keeps_get fun _ => keeps_pure _

theorem keeps_allocate (requestId : PyStr) : Keeps f (allocate requestId) := by
  refine keeps_bind keeps_get fun s => ?_
  split
  · exact keeps_pure _
  · exact keeps_bind (keeps_modify fun s => hf.allocator s _) fun _ => keeps_bind (keeps_ofExcept _) fun _ =>
      keeps_bind (keeps_onOrderMap hf _) fun _ => keeps_pure _

theorem keeps_placeOrder (payload : PyMap) : Keeps f (placeOrder env payload) :=
  keeps_bind (keeps_onOrderMap hf _) fun _ => keeps_bind (keeps_allocate hf _) fun _ =>
    keeps_bind (keeps_onHealth hf fun _ => ⟨rfl, rfl⟩) fun _ => keeps_bind (keeps_emit hf rfl) fun _ =>
    keeps_bind (keeps_ofExcept _) fun _ => keeps_bind (keeps_onOrderMap hf _) fun _ => keeps_pure _

theorem keeps_dispatchConnected (command : PyStr) (payload : PyMap) :
    Keeps f (dispatchConnected env command payload) :=
  keeps_ite (keeps_subscribe hf env _) <| keeps_ite (keeps_ofExcept _) <|
    keeps_ite (keeps_ofExcept _) <| keeps_ite (keeps_getTradesCommand hf env _) <|
    keeps_ite (keeps_placeOrder hf env _) <| keeps_ite (keeps_ofExcept _) <|
    keeps_ite (keeps_bind (keeps_ofExcept _) fun _ => keeps_ofExcept _) <|
    keeps_ite (keeps_ofExcept _) <| keeps_ite (keeps_ofExcept _) (keeps_throw _)

/-- No command stops the loop, disconnects the adapter or replies. -/
theorem keeps_dispatch (command : PyStr) (payload : PyMap) :
    Keeps f (_dispatch env command payload) :=
  keeps_ite (keeps_bind (keeps_onHealth hf fun _ => ⟨rfl, rfl⟩) fun _ =>
      keeps_bind keeps_get fun _ => keeps_pure _) <|
    keeps_ite (keeps_registerStrategy hf env _) <| keeps_ite (keeps_unregisterStrategy hf env _) <|
    keeps_ite (keeps_bind keeps_get fun _ => keeps_pure _) <|
    keeps_bind keeps_get fun _ => keeps_ite (keeps_dispatchConnected hf env _ _) (keeps_throw _)

theorem keeps_respond (c : Command) : Keeps f (respond env c) :=
  keeps_tryCatch (keeps_bind (keeps_dispatch hf env _ _) fun _ => keeps_pure _) fun _ =>
    keeps_bind (keeps_onHealth hf fun _ => ⟨rfl, rfl⟩) fun _ => keeps_pure _

/-! ## The adapter's output -/

theorem keeps_send (frame : Except PyExc Bytes) {effect : Bytes → Effect}
    (h : ∀ b, Effect.isControl (effect b) = false) : Keeps f (send frame effect) :=
  keeps_bind keeps_get fun _ =>
    keeps_ite (keeps_bind (keeps_ofExcept _) fun b => keeps_emit hf (h b)) (keeps_pure _)

theorem keeps_publish (channel payload : PyVal) : Keeps f (_publish env channel payload) :=
  keeps_ite (keeps_send hf _ fun _ => rfl) <| keeps_ite (keeps_send hf _ fun _ => rfl) (keeps_pure _)

/-- A reply is a control, so that `f` has to leave it alone as well. -/
theorem keeps_handleCommands
    (hreply : ∀ (s : GatewayRuntime) identity frame, f { s with trace := s.trace ++ [.reply identity frame] } = f s)
    (received : Option Message) : Keeps f (_handleCommands env received) := by
  have hsend : ∀ identity frame, Keeps f (send frame (.reply identity)) := fun identity _ =>
    keeps_bind keeps_get fun _ => keeps_ite
      (keeps_bind (keeps_ofExcept _) fun b => keeps_modify fun s => hreply s identity b) (keeps_pure _)
  refine keeps_bind keeps_get fun s => ?_
  cases received with
  | none => exact keeps_pure _
  | some message =>
    exact keeps_ite (keeps_pure _) <| keeps_bind (keeps_ofExcept _) fun c =>
      keeps_bind (keeps_respond hf env c) fun _ =>
      keeps_bind (hsend _ _) fun _ => keeps_publish hf env _ _

theorem keeps_refreshRuntimeHeartbeat (force : Bool) : Keeps f (_refreshRuntimeHeartbeat env force) := by
  refine keeps_bind keeps_get fun s => keeps_ite (keeps_pure _) (keeps_ite (keeps_pure _) (keeps_modify fun s => ?_))
  have htime := hf.heartbeat { s with health := recordHeartbeat s.health env.now } env.monotonic
  exact htime.trans (hf.health s (recordHeartbeat · env.now) fun _ => ⟨rfl, rfl⟩)

end

variable (env : Env)

theorem keeps_recordTradeEvent (payload : PyVal) : Keeps controls (_recordTradeEvent env payload) := by
  unfold _recordTradeEvent
  split
  · exact keeps_ite (keeps_modify fun _ => rfl) (keeps_pure _)
  · exact keeps_pure _

theorem keeps_flushItem (channel payload : PyVal) : Keeps controls (flushItem env channel payload) :=
  keeps_ite
    (keeps_bind (keeps_onHealth untouched_controls fun _ => ⟨rfl, rfl⟩) fun _ => keeps_bind (keeps_ofExcept _) fun _ =>
      keeps_publish untouched_controls env _ _) <|
    keeps_ite
      (keeps_bind (keeps_transition fun _ => rfl) fun _ =>
        keeps_bind (keeps_recordTradeEvent env _) fun _ => keeps_publish untouched_controls env _ _)
      (keeps_publish untouched_controls env _ _)

theorem keeps_flushAdapterOutput (output : List (Except PyExc PyVal)) :
    Keeps controls (_flushAdapterOutput env output) := by
  induction output with
  | nil => exact keeps_pure _
  | cons polled output ih =>
    refine keeps_bind (keeps_ofExcept _) fun item => ?_
    split
    · exact keeps_pure _
    · exact keeps_bind (keeps_ofExcept _) fun _ =>
        keeps_bind (keeps_flushItem env _ _) fun _ => ih

end RuntimeFrame
