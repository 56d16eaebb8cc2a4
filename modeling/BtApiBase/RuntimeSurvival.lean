import BtApiBase.RuntimeCommands

/-!
# What the loop survives

One turn of the loop handles a command, flushes the adapter's output and
refreshes the heartbeat; an exception out of any of them ends in the failure
handler. The turn survives exactly if the frame is well formed, the response
can be encoded and everything the adapter has ready can be published.
-/

namespace RuntimeSurvival

open PyText PyDict PyValue PyJson Effects Health Protocol Subscriptions OrderMap OrderMatching
  OrderRef RuntimeRemote RuntimeFrame RuntimeCommands

variable (env : Env)

/-! ## The flush -/

/-- A market payload reaches the tick writer and the socket. -/
def TickFlushable (payload : PyVal) : Prop :=
  (∀ write, env.writeTick = some write → write payload = .ok ()) ∧
    ∃ tick, marketPayload env payload = .ok tick ∧ EncodableWithin env.limits env.py tick

/-- One item can be published, when an event is enriched from this order map. -/
def ItemFlushable (m : OrderIdentityMap) (channel payload : PyVal) : Prop :=
  if isStr CHANNEL_MARKET channel then TickFlushable env payload
  else if isStr CHANNEL_EVENT channel then
    EncodableWithin env.limits env.py (_enrichEventPayload env.py m payload).1
  else True

/-- The order map after one item: only an event writes to it. -/
def afterItem (m : OrderIdentityMap) (channel payload : PyVal) : OrderIdentityMap :=
  if isStr CHANNEL_MARKET channel then m
  else if isStr CHANNEL_EVENT channel then (_enrichEventPayload env.py m payload).2
  else m

/-- Everything that the adapter has ready, up to the first `None`, can be
published one item after the other. -/
def Flushable : OrderIdentityMap → List (Except PyExc PyVal) → Prop
  | _, [] => True
  | _, .error _ :: _ => False
  | m, .ok item :: output => match item with
    | .none => True
    | item => ∃ channel payload, unpack item = .ok (channel, payload) ∧
        ItemFlushable env m channel payload ∧ Flushable (afterItem env m channel payload) output

theorem exec_recordTradeEvent (payload : PyVal) (s : GatewayRuntime) :
    ∃ s', exec (_recordTradeEvent env payload) s = (.ok (), s') ∧ s'.sockets = s.sockets ∧
      s'.orderMap = s.orderMap := by
  unfold _recordTradeEvent
  split
  · split
    · exact ⟨_, rfl, rfl, rfl⟩
    · exact ⟨s, rfl, rfl, rfl⟩
  · exact ⟨s, rfl, rfl, rfl⟩

theorem exec_enrich (payload : PyVal) (s : GatewayRuntime) :
    ∃ s', exec (enrich env payload) s = (.ok (_enrichEventPayload env.py s.orderMap payload).1, s') ∧
      s'.sockets = s.sockets ∧ s'.orderMap = (_enrichEventPayload env.py s.orderMap payload).2 :=
  ⟨_, rfl, rfl, rfl⟩

theorem exec_send_isOk {s : GatewayRuntime} (hs : s.sockets = true) (frame : Except PyExc Bytes)
    (effect : Bytes → Effect) :
    ((exec (send frame effect) s).1 = .ok () ↔ ∃ b, frame = .ok b) ∧
      (exec (send frame effect) s).2.orderMap = s.orderMap := by
  rw [exec_send hs]
  cases frame <;> simp

theorem flushItem_market {s : GatewayRuntime} (hs : s.sockets = true) {channel : PyVal}
    (h : isStr CHANNEL_MARKET channel = true) (payload : PyVal) :
    ((exec (flushItem env channel payload) s).1 = .ok () ↔ TickFlushable env payload) ∧
      (exec (flushItem env channel payload) s).2.orderMap = s.orderMap := by
  obtain ⟨s₁, ht, hs₁, hm₁⟩ : ∃ s₁, exec (onHealth (recordTick · env.now)) s = (.ok (), s₁) ∧
      s₁.sockets = s.sockets ∧ s₁.orderMap = s.orderMap := ⟨_, rfl, rfl, rfl⟩
  have hsend := exec_send_isOk (hs₁.trans hs)
    (do dumpsMessageWithin env.limits env.py (← marketPayload env payload)) Effect.market
  have hd : (∃ b, (do dumpsMessageWithin env.limits env.py (← marketPayload env payload)) = .ok b) ↔
      ∃ tick, marketPayload env payload = .ok tick ∧ EncodableWithin env.limits env.py tick := by
    simp only [← dumpsMessageWithin_isOk]
    cases marketPayload env payload <;> simp [bind, Except.bind]
  unfold flushItem _publish TickFlushable
  simp only [h, ↓reduceIte]
  rw [exec_bind_ok ht]
  cases hw : env.writeTick with
  | none =>
    rw [exec_bind_ok (exec_ofExcept _ _), hsend.1, hd, hsend.2, hm₁]
    simp
  | some write =>
    cases hp : write payload with
    | ok _ =>
      simp only [hp]
      rw [exec_bind_ok (exec_ofExcept _ _), hsend.1, hd, hsend.2, hm₁]
      simp [hp]
    | error e =>
      simp only [hp]
      rw [exec_bind_error (exec_ofExcept _ _)]
      simp [hp, hm₁]

theorem flushItem_event {s : GatewayRuntime} (hs : s.sockets = true) {channel : PyVal}
    (h : isStr CHANNEL_MARKET channel = false) (h' : isStr CHANNEL_EVENT channel = true)
    (payload : PyVal) :
    ((exec (flushItem env channel payload) s).1 = .ok () ↔
      EncodableWithin env.limits env.py (_enrichEventPayload env.py s.orderMap payload).1) ∧
      (exec (flushItem env channel payload) s).2.orderMap =
        (_enrichEventPayload env.py s.orderMap payload).2 := by
  obtain ⟨s₁, he, hs₁, hm₁⟩ := exec_enrich env payload s
  obtain ⟨s₂, ht, hs₂, hm₂⟩ := exec_recordTradeEvent env
    (_enrichEventPayload env.py s.orderMap payload).1 s₁
  unfold flushItem _publish
  simp only [h, h', Bool.false_eq_true, ↓reduceIte]
  rw [exec_bind_ok he, exec_bind_ok ht, ← dumpsMessageWithin_isOk, ← hm₁, ← hm₂]
  exact exec_send_isOk (hs₂.trans (hs₁.trans hs)) _ _

theorem exec_flushItem {s : GatewayRuntime} (hs : s.sockets = true) (channel payload : PyVal) :
    ((exec (flushItem env channel payload) s).1 = .ok () ↔
      ItemFlushable env s.orderMap channel payload) ∧
      (exec (flushItem env channel payload) s).2.orderMap =
        afterItem env s.orderMap channel payload := by
  unfold ItemFlushable afterItem
  cases h : isStr CHANNEL_MARKET channel with
  | true => exact flushItem_market env hs h payload
  | false =>
    cases h' : isStr CHANNEL_EVENT channel with
    | true => exact flushItem_event env hs h h' payload
    | false => simp [flushItem, _publish, h, h']

theorem exec_flushAdapterOutput {s : GatewayRuntime} (hs : s.sockets = true)
    (output : List (Except PyExc PyVal)) :
    (exec (_flushAdapterOutput env output) s).1 = .ok () ↔ Flushable env s.orderMap output := by
  induction output generalizing s with
  | nil => exact ⟨fun _ => trivial, fun _ => rfl⟩
  | cons polled output ih =>
    unfold _flushAdapterOutput
    cases polled with
    | error e =>
      rw [exec_bind_error (exec_ofExcept _ _)]
      simp [Flushable]
    | ok item =>
      rw [exec_bind_ok (exec_ofExcept _ _)]
      -- the flush ends at the first `None`
      split
      · simp [Flushable]
      · next hn =>
        have hf : Flushable env s.orderMap (.ok item :: output) ↔ ∃ channel payload,
            unpack item = .ok (channel, payload) ∧ ItemFlushable env s.orderMap channel payload ∧
              Flushable env (afterItem env s.orderMap channel payload) output := by
          cases item with
          | none => exact absurd rfl hn
          | _ => rfl
        rw [hf]
        cases hu : unpack item with
        | error e =>
          rw [exec_bind_error (exec_ofExcept _ _)]
          simp
        | ok p =>
          obtain ⟨channel, payload⟩ := p
          have hi := exec_flushItem env hs channel payload
          have hk := keeps_flushItem env channel payload s
          rw [exec_bind_ok (exec_ofExcept _ _), exec_bind]
          rcases hx : exec (flushItem env channel payload) s with ⟨⟨⟩ | e, s'⟩ <;> rw [hx] at hi hk
          · simp [← hi.1]
          · simp only [Except.ok.injEq, Prod.mk.injEq, true_iff] at hi ⊢
            rw [ih ((congrArg Control.sockets hk).trans hs), hi.2]
            constructor
            · intro h
              exact ⟨channel, payload, ⟨rfl, rfl⟩, hi.1, h⟩
            · rintro ⟨_, _, ⟨rfl, rfl⟩, -, h⟩
              exact h

/-! ## One turn -/

/-- The loop runs: `start` is between two calls of `_handle_commands`. -/
structure Looping (s : GatewayRuntime) : Prop where
  running : s.running = true
  sockets : s.sockets = true
  state : s.health._state = .running

def disconnects (s : GatewayRuntime) : Nat := s.trace.countP fun
  | .disconnect => true
  | _ => false

/-- After the turn the runtime still runs and the adapter was not disconnected. -/
def Survives (received : Option Message) (s : GatewayRuntime) : Prop :=
  (exec (loopOnce env received) s).2.running = true ∧
    (exec (loopOnce env received) s).2.health._state = .running ∧
    disconnects (exec (loopOnce env received) s).2 = disconnects s

theorem disconnects_eq_of_controls {s s' : GatewayRuntime} (h : controls s' = controls s) :
    disconnects s' = disconnects s := by
  have hf : ∀ s : GatewayRuntime, disconnects s = (controls s).trace.countP fun
      | .disconnect => true
      | _ => false := by
    intro s
    simp only [disconnects, controls, List.countP_filter]
    refine List.countP_congr fun effect _ => ?_
    cases effect <;> simp [Effect.isControl]
  rw [hf, hf, h]

/-- The adapter's output is flushed while it is connected. -/
def OutputFlushable (m : OrderIdentityMap) (s : GatewayRuntime) : Prop :=
  s._adapterConnected = true → Flushable env m env.adapter.output

/-- What a turn leaves alone unless it fails. -/
def steady (s : GatewayRuntime) :
    Bool × Bool × Bool × GatewayState × ConnectionState × Nat :=
  (s.running, s._adapterConnected, s.sockets, s.health._state, s.health._marketConn, disconnects s)

theorem steady_of_controls (s s' : GatewayRuntime) (h : controls s' = controls s) :
    steady s' = steady s := by
  have hd := disconnects_eq_of_controls h
  simp only [controls, Control.mk.injEq] at h
  obtain ⟨hr, hc, hs, hst, hm, -⟩ := h
  simp only [steady, hr, hc, hs, hst, hm, hd]

theorem untouched_steady : Untouched steady := untouched_controls.of_eq steady_of_controls

theorem steady_reply (s : GatewayRuntime) (identity frame : Bytes) :
    steady { s with trace := s.trace ++ [.reply identity frame] } = steady s := by
  simp [steady, disconnects]

theorem keeps_loopBody (received : Option Message) : Keeps steady (loopBody env received) :=
  keeps_bind (keeps_handleCommands untouched_steady env steady_reply received) fun _ =>
    keeps_bind (keeps_bind keeps_get fun _ =>
      keeps_ite ((keeps_flushAdapterOutput env _).of_eq steady_of_controls) (keeps_pure _)) fun _ =>
    keeps_refreshRuntimeHeartbeat untouched_steady env _

theorem running_loopFailed {s : GatewayRuntime} (hr : s.running = true) (exc : PyExc) :
    (exec (loopFailed env exc) s).2.running = false := by
  unfold loopFailed _handleRuntimeFailure
  rw [exec_get_bind, if_pos hr]
  simp only [exec_bind, exec_modify, emit, onHealth]
  cases env.adapter.disconnect <;> rfl

/-- The failure handler is the only way a turn ends the loop. -/
theorem survives_iff_returns {s : GatewayRuntime} (hl : Looping s) (received : Option Message) :
    Survives env received s ↔ (exec (loopBody env received) s).1 = .ok () := by
  have hk := keeps_loopBody env received s
  unfold Survives loopOnce
  rw [exec_tryCatch, exec_bind]
  rcases h : exec (loopBody env received) s with ⟨e | ⟨⟩, s'⟩ <;> rw [h] at hk <;>
    simp only [steady, Prod.mk.injEq] at hk <;> obtain ⟨hr, -, -, hst, -, hd⟩ := hk
  · have hf := running_loopFailed env (hr.trans hl.running) e
    constructor
    · rintro ⟨h, -⟩
      rw [hf] at h
      cases h
    · rintro ⟨⟩
  · exact ⟨fun _ => rfl, fun _ => ⟨hr.trans hl.running, hst.trans hl.state, hd⟩⟩

theorem orderMap_publish {s : GatewayRuntime} (hs : s.sockets = true) (channel payload : PyVal) :
    (exec (_publish env channel payload) s).2.orderMap = s.orderMap := by
  unfold _publish
  split
  · exact (exec_send_isOk hs _ _).2
  · split
    · exact (exec_send_isOk hs _ _).2
    · rfl

theorem exec_refreshRuntimeHeartbeat (s : GatewayRuntime) (force : Bool) :
    (exec (_refreshRuntimeHeartbeat env force) s).1 = .ok () := by
  unfold _refreshRuntimeHeartbeat
  rw [exec_get_bind]
  split
  · rfl
  · split <;> rfl

theorem orderMap_handleCommands {s : GatewayRuntime} (hs : s.sockets = true) {message : Message}
    {c : Command} (hc : decodeCommand env message.last = .ok c) :
    (exec (_handleCommands env (some message)) s).2.orderMap =
      (exec (_dispatch env c.command c.data) s).2.orderMap := by
  have hk := keeps_respond untouched_controls env c s
  rw [exec_handleCommands env hs hc, ← (exec_respond env c s).2]
  split
  · rfl
  · rw [orderMap_publish]
    exact (congrArg Control.sockets hk).trans hs

theorem returns_loopBody {s : GatewayRuntime} (hs : s.sockets = true) {message : Message}
    {c : Command} (hc : decodeCommand env message.last = .ok c) :
    (exec (loopBody env (some message)) s).1 = .ok () ↔
      Answerable env c (outcome env c s) ∧
        OutputFlushable env (exec (_dispatch env c.command c.data) s).2.orderMap s := by
  have hk := keeps_handleCommands untouched_steady env steady_reply (some message) s
  have ho := orderMap_handleCommands env hs hc
  rw [← returns_handleCommands env hs hc, ← ho]
  unfold loopBody flushConnected OutputFlushable
  rw [exec_bind]
  rcases h : exec (_handleCommands env (some message)) s with ⟨e | ⟨⟩, s'⟩ <;> rw [h] at hk <;>
    simp only [steady, Prod.mk.injEq] at hk <;> obtain ⟨-, hconn, hsock, -, -⟩ := hk
  · simp
  · simp only [true_and]
    rw [← hconn, ← exec_flushAdapterOutput env (hsock.trans hs), exec_bind, exec_get_bind]
    cases s'._adapterConnected with
    | false => simp [exec_refreshRuntimeHeartbeat]
    | true =>
      simp only [↓reduceIte, forall_const]
      rcases exec (_flushAdapterOutput env env.adapter.output) s' with ⟨e | ⟨⟩, s''⟩
      · simp
      · simp [exec_refreshRuntimeHeartbeat]

/-- A turn that handles a frame leaves the runtime running if and only if the
frame is well formed, the response to its command can be encoded and what the
adapter has ready afterwards can be published. -/
theorem survives_iff (s : GatewayRuntime) (hl : Looping s) (message : Message) :
    Survives env (some message) s ↔
      WellFormed env message.last ∧ ∀ c, decodeCommand env message.last = .ok c →
        Answerable env c (outcome env c s) ∧
          OutputFlushable env (exec (_dispatch env c.command c.data) s).2.orderMap s := by
  rw [survives_iff_returns env hl, ← decodeCommand_isOk]
  cases hc : decodeCommand env message.last with
  | ok c => simp [returns_loopBody env hl.sockets hc]
  | error e =>
    have he : (exec (loopBody env (some message)) s).1 = .error e := by
      unfold loopBody _handleCommands
      have hd : exec (ofExcept (decodeCommand env message.last) : Runtime Command) s =
          (.error e, s) := by rw [exec_ofExcept, hc]
      simp [exec_bind, hl.sockets, hc]
    simp [he]

theorem survives_iff_sample :
    ∃ env s message, Looping s ∧ message.last = frameOf "\x7b\"command\": \"ping\"\x7d" ∧
      Survives env (some message) s := by
  let env := Env.ascii .silent
  let message : Message := ⟨[7], [frameOf "\x7b\"command\": \"ping\"\x7d"]⟩
  have hl : Looping (up none) := ⟨rfl, rfl, rfl⟩
  have h : frameHas env message.last (fun c => Answerable env c (outcome env c (up none))) = true := by
    decide +kernel
  obtain ⟨c, hc, ha⟩ := exists_of_frameHas env h
  refine ⟨env, up none, message, hl, rfl, (survives_iff env (up none) hl message).mpr ⟨?_, ?_⟩⟩
  · exact (decodeCommand_isOk env _).mp ⟨c, hc⟩
  · intro c' hc'
    rw [hc] at hc'
    cases hc'
    exact ⟨of_decide_eq_true ha, fun _ => trivial⟩

/-- One byte that is not UTF-8 ends the loop and disconnects the adapter. -/
theorem malformed_frame_stops :
    ∃ env s message, Looping s ∧ message.last = [0xff] ∧
      (exec (loopOnce env (some message)) s).2.health._state = .error ∧
      disconnects (exec (loopOnce env (some message)) s).2 = 1 ∧
      ¬ Survives env (some message) s := by
  refine ⟨.ascii .silent, up none, ⟨[7], [[0xff]]⟩, ⟨rfl, rfl, rfl⟩, rfl, by decide +kernel,
    by decide +kernel, ?_⟩
  rintro ⟨h, -⟩
  revert h
  decide +kernel

end RuntimeSurvival
