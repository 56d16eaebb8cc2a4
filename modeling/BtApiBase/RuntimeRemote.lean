import BtApiBase.Effects
import BtApiBase.Health
import BtApiBase.OrderMatching
import BtApiBase.OrderRef
import BtApiBase.Protocol
import BtApiBase.Subscriptions

/-!
# The gateway runtime

The command loop of the gateway, one method at a time. What happens outside is
given from outside: `Env` holds how the adapter, the tick writer and the clocks
answer while one command or one event is handled, and `trace` records what the
runtime did to the sockets and to the adapter. The three sockets are opened and
closed together, and sending on an open one does not fail.
-/

namespace RuntimeRemote

open PyText PyDict PyValue PyJson Effects Health Protocol Subscriptions OrderMap OrderMatching
  OrderRef

/-- The calls of one adapter. `output` is what `poll_output` gives, call by
call, before it gives `None`; `toDict` is the method of a payload that has one. -/
structure Adapter where
  subscribeSymbols : List PyVal → Except PyExc PyVal
  getBalance : Except PyExc PyVal
  getPositions : Except PyExc PyVal
  placeOrder : PyMap → Except PyExc PyVal
  cancelOrder : PyMap → Except PyExc PyVal
  getBars : PyStr → PyStr → Int → Except PyExc PyVal
  getSymbolInfo : PyStr → Except PyExc PyVal
  getOpenOrders : Except PyExc PyVal
  getTrades : Option (Option PyStr → Int → Except PyExc PyVal)
  disconnect : Except PyExc Unit
  output : List (Except PyExc PyVal)
  toDict : PyVal → Option (Except PyExc PyVal)

/-- An adapter that answers everything with `None` and has no output. -/
def Adapter.silent : Adapter where
  subscribeSymbols _ := .ok .none
  getBalance := .ok .none
  getPositions := .ok .none
  placeOrder _ := .ok .none
  cancelOrder _ := .ok .none
  getBars _ _ _ := .ok .none
  getSymbolInfo _ := .ok .none
  getOpenOrders := .ok .none
  getTrades := none
  disconnect := .ok ()
  output := []
  toDict _ := none

/-- `limits` says which messages `json` cannot read or write in this interpreter. -/
structure Env where
  py : Interp
  limits : Limits
  adapter : Adapter
  /-- The tick writer, which passes over a payload without a symbol. -/
  writeTick : Option (PyVal → Except PyExc Unit)
  now : Rat
  monotonic : Rat

/-- An environment for runs on fixed inputs. -/
def Env.ascii (adapter : Adapter) : Env where
  py := .ascii
  limits := .ample
  adapter := adapter
  writeTick := none
  now := 0
  monotonic := 0

/-- What the runtime does that others can see. -/
inductive Effect where
  | reply (identity frame : Bytes)
  | event (frame : Bytes)
  | market (frame : Bytes)
  | subscribeSymbols (symbols : List PyVal)
  | placeOrder (payload : PyMap)
  | disconnect

structure GatewayRuntime where
  running : Bool
  _adapterConnected : Bool
  sockets : Bool
  subscriptions : SubscriptionManager
  orderMap : OrderIdentityMap
  health : GatewayHealth
  orderRefAllocator : Option OrderRefAllocator
  _lastRuntimeHeartbeatMonotonic : Rat
  _recentTrades : List PyMap
  recentTradesLimit : Nat
  trace : List Effect

abbrev Runtime := Eff PyExc GatewayRuntime

/-- `GatewayRuntime.__init__` for an exchange with or without an allocator. -/
def create (allocator : Option OrderRefAllocator) : GatewayRuntime where
  running := false
  _adapterConnected := false
  sockets := false
  subscriptions := Subscriptions.empty
  orderMap := OrderMap.empty
  health := Health.initial
  orderRefAllocator := allocator
  _lastRuntimeHeartbeatMonotonic := 0
  _recentTrades := []
  recentTradesLimit := 1000
  trace := []

/-- A runtime in its loop with a connected adapter. -/
def up (allocator : Option OrderRefAllocator) : GatewayRuntime :=
  { create allocator with
    running := true
    _adapterConnected := true
    sockets := true
    health := setState Health.initial 0 .running }

/-- What the connect thread does once `adapter.connect()` has returned. -/
def connectSucceeded (s : GatewayRuntime) : GatewayRuntime :=
  { s with _adapterConnected := true, health := updateMarketConnection s.health .connected }

/-- What it does after the last attempt has failed. -/
def connectGivenUp (s : GatewayRuntime) : GatewayRuntime :=
  { s with _adapterConnected := false, health := updateMarketConnection s.health .error }

def onHealth (f : GatewayHealth → GatewayHealth) : Runtime Unit :=
  modify fun s => { s with health := f s.health }

def onOrderMap (f : OrderIdentityMap → OrderIdentityMap) : Runtime Unit :=
  modify fun s => { s with orderMap := f s.orderMap }

def emit (effect : Effect) : Runtime Unit :=
  modify fun s => { s with trace := s.trace ++ [effect] }

/-- A dictionary display with distinct string keys. -/
def object (fields : List (PyStr × PyVal)) : PyVal :=
  .dict (fields.map fun kv => (.str kv.1, kv.2))

def texts (xs : List PyStr) : List PyVal := xs.map .str

/-- `f"{type(exc).__name__}: {exc}"` -/
def excText (exc : PyExc) : PyStr := u exc.type.name ++ u ": " ++ exc.text

section

variable (env : Env)

/-- `str(payload.get(key) or default)` -/
def textOr (payload : PyMap) (key default : PyStr) : PyStr :=
  env.py.str (orElse (PyMap.get payload key) (.str default))

/-- `int(payload.get(key) or default)` -/
def intOr (payload : PyMap) (key : PyStr) (default : Int) : Except PyExc Int :=
  env.py.int (orElse (PyMap.get payload key) (.int default))

/-! ## Subscriptions -/

def _syncHealthCounts : Runtime Unit :=
  modify fun s => { s with
    health := updateCounts s.health (strategyCount s.subscriptions) (symbolCount s.subscriptions) }

def addSymbols (strategyId : PyStr) (symbols : List PyVal) : Runtime (List PyVal) :=
  transition fun s =>
    let r := add s.subscriptions strategyId symbols
    (r.1, { s with subscriptions := r.2 })

/-- `[str(symbol) for symbol in symbols if str(symbol)]` -/
def symbolTexts (symbols : List PyVal) : List PyStr :=
  (symbols.map env.py.str).filter (· ≠ [])

/-- The accepted and the skipped symbols in an adapter's answer; an answer that
is not a dictionary accepts what was requested. -/
def acceptedOf (answer : PyVal) (requested : List PyStr) :
    Except PyExc (List PyStr × List PyStr) :=
  match answer with
  | .dict d => do
    let accepted ← iter (orElse (orElse (orElse (PyMap.get d "accepted") (PyMap.get d "symbols"))
      (PyMap.get d "subscribed")) (.list []))
    let skipped ← iter (orElse (orElse (PyMap.get d "skipped") (PyMap.get d "skipped_symbols"))
      (.list []))
    .ok (symbolTexts env accepted, symbolTexts env skipped)
  | _ => .ok (requested, [])

/-- Ask the adapter for the symbols that are not active yet. -/
def requestSymbols (newlyRequested : List PyStr) : Runtime (List PyStr × List PyStr) := do
  if newlyRequested = [] then pure ([], [])
  else
    emit (.subscribeSymbols (texts newlyRequested))
    let answer ← ofExcept (env.adapter.subscribeSymbols (texts newlyRequested))
    ofExcept (acceptedOf env answer newlyRequested)

/-- `subscribed`, `accepted` and `skipped` of the dictionary that is returned. -/
structure Subscribed where
  subscribed : List PyVal
  accepted : List PyVal
  skipped : List PyVal

def _subscribeForStrategy (strategyId : PyStr) (symbols : List PyVal) : Runtime Subscribed := do
  let requested := symbolTexts env symbols
  if requested = [] then
    _syncHealthCounts
    pure ⟨[], [], []⟩
  else
    let s ← get
    let alreadyActive := requested.filter fun symbol => isActive s.subscriptions (.str symbol)
    let newlyRequested := requested.filter fun symbol => !isActive s.subscriptions (.str symbol)
    let (acceptedNew, skippedSymbols) ← requestSymbols env newlyRequested
    let _ ← addSymbols strategyId (texts alreadyActive)
    let newlySubscribed ← addSymbols strategyId (texts acceptedNew)
    _syncHealthCounts
    let total := (alreadyActive ++ acceptedNew).dedup
    let acceptedTotal ← ofExcept (sorted (texts total))
    let skippedTotal ← ofExcept
      (sorted (texts (skippedSymbols.filter fun symbol => symbol ∉ total).dedup))
    let subscribed ← ofExcept (sorted newlySubscribed)
    pure ⟨subscribed, acceptedTotal, skippedTotal⟩

def registerAnswer (strategyId : PyStr) (r : Subscribed) : PyVal :=
  object [("strategy_id", .str strategyId), ("newly_subscribed", .list r.subscribed),
    ("accepted", .list r.accepted), ("skipped", .list r.skipped)]

def registerConnected (strategyId : PyStr) (symbols : List PyVal) : Runtime PyVal := do
  pure (registerAnswer strategyId (← _subscribeForStrategy env strategyId symbols))

/-- A registration that found the adapter not connected. -/
def registerUnconnected (strategyId : PyStr) (symbols : List PyVal) : Runtime PyVal := do
  let newly ← addSymbols strategyId symbols
  _syncHealthCounts
  let newly ← ofExcept (sorted newly)
  let accepted ← ofExcept (sorted symbols)
  pure (registerAnswer strategyId ⟨newly, accepted, []⟩)

/-- `list(payload.get("symbols") or [])` -/
def symbolsOf (payload : PyMap) : Except PyExc (List PyVal) :=
  iter (orElse (PyMap.get payload "symbols") (.list []))

def registerStrategy (payload : PyMap) : Runtime PyVal := do
  let strategyId := textOr env payload "strategy_id" ""
  let symbols ← ofExcept (symbolsOf payload)
  let s ← get
  if s._adapterConnected then registerConnected env strategyId symbols
  else registerUnconnected strategyId symbols

def unregisterStrategy (payload : PyMap) : Runtime PyVal := do
  let strategyId := textOr env payload "strategy_id" ""
  let removed ← transition fun s =>
    let r := removeStrategy s.subscriptions strategyId
    (.ok r.1, { s with subscriptions := r.2 })
  _syncHealthCounts
  let removed ← ofExcept (sorted removed)
  pure (object [("strategy_id", .str strategyId), ("unsubscribed", .list removed)])

def subscribe (payload : PyMap) : Runtime PyVal := do
  let symbols ← ofExcept (symbolsOf payload)
  let strategyId := textOr env payload "strategy_id" "default"
  let r ← _subscribeForStrategy env strategyId symbols
  pure (object [("subscribed", .list r.subscribed), ("accepted", .list r.accepted),
    ("skipped", .list r.skipped)])

/-! ## Trades -/

def _compactSymbol (symbol : PyStr) : PyStr := (env.py.upper symbol).filter env.py.isalnum

def TRADE_SYMBOL_KEYS : List PyStr :=
  ["symbol", "data_name", "instrument", "instrument_id", "InstrumentID", "instId",
    "position_symbol_name", "symbol_name"]

def _tradeSymbolMatches (row : PyMap) (symbol : PyStr) : Bool :=
  let expected := _compactSymbol env symbol
  expected = [] || TRADE_SYMBOL_KEYS.any fun key =>
    let value := _compactSymbol env (textOr env row key "")
    value ≠ [] && value = expected

/-- The last `limit` of the rows that are dictionaries and match the symbol. -/
def _filterTradeRows (rows : PyVal) (symbol : Option PyStr) (limit : Nat) : List PyMap :=
  let matching (rows : List PyVal) : List PyMap := rows.filterMap fun
    | .dict row => match given symbol with
      | some symbol => if _tradeSymbolMatches env row symbol then some row else none
      | none => some row
    | _ => none
  match rows with
  | .list rows | .tuple rows => let out := matching rows; out.drop (out.length - limit)
  | _ => []

/-- A failing getter counts as one without rows. -/
def adapterTrades (symbol : Option PyStr) (limit : Int) : Runtime PyVal :=
  match env.adapter.getTrades with
  | none => pure .none
  | some getter => tryCatch (ofExcept (getter symbol limit)) fun exc => do
    onHealth (recordError · env.now "get_trades" (excText exc))
    pure (.list [])

def getTrades (symbol : Option PyStr) (limit : Int) : Runtime PyVal := do
  let limit := max (if limit = 0 then 100 else limit) 1
  let rows ← adapterTrades env symbol limit
  let s ← get
  let rows := if truthy rows then rows else .list (s._recentTrades.map .dict)
  pure (.list ((_filterTradeRows env rows symbol limit.toNat).map .dict))

def getTradesCommand (payload : PyMap) : Runtime PyVal := do
  let symbol := strip (textOr env payload "symbol" "")
  let limit ← ofExcept (intOr env payload "limit" 100)
  getTrades env (given (some symbol)) limit

def _recordTradeEvent (payload : PyVal) : Runtime Unit :=
  match payload with
  | .dict event =>
    if env.py.lower (strip (textOr env event "kind" "")) = u "trade" then
      modify fun s => { s with
        _recentTrades := (s._recentTrades ++ [event]).drop
          (s._recentTrades.length + 1 - s.recentTradesLimit) }
    else pure ()
  | _ => pure ()

/-! ## Orders -/

/-- The allocator's reference for an order, if there is an allocator. -/
def allocate (requestId : PyStr) : Runtime (Option PyStr) := do
  let s ← get
  match s.orderRefAllocator with
  | none => pure none
  | some a =>
    let r := next a
    modify fun s => { s with orderRefAllocator := some r.2 }
    let clientOid ← ofExcept r.1
    onOrderMap fun m => (setClientOrderId m requestId clientOid).2
    pure (some clientOid)

/-- A client id that was found under another name is put under the first. -/
def namedPayload (payload : PyMap) (clientOrderId : Option PyStr) : PyMap :=
  match given clientOrderId with
  | some c =>
    if truthy (PyMap.get payload "client_order_id") then payload
    else PyMap.set payload "client_order_id" (.str c)
  | none => payload

/-- The allocator's reference replaces the client id. -/
def withReference (payload : PyMap) : Option PyStr → PyMap
  | some reference => PyMap.set payload "client_order_id" (.str reference)
  | none => payload

def placeOrder (payload : PyMap) : Runtime PyVal := do
  let requestId := textOr env payload "request_id" ""
  let strategyId := textOr env payload "strategy_id" "default"
  let clientOrderId := _orderText env.py payload PLACE_KEYS
  let named := namedPayload payload clientOrderId
  onOrderMap fun m =>
    (register m requestId strategyId clientOrderId none (PyMap.get named "symbol")).2
  let reference ← allocate requestId
  let sent := withReference named reference
  onHealth (recordOrder · env.now)
  emit (.placeOrder sent)
  let result ← ofExcept (env.adapter.placeOrder sent)
  onOrderMap fun m => _recordOrderResultIds env.py m requestId sent result
  pure result

/-! ## Dispatch -/

def ping : Runtime PyVal := do
  onHealth (recordHeartbeat · env.now)
  let s ← get
  pure (object [("ready", .bool s._adapterConnected)])

def getBars (payload : PyMap) : Runtime PyVal := do
  let count ← ofExcept (intOr env payload "count" 100)
  ofExcept (env.adapter.getBars (textOr env payload "symbol" "")
    (textOr env payload "timeframe" "M1") count)

/-- The commands that need a connected adapter. -/
def dispatchConnected (command : PyStr) (payload : PyMap) : Runtime PyVal :=
  if command = u "subscribe" then subscribe env payload
  else if command = u "get_balance" then ofExcept env.adapter.getBalance
  else if command = u "get_positions" then ofExcept env.adapter.getPositions
  else if command = u "get_trades" then getTradesCommand env payload
  else if command = u "place_order" then placeOrder env payload
  else if command = u "cancel_order" then ofExcept (env.adapter.cancelOrder payload)
  else if command = u "get_bars" then getBars env payload
  else if command = u "get_symbol_info" then
    ofExcept (env.adapter.getSymbolInfo (textOr env payload "symbol" ""))
  else if command = u "get_open_orders" then ofExcept env.adapter.getOpenOrders
  else throw ⟨.valueError, u "unsupported command: " ++ command⟩

def _dispatch (command : PyStr) (payload : PyMap) : Runtime PyVal :=
  if command = u "ping" then ping env
  else if command = u "register_strategy" then registerStrategy env payload
  else if command = u "unregister_strategy" then unregisterStrategy env payload
  else if command = u "health" then do
    let s ← get
    pure (.dict (snapshot s.health env.now env.py))
  else do
    let s ← get
    if s._adapterConnected then dispatchConnected env command payload
    else throw ⟨.runtimeError, u "adapter not yet connected, cannot execute: " ++ command⟩

/-! ## The loop -/

/-- A frame is sent if the sockets are open; otherwise it is not even encoded. -/
def send (frame : Except PyExc Bytes) (effect : Bytes → Effect) : Runtime Unit := do
  let s ← get
  if s.sockets then
    let frame ← ofExcept frame
    emit (effect frame)
  else pure ()

/-- `payload.to_dict()`, or the payload itself. -/
def marketPayload (payload : PyVal) : Except PyExc PyVal :=
  (env.adapter.toDict payload).getD (.ok payload)

def _publish (channel payload : PyVal) : Runtime Unit :=
  if isStr CHANNEL_MARKET channel then
    send (do dumpsMessageWithin env.limits env.py (← marketPayload env payload)) .market
  else if isStr CHANNEL_EVENT channel then send (dumpsMessageWithin env.limits env.py payload) .event
  else pure ()

def enrich (payload : PyVal) : Runtime PyVal :=
  transition fun s =>
    let r := _enrichEventPayload env.py s.orderMap payload
    (.ok r.1, { s with orderMap := r.2 })

/-- One item of the adapter's output on its way to the subscribers. -/
def flushItem (channel payload : PyVal) : Runtime Unit :=
  if isStr CHANNEL_MARKET channel then do
    onHealth (recordTick · env.now)
    ofExcept (match env.writeTick with
      | some write => write payload
      | none => .ok ())
    _publish env channel payload
  else if isStr CHANNEL_EVENT channel then do
    let payload ← enrich env payload
    _recordTradeEvent env payload
    _publish env channel payload
  else _publish env channel payload

/-- `channel, payload = item` -/
def unpack (item : PyVal) : Except PyExc (PyVal × PyVal) := do
  match ← iter item with
  | [channel, payload] => .ok (channel, payload)
  | _ => .error (valueError "wrong number of values to unpack (expected 2)")

def _flushAdapterOutput : List (Except PyExc PyVal) → Runtime Unit
  | [] => pure ()
  | polled :: output => do
    let item ← ofExcept polled
    match item with
    | .none => pure ()
    | item => do
      let (channel, payload) ← ofExcept (unpack item)
      flushItem env channel payload
      _flushAdapterOutput output

def _refreshRuntimeHeartbeat (force : Bool) : Runtime Unit := do
  let s ← get
  if !s.running && !force then pure ()
  else if !force && env.monotonic - s._lastRuntimeHeartbeatMonotonic < 1 then pure ()
  else modify fun s => { s with
    health := recordHeartbeat s.health env.now
    _lastRuntimeHeartbeatMonotonic := env.monotonic }

/-- A multipart message of the ROUTER socket, which puts the identity first. -/
structure Message where
  identity : Bytes
  frames : List Bytes

/-- `parts[-1]` -/
def Message.last (message : Message) : Bytes :=
  (message.identity :: message.frames).getLast (by simp)

/-- The value whose method `get` is called. -/
def mapping : PyVal → Except PyExc PyMap
  | .dict d => .ok d
  | _ => .error ⟨.attributeError, "object has no attribute 'get'"⟩

/-- A command as `_handle_commands` takes it out of a frame. -/
structure Command where
  requestId : PyStr
  command : PyStr
  data : PyMap

def decodeCommand (frame : Bytes) : Except PyExc Command := do
  let payload ← mapping (← loadsMessageWithin env.limits env.py frame)
  let requestId := textOr env payload "request_id" ""
  let command := env.py.lower (textOr env payload "command" "")
  let data ← env.py.dict (orElse (PyMap.get payload "payload") (.dict []))
  .ok ⟨requestId, command,
    if requestId ≠ [] then
      PyMap.setdefault (PyMap.setdefault data "request_id" (.str requestId)) "command_request_id"
        (.str requestId)
    else data⟩

def okResponse (requestId : PyStr) (result : PyVal) : List (PyStr × PyVal) :=
  [("request_id", .str requestId), ("status", .str "ok"), ("data", result)]

def errorResponse (requestId : PyStr) (exc : PyExc) : List (PyStr × PyVal) :=
  [("request_id", .str requestId), ("status", .str "error"), ("error", .str exc.text)]

/-- `{"kind": "command_result", **response, "command": command}` -/
def commandResult (command : PyStr) (response : List (PyStr × PyVal)) : List (PyStr × PyVal) :=
  (u "kind", .str "command_result") :: response ++ [(u "command", .str command)]

/-- The response to a command, whatever its dispatch does. -/
def respond (c : Command) : Runtime (List (PyStr × PyVal)) :=
  tryCatch
    (do pure (okResponse c.requestId (← _dispatch env c.command c.data)))
    fun exc => do
      onHealth (recordError · env.now "command"
        ((if c.command = [] then u "<empty>" else c.command) ++ u ": " ++ excText exc))
      pure (errorResponse c.requestId exc)

/-- One call with what the poll and `recv_multipart` give. -/
def _handleCommands (received : Option Message) : Runtime Unit := do
  let s ← get
  match received with
  | none => pure ()
  | some message =>
    if !s.sockets then pure ()
    else
      let c ← ofExcept (decodeCommand env message.last)
      let response ← respond env c
      send (dumpsMessageWithin env.limits env.py (object response)) (.reply message.identity)
      _publish env (.str CHANNEL_EVENT) (object (commandResult c.command response))

def _handleRuntimeFailure (source : PyStr) (exc : PyExc) : Runtime Unit := do
  modify fun s => { s with
    running := false
    _adapterConnected := false
    health := recordError (updateTradeConnection (updateMarketConnection
      (setState s.health env.now .error) .error) .error) env.now source (excText exc) }
  emit .disconnect
  match env.adapter.disconnect with
  | .ok () => pure ()
  | .error exc =>
    onHealth (recordError · env.now (source ++ u "_disconnect") (excText exc))

/-- The output of a connected adapter is flushed. -/
def flushConnected : Runtime Unit := do
  let s ← get
  if s._adapterConnected then _flushAdapterOutput env env.adapter.output else pure ()

def loopBody (received : Option Message) : Runtime Unit := do
  _handleCommands env received
  flushConnected env
  _refreshRuntimeHeartbeat env false

/-- Both `except` clauses of the loop. -/
def loopFailed (exc : PyExc) : Runtime Bool := do
  let s ← get
  if s.running then do
    _handleRuntimeFailure env "runtime_loop" exc
    pure false
  else pure false

/-- One turn of the loop in `start`: whether there is another. -/
def loopOnce (received : Option Message) : Runtime Bool :=
  tryCatch
    (do
      loopBody env received
      pure true)
    (loopFailed env)

end

end RuntimeRemote
