import BtApiBase.RuntimeRemote

/-!
# The forwarding runtime

The command handler of the standalone runtime turns what an adapter does with a
write into an acknowledgement: accepted, rejected or unknown. A command is an
object known by its attributes, and `CommandAck` stores its arguments.
-/

namespace ForwardingRuntime

open PyText PyDict PyValue Effects RuntimeRemote

abbrev Attributes := List (PyStr × PyVal)

/-- `getattr(command, name, default)` -/
def attr (command : Attributes) (name : PyStr) (default : PyVal) : PyVal :=
  (find (· == name) command).getD default

structure CommandAck where
  commandId : PyStr
  idempotencyKey : PyStr
  accepted : PyVal
  status : PyVal
  accountId : PyStr
  strategyId : PyStr
  orderId : Option PyStr
  reason : PyStr
  payload : PyMap

structure GatewayConfig where
  accountId : PyStr
  exchangeType : PyStr
  assetType : PyStr

/-- `writeDispatched` is the local of `_handle_command` that its `except`
clause reads, and `writes` the payloads that reached the adapter. -/
structure Forwarding where
  config : GatewayConfig
  adapter : Option Adapter
  _orderCount : Nat
  _lastOrderTime : Rat
  _subscriptions : List PyStr
  _recentErrors : List (PyStr × PyStr × Rat)
  writeDispatched : Bool
  writes : List PyMap

abbrev Handler := Eff PyExc Forwarding

section

variable (py : Interp) (now : Rat)

/-- `str(getattr(command, name, default) or orDefault)` -/
def attrText (command : Attributes) (name : PyStr) (default : PyVal) (orDefault : PyStr) : PyStr :=
  py.str (orElse (attr command name default) (.str orDefault))

def _ack (config : GatewayConfig) (command : Attributes) (accepted status : PyVal)
    (orderId : PyStr) (payload : PyVal) (reason : PyStr) : Except PyExc CommandAck := do
  let payload ← py.dict (orElse payload (.dict []))
  .ok {
    commandId := attrText py command "command_id" (.str "") "unknown"
    idempotencyKey := attrText py command "idempotency_key" (.str "") "unknown"
    accepted := accepted
    status := status
    accountId := attrText py command "account_id" (.str config.accountId) ""
    strategyId := attrText py command "strategy_id" (.str "") ""
    orderId := OrderMap.given (some orderId)
    reason := reason
    payload := payload }

/-- The status that a result claims. -/
def resultStatus (result : PyMap) (defaultStatus : PyStr) : PyStr :=
  py.lower (py.str (orElse (PyMap.get result "status") (.str defaultStatus)))

/-- `result.get("accepted") is False` -/
def isFalse : PyVal → Bool
  | .bool false => true
  | _ => false

def _writeResult (result : PyVal) (defaultStatus : PyStr) : Except PyExc PyMap := do
  let result ← py.dict result
  let status := resultStatus py result defaultStatus
  if truthy (PyMap.get result "execution_unknown") ∨ status = u "unknown" then
    .ok (PyMap.update result [("status", .str "unknown"), ("accepted", .bool false),
      ("execution_unknown", .bool true), ("definite_reject", .bool false),
      ("terminal_confirmed", .bool false)])
  else if (status = u "rejected" ∨ status = u "error") ∨ isFalse (PyMap.get result "accepted") ∨
      truthy (PyMap.get result "error") then
    .ok (PyMap.update result [("status", .str "rejected"), ("accepted", .bool false),
      ("execution_unknown", .bool false), ("definite_reject", .bool true),
      ("terminal_confirmed", .bool true)])
  else .ok (PyMap.update result [("status", .str status), ("accepted", .bool true)])

def _payloadFromOrderCommand (config : GatewayConfig) (command : Attributes) :
    Except PyExc PyMap := do
  let payload ← py.dict (orElse (attr command "extra" (.dict [])) (.dict []))
  .ok (PyMap.update payload [
    ("strategy_id", attr command "strategy_id" (.str "")),
    ("account_id", attr command "account_id" (.str config.accountId)),
    ("symbol", attr command "symbol" (.str "")),
    ("data_name", orElse (PyMap.get payload "data_name") (attr command "symbol" (.str ""))),
    ("side", attr command "side" (.str "")),
    ("size", attr command "size" (.float (.finite 0))),
    ("order_type", attr command "order_type" (.str "")),
    ("price", attr command "price" .none),
    ("time_in_force", attr command "time_in_force" (.str "")),
    ("client_order_id", attr command "client_order_id" (.str "")),
    ("idempotency_key", attr command "idempotency_key" (.str "")),
    ("order_id", attr command "order_id" .none),
    ("exchange", attr command "exchange" (.str config.exchangeType)),
    ("market_type", attr command "market_type" (.str config.assetType))])

/-- The adapter, whose methods cannot be called while there is none. -/
def theAdapter : Handler Adapter := do
  let s ← get
  match s.adapter with
  | some adapter => pure adapter
  | none => throw ⟨.attributeError, "'NoneType' object has no attribute"⟩

def acknowledge (command : Attributes) (accepted status : PyVal) (orderId : PyStr) (payload : PyVal)
    (reason : PyStr) : Handler CommandAck := do
  let s ← get
  ofExcept (_ack py s.config command accepted status orderId payload reason)

/-- A write: from the flag on, an exception no longer rejects. -/
def writeCommand (command : Attributes) (write : Adapter → PyMap → Except PyExc PyVal)
    (defaultStatus : PyStr) (counted : Bool) : Handler CommandAck := do
  let s ← get
  let payload ← ofExcept (_payloadFromOrderCommand py s.config command)
  modify fun s => { s with writeDispatched := true }
  let adapter ← theAdapter
  modify fun s => { s with writes := s.writes ++ [payload] }
  let result ← ofExcept (write adapter payload)
  let result ← ofExcept (_writeResult py result defaultStatus)
  modify fun s =>
    if counted then { s with _orderCount := s._orderCount + 1, _lastOrderTime := now } else s
  acknowledge py command (PyMap.get result "accepted") (PyMap.get result "status")
    (py.str (orElse (orElse (PyMap.get result "id") (PyMap.get result "order_id")) (.str "")))
    (.dict result) ""

def getAccount (command : Attributes) : Handler CommandAck := do
  let s ← get
  let payload ← ofExcept (match s.adapter with
    | some adapter => adapter.getBalance
    | none => .ok (.dict []))
  acknowledge py command (.bool true) (.str "ok") "" payload ""

def listPositions (command : Attributes) : Handler CommandAck := do
  let s ← get
  let positions ← ofExcept (match s.adapter with
    | some adapter => adapter.getPositions
    | none => .ok (.list []))
  acknowledge py command (.bool true) (.str "ok") "" (object [(u "positions", positions)]) ""

def listOrders (command : Attributes) : Handler CommandAck := do
  let s ← get
  let orders ← ofExcept (match s.adapter with
    | some adapter => adapter.getOpenOrders
    | none => .ok (.list []))
  acknowledge py command (.bool true) (.str "ok") "" (object [(u "orders", orders)]) ""

def subscribeCommand (command : Attributes) : Handler CommandAck := do
  let extra ← ofExcept (mapping (attr command "extra" (.dict [])))
  let symbols ← ofExcept (iter (orElse (PyMap.get extra "symbols") (.list [])))
  let symbol := attr command "symbol" (.str "")
  let symbols := if truthy symbol then symbols ++ [.str (py.str symbol)] else symbols
  let adapter ← theAdapter
  let result ← ofExcept (adapter.subscribeSymbols symbols)
  modify fun s => { s with
    _subscriptions := (s._subscriptions ++ symbols.map py.str).dedup }
  acknowledge py command (.bool true) (.str "ok") "" result ""

/-- The body of the `try` block. -/
def dispatchCommand (command : Attributes) : Handler CommandAck :=
  let commandType := py.lower (attrText py command "command_type" (.str "") "")
  if commandType = u "get_account" then getAccount py command
  else if commandType = u "list_positions" then listPositions py command
  else if commandType = u "list_orders" then listOrders py command
  else if commandType = u "place_order" then
    writeCommand py now command Adapter.placeOrder "accepted" true
  else if commandType = u "cancel_order" then
    writeCommand py now command Adapter.cancelOrder "canceled" false
  else if commandType = u "subscribe" then subscribeCommand py command
  else acknowledge py command (.bool false) (.str "rejected") "" .none
    (u "unsupported command: " ++ commandType)

def _recordError (source : PyStr) (exc : PyExc) : Handler Unit :=
  modify fun s => { s with
    _recentErrors := (s._recentErrors ++ [(source, u exc.type.name, now)]).drop
      (s._recentErrors.length + 1 - 20) }

/-- The `except` clause: an exception after the dispatch may follow exchange
acceptance. -/
def commandFailed (command : Attributes) (exc : PyExc) : Handler CommandAck := do
  _recordError now "command" exc
  let s ← get
  if s.writeDispatched then
    acknowledge py command (.bool false) (.str "unknown") ""
      (object [(u "execution_unknown", .bool true), (u "definite_reject", .bool false),
        (u "terminal_confirmed", .bool false), (u "error_code", .str (u exc.type.name))])
      (u exc.type.name)
  else acknowledge py command (.bool false) (.str "rejected") "" .none exc.text

def _handleCommand (command : Attributes) : Handler CommandAck := do
  modify fun s => { s with writeDispatched := false }
  tryCatch (dispatchCommand py now command) (commandFailed py now command)

end

end ForwardingRuntime
