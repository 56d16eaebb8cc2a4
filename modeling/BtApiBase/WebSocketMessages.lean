import BtApiBase.PyJson

/-!
# Messages of a websocket connection

What a connection asks an exchange for and how it reads the channel off a data
message are two functions that branch on the name of the exchange. A message is
any JSON value, and an operation that its type does not have raises.
-/

namespace WebSocketMessages

open PyText PyValue

/-- `Subscription`; the callback may raise. -/
structure Subscription where
  id : PyStr
  topic : PyStr
  symbol : PyStr
  params : PyMap
  callback : Option (PyVal → Except PyExc Unit)

def isBinance (exchange : PyStr) : Bool := (u "BINANCE").isPrefixOf exchange
def isOkx (exchange : PyStr) : Bool := (u "OKX").isPrefixOf exchange

def atSign : PyChar := .scalar '@'

section

variable (py : Interp)

/-- `f"{subscription.symbol.lower()}@{subscription.topic}"` -/
def streamName (s : Subscription) : PyStr := py.lower s.symbol ++ atSign :: s.topic

/-- The message of `_send_subscription`. -/
def _sendSubscription (exchange : PyStr) (s : Subscription) : PyMap :=
  if isBinance exchange then
    [(.str "method", .str "SUBSCRIBE"),
      (.str "params", .list [.str (streamName py s)]),
      (.str "id", .str s.id)]
  else if isOkx exchange then
    [(.str "op", .str "subscribe"),
      (.str "args", .list [.dict [(.str "channel", .str s.topic), (.str "instId", .str s.symbol)]])]
  else
    [(.str "action", .str "subscribe"),
      (.str "topic", .str s.topic),
      (.str "symbol", .str s.symbol),
      (.str "params", .dict s.params)]

/-- The message of `_send_unsubscription`, which leaves the parameters out. -/
def _sendUnsubscription (exchange : PyStr) (s : Subscription) : PyMap :=
  if isBinance exchange then
    [(.str "method", .str "UNSUBSCRIBE"),
      (.str "params", .list [.str (streamName py s)]),
      (.str "id", .str s.id)]
  else if isOkx exchange then
    [(.str "op", .str "unsubscribe"),
      (.str "args", .list [.dict [(.str "channel", .str s.topic), (.str "instId", .str s.symbol)]])]
  else
    [(.str "action", .str "unsubscribe"),
      (.str "topic", .str s.topic),
      (.str "symbol", .str s.symbol)]

/-! ## Operations on a message -/

/-- `k in v` -/
def has (v : PyVal) (k : PyStr) : Except PyExc Bool :=
  match v with
  | .dict d => .ok (PyMap.contains d k)
  | .list xs | .tuple xs | .set xs => .ok (xs.any (isStr k))
  | .str s => .ok (decide (k <:+: s))
  | .bytes _ => .error (typeError "a bytes-like object is required, not 'str'")
  | _ => .error (typeError "argument is not iterable")

/-- `v[k]` -/
def item (v : PyVal) (k : PyStr) : Except PyExc PyVal :=
  match v with
  | .dict d => match PyDict.find (isStr k) d with
    | some x => .ok x
    | none => .error ⟨.other "KeyError", k⟩
  | .list _ | .tuple _ | .str _ | .bytes _ => .error (typeError "indices must be integers")
  | _ => .error (typeError "object is not subscriptable")

/-- The dictionary behind `v.get` and `v.keys`. -/
def asDict (v : PyVal) (method : String) : Except PyExc PyMap :=
  match v with
  | .dict d => .ok d
  | _ => .error ⟨.attributeError, "object has no attribute " ++ u method⟩

/-- `v.split("@")` -/
def splitAtSign (v : PyVal) : Except PyExc (List PyStr) :=
  match v with
  | .str s => .ok (s.splitOn atSign)
  | .bytes _ => .error (typeError "a bytes-like object is required, not 'str'")
  | _ => .error ⟨.attributeError, "object has no attribute 'split'"⟩

/-- The topic and the symbol in the parts of the name of a stream. -/
def streamChannel : List PyStr → PyVal × PyVal
  | [symbol, topic] => (.str topic, .str (py.upper symbol))
  | _ => (.none, .none)

/-- `_extract_topic_symbol`; no name of an exchange starts in both ways. -/
def _extractTopicSymbol (exchange : PyStr) (message : PyVal) : Except PyExc (PyVal × PyVal) := do
  if isBinance exchange then
    if ← has message "stream" then
      let parts ← splitAtSign (← item message "stream")
      return streamChannel py parts
    else return (.none, .none)
  else if isOkx exchange then
    if ← has message "arg" then
      if ← has message "data" then
        let arg ← item message "arg"
        let channel ← asDict arg "get"
        return (channel.get "channel", channel.get "instId")
      else return (.none, .none)
    else return (.none, .none)
  else return (.none, .none)

/-- The callbacks that a message of this topic and symbol is passed to, in
order, with what they do; what they raise is logged. -/
def dispatch (subscriptions : List Subscription) (topic symbol message : PyVal) :
    List (Subscription × Except PyExc Unit) :=
  if truthy topic && truthy symbol then
    subscriptions.filterMap fun s =>
      if isStr s.topic topic && isStr s.symbol symbol then
        s.callback.map fun callback => (s, callback message)
      else none
  else []

def _handleDataMessage (exchange : PyStr) (subscriptions : List Subscription) (message : PyVal) :
    Except PyExc (List (Subscription × Except PyExc Unit)) := do
  let (topic, symbol) ← _extractTopicSymbol py exchange message
  return dispatch subscriptions topic symbol message

/-- What an event message is logged as. -/
inductive Logged where
  | subscribed | unsubscribed | error | nothing
  deriving DecidableEq

def _handleEventMessage (message : PyVal) : Except PyExc Logged := do
  let event := (← asDict message "get").getOr "event" (.str "")
  if isStr "subscribe" event then return .subscribed
  else if isStr "unsubscribe" event then return .unsubscribed
  else if isStr "error" event then return .error
  else return .nothing

/-- `"result" in message or "data" in message` -/
def isData (message : PyVal) : Except PyExc Bool := do
  if ← has message "result" then return true
  has message "data"

/-- A message of an unknown type is logged with its keys. -/
def _handleMessage (exchange : PyStr) (subscriptions : List Subscription) (message : PyVal) :
    Except PyExc (List (Subscription × Except PyExc Unit)) := do
  if ← isData message then
    _handleDataMessage py exchange subscriptions message
  else if ← has message "event" then
    let _ ← _handleEventMessage message
    return []
  else
    let _ ← asDict message "keys"
    return []

end

@[simp] theorem has_dict (d : PyMap) (k : PyStr) : has (.dict d) k = .ok (d.contains k) := rfl

@[simp] theorem isData_dict (d : PyMap) :
    isData (.dict d) = .ok (d.contains "result" || d.contains "data") := by
  unfold isData
  rw [has_dict, has_dict]
  cases d.contains "result" <;> rfl

/-- A value that is read from a dictionary is there. -/
theorem contains_of_get {d : PyMap} {k : PyStr} {v : PyVal} (h : d.get k = v) (hv : v ≠ .none) :
    d.contains k = true ∧ item (.dict d) k = .ok v := by
  unfold PyMap.get at h
  unfold PyMap.contains item
  cases hf : PyDict.find (isStr k) d with
  | none =>
    rw [hf] at h
    exact absurd h.symm hv
  | some x =>
    rw [hf] at h
    obtain rfl : x = v := h
    refine ⟨rfl, ?_⟩
    simp only [hf]

/-- A key that is there can be read. -/
theorem item_of_contains {d : PyMap} {k : PyStr} (h : d.contains k = true) :
    item (.dict d) k = .ok (d.get k) := by
  unfold PyMap.contains at h
  unfold item PyMap.get
  cases hf : PyDict.find (isStr k) d with
  | none =>
    rw [hf] at h
    cases h
  | some x => simp only [hf, Option.getD_some]

end WebSocketMessages
