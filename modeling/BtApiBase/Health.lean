import BtApiBase.PyValue

/-!
# The health aggregator

Times are exact numbers, read off the clock by the caller.
-/

namespace Health

open PyText PyDict PyValue

inductive GatewayState where
  | starting | running | stopping | stopped | error
  deriving DecidableEq, Repr

def GatewayState.value : GatewayState → PyStr
  | .starting => "starting"
  | .running => "running"
  | .stopping => "stopping"
  | .stopped => "stopped"
  | .error => "error"

inductive ConnectionState where
  | disconnected | connecting | connected | reconnecting | error
  deriving DecidableEq, Repr

def ConnectionState.value : ConnectionState → PyStr
  | .disconnected => "disconnected"
  | .connecting => "connecting"
  | .connected => "connected"
  | .reconnecting => "reconnecting"
  | .error => "error"

structure ErrorRecord where
  timestamp : Rat
  source : PyStr
  message : PyStr

def MAX_ERRORS : Nat := 50

/-- Only the latest errors are kept. -/
structure GatewayHealth where
  _state : GatewayState
  _marketConn : ConnectionState
  _tradeConn : ConnectionState
  _lastHeartbeat : Rat
  _lastTickTime : Rat
  _lastOrderTime : Rat
  _startTime : Rat
  _strategyCount : Nat
  _symbolCount : Nat
  _tickCount : Nat
  _orderCount : Nat
  _errors : List ErrorRecord
  _extra : List (PyStr × PyVal)
  bounded : _errors.length ≤ MAX_ERRORS

def initial : GatewayHealth where
  _state := .stopped
  _marketConn := .disconnected
  _tradeConn := .disconnected
  _lastHeartbeat := 0
  _lastTickTime := 0
  _lastOrderTime := 0
  _startTime := 0
  _strategyCount := 0
  _symbolCount := 0
  _tickCount := 0
  _orderCount := 0
  _errors := []
  _extra := []
  bounded := Nat.zero_le _

section

variable (h : GatewayHealth) (now : Rat)

def setState (state : GatewayState) : GatewayHealth :=
  { h with
    _state := state
    _startTime := if state = .running then now else h._startTime }

def updateMarketConnection (state : ConnectionState) : GatewayHealth :=
  { h with _marketConn := state }

def updateTradeConnection (state : ConnectionState) : GatewayHealth :=
  { h with _tradeConn := state }

def recordHeartbeat : GatewayHealth := { h with _lastHeartbeat := now }

def recordTick : GatewayHealth :=
  { h with _tickCount := h._tickCount + 1, _lastTickTime := now }

def recordOrder : GatewayHealth :=
  { h with _orderCount := h._orderCount + 1, _lastOrderTime := now }

def updateCounts (strategyCount symbolCount : Nat) : GatewayHealth :=
  { h with _strategyCount := strategyCount, _symbolCount := symbolCount }

def recordError (source message : PyStr) : GatewayHealth :=
  { h with
    _errors := (h._errors ++ [(⟨now, source, message⟩ : ErrorRecord)]).drop (h._errors.length + 1 - MAX_ERRORS)
    bounded := by simp; omega }

def isHealthy : Bool := h._state = .running && h._marketConn = .connected

/-- A time, or `None` where it is zero. -/
def timeOrNone (t : Rat) : PyVal := if t = 0 then .none else .float (.finite t)

def snapshot (py : Interp) : PyMap :=
  let error (e : ErrorRecord) : PyVal := .dict
    [(.str "timestamp", .float (.finite e.timestamp)), (.str "source", .str e.source),
      (.str "message", .str e.message)]
  let uptime := if 0 < h._startTime then now - h._startTime else 0
  let fields : List (PyStr × PyVal) := [
    ("state", .str h._state.value), ("is_healthy", .bool (isHealthy h)),
    ("market_connection", .str h._marketConn.value),
    ("trade_connection", .str h._tradeConn.value), ("uptime_sec", .float (py.round2 uptime)),
    ("last_heartbeat", timeOrNone h._lastHeartbeat),
    ("heartbeat_age_sec",
      if 0 < h._lastHeartbeat then .float (py.round2 (now - h._lastHeartbeat)) else .none),
    ("last_tick_time", timeOrNone h._lastTickTime),
    ("last_order_time", timeOrNone h._lastOrderTime),
    ("strategy_count", .int h._strategyCount), ("symbol_count", .int h._symbolCount),
    ("tick_count", .int h._tickCount), ("order_count", .int h._orderCount),
    ("recent_errors", .list (h._errors.map error))]
  PyMap.update [] (fields ++ h._extra)

end

end Health
