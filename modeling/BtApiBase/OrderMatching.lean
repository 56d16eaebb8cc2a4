import BtApiBase.OrderMap

/-!
# Matching orders with events

What the runtime reads out of a result or an event and writes into the order
map. Every text is looked for under several names, first in the row itself and
then in its `details`.
-/

namespace OrderMatching

open PyText PyDict PyValue OrderMap

section

variable (py : Interp)

/-- `value not in (None, "")` is false. -/
def isBlank : PyVal → Bool
  | .none => true
  | .str [] => true
  | _ => false

/-- The first value that is there decides, even if nothing is left of it when
it is stripped. -/
def _orderText (row : PyMap) : List PyStr → Option PyStr
  | [] => none
  | key :: keys =>
    let value := PyMap.get row key
    if isBlank value then _orderText row keys else some (strip (py.str value))

def _nestedOrderText (row : PyMap) (keys : List PyStr) : Option PyStr :=
  match given (_orderText py row keys) with
  | some direct => some direct
  | none => match PyMap.get row "details" with
    | .dict details => _orderText py details keys
    | _ => none

/-- The names that `place_order` looks under. -/
def PLACE_KEYS : List PyStr := ["client_order_id", "order_ref", "bt_order_ref"]

/-- The names in the result of a placed order. -/
def RESULT_KEYS : List PyStr :=
  ["client_order_id", "order_ref", "bt_order_ref", "clOrdId", "clientOrderId", "OrderRef"]

/-- The names in an event. -/
def EVENT_KEYS : List PyStr :=
  ["client_order_id", "order_ref", "bt_order_ref", "ctp_order_ref", "clOrdId", "clientOrderId",
    "OrderRef"]

def VENUE_KEYS : List PyStr :=
  ["venue_order_id", "external_order_id", "order_id", "ordId", "OrderSysID", "orderSysId",
    "ticket", "id"]

/-- The rows of a result: itself if it is a dictionary, those in it if it is a list. -/
def resultRows : PyVal → List PyMap
  | .dict row => [row]
  | .list rows => rows.filterMap fun
    | .dict row => some row
    | _ => none
  | _ => []

def firstText (rows : List PyMap) (keys : List PyStr) : Option PyStr :=
  rows.findSome? fun row => given (_nestedOrderText py row keys)

def _recordOrderResultIds (m : OrderIdentityMap) (requestId : PyStr) (payload : PyMap)
    (result : PyVal) : OrderIdentityMap :=
  let rows := resultRows result ++ [payload]
  let m := match firstText py rows RESULT_KEYS with
    | some clientOrderId => (setClientOrderId m requestId clientOrderId).2
    | none => m
  match firstText py rows VENUE_KEYS with
  | some venueOrderId => (setVenueOrderId m requestId venueOrderId).2
  | none => m

def _orderEntryForEvent (m : OrderIdentityMap) (event : PyMap) : Option Ref :=
  let lookup (keys : List PyStr) (index : PyStr → Option Ref) : Option Ref :=
    keys.findSome? fun key => (given (_nestedOrderText py event [key])).bind index
  (lookup ["request_id", "command_request_id"] (byRequest m)).or
    ((lookup EVENT_KEYS (byClient m)).or (lookup VENUE_KEYS (byVenue m)))

/-- The client id that an event tells the matched entry, if it is a new one. -/
def newClient (e : OrderEntry) (event : PyMap) : Option PyStr :=
  (given (_nestedOrderText py event EVENT_KEYS)).filter fun c => some c ≠ e.clientOrderId

def newVenue (e : OrderEntry) (event : PyMap) : Option PyStr :=
  (given (_nestedOrderText py event VENUE_KEYS)).filter fun v => some v ≠ e.venueOrderId

/-- Setting the client id does not change the venue id that is compared next. -/
def _recordEventOrderIds (m : OrderIdentityMap) (e : OrderEntry) (event : PyMap) :
    OrderIdentityMap :=
  let m := match newClient py e event with
    | some clientOrderId => (setClientOrderId m e.requestId clientOrderId).2
    | none => m
  match newVenue py e event with
  | some venueOrderId => (setVenueOrderId m e.requestId venueOrderId).2
  | none => m

/-- The fields that an event is given from the matched entry. -/
def withEntry (e : OrderEntry) (event : PyMap) : PyMap :=
  let event := PyMap.setdefault event "strategy_id" (.str e.strategyId)
  let event := PyMap.setdefault event "request_id" (.str e.requestId)
  let event := match given e.clientOrderId with
    | some c => PyMap.setdefault event "client_order_id" (.str c)
    | none => event
  let event := match given e.venueOrderId with
    | some v => PyMap.setdefault event "venue_order_id" (.str v)
    | none => event
  if truthy e.symbol then
    PyMap.setdefault (PyMap.setdefault event "symbol" e.symbol) "data_name" e.symbol
  else event

/-- `str(event.get("status") or "").strip()`, if anything is left. -/
def newStatus (event : PyMap) : Option PyStr :=
  given (some (strip (py.str (orElse (PyMap.get event "status") (.str [])))))

def _enrichEventPayload (m : OrderIdentityMap) (payload : PyVal) : PyVal × OrderIdentityMap :=
  match payload with
  | .dict event =>
    match _orderEntryForEvent py m event with
    | none => (.dict event, m)
    | some ref => match entry m ref with
      | none => (.dict event, m)
      | some e =>
        let event := withEntry e event
        let m := _recordEventOrderIds py m e event
        let m := match newStatus py event with
          | some status => (updateStatus m e.requestId status).2
          | none => m
        (.dict event, m)
  | payload => (payload, m)

end

/-! ## What an event writes -/

/-- What an event tells the entry that it matches. -/
structure Update where
  client : Option PyStr
  venue : Option PyStr
  status : Option PyStr
  deriving DecidableEq

def Update.apply (w : Update) (e : OrderEntry) : OrderEntry :=
  { e with
    clientOrderId := w.client.or e.clientOrderId
    venueOrderId := w.venue.or e.venueOrderId
    status := w.status.getD e.status }

/-- The update that a matching event makes to the entry stored under the
request id of the matched one. -/
def update (py : Interp) (e : OrderEntry) (event : PyMap) : Update :=
  let event := withEntry e event
  ⟨newClient py e event, newVenue py e event, newStatus py event⟩

variable {py : Interp} {m : OrderIdentityMap}

theorem entry_recordEventOrderIds (e : OrderEntry) (event : PyMap) (j : Ref) :
    entry (_recordEventOrderIds py m e event) j =
      if byRequest m e.requestId = some j then
        (entry m j).map (Update.apply ⟨newClient py e event, newVenue py e event, none⟩)
      else entry m j := by
  unfold _recordEventOrderIds
  cases newClient py e event <;> cases newVenue py e event <;>
    simp only [setClientOrderId_spec, setVenueOrderId_spec] <;> split <;>
    cases entry m j <;> rfl

theorem byRequest_recordEventOrderIds (e : OrderEntry) (event : PyMap) (r : PyStr) :
    byRequest (_recordEventOrderIds py m e event) r = byRequest m r := by
  unfold _recordEventOrderIds
  cases newClient py e event <;> cases newVenue py e event <;>
    simp only [setClientOrderId_spec, setVenueOrderId_spec]

/-- An event that matches `e` updates the entry stored under the request id of
`e`, which need not be `e`. -/
theorem enrich_matched {event : PyMap} {ref : Ref} {e : OrderEntry}
    (h : _orderEntryForEvent py m event = some ref) (he : entry m ref = some e) :
    (∀ r, byRequest (_enrichEventPayload py m (.dict event)).2 r = byRequest m r) ∧
    ∀ j, entry (_enrichEventPayload py m (.dict event)).2 j =
      if byRequest m e.requestId = some j then (entry m j).map (update py e event).apply
      else entry m j := by
  simp only [_enrichEventPayload, h, he]
  cases hs : newStatus py (withEntry e event) with
  | none =>
    simp only [byRequest_recordEventOrderIds, entry_recordEventOrderIds, update, hs, implies_true,
      and_self]
  | some status =>
    simp only [updateStatus_spec, byRequest_recordEventOrderIds, entry_recordEventOrderIds, update,
      hs, implies_true, true_and]
    intro j
    split
    · cases entry m j <;> rfl
    · rfl

/-- A payload that matches no entry changes nothing. -/
theorem enrich_unmatched {payload : PyVal}
    (h : ∀ event, payload = .dict event → _orderEntryForEvent py m event = none) :
    (_enrichEventPayload py m payload).2 = m := by
  cases payload with
  | dict event => simp [_enrichEventPayload, h event rfl]
  | _ => rfl

theorem lt_of_findSome? {keys : List PyStr} {index : PyStr → Option Ref} {event : PyMap} {ref : Ref}
    (hi : ∀ id ref, index id = some ref → ref < m.entries.length)
    (h : (keys.findSome? fun key =>
      (given (_nestedOrderText py event [key])).bind index) = some ref) :
    ref < m.entries.length := by
  obtain ⟨key, -, hk⟩ := List.exists_of_findSome?_eq_some h
  obtain ⟨id, -, hid⟩ := Option.bind_eq_some_iff.mp hk
  exact hi id ref hid

theorem entry_of_orderEntryForEvent {event : PyMap} {ref : Ref}
    (h : _orderEntryForEvent py m event = some ref) : ∃ e, entry m ref = some e := by
  refine entry_of_lt ?_
  simp only [_orderEntryForEvent, Option.or_eq_some_iff] at h
  rcases h with h | ⟨-, h⟩
  · exact lt_of_findSome? (fun _ _ => lt_of_byRequest) h
  · rcases h with h | ⟨-, h⟩
    · exact lt_of_findSome? m.client_lt h
    · exact lt_of_findSome? m.venue_lt h

/-- The update changes nothing. -/
def Update.Idle (w : Update) (e : OrderEntry) : Prop :=
  w.client = none ∧ w.venue = none ∧ ∀ status, w.status = some status → e.status = status

theorem apply_eq_self {w : Update} {e : OrderEntry} (hc : ∀ c, w.client = some c → some c ≠ e.clientOrderId)
    (hv : ∀ v, w.venue = some v → some v ≠ e.venueOrderId) : w.apply e = e ↔ w.Idle e := by
  obtain ⟨client, venue, status⟩ := w
  obtain ⟨r, s, c, v, symbol, st⟩ := e
  cases client <;> cases venue <;> cases status <;>
    simp_all [Update.apply, Update.Idle, eq_comm]

end OrderMatching
